import MemShell.Number.Numeral
import MemShell.Proofs.Number.Rounding
set_option autoImplicit false

namespace MemShell.Number
open Text
variable {c d : Char} {s : List Char}

theorem exists_script (h : isDigit c = true) :
    ∃ z ∈ scriptZeros, ∃ k < 10, c = Char.ofNat (z + k) := by
  obtain ⟨z, hz, hle, hge⟩ : ∃ z, z ∈ scriptZeros ∧ z ≤ c.toNat ∧ c.toNat ≤ z + 9 := by
    simpa [isDigit, digitValue?] using h
  have hsum : z + (c.toNat - z) = c.toNat := by omega
  exact ⟨z, hz, c.toNat - z, by omega, by rw [hsum, Char.ofNat_toNat]⟩

/-- Where the digits of a script stand there are no blanks and no capital letters. -/
theorem scripts_apart : ∀ z ∈ scriptZeros, ∀ k < 10, isBlank (Char.ofNat (z + k)) = false ∧
    (Char.ofNat (z + k)).toLower = Char.ofNat (z + k) := by
  decide +kernel

theorem isBlank_of_isDigit (h : isDigit c = true) : isBlank c = false := by
  obtain ⟨z, hz, k, hk, rfl⟩ := exists_script h
  exact (scripts_apart z hz k hk).1

theorem toLower_of_isDigit (h : isDigit c = true) : c.toLower = c := by
  obtain ⟨z, hz, k, hk, rfl⟩ := exists_script h
  exact (scripts_apart z hz k hk).2

theorem ne_of_isDigit (h : isDigit c = true) (hd : isDigit d = false) : c ≠ d := by
  intro heq
  rw [heq, hd] at h
  cases h

theorem dropUnderscores_eq (h : '_' ∉ s) : dropUnderscores s = some s := by
  fun_induction dropUnderscores s with
  | case1 => rfl
  | case2 | case3 | case4 => simp at h
  | case5 c rest hpair hc ih =>
    have hrest := ih fun hmem => h (List.mem_cons_of_mem c hmem)
    rw [hrest]
    rfl

theorem dropWhile_eq_self {p : Char → Bool} (h : ∀ c ∈ s, p c = false) : s.dropWhile p = s := by
  cases s with
  | nil => rfl
  | cons c rest => exact List.dropWhile_cons_of_neg (by rw [h c List.mem_cons_self]; decide)

theorem trimNumeral_eq (h : ∀ c ∈ s, isBlank c = false) : trimNumeral s = s := by
  have hnumeral (c : Char) (hc : c ∈ s) : isNumeralBlank c = false := by
    rw [isNumeralBlank, h c hc, Bool.false_and]
  rw [trimNumeral, dropWhile_eq_self hnumeral,
    dropWhile_eq_self fun c hc => hnumeral c (List.mem_reverse.mp hc), List.reverse_reverse]

theorem readSign_of_isDigit (h : isDigit c = true) (s : List Char) :
    readSign (c :: s) = (false, c :: s) := by
  unfold readSign
  split
  · next heq => exact absurd (List.cons.inj heq).1 (ne_of_isDigit h (by decide))
  · next heq => exact absurd (List.cons.inj heq).1 (ne_of_isDigit h (by decide))
  · rfl

def decimalChars (whole fraction : List Char) : List Char :=
  whole ++ if fraction.isEmpty then [] else '.' :: fraction

theorem takeWhile_dropWhile_digits {whole : List Char} (hwhole : ∀ c ∈ whole, isDigit c = true)
    (rest : List Char) (hrest : ∀ c, rest.head? = some c → isDigit c = false) :
    (whole ++ rest).takeWhile isDigit = whole ∧ (whole ++ rest).dropWhile isDigit = rest := by
  rw [List.takeWhile_append_of_pos hwhole, List.dropWhile_append_of_pos hwhole]
  cases rest with
  | nil => exact ⟨List.append_nil whole, rfl⟩
  | cons c rest => simp [hrest c rfl]

section
variable {whole fraction : List Char} (hne : whole ≠ []) (hwhole : ∀ c ∈ whole, isDigit c = true)
  (hfraction : ∀ c ∈ fraction, isDigit c = true)
include hne hwhole hfraction

theorem readUnsignedDecimal?_decimalChars (negative : Bool) :
    readUnsignedDecimal? negative (decimalChars whole fraction) =
      some (.nearest negative (digitsValue (whole ++ fraction)) (-(fraction.length : Int))) := by
  have hempty : whole.isEmpty = false := List.isEmpty_eq_false_iff.mpr hne
  cases fraction with
  | nil =>
    obtain ⟨htake, hdrop⟩ := takeWhile_dropWhile_digits hwhole [] (by simp)
    unfold readUnsignedDecimal? decimalChars
    simp only [List.isEmpty_nil, if_true, htake, hdrop, hempty]
    simp [Binary64.ofDecimal_eq]
  | cons d ds =>
    obtain ⟨htake, hdrop⟩ := takeWhile_dropWhile_digits hwhole ('.' :: d :: ds)
      fun c hc => Option.some.inj hc ▸ (by decide)
    obtain ⟨htake', hdrop'⟩ := takeWhile_dropWhile_digits hfraction [] (by simp)
    rw [List.append_nil] at htake' hdrop'
    unfold readUnsignedDecimal? decimalChars
    simp only [List.isEmpty_cons, Bool.false_eq_true, if_false, htake, hdrop, htake', hdrop', hempty]
    simp [Binary64.ofDecimal_eq]

theorem readDecimal?_decimalChars (negative : Bool) :
    readDecimal? (String.ofList ((if negative then ['-'] else []) ++ decimalChars whole fraction)) =
      some (.nearest negative (digitsValue (whole ++ fraction)) (-(fraction.length : Int))) := by
  have hchars : ∀ c ∈ (if negative then ['-'] else []) ++ decimalChars whole fraction,
      c = '-' ∨ c = '.' ∨ isDigit c = true := by
    intro c hc
    rcases List.mem_append.mp hc with hsign | hc
    · cases negative with
      | true => exact .inl (List.mem_singleton.mp hsign)
      | false => cases hsign
    · rcases List.mem_append.mp hc with hc | hc
      · exact .inr (.inr (hwhole c hc))
      · split at hc
        · cases hc
        · rcases List.mem_cons.mp hc with hpoint | hc
          · exact .inr (.inl hpoint)
          · exact .inr (.inr (hfraction c hc))
  obtain ⟨first, more, hfirst⟩ := List.exists_cons_of_ne_nil hne
  have hdigit : isDigit first = true := hwhole first (hfirst ▸ List.mem_cons_self)
  have hhead : ∃ rest, decimalChars whole fraction = first :: rest := by
    rw [decimalChars, hfirst]
    exact ⟨_, rfl⟩
  obtain ⟨rest, hrest⟩ := hhead
  have hword (word : String) (hw : word.toList.head?.any isDigit = false) :
      String.ofList ((decimalChars whole fraction).map Char.toLower) ≠ word := by
    rintro rfl
    rw [String.toList_ofList, hrest, List.map_cons, toLower_of_isDigit hdigit] at hw
    exact Bool.eq_false_iff.mp hw hdigit
  have htrim := trimNumeral_eq fun c hc => by
    rcases hchars c hc with rfl | rfl | hdigit
    · rfl
    · rfl
    · exact isBlank_of_isDigit hdigit
  have hunderscores := dropUnderscores_eq fun hc => by
    rcases hchars '_' hc with h | h | h <;> cases h
  have hsign : readSign ((if negative then ['-'] else []) ++ decimalChars whole fraction) =
      (negative, decimalChars whole fraction) := by
    cases negative with
    | true => rfl
    | false => rw [hrest]; exact readSign_of_isDigit hdigit rest
  unfold readDecimal?
  rw [String.toList_ofList, htrim, hunderscores]
  simp only [hsign, hword "inf" (by decide), hword "infinity" (by decide), hword "nan" (by decide),
    or_self, if_false]
  exact readUnsignedDecimal?_decimalChars hne hwhole hfraction negative

end

end MemShell.Number
