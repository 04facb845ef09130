import MemShell.Json.Reader
import MemShell.Json.Writer
set_option autoImplicit false

namespace MemShell.Json

theorem hexValue?_hexDigit : ∀ d < 16, hexValue? (hexDigit d) = some d := by decide

theorem hexUnit?_hexDigits {n : Nat} (h : n < 0x10000) :
    hexUnit? (hexDigit (n / 4096 % 16)) (hexDigit (n / 256 % 16)) (hexDigit (n / 16 % 16))
      (hexDigit (n % 16)) = some n := by
  have hsum : ((n / 4096 % 16 * 16 + n / 256 % 16) * 16 + n / 16 % 16) * 16 + n % 16 = n := by omega
  simp [hexUnit?, hexValue?_hexDigit _ (Nat.mod_lt _ (by decide : 0 < 16)), hsum]

/-- Whether what follows an escape of one unit cannot be taken wrongly for another such escape. -/
def Readable (s : List Char) : Prop :=
  ∀ a b c d rest, s = '\\' :: 'u' :: a :: b :: c :: d :: rest → (hexUnit? a b c d).isSome

theorem readable_of_head {c : Char} {s : List Char} (h : c ≠ '\\') : Readable (c :: s) := by
  intro a b c' d rest hs
  exact absurd (List.cons.inj hs).1 h

theorem readable_of_second {c : Char} {s : List Char} (h : c ≠ 'u') : Readable ('\\' :: c :: s) := by
  intro a b c' d rest hs
  exact absurd (List.cons.inj (List.cons.inj hs).2).1 h

theorem readable_escapeUnit {n : Nat} (h : n < 0x10000) (s : List Char) :
    Readable (escapeUnit n ++ s) := by
  intro a b c d rest hs
  simp only [escapeUnit, List.cons_append, List.nil_append, List.cons.injEq] at hs
  obtain ⟨-, -, rfl, rfl, rfl, rfl, -⟩ := hs
  rw [hexUnit?_hexDigits h]
  rfl

theorem toNat_valid (c : Char) : c.toNat < 0xD800 ∨ (0xDFFF < c.toNat ∧ c.toNat < 0x110000) :=
  c.valid

theorem charOfUnit_toNat {c : Char} (h : c.toNat < 0x10000) : charOfUnit c.toNat = c := by
  have hvalid := toNat_valid c
  have hhigh : isHighUnit c.toNat = false := by
    simp only [isHighUnit, Bool.and_eq_false_iff, decide_eq_false_iff_not]
    omega
  have hlow : isLowUnit c.toNat = false := by
    simp only [isLowUnit, Bool.and_eq_false_iff, decide_eq_false_iff_not]
    omega
  simp [charOfUnit, hhigh, hlow, Char.ofNat_toNat]

theorem readChars_escapeUnit {n : Nat} (h : n < 0x10000) (hhigh : isHighUnit n = false)
    {s : List Char} (hs : Readable s) :
    readChars (escapeUnit n ++ s) = consRead (charOfUnit n) (readChars s) := by
  have hn := hexUnit?_hexDigits h
  rw [escapeUnit]
  simp only [List.cons_append, List.nil_append]
  rw [readChars.eq_def]
  split
  · next heq => simp at heq
  · next heq => simp at heq
  · next a b c d e f g k rest heq =>
    simp only [List.cons.injEq] at heq
    obtain ⟨-, -, rfl, rfl, rfl, rfl, rfl⟩ := heq
    obtain ⟨low, hlow⟩ := Option.isSome_iff_exists.mp (hs e f g k rest rfl)
    simp [hn, hlow, hhigh]
  · next a b c d rest hnot heq =>
    simp only [List.cons.injEq] at heq
    obtain ⟨-, -, rfl, rfl, rfl, rfl, rfl⟩ := heq
    rw [hn]
  · next c rest _ hnot heq =>
    simp only [List.cons.injEq] at heq
    obtain ⟨-, rfl, rfl⟩ := heq
    exact absurd rfl (hnot _ _ _ _ _ rfl)
  · next c rest _ _ _ hnot heq =>
    simp only [List.cons.injEq] at heq
    obtain ⟨rfl, rfl⟩ := heq
    exact absurd rfl (hnot _ _ rfl)

theorem readChars_pair {high low : Nat} (hhigh : isHighUnit high = true)
    (hlow : isLowUnit low = true) (s : List Char) :
    readChars (escapeUnit high ++ (escapeUnit low ++ s)) =
      consRead (charOfPair high low) (readChars s) := by
  have hlt : high < 0x10000 ∧ low < 0x10000 := by
    simp only [isHighUnit, isLowUnit, Bool.and_eq_true, decide_eq_true_eq] at hhigh hlow
    omega
  simp only [escapeUnit, List.cons_append, List.nil_append, readChars]
  rw [hexUnit?_hexDigits hlt.1, hexUnit?_hexDigits hlt.2]
  simp [hhigh, hlow]

theorem readChars_short {c e : Char} (h : shortEscape? c = some e) (s : List Char) :
    readChars ('\\' :: c :: s) = consRead e (readChars s) := by
  have hne : c ≠ 'u' := by
    rintro rfl
    cases h
  rw [readChars.eq_def]
  split
  · next heq => simp at heq
  · next heq => simp at heq
  · next heq => exact absurd (List.cons.inj (List.cons.inj heq).2).1 hne
  · next heq => exact absurd (List.cons.inj (List.cons.inj heq).2).1 hne
  · next heq =>
    simp only [List.cons.injEq] at heq
    obtain ⟨-, rfl, rfl⟩ := heq
    rw [h]
  · next hnot heq =>
    simp only [List.cons.injEq] at heq
    obtain ⟨rfl, rfl⟩ := heq
    exact absurd rfl (hnot _ _ rfl)

theorem readChars_plain {c : Char} (h : 32 ≤ c.toNat) (hquote : c ≠ '"') (hslash : c ≠ '\\')
    (s : List Char) : readChars (c :: s) = consRead c (readChars s) := by
  rw [readChars.eq_def]
  split
  · next heq => simp at heq
  · next heq => exact absurd (List.cons.inj heq).1 hquote
  · next heq => exact absurd (List.cons.inj heq).1 hslash
  · next heq => exact absurd (List.cons.inj heq).1 hslash
  · next heq => exact absurd (List.cons.inj heq).1 hslash
  · next heq =>
    obtain ⟨rfl, rfl⟩ := List.cons.inj heq
    have hplain : ¬(c.toNat < 32 ∨ c = '\\') := by
      rintro (hlt | heq)
      · omega
      · exact hslash heq
    rw [if_neg hplain]

theorem charOfPair_toNat {c : Char} (h : 0x10000 ≤ c.toNat) :
    charOfPair (0xD800 + (c.toNat - 0x10000) / 1024) (0xDC00 + (c.toNat - 0x10000) % 1024) = c := by
  have hsum : 0x10000 + (0xD800 + (c.toNat - 0x10000) / 1024 - 0xD800) * 1024 +
      (0xDC00 + (c.toNat - 0x10000) % 1024 - 0xDC00) = c.toNat := by omega
  rw [charOfPair, hsum, Char.ofNat_toNat]

theorem readChars_escapeChar (c : Char) {s : List Char} (hs : Readable s) :
    readChars (escapeChar c ++ s) = consRead c (readChars s) := by
  have hvalid := toNat_valid c
  have hback {n : Nat} (h : c.toNat = n) : c = Char.ofNat n := by rw [← h, Char.ofNat_toNat]
  unfold escapeChar
  dsimp only
  split
  · next h => rw [h]; exact readChars_short rfl s
  split
  · next h => rw [h]; exact readChars_short rfl s
  split
  · next h => rw [h]; exact readChars_short rfl s
  split
  · next h => rw [h]; exact readChars_short rfl s
  split
  · next h => rw [h]; exact readChars_short rfl s
  split
  · next h => rw [hback h]; exact readChars_short rfl s
  split
  · next h => rw [hback h]; exact readChars_short rfl s
  split
  · next hquote hslash _ _ _ _ _ h => exact readChars_plain h.1 hquote hslash s
  split
  · next h =>
    have hhigh : isHighUnit c.toNat = false := by
      simp only [isHighUnit, Bool.and_eq_false_iff, decide_eq_false_iff_not]
      omega
    rw [readChars_escapeUnit h hhigh hs, charOfUnit_toNat h]
  · next h =>
    have hhigh : isHighUnit (0xD800 + (c.toNat - 0x10000) / 1024) = true := by
      simp only [isHighUnit, Bool.and_eq_true, decide_eq_true_eq]
      omega
    have hlow : isLowUnit (0xDC00 + (c.toNat - 0x10000) % 1024) = true := by
      simp only [isLowUnit, Bool.and_eq_true, decide_eq_true_eq]
      omega
    rw [List.append_assoc, readChars_pair hhigh hlow, charOfPair_toNat (by omega)]

theorem readable_escapeChar (c : Char) (s : List Char) : Readable (escapeChar c ++ s) := by
  have hvalid := toNat_valid c
  unfold escapeChar
  dsimp only
  repeat' split
  all_goals try exact readable_of_second (by decide)
  · next hslash _ _ _ _ _ _ => exact readable_of_head hslash
  · next h => exact readable_escapeUnit h s
  · next h =>
    rw [List.append_assoc]
    exact readable_escapeUnit (by omega) _

theorem readable_quoted (cs rest : List Char) :
    Readable (cs.flatMap escapeChar ++ '"' :: rest) := by
  cases cs with
  | nil => exact readable_of_head (by decide)
  | cons c cs =>
    rw [List.flatMap_cons, List.append_assoc]
    exact readable_escapeChar c _

theorem readChars_quoted (cs rest : List Char) :
    readChars (cs.flatMap escapeChar ++ '"' :: rest) = .ok (cs, rest) := by
  induction cs with
  | nil => simp [readChars]
  | cons c cs ih =>
    rw [List.flatMap_cons, List.append_assoc, readChars_escapeChar c (readable_quoted cs rest), ih]
    rfl

end MemShell.Json
