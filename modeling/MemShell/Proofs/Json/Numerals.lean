import MemShell.Json.Reader
import MemShell.Json.Writer
import MemShell.Proofs.Modes
import MemShell.Proofs.Number.Rounding
set_option autoImplicit false

namespace MemShell

namespace Number

theorem digitsValue_append (s t : List Char) :
    digitsValue (s ++ t) = digitsValue s * 10 ^ t.length + digitsValue t :=
  Mode.digitsFrom_append s t

theorem digitValue?_digitChar : ∀ d < 10, digitValue? d.digitChar = some d := by decide

theorem digitsValue_toDigits (n : Nat) : digitsValue (Nat.toDigits 10 n) = n := by
  induction n using Nat.strongRecOn with
  | _ n ih =>
    rw [Nat.toDigits_eq_if (by decide)]
    split
    · next h => simp [digitsValue, digitValue?_digitChar n h]
    · next h =>
      rw [digitsValue_append, ih (n / 10) (by omega)]
      simp only [digitsValue, List.foldl_cons, List.foldl_nil, List.length_singleton,
        digitValue?_digitChar _ (Nat.mod_lt n (by decide : 0 < 10)), Option.getD_some]
      omega

theorem digitsValue_zeros (k : Nat) (s : List Char) :
    digitsValue (List.replicate k '0' ++ s) = digitsValue s := by
  have hzero : digitsValue (List.replicate k '0') = 0 := by
    induction k with
    | zero => rfl
    | succ k ih =>
      rw [List.replicate_succ', digitsValue_append, ih]
      rfl
  rw [digitsValue_append, hzero, Nat.zero_mul, Nat.zero_add]

theorem head_toDigits {n : Nat} (h : n ≠ 0) : (Nat.toDigits 10 n).head? ≠ some '0' := by
  induction n using Nat.strongRecOn with
  | _ n ih =>
    rw [Nat.toDigits_eq_if (by decide)]
    split
    · next hlt =>
      have hall : ∀ d < 10, d ≠ 0 → d.digitChar ≠ '0' := by decide
      simpa using hall n hlt h
    · next hlt =>
      have hrest := ih (n / 10) (by omega) (by omega)
      obtain ⟨c, ds, hds⟩ := List.exists_cons_of_ne_nil (Nat.toDigits_ne_nil (b := 10) (n := n / 10))
      rw [hds] at hrest ⊢
      exact hrest

end Number

namespace Json
open Number

theorem isAsciiDigit_of_isDigit {c : Char} (h : c.isDigit = true) : isAsciiDigit c = true := by
  simpa [isAsciiDigit, Char.isDigit, Char.le_def] using h

theorem isAsciiDigit_toDigits (n : Nat) : ∀ c ∈ Nat.toDigits 10 n, isAsciiDigit c = true :=
  fun _ hc => isAsciiDigit_of_isDigit (Nat.isDigit_of_mem_toDigits (by decide) (by decide) hc)

def NoDigit (s : List Char) : Prop := ∀ c, s.head? = some c → isAsciiDigit c = false

def Delimited (s : List Char) : Prop :=
  ∀ c, s.head? = some c → isAsciiDigit c = false ∧ c ≠ '.' ∧ c ≠ 'e' ∧ c ≠ 'E'

theorem Delimited.noDigit {s : List Char} (h : Delimited s) : NoDigit s := fun c hc => (h c hc).1

theorem noDigit_cons {c : Char} {s : List Char} (h : isAsciiDigit c = false) : NoDigit (c :: s) := by
  intro d hd
  rw [← Option.some.inj hd]
  exact h

theorem takeWhile_digits {ds s : List Char} (hds : ∀ c ∈ ds, isAsciiDigit c = true)
    (hs : NoDigit s) : (ds ++ s).takeWhile isAsciiDigit = ds ∧
      (ds ++ s).dropWhile isAsciiDigit = s := by
  have hstop : s.takeWhile isAsciiDigit = [] ∧ s.dropWhile isAsciiDigit = s := by
    cases s with
    | nil => exact ⟨rfl, rfl⟩
    | cons c s =>
      have hc := hs c rfl
      simp [hc]
  rw [List.takeWhile_append_of_pos hds, List.dropWhile_append_of_pos hds, hstop.1, hstop.2,
    List.append_nil]
  exact ⟨rfl, rfl⟩

theorem readFraction_of_digits {ds s : List Char} (hne : ds ≠ [])
    (hds : ∀ c ∈ ds, isAsciiDigit c = true) (hs : NoDigit s) :
    readFraction ('.' :: (ds ++ s)) = (ds, s) := by
  obtain ⟨htake, hdrop⟩ := takeWhile_digits hds hs
  unfold readFraction
  simp only [htake, hdrop]
  simp [hne]

theorem readFraction_of_head {s : List Char} (h : s.head? ≠ some '.') :
    readFraction s = ([], s) := by
  unfold readFraction
  split
  · exact absurd rfl h
  · rfl

theorem readPower_of_delimited {s : List Char} (h : Delimited s) : readPower s = (none, s) := by
  cases s with
  | nil => rfl
  | cons c s =>
    obtain ⟨-, -, hlower, hupper⟩ := h c rfl
    have hmark : ¬(c = 'e' ∨ c = 'E') := by
      rintro (hc | hc)
      · exact hlower hc
      · exact hupper hc
    simp only [readPower, if_neg hmark]

structure IsWhole (ds : List Char) : Prop where
  nonempty : ds ≠ []
  digits : ∀ c ∈ ds, isAsciiDigit c = true
  leading : ds = ['0'] ∨ ds.head? ≠ some '0'

theorem isWhole_toDigits (n : Nat) : IsWhole (Nat.toDigits 10 n) := by
  refine ⟨Nat.toDigits_ne_nil, isAsciiDigit_toDigits n, ?_⟩
  by_cases h : n = 0
  · exact .inl (by rw [h]; rfl)
  · exact .inr (head_toDigits h)

theorem wholePart_append {whole s : List Char} (hwhole : IsWhole whole) (hs : NoDigit s) :
    wholePart (whole ++ s) = whole := by
  unfold wholePart
  split
  · next hzero =>
    rcases hwhole.leading with hone | hhead
    · exact hone.symm
    · obtain ⟨c, ds, rfl⟩ := List.exists_cons_of_ne_nil hwhole.nonempty
      exact absurd (congrArg some (List.cons.inj hzero).1) hhead
  · exact (takeWhile_digits hwhole.digits hs).1

/-- A numeral is read part by part: an integer without a fraction and a power, else a number. -/
theorem readMagnitude_parts {negative : Bool} {whole fraction s t rest : List Char}
    {power : Option Int} (hwhole : IsWhole whole) (hs : NoDigit s)
    (hfraction : readFraction s = (fraction, t)) (hpower : readPower t = (power, rest)) :
    readMagnitude negative (whole ++ s) =
      if fraction.isEmpty && power.isNone then
        if maxDigits < whole.length then .error (.tooManyDigits whole.length)
        else
          .ok (.int (if negative then -(digitsValue whole : Int) else digitsValue whole), rest)
      else
        .ok (.real (Binary64.ofDecimal negative (digitsValue (whole ++ fraction))
          (power.getD 0 - fraction.length)), rest) := by
  have hnonempty : whole.isEmpty = false := by simpa using hwhole.nonempty
  unfold readMagnitude
  simp only [wholePart_append hwhole hs, hnonempty, List.drop_left, hfraction, hpower,
    Bool.false_eq_true, if_false]

theorem toList_toString (n : Nat) : (toString n).toList = Nat.toDigits 10 n := by
  rw [Nat.toString_eq_ofList_toDigits, String.toList_ofList]

theorem head_ne_point {s : List Char} (h : Delimited s) : s.head? ≠ some '.' :=
  fun hs => (h '.' hs).2.1 rfl

theorem readMagnitude_toDigits {negative : Bool} {n : Nat} {rest : List Char}
    (hn : (Nat.toDigits 10 n).length ≤ maxDigits) (hrest : Delimited rest) :
    readMagnitude negative (Nat.toDigits 10 n ++ rest) =
      .ok (.int (if negative then -(n : Int) else n), rest) := by
  rw [readMagnitude_parts (isWhole_toDigits n) hrest.noDigit
    (readFraction_of_head (head_ne_point hrest)) (readPower_of_delimited hrest),
    digitsValue_toDigits]
  simp [Nat.not_lt.mpr hn]

theorem readMagnitude_point (negative : Bool) {whole fraction rest : List Char}
    (hwhole : IsWhole whole) (hne : fraction ≠ [])
    (hfraction : ∀ c ∈ fraction, isAsciiDigit c = true) (hrest : Delimited rest) :
    readMagnitude negative (whole ++ '.' :: (fraction ++ rest)) =
      .ok (.real (Binary64.nearest negative (digitsValue (whole ++ fraction))
        (-(fraction.length : Int))), rest) := by
  rw [readMagnitude_parts hwhole (noDigit_cons (by decide))
    (readFraction_of_digits hne hfraction hrest.noDigit) (readPower_of_delimited hrest)]
  simp [hne, Binary64.ofDecimal_eq]

def powerDigits (e : Int) : List Char :=
  if (Nat.toDigits 10 e.natAbs).length < 2 then '0' :: Nat.toDigits 10 e.natAbs
  else Nat.toDigits 10 e.natAbs

theorem toList_exponentText (e : Int) : (Binary64.exponentText e).toList =
    'e' :: (if e < 0 then '-' else '+') :: powerDigits e := by
  have hlength : (toString e.natAbs).length = (Nat.toDigits 10 e.natAbs).length := by
    rw [← toList_toString, String.length_toList]
  unfold Binary64.exponentText powerDigits
  dsimp only
  rw [hlength]
  split <;> split <;> simp

theorem powerDigits_spec (e : Int) : powerDigits e ≠ [] ∧
    (∀ c ∈ powerDigits e, isAsciiDigit c = true) ∧ digitsValue (powerDigits e) = e.natAbs := by
  have hdigits := isAsciiDigit_toDigits e.natAbs
  unfold powerDigits
  split
  · refine ⟨List.cons_ne_nil _ _, ?_, ?_⟩
    · intro c hc
      rcases List.mem_cons.mp hc with rfl | hc
      · rfl
      · exact hdigits c hc
    · exact (digitsValue_zeros 1 _).trans (digitsValue_toDigits _)
  · exact ⟨Nat.toDigits_ne_nil, hdigits, digitsValue_toDigits _⟩

theorem readPower_exponentText (e : Int) {rest : List Char} (hrest : NoDigit rest) :
    readPower ((Binary64.exponentText e).toList ++ rest) = (some e, rest) := by
  obtain ⟨hne, hdigits, hvalue⟩ := powerDigits_spec e
  obtain ⟨htake, hdrop⟩ := takeWhile_digits hdigits hrest
  have hsign : readSign ((if e < 0 then '-' else '+') :: (powerDigits e ++ rest)) =
      (decide (e < 0), powerDigits e ++ rest) := by
    split
    · next h => simp [readSign, h]
    · next h => simp [readSign, h]
  rw [toList_exponentText]
  simp only [List.cons_append, readPower, true_or, if_true, hsign, htake, hdrop, hvalue]
  have hsigned : (if e < 0 then -(e.natAbs : Int) else (e.natAbs : Int)) = e := by
    split <;> omega
  simp only [List.isEmpty_iff, hne, if_false, decide_eq_true_eq, hsigned]

def pointed (fraction : List Char) : List Char :=
  if fraction.isEmpty then [] else '.' :: fraction

theorem toList_pointed (fraction : List Char) :
    (if (String.ofList fraction).isEmpty then "" else "." ++ String.ofList fraction).toList =
      pointed fraction := by
  cases fraction with
  | nil => rfl
  | cons c cs =>
    have hempty : (String.ofList (c :: cs)).isEmpty = false := by simp
    rw [hempty]
    simp [pointed]

theorem readMagnitude_power (negative : Bool) {whole fraction rest : List Char}
    (hwhole : IsWhole whole) (hfraction : ∀ c ∈ fraction, isAsciiDigit c = true) (e : Int)
    (hrest : NoDigit rest) :
    readMagnitude negative (whole ++ (pointed fraction ++ ((Binary64.exponentText e).toList ++ rest)))
      = .ok (.real (Binary64.nearest negative (digitsValue (whole ++ fraction))
        (e - fraction.length)), rest) := by
  have hmark : NoDigit ((Binary64.exponentText e).toList ++ rest) := by
    rw [toList_exponentText]
    exact noDigit_cons (by decide)
  have hread : readFraction (pointed fraction ++ ((Binary64.exponentText e).toList ++ rest)) =
      (fraction, (Binary64.exponentText e).toList ++ rest) := by
    unfold pointed
    split
    · next h =>
      rw [List.isEmpty_iff.mp h, List.nil_append]
      refine readFraction_of_head ?_
      rw [toList_exponentText]
      simp
    · next h =>
      rw [List.cons_append]
      exact readFraction_of_digits (by simpa using h) hfraction hmark
  have hstop : NoDigit (pointed fraction ++ ((Binary64.exponentText e).toList ++ rest)) := by
    unfold pointed
    split
    · exact hmark
    · exact noDigit_cons (by decide)
  rw [readMagnitude_parts hwhole hstop hread (readPower_exponentText e hrest)]
  simp [Binary64.ofDecimal_eq]

theorem isWhole_append {ds s : List Char} (h : IsWhole ds) (hhead : ds.head? ≠ some '0')
    (hs : ∀ c ∈ s, isAsciiDigit c = true) : IsWhole (ds ++ s) := by
  obtain ⟨c, cs, rfl⟩ := List.exists_cons_of_ne_nil h.nonempty
  refine ⟨by simp, fun d hd => ?_, .inr hhead⟩
  rcases List.mem_append.mp hd with hd | hd
  · exact h.digits d hd
  · exact hs d hd

theorem isWhole_take {ds : List Char} (h : IsWhole ds) (hhead : ds.head? ≠ some '0') {k : Nat}
    (hk : 0 < k) : IsWhole (ds.take k) := by
  obtain ⟨c, cs, rfl⟩ := List.exists_cons_of_ne_nil h.nonempty
  obtain ⟨k, rfl⟩ := Nat.exists_eq_add_one_of_ne_zero (Nat.pos_iff_ne_zero.mp hk)
  refine ⟨by simp, fun d hd => h.digits d (List.mem_of_mem_take hd), .inr hhead⟩

theorem digits_zeros (k : Nat) : ∀ c ∈ List.replicate k '0', isAsciiDigit c = true := by
  intro c hc
  rw [List.eq_of_mem_replicate hc]
  rfl

theorem isWhole_zero : IsWhole ['0'] := isWhole_toDigits 0

structure Spells (ds : List Char) (n : Nat) : Prop where
  whole : IsWhole ds
  head : ds.head? ≠ some '0'
  value : digitsValue ds = n

theorem spells_toDigits {n : Nat} (h : n ≠ 0) : Spells (Nat.toDigits 10 n) n :=
  ⟨isWhole_toDigits n, head_toDigits h, digitsValue_toDigits n⟩

section
variable (negative : Bool) {ds rest : List Char} {n : Nat} (hds : Spells ds n)
include hds

theorem Spells.drop (k : Nat) : ∀ c ∈ ds.drop k, isAsciiDigit c = true :=
  fun c hc => hds.whole.digits c (List.mem_of_mem_drop hc)

theorem readMagnitude_powered (e : Int) (hrest : NoDigit rest) :
    readMagnitude negative (ds.take 1 ++ (pointed (ds.drop 1) ++
        ((Binary64.exponentText (e + ds.length - 1)).toList ++ rest))) =
      .ok (.real (Binary64.nearest negative n e), rest) := by
  have hpos : 0 < ds.length := List.length_pos_iff.mpr hds.whole.nonempty
  have hexp : e + ds.length - 1 - ((ds.drop 1).length : Int) = e := by
    rw [List.length_drop]
    omega
  rw [readMagnitude_power negative (isWhole_take hds.whole hds.head Nat.one_pos) (hds.drop 1) _ hrest,
    List.take_append_drop, hds.value, hexp]

theorem readMagnitude_zeros_digits (k : Nat) (hrest : Delimited rest) :
    readMagnitude negative (['0'] ++ '.' :: (List.replicate k '0' ++ ds ++ rest)) =
      .ok (.real (Binary64.nearest negative n (-((k + ds.length : Nat) : Int))), rest) := by
  have hfraction : ∀ c ∈ List.replicate k '0' ++ ds, isAsciiDigit c = true := by
    intro c hc
    rcases List.mem_append.mp hc with hc | hc
    · exact digits_zeros _ c hc
    · exact hds.whole.digits c hc
  have hvalue : digitsValue (['0'] ++ (List.replicate k '0' ++ ds)) = n := by
    rw [← hds.value, ← digitsValue_zeros k ds]
    exact digitsValue_zeros 1 _
  rw [readMagnitude_point negative isWhole_zero
      (List.append_ne_nil_of_right_ne_nil _ hds.whole.nonempty) hfraction hrest,
    hvalue, List.length_append, List.length_replicate]

theorem readMagnitude_digits_zeros (k : Nat) (hrest : Delimited rest) :
    readMagnitude negative (ds ++ List.replicate k '0' ++ '.' :: (['0'] ++ rest)) =
      .ok (.real (Binary64.nearest negative n k), rest) := by
  have hvalue : digitsValue (ds ++ List.replicate k '0' ++ ['0']) = n * 10 ^ (k + 1) := by
    have hnone := digitsValue_zeros (k + 1) []
    rw [List.append_nil] at hnone
    rw [List.append_assoc, ← List.replicate_succ', digitsValue_append, hnone, hds.value,
      List.length_replicate]
    rfl
  have hexp : -((['0'] : List Char).length : Int) = (k : Int) - (k + 1 : Nat) := by
    rw [List.length_singleton]
    omega
  rw [readMagnitude_point negative (isWhole_append hds.whole hds.head (digits_zeros k))
      (List.cons_ne_nil '0' []) (digits_zeros 1) hrest,
    hvalue, hexp, Binary64.nearest_shift]

/-- The point stands among the digits. -/
theorem readMagnitude_split {k : Nat} (hk : 0 < k) (hlt : k < ds.length) (hrest : Delimited rest) :
    readMagnitude negative (ds.take k ++ '.' :: (ds.drop k ++ rest)) =
      .ok (.real (Binary64.nearest negative n ((k : Int) - ds.length)), rest) := by
  have hne : ds.drop k ≠ [] := by
    rw [Ne, List.drop_eq_nil_iff]
    omega
  have hexp : -((ds.drop k).length : Int) = (k : Int) - ds.length := by
    rw [List.length_drop]
    omega
  rw [readMagnitude_point negative (isWhole_take hds.whole hds.head hk) hne (hds.drop k) hrest,
    List.take_append_drop, hds.value, hexp]

end

/-- The text of a decimal reads back as the number nearest to it, wherever its point is put. -/
theorem readMagnitude_layout (negative : Bool) {digits : Nat} (hdigits : digits ≠ 0) (e : Int)
    {rest : List Char} (hrest : Delimited rest) :
    readMagnitude negative ((Binary64.layout (toString digits)
        (e + (toString digits).length - 1)).toList ++ rest) =
      .ok (.real (Binary64.nearest negative digits e), rest) := by
  have hspells := spells_toDigits hdigits
  have hlist := toList_toString digits
  have hlength : (toString digits).length = (Nat.toDigits 10 digits).length := by
    rw [← hlist, String.length_toList]
  obtain ⟨ds, hds⟩ : ∃ ds, ds = Nat.toDigits 10 digits := ⟨_, rfl⟩
  rw [← hds] at hspells hlist hlength
  rw [hlength, Binary64.layout, hlength, hlist]
  dsimp only
  split
  · rw [String.toList_append, String.toList_append, toList_pointed, String.toList_ofList,
      List.append_assoc, List.append_assoc]
    exact readMagnitude_powered negative hspells e hrest.noDigit
  split
  · next hplace =>
    have hexp : e = -(((e + ds.length - 1).natAbs - 1 + ds.length : Nat) : Int) := by omega
    conv => rhs; rw [hexp]
    rw [← readMagnitude_zeros_digits negative hspells _ hrest]
    simp [Binary64.zeros, hds]
  split
  · next hplace hbefore =>
    have hk : (e + ds.length - 1).toNat + 1 - ds.length = e.toNat := by omega
    have hexp : e = (e.toNat : Int) := by omega
    conv => rhs; rw [hexp]
    rw [hk, ← readMagnitude_digits_zeros negative hspells _ hrest]
    simp [Binary64.zeros, hds]
  · next hplace hbefore =>
    have hexp : e = (((e + ds.length - 1).toNat + 1 : Nat) : Int) - ds.length := by omega
    conv => rhs; rw [hexp]
    rw [← readMagnitude_split negative hspells (Nat.succ_pos _) (by omega) hrest]
    simp

end Json
end MemShell
