import MemShell.Json.Display
import MemShell.Proofs.Json.Escapes
import MemShell.Proofs.Json.Numerals
set_option autoImplicit false

namespace MemShell.Json
open Number

def Begins (s : List Char) : Prop :=
  ∃ c t, s = c :: t ∧ isJsonBlank c = false ∧ c ≠ '[' ∧ c ≠ '{' ∧ c ≠ ']'

/-- Whether a text is read as a scalar, whatever ends it. -/
structure ReadsBack (v : Json) (text : List Char) : Prop where
  begins : Begins text
  reads : ∀ rest, Delimited rest → readScalar (text ++ rest) = .ok (v, rest)

theorem readsBack_null : ReadsBack .null "null".toList := by
  refine ⟨⟨'n', "ull".toList, rfl, by decide⟩, fun rest _ => ?_⟩
  simp [readScalar, readWord?, wordValues, dropWord?]
  rfl

theorem readsBack_bool (b : Bool) :
    ReadsBack (.bool b) (if b then "true" else "false").toList := by
  cases b with
  | true =>
    refine ⟨⟨'t', "rue".toList, rfl, by decide⟩, fun rest _ => ?_⟩
    simp [readScalar, readWord?, wordValues, dropWord?]
    rfl
  | false =>
    refine ⟨⟨'f', "alse".toList, rfl, by decide⟩, fun rest _ => ?_⟩
    simp [readScalar, readWord?, wordValues, dropWord?]
    rfl

theorem readsBack_nan : ReadsBack (.real .nan) "NaN".toList := by
  refine ⟨⟨'N', "aN".toList, rfl, by decide⟩, fun rest _ => ?_⟩
  simp [readScalar, readWord?, wordValues, dropWord?]
  rfl

theorem readsBack_infinite (negative : Bool) :
    ReadsBack (.real (.infinite negative)) (if negative then "-Infinity" else "Infinity").toList := by
  cases negative with
  | true =>
    refine ⟨⟨'-', "Infinity".toList, rfl, by decide⟩, fun rest _ => ?_⟩
    simp [readScalar, readWord?, wordValues, dropWord?]
    rfl
  | false =>
    refine ⟨⟨'I', "nfinity".toList, rfl, by decide⟩, fun rest _ => ?_⟩
    simp [readScalar, readWord?, wordValues, dropWord?]
    rfl

theorem ne_of_isAsciiDigit {c d : Char} (h : isAsciiDigit c = true) (hd : isAsciiDigit d = false) :
    c ≠ d := by
  rintro rfl
  rw [h] at hd
  cases hd

theorem readScalar_digit {c : Char} (h : isAsciiDigit c = true) (s : List Char) :
    readScalar (c :: s) = readMagnitude false (c :: s) := by
  have hne {d : Char} (hd : isAsciiDigit d = false) := ne_of_isAsciiDigit h hd
  have hword : readWord? (c :: s) = none := by
    simp [readWord?, wordValues, dropWord?, (hne (d := 'n') rfl).symm,
      (hne (d := 't') rfl).symm, (hne (d := 'f') rfl).symm, (hne (d := 'N') rfl).symm,
      (hne (d := 'I') rfl).symm, (hne (d := '-') rfl).symm]
  unfold readScalar
  rw [hword]
  dsimp only
  split
  · next heq => exact absurd (List.cons.inj heq).1 (hne rfl)
  · next heq => exact absurd (List.cons.inj heq).1 (hne rfl)
  · rfl

theorem readScalar_minus {c : Char} (h : isAsciiDigit c = true) (s : List Char) :
    readScalar ('-' :: c :: s) = readMagnitude true (c :: s) := by
  have hne : 'I' ≠ c := (ne_of_isAsciiDigit h rfl).symm
  have hword : readWord? ('-' :: c :: s) = none := by
    simp [readWord?, wordValues, dropWord?, hne]
  unfold readScalar
  rw [hword]
  rfl

theorem digit_of_readMagnitude {negative : Bool} {s : List Char} {r : Json × List Char}
    (h : readMagnitude negative s = .ok r) : ∃ c t, s = c :: t ∧ isAsciiDigit c = true := by
  cases s with
  | nil => cases h
  | cons c t =>
    refine ⟨c, t, rfl, ?_⟩
    refine Decidable.byContradiction fun hc => ?_
    have hwhole : wholePart (c :: t) = [] := by
      have hzero : c ≠ '0' := by
        rintro rfl
        exact hc rfl
      unfold wholePart
      split
      · next heq => exact absurd (List.cons.inj heq).1 hzero
      · simp [hc]
    simp only [readMagnitude, hwhole, List.isEmpty_nil, if_true] at h
    cases h

def signText (negative : Bool) : List Char := if negative then ['-'] else []

theorem readsBack_numeral (negative : Bool) {text : List Char} {v : Json}
    (h : ∀ rest, Delimited rest → readMagnitude negative (text ++ rest) = .ok (v, rest)) :
    ReadsBack v (signText negative ++ text) := by
  have hnone := h [] fun c hc => by cases hc
  rw [List.append_nil] at hnone
  obtain ⟨c, t, rfl, hc⟩ := digit_of_readMagnitude hnone
  cases negative with
  | true =>
    refine ⟨⟨'-', c :: t, rfl, by decide⟩, fun rest hrest => ?_⟩
    exact (readScalar_minus hc (t ++ rest)).trans (h rest hrest)
  | false =>
    have hne {d : Char} (hd : isAsciiDigit d = false) := ne_of_isAsciiDigit hc hd
    have hblank : isJsonBlank c = false := by
      simp [isJsonBlank, hne (d := ' ') rfl, hne (d := '\t') rfl, hne (d := '\n') rfl,
        hne (d := '\r') rfl]
    refine ⟨⟨c, t, rfl, hblank, hne rfl, hne rfl, hne rfl⟩, fun rest hrest => ?_⟩
    exact (readScalar_digit hc (t ++ rest)).trans (h rest hrest)

theorem readsBack_int {n : Int} (h : (Nat.toDigits 10 n.natAbs).length ≤ maxDigits) :
    ReadsBack (.int n) (toString n).toList := by
  have hread (negative : Bool) := readsBack_numeral negative
    fun rest hrest => readMagnitude_toDigits h hrest
  cases n with
  | ofNat k =>
    have htext : (toString (Int.ofNat k)).toList = signText false ++ Nat.toDigits 10 k :=
      toList_toString k
    rw [htext]
    exact hread false
  | negSucc k =>
    have htext : (toString (Int.negSucc k)).toList = signText true ++ Nat.toDigits 10 (k + 1) := by
      rw [← toList_toString]
      exact String.toList_append
    rw [htext]
    exact hread true

theorem readMagnitude_zero (negative : Bool) {rest : List Char} (hrest : Delimited rest) :
    readMagnitude negative ("0.0".toList ++ rest) =
      .ok (.real (.finite negative 0 0 Binary64.canonical_zero), rest) := by
  have hread := readMagnitude_point negative isWhole_zero (List.cons_ne_nil '0' []) (digits_zeros 1)
    hrest
  have hvalue : digitsValue (['0'] ++ ['0']) = 0 := rfl
  rw [hvalue, Binary64.nearest_zero] at hread
  exact hread

/-- The text of a finite number after its sign. -/
theorem readMagnitude_text {negative : Bool} {m s : Nat} (h : Binary64.Canonical m s)
    (hm : m * Nat.pow 2 s ≠ 0) {rest : List Char} (hrest : Delimited rest) :
    let d := (Decimal.shortest (.finite negative m s h)).trimZeros 400
    readMagnitude negative ((Binary64.layout (toString d.digits)
        (d.exponent + (toString d.digits).length - 1)).toList ++ rest) =
      .ok (.real (.finite negative m s h), rest) := by
  intro d
  have hback : Binary64.nearest negative d.digits d.exponent = .finite negative m s h :=
    (Decimal.nearest_trimZeros 400 _).trans (Decimal.nearest_shortest h)
  have hdigits : d.digits ≠ 0 := by
    intro hzero
    rw [hzero, Binary64.nearest_zero] at hback
    cases hback
    exact hm (Nat.zero_mul _)
  rw [readMagnitude_layout negative hdigits d.exponent hrest, hback]

theorem readsBack_real (x : Binary64) : ReadsBack (.real x) (numberText x).toList := by
  cases x with
  | nan => exact readsBack_nan
  | infinite negative => exact readsBack_infinite negative
  | finite negative m s canonical =>
    have hsign : (if negative = true then "-" else "").toList = signText negative := by
      cases negative <;> rfl
    change ReadsBack _ (Binary64.text (.finite negative m s canonical)).toList
    unfold Binary64.text
    dsimp only
    split
    · next hzero =>
      have hm : m = 0 := (Nat.mul_eq_zero.mp hzero).resolve_right (Nat.ne_of_gt (Nat.two_pow_pos s))
      have hs : s = 0 := by
        subst hm
        exact canonical.2.2.resolve_left (by decide)
      subst hm hs
      rw [String.toList_append, hsign]
      exact readsBack_numeral negative fun rest hrest => readMagnitude_zero negative hrest
    · next hm =>
      rw [String.toList_append, hsign]
      exact readsBack_numeral negative fun rest hrest => readMagnitude_text canonical hm hrest

theorem toList_quote (s : String) :
    (quote s).toList = '"' :: (s.toList.flatMap escapeChar ++ ['"']) := by
  simp [quote]

theorem readsBack_str (s : String) : ReadsBack (.str s) (quote s).toList := by
  rw [toList_quote]
  refine ⟨⟨'"', _, rfl, by decide⟩, fun rest _ => ?_⟩
  have hchars := readChars_quoted s.toList rest
  have hword (t : List Char) : readWord? ('"' :: t) = none := by
    simp [readWord?, wordValues, dropWord?]
  unfold readScalar
  rw [List.cons_append, List.append_assoc, hword]
  simp [hchars, bind, Except.bind, pure, Except.pure]

end MemShell.Json
