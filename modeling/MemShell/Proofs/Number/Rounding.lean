import Mathlib.Algebra.Group.Nat.Defs
import MemShell.Number.Shortest
set_option autoImplicit false

namespace MemShell

namespace Number
variable {n d k : Nat}

theorem roundDiv_scale (n d : Nat) (hk : 0 < k) : roundDiv (n * k) (d * k) = roundDiv n d := by
  have hhalf (r : Nat) : 2 * (r * k) = 2 * r * k := (Nat.mul_assoc 2 r k).symm
  unfold roundDiv
  simp only [Nat.mul_div_mul_right n d hk, Nat.mul_mod_mul_right, hhalf,
    Nat.mul_lt_mul_right hk]

theorem roundDiv_exact (n : Nat) (hd : 0 < d) : roundDiv (n * d) d = n := by
  unfold roundDiv
  simp only [Nat.mul_div_cancel n hd, Nat.mul_mod_left, Nat.mul_zero, if_pos hd]

theorem roundDiv_eq_zero (h : 2 * n < d) : roundDiv n d = 0 := by
  have hlt : n < d := by omega
  unfold roundDiv
  simp only [Nat.div_eq_of_lt hlt, Nat.mod_eq_of_lt hlt, if_pos h]

end Number

namespace Binary64
open Number
variable {negative : Bool} {num den k m s : Nat}

theorem ofUnits_scale (negative : Bool) (num den : Nat) (hk : 0 < k) :
    ofUnits negative (num * k) (den * k) = ofUnits negative num den := by
  have hround (scale : Nat) : roundDiv (num * k) (den * k * Nat.pow 2 scale) =
      roundDiv num (den * Nat.pow 2 scale) := by
    rw [Nat.mul_right_comm, roundDiv_scale _ _ hk]
  unfold ofUnits
  simp only [Nat.mul_div_mul_right num den hk, hround]

theorem ofRatio_scale (negative : Bool) (num den : Nat) (hk : 0 < k) :
    ofRatio negative (num * k) (den * k) = ofRatio negative num den := by
  rw [ofRatio, Nat.mul_right_comm, ofUnits_scale _ _ _ hk, ofRatio]

theorem exists_unit_eq : ∃ k, k = 1074 ∧ unit = 2 ^ k := ⟨1074, rfl, by decide +kernel⟩

theorem assemble_of_canonical (h : Canonical m s) : assemble negative m s = .finite negative m s h :=
  dif_pos h

theorem not_canonical_of_scale (h : 2045 < s) : ¬Canonical m s := fun hc => by
  have hle := hc.2.1
  omega

/-- The scale of a number is found again in its magnitude. -/
theorem log2_of_canonical (h : Canonical m s) : (m * 2 ^ s).log2 - 52 = s := by
  obtain ⟨hlt, -, hlead⟩ := h
  change m < 2 ^ 53 at hlt
  change 2 ^ 52 ≤ m ∨ s = 0 at hlead
  rcases hlead with hlead | rfl
  · have hpos := Nat.two_pow_pos s
    have hne : m * 2 ^ s ≠ 0 := Nat.mul_ne_zero (by omega) (by omega)
    have hlow : 52 + s ≤ (m * 2 ^ s).log2 := by
      rw [Nat.le_log2 hne, Nat.pow_add]
      exact Nat.mul_le_mul_right _ hlead
    have hhigh : (m * 2 ^ s).log2 < 53 + s := by
      rw [Nat.log2_lt hne, Nat.pow_add]
      exact Nat.mul_lt_mul_of_pos_right hlt hpos
    omega
  · rw [Nat.pow_zero, Nat.mul_one]
    by_cases hne : m = 0
    · subst hne
      rfl
    · have hhigh := (Nat.log2_lt hne).mpr hlt
      omega

theorem ofUnits_of_canonical (h : Canonical m s) :
    ofUnits negative (m * 2 ^ s) 1 = .finite negative m s h := by
  have hlt : m ≠ Nat.pow 2 53 := Nat.ne_of_lt h.1
  have hround : roundDiv (m * 2 ^ s) (1 * Nat.pow 2 s) = m := by
    rw [Nat.one_mul]
    exact roundDiv_exact m (Nat.two_pow_pos s)
  unfold ofUnits
  simp only [Nat.div_one, log2_of_canonical h, hround, if_neg hlt]
  exact assemble_of_canonical h

theorem canonical_zero : Canonical 0 0 := by
  decide

/-- Less than half a unit is nothing. -/
theorem ofUnits_of_small (h : 2 * num < den) :
    ofUnits negative num den = .finite negative 0 0 canonical_zero := by
  have hdiv : num / den = 0 := Nat.div_eq_of_lt (by omega)
  have hround : roundDiv num (den * Nat.pow 2 0) = 0 := by
    refine roundDiv_eq_zero ?_
    change 2 * num < den * 2 ^ 0
    omega
  have hne : (0 : Nat) ≠ Nat.pow 2 53 := by decide
  have hlog : Nat.log2 0 - 52 = 0 := rfl
  unfold ofUnits
  simp only [hdiv, hlog, hround, if_neg hne]
  exact assemble_of_canonical canonical_zero

theorem ofUnits_of_large {e : Nat} (he : 2098 ≤ e) (h : 2 ^ e ≤ num) :
    ofUnits negative num 1 = .infinite negative := by
  have hne : num ≠ 0 := by
    have hpos := Nat.two_pow_pos e
    omega
  have hlog : e ≤ num.log2 := (Nat.le_log2 hne).mpr h
  unfold ofUnits
  simp only [Nat.div_one]
  split
  · exact dif_neg (not_canonical_of_scale (by omega))
  · exact dif_neg (not_canonical_of_scale (by omega))

theorem ofRatio_congr {num' den' : Nat} (hden : 0 < den) (hden' : 0 < den')
    (h : num * den' = num' * den) : ofRatio negative num den = ofRatio negative num' den' := by
  calc ofRatio negative num den
      = ofRatio negative (num * den') (den * den') := (ofRatio_scale _ _ _ hden').symm
    _ = ofRatio negative (num' * den) (den' * den) := by rw [h, Nat.mul_comm den den']
    _ = ofRatio negative num' den' := ofRatio_scale _ _ _ hden

def nearest (negative : Bool) (digits : Nat) (exponent : Int) : Binary64 :=
  ofRatio negative (digits * 10 ^ exponent.toNat) (10 ^ (-exponent).toNat)

theorem ofRatio_zero (hden : 0 < den) :
    ofRatio negative 0 den = .finite negative 0 0 canonical_zero := by
  rw [ofRatio, Nat.zero_mul]
  exact ofUnits_of_small hden

theorem nearest_zero (exponent : Int) :
    nearest negative 0 exponent = .finite negative 0 0 canonical_zero := by
  rw [nearest, Nat.zero_mul]
  exact ofRatio_zero (Nat.pow_pos (by decide))

theorem two_pow_le_ten_pow (k : Nat) : 2 ^ k ≤ 10 ^ k := Nat.pow_le_pow_left (by decide) k

theorem nearest_of_small {digits : Nat} {exponent : Int}
    (h : exponent + digits.log2 < -2000) :
    nearest negative digits exponent = .finite negative 0 0 canonical_zero := by
  obtain ⟨k, hk, hunit⟩ := exists_unit_eq
  have hexp : exponent.toNat = 0 := by omega
  have hdigits : digits < 2 ^ (digits.log2 + 1) := Nat.lt_log2_self
  have hpow : 2 ^ (digits.log2 + 1 + k + 1) ≤ 2 ^ (-exponent).toNat :=
    Nat.pow_le_pow_right (by decide) (by omega)
  rw [nearest, hexp, Nat.pow_zero, Nat.mul_one, ofRatio, hunit]
  refine ofUnits_of_small (Nat.lt_of_lt_of_le ?_ (two_pow_le_ten_pow _))
  calc 2 * (digits * 2 ^ k)
      = digits * 2 ^ k * 2 := Nat.mul_comm ..
    _ < 2 ^ (digits.log2 + 1) * 2 ^ k * 2 :=
      Nat.mul_lt_mul_of_pos_right (Nat.mul_lt_mul_of_pos_right hdigits (Nat.two_pow_pos k))
        (by decide)
    _ = 2 ^ (digits.log2 + 1 + k + 1) := by rw [← Nat.pow_add, ← Nat.pow_succ]
    _ ≤ 2 ^ (-exponent).toNat := hpow

theorem ofRatio_of_large {digits e : Nat} (hdigits : digits ≠ 0) (he : 2000 < e) :
    ofRatio negative (digits * 10 ^ e) 1 = .infinite negative := by
  obtain ⟨k, hk, hunit⟩ := exists_unit_eq
  refine ofUnits_of_large (e := e + k) (by omega) ?_
  rw [hunit]
  calc 2 ^ (e + k)
      = 2 ^ e * 2 ^ k := Nat.pow_add ..
    _ ≤ digits * 10 ^ e * 2 ^ k := by
      refine Nat.mul_le_mul_right _ (Nat.le_trans (two_pow_le_ten_pow e) ?_)
      exact Nat.le_mul_of_pos_left _ (Nat.pos_of_ne_zero hdigits)

/-- The powers that are not built make no difference. -/
theorem ofDecimal_eq (negative : Bool) (digits : Nat) (exponent : Int) :
    ofDecimal negative digits exponent = nearest negative digits exponent := by
  unfold ofDecimal
  split
  · next h =>
    rw [ofRatio_zero (by decide)]
    rcases h with rfl | h
    · exact (nearest_zero exponent).symm
    · exact (nearest_of_small h).symm
  · next h =>
    have hdigits : digits ≠ 0 := fun hzero => h (.inl hzero)
    cases exponent with
    | ofNat e =>
      have hone : nearest negative digits (.ofNat e) = ofRatio negative (digits * 10 ^ e) 1 := by
        simp [nearest]
      rw [hone]
      dsimp only
      split
      · next he => exact (ofRatio_of_large hdigits he).symm
      · rfl
    | negSucc e =>
      have hzero : (Int.negSucc e).toNat = 0 := rfl
      have hsucc : (-Int.negSucc e).toNat = e + 1 := rfl
      rw [nearest, hzero, hsucc, Nat.pow_zero, Nat.mul_one]
      rfl

theorem nearest_shift (negative : Bool) (digits k : Nat) (exponent : Int) :
    nearest negative (digits * 10 ^ k) (exponent - k) = nearest negative digits exponent := by
  have hsum : k + (exponent - k).toNat + (-exponent).toNat =
      exponent.toNat + (-(exponent - k)).toNat := by omega
  refine ofRatio_congr (Nat.pow_pos (by decide)) (Nat.pow_pos (by decide)) ?_
  rw [Nat.mul_assoc, Nat.mul_assoc, Nat.mul_assoc, ← Nat.pow_add, ← Nat.pow_add, ← Nat.pow_add,
    ← Nat.add_assoc, hsum]

end Binary64

namespace Decimal
open Binary64
variable {negative : Bool} {m s : Nat}

theorem nearest_trimZeros (n : Nat) (d : Decimal) :
    nearest negative (trimZeros n d).digits (trimZeros n d).exponent =
      nearest negative d.digits d.exponent := by
  induction n generalizing d with
  | zero => rfl
  | succ n ih =>
    rw [trimZeros]
    split
    · next hzero =>
      have hdigits : d.digits = d.digits / 10 * 10 ^ 1 := by omega
      have hexp : d.exponent = d.exponent + 1 - (1 : Nat) := by omega
      have hshift := nearest_shift negative (d.digits / 10) 1 (d.exponent + 1)
      rw [← hdigits, ← hexp] at hshift
      rw [ih]
      exact hshift.symm
    · rfl

theorem nearest_exact (h : Canonical m s) :
    nearest negative (exact (m * 2 ^ s)).digits (exact (m * 2 ^ s)).exponent =
      .finite negative m s h := by
  obtain ⟨k, hk, hunit⟩ := exists_unit_eq
  have hden : (-(exact (m * 2 ^ s)).exponent).toNat = k := hk.symm
  have hnum : (exact (m * 2 ^ s)).exponent.toNat = 0 := rfl
  have hten : 10 ^ k = 1 * (5 ^ k * 2 ^ k) := by rw [Nat.one_mul, ← Nat.mul_pow]
  have hpos : 0 < 5 ^ k * 2 ^ k := Nat.mul_pos (Nat.pow_pos (by decide)) (Nat.two_pow_pos k)
  rw [nearest, hden, hnum, exact, ← hk, ofRatio, hunit, Nat.pow_zero, Nat.mul_one, Nat.mul_assoc,
    hten, Nat.pow_eq, ofUnits_scale _ _ _ hpos, ofUnits_of_canonical h]

/-- The shortest decimal of a number reads back as the number. -/
theorem nearest_shortest (h : Canonical m s) :
    nearest negative (shortest (.finite negative m s h)).digits
      (shortest (.finite negative m s h)).exponent = .finite negative m s h := by
  unfold shortest
  dsimp only
  generalize List.flatMap _ _ = grids
  cases hfind : grids.find? _ with
  | none => exact nearest_exact h
  | some d =>
    have hback := List.find?_some hfind
    rw [decide_eq_true_eq, ofDecimal_eq] at hback
    exact hback

end Decimal
end MemShell
