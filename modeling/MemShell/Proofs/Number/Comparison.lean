import MemShell.Proofs.Number.Rounding
set_option autoImplicit false

namespace MemShell

namespace Number
variable {n d n' d' k : Nat}

theorem div_le_roundDiv (n d : Nat) : n / d ≤ roundDiv n d := by
  unfold roundDiv
  dsimp only
  repeat' split
  all_goals omega

theorem roundDiv_le_succ (n d : Nat) : roundDiv n d ≤ n / d + 1 := by
  unfold roundDiv
  dsimp only
  repeat' split
  all_goals omega

theorem div_le_div_of_mul_le (hd : 0 < d) (hd' : 0 < d') (h : n * d' ≤ n' * d) :
    n / d ≤ n' / d' := by
  rw [Nat.le_div_iff_mul_le hd']
  refine Nat.le_of_mul_le_mul_right ?_ hd
  calc n / d * d' * d
      = n / d * d * d' := Nat.mul_right_comm ..
    _ ≤ n * d' := Nat.mul_le_mul_right d' (Nat.div_mul_le_self n d)
    _ ≤ n' * d := h

/-- Of two rests under the same quotient the greater one is rounded up if the other one is. -/
theorem roundDiv_mono (hd : 0 < d) (hd' : 0 < d') (h : n * d' ≤ n' * d) :
    roundDiv n d ≤ roundDiv n' d' := by
  have hdiv := div_le_div_of_mul_le hd hd' h
  rcases Nat.lt_or_eq_of_le hdiv with hlt | heq
  · exact Nat.le_trans (roundDiv_le_succ n d) (Nat.le_trans hlt (div_le_roundDiv n' d'))
  · have hrest : 2 * (n % d) * d' ≤ 2 * (n' % d') * d := by
      have hn := Nat.div_add_mod n d
      have hn' := Nat.div_add_mod n' d'
      rw [← hn, ← hn', heq, Nat.add_mul, Nat.add_mul, Nat.mul_right_comm d,
        Nat.mul_right_comm d', Nat.mul_comm d d'] at h
      rw [Nat.mul_assoc, Nat.mul_assoc]
      exact Nat.mul_le_mul_left 2 (Nat.le_of_add_le_add_left h)
    have hle (hhalf : d ≤ 2 * (n % d)) : d' ≤ 2 * (n' % d') := by
      refine Nat.le_of_mul_le_mul_right (Nat.le_trans ?_ hrest) hd
      rw [Nat.mul_comm d' d]
      exact Nat.mul_le_mul_right d' hhalf
    have hlt (hhalf : d < 2 * (n % d)) : d' < 2 * (n' % d') := by
      refine Nat.lt_of_mul_lt_mul_right (Nat.lt_of_lt_of_le ?_ hrest)
      rw [Nat.mul_comm d' d]
      exact Nat.mul_lt_mul_of_pos_right hhalf hd'
    unfold roundDiv
    dsimp only
    rw [heq]
    repeat' split
    all_goals omega

theorem le_roundDiv (hd : 0 < d) (h : k * d ≤ n) : k ≤ roundDiv n d := by
  have hmono := roundDiv_mono hd hd (Nat.mul_le_mul_right d h)
  rwa [roundDiv_exact k hd] at hmono

theorem roundDiv_le (hd : 0 < d) (h : n ≤ k * d) : roundDiv n d ≤ k := by
  have hmono := roundDiv_mono hd hd (Nat.mul_le_mul_right d h)
  rwa [roundDiv_exact k hd] at hmono

end Number

namespace Binary64
open Number
variable {negative : Bool} {num den num' den' m s : Nat} {x y : Binary64}

def scaleOf (num den : Nat) : Nat := (num / den).log2 - 52

/-- What a ratio is rounded to, in units, if there were no greatest number. -/
def rounded (num den : Nat) : Nat :=
  roundDiv num (den * 2 ^ scaleOf num den) * 2 ^ scaleOf num den

theorem mantissa_le (num : Nat) (hden : 0 < den) :
    roundDiv num (den * 2 ^ scaleOf num den) ≤ 2 ^ 53 := by
  have hquot : num / den < 2 ^ (53 + scaleOf num den) := by
    refine Nat.lt_of_lt_of_le Nat.lt_log2_self (Nat.pow_le_pow_right (by decide) ?_)
    unfold scaleOf
    omega
  refine roundDiv_le (Nat.mul_pos hden (Nat.two_pow_pos _)) ?_
  rw [Nat.mul_left_comm, ← Nat.pow_add, Nat.mul_comm]
  exact Nat.le_of_lt ((Nat.div_lt_iff_lt_mul hden).mp hquot)

theorem le_mantissa (hden : 0 < den) (hscale : 0 < scaleOf num den) :
    2 ^ 52 ≤ roundDiv num (den * 2 ^ scaleOf num den) := by
  have hquot : 2 ^ (52 + scaleOf num den) ≤ num / den := by
    have hne : num / den ≠ 0 := fun hzero => by
      rw [scaleOf, hzero] at hscale
      cases hscale
    refine (Nat.le_log2 hne).mp ?_
    unfold scaleOf at hscale ⊢
    omega
  refine le_roundDiv (Nat.mul_pos hden (Nat.two_pow_pos _)) ?_
  rw [Nat.mul_left_comm, ← Nat.pow_add, Nat.mul_comm]
  exact (Nat.le_div_iff_mul_le hden).mp hquot

theorem scaleOf_mono (hden : 0 < den) (hden' : 0 < den') (h : num * den' ≤ num' * den) :
    scaleOf num den ≤ scaleOf num' den' := by
  have hquot := div_le_div_of_mul_le hden hden' h
  refine Nat.sub_le_sub_right ?_ 52
  by_cases hzero : num / den = 0
  · rw [hzero]
    exact Nat.zero_le _
  · have hpos := Nat.lt_of_lt_of_le (Nat.pos_of_ne_zero hzero) hquot
    exact (Nat.le_log2 (Nat.ne_of_gt hpos)).mpr (Nat.le_trans (Nat.log2_self_le hzero) hquot)

theorem rounded_mono (hden : 0 < den) (hden' : 0 < den') (h : num * den' ≤ num' * den) :
    rounded num den ≤ rounded num' den' := by
  have hscale := scaleOf_mono hden hden' h
  rcases Nat.lt_or_eq_of_le hscale with hlt | heq
  · calc rounded num den
        ≤ 2 ^ 53 * 2 ^ scaleOf num den := Nat.mul_le_mul_right _ (mantissa_le num hden)
      _ = 2 ^ 52 * 2 ^ (scaleOf num den + 1) := by
        rw [← Nat.pow_add, ← Nat.pow_add]
        congr 1
        omega
      _ ≤ 2 ^ 52 * 2 ^ scaleOf num' den' :=
        Nat.mul_le_mul_left _ (Nat.pow_le_pow_right (by decide) hlt)
      _ ≤ rounded num' den' := Nat.mul_le_mul_right _ (le_mantissa hden' (by omega))
  · have hpos := Nat.two_pow_pos (scaleOf num' den')
    unfold rounded
    rw [heq]
    refine Nat.mul_le_mul_right _ (roundDiv_mono (Nat.mul_pos hden hpos) (Nat.mul_pos hden' hpos) ?_)
    rw [← Nat.mul_assoc, ← Nat.mul_assoc]
    exact Nat.mul_le_mul_right _ h

theorem rounded_zero (hden : 0 < den) : rounded 0 den = 0 := by
  rw [rounded, roundDiv_eq_zero (Nat.mul_pos hden (Nat.two_pow_pos _)), Nat.zero_mul]

@[irreducible] def limit : Nat := Nat.pow 2 2098

/-- A number in units, with the infinite ones beyond all others. -/
def rank : Binary64 → Int
  | .nan => 0
  | .infinite negative => if negative then -(limit : Int) else limit
  | x@(.finite ..) => x.units

theorem exists_limit_eq : ∃ k, k = 2098 ∧ limit = 2 ^ k := ⟨2098, rfl, by decide +kernel⟩

theorem magnitude_lt_limit (x : Binary64) : x.magnitude < limit := by
  obtain ⟨k, hk, hlimit⟩ := exists_limit_eq
  rw [hlimit]
  cases x with
  | nan => exact Nat.two_pow_pos k
  | infinite negative => exact Nat.two_pow_pos k
  | finite negative m s h =>
    have hm : m < 2 ^ 53 := h.1
    have hs : s ≤ 2045 := h.2.1
    calc m * 2 ^ s
        < 2 ^ 53 * 2 ^ s := Nat.mul_lt_mul_of_pos_right hm (Nat.two_pow_pos s)
      _ = 2 ^ (53 + s) := (Nat.pow_add 2 53 s).symm
      _ ≤ 2 ^ k := Nat.pow_le_pow_right (by decide) (by omega)

theorem rank_finite_bounds (negative : Bool) (h : Canonical m s) :
    -(limit : Int) < rank (.finite negative m s h) ∧ rank (.finite negative m s h) < limit := by
  have hlt := magnitude_lt_limit (.finite negative m s h)
  have hrank : rank (.finite negative m s h) = units (.finite negative m s h) := rfl
  rw [hrank, units]
  split <;> omega

theorem lt_iff_rank_lt (hx : x ≠ .nan) (hy : y ≠ .nan) : x.lt y = true ↔ x.rank < y.rank := by
  have hlimit : (0 : Int) < limit := Int.natCast_pos.mpr (magnitude_lt_limit .nan)
  cases x with
  | nan => exact absurd rfl hx
  | infinite a =>
    cases y with
    | nan => exact absurd rfl hy
    | infinite b =>
      have hends : -(limit : Int) < limit := by omega
      have hnot : ¬(limit : Int) < -limit := by omega
      cases a <;> cases b <;> simp [lt, rank, hends, hnot]
    | finite b m s h =>
      have hbounds := rank_finite_bounds b h
      cases a <;> simp [lt, rank] at hbounds ⊢ <;> omega
  | finite a m s h =>
    cases y with
    | nan => exact absurd rfl hy
    | infinite b =>
      have hbounds := rank_finite_bounds a h
      cases b <;> simp [lt, rank] at hbounds ⊢ <;> omega
    | finite b m' s' h' => simp [lt, rank]

def signedRank (negative : Bool) (magnitude : Nat) : Int :=
  if negative then -(min magnitude limit : Nat) else (min magnitude limit : Nat)

theorem rank_assemble (hm : m < 2 ^ 53) (hlead : 2 ^ 52 ≤ m ∨ s = 0) :
    (assemble negative m s).rank = signedRank negative (m * 2 ^ s) := by
  by_cases hs : s ≤ 2045
  · have hcanonical : Canonical m s := ⟨hm, hs, hlead⟩
    have hlt : m * 2 ^ s < limit := magnitude_lt_limit (.finite negative m s hcanonical)
    rw [assemble_of_canonical hcanonical, signedRank, Nat.min_eq_left (Nat.le_of_lt hlt)]
    rfl
  · have hinfinite : assemble negative m s = .infinite negative :=
      dif_neg (not_canonical_of_scale (Nat.lt_of_not_le hs))
    obtain ⟨k, hk, hlimit⟩ := exists_limit_eq
    have hlarge : limit ≤ m * 2 ^ s := by
      rw [hlimit]
      calc 2 ^ k
          ≤ 2 ^ (52 + s) := Nat.pow_le_pow_right (by decide) (by omega)
        _ = 2 ^ 52 * 2 ^ s := Nat.pow_add 2 52 s
        _ ≤ m * 2 ^ s := Nat.mul_le_mul_right _ (hlead.resolve_right (by omega))
    rw [hinfinite, signedRank, Nat.min_eq_right hlarge]
    rfl

theorem ofUnits_eq (negative : Bool) (num den : Nat) :
    ofUnits negative num den =
      if roundDiv num (den * 2 ^ scaleOf num den) = 2 ^ 53 then
        assemble negative (2 ^ 52) (scaleOf num den + 1)
      else assemble negative (roundDiv num (den * 2 ^ scaleOf num den)) (scaleOf num den) := rfl

theorem rank_ofUnits (negative : Bool) (hden : 0 < den) :
    (ofUnits negative num den).rank = signedRank negative (rounded num den) := by
  have hle := mantissa_le num hden
  have hlead : 2 ^ 52 ≤ roundDiv num (den * 2 ^ scaleOf num den) ∨ scaleOf num den = 0 := by
    rcases Nat.eq_zero_or_pos (scaleOf num den) with hzero | hpos
    · exact .inr hzero
    · exact .inl (le_mantissa hden hpos)
  rw [ofUnits_eq]
  split
  · next hcarry =>
    rw [rank_assemble (by decide) (.inl (Nat.le_refl _)), rounded, hcarry, Nat.pow_succ]
    congr 1
    omega
  · next hfits => exact rank_assemble (Nat.lt_of_le_of_ne hle hfits) hlead

theorem zero_eq : zero = .finite false 0 0 canonical_zero := by decide +kernel

def signed (negative : Bool) (digits : Nat) : Int := if negative then -(digits : Int) else digits

theorem assemble_ne_nan (negative : Bool) (m s : Nat) : assemble negative m s ≠ .nan := by
  unfold assemble
  split <;> simp

theorem nearest_ne_nan (negative : Bool) (digits : Nat) (exponent : Int) :
    nearest negative digits exponent ≠ .nan := by
  rw [nearest, ofRatio, ofUnits_eq]
  split <;> exact assemble_ne_nan _ _ _

theorem rank_nearest (negative : Bool) (digits places : Nat) :
    (nearest negative digits (-(places : Int))).rank =
      signedRank negative (rounded (digits * unit) (10 ^ places)) := by
  have hnum : (-(places : Int)).toNat = 0 := by omega
  have hden : (-(-(places : Int))).toNat = places := by omega
  rw [nearest, hnum, hden, Nat.pow_zero, Nat.mul_one, ofRatio, rank_ofUnits negative
    (Nat.pow_pos (by decide))]

theorem rounded_units_mono {digits digits' places places' : Nat}
    (h : digits * 10 ^ places' ≤ digits' * 10 ^ places) :
    rounded (digits * unit) (10 ^ places) ≤ rounded (digits' * unit) (10 ^ places') := by
  refine rounded_mono (Nat.pow_pos (by decide)) (Nat.pow_pos (by decide)) ?_
  rw [Nat.mul_right_comm, Nat.mul_right_comm digits']
  exact Nat.mul_le_mul_right unit h

/-- The smaller one of two decimals is not rounded to the greater number. -/
theorem rank_nearest_mono {negative negative' : Bool} {digits digits' places places' : Nat}
    (h : signed negative digits * (10 ^ places' : Nat) ≤
      signed negative' digits' * (10 ^ places : Nat)) :
    (nearest negative digits (-(places : Int))).rank ≤
      (nearest negative' digits' (-(places' : Int))).rank := by
  rw [rank_nearest, rank_nearest]
  cases negative <;> cases negative' <;>
    simp only [signed, signedRank, if_true, if_false, Bool.false_eq_true, Int.neg_mul,
      ← Int.natCast_mul] at h ⊢
  · have hmono := rounded_units_mono (Int.ofNat_le.mp h)
    omega
  · -- The first one is not below zero and the second one not above, so both are zero.
    have hzero {n k : Nat} (hn : n * 10 ^ k = 0) : n = 0 :=
      (Nat.mul_eq_zero.mp hn).resolve_right (Nat.ne_of_gt (Nat.pow_pos (by decide)))
    have hfirst : digits = 0 := hzero (k := places') (by omega)
    have hsecond : digits' = 0 := hzero (k := places) (by omega)
    rw [hfirst, hsecond, Nat.zero_mul, rounded_zero (Nat.pow_pos (by decide)),
      rounded_zero (Nat.pow_pos (by decide))]
    omega
  · omega
  · have hswap : digits' * 10 ^ places ≤ digits * 10 ^ places' := by omega
    have hmono := rounded_units_mono hswap
    omega

end Binary64
end MemShell
