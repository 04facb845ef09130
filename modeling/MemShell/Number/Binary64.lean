set_option autoImplicit false

/-!
# Binary floating-point numbers of 64 bits

A finite number is `± mantissa · 2 ^ (scale - 1074)`, and every operation is the exact one on these
numbers followed by one rounding to the nearest, a half going to the even mantissa. Nothing here
uses the machine's own floating point, so that each value can be computed in a proof.
-/
namespace MemShell

namespace Number

/-- The quotient rounded to the nearest integer, a half going to the even one. -/
def roundDiv (n d : Nat) : Nat :=
  let q := n / d
  let r := n % d
  if 2 * r < d then q else if d < 2 * r then q + 1 else if q % 2 = 0 then q else q + 1

end Number

/-- A mantissa has its leading bit set unless the scale is the smallest. -/
def Binary64.Canonical (mantissa scale : Nat) : Prop :=
  mantissa < Nat.pow 2 53 ∧ scale ≤ 2045 ∧ (Nat.pow 2 52 ≤ mantissa ∨ scale = 0)

instance (m s : Nat) : Decidable (Binary64.Canonical m s) := by
  unfold Binary64.Canonical
  infer_instance

inductive Binary64 where
  | nan
  | infinite (negative : Bool)
  | finite (negative : Bool) (mantissa scale : Nat) (canonical : Binary64.Canonical mantissa scale)
deriving DecidableEq

namespace Binary64
open Number

def unit : Nat := Nat.pow 2 1074

def assemble (negative : Bool) (mantissa scale : Nat) : Binary64 :=
  if h : Canonical mantissa scale then .finite negative mantissa scale h else .infinite negative

def ofUnits (negative : Bool) (num den : Nat) : Binary64 :=
  let scale := (num / den).log2 - 52
  let mantissa := roundDiv num (den * Nat.pow 2 scale)
  if mantissa = Nat.pow 2 53 then assemble negative (Nat.pow 2 52) (scale + 1)
  else assemble negative mantissa scale

def ofRatio (negative : Bool) (num den : Nat) : Binary64 := ofUnits negative (num * unit) den

def ofInt (n : Int) : Binary64 := ofRatio (decide (n < 0)) n.natAbs 1

def zero : Binary64 := ofInt 0

instance : Inhabited Binary64 := ⟨zero⟩

/-- The number nearest to `± digits · 10 ^ exponent`. Powers far outside the range are not built. -/
def ofDecimal (negative : Bool) (digits : Nat) (exponent : Int) : Binary64 :=
  if digits = 0 ∨ exponent + digits.log2 < -2000 then ofRatio negative 0 1
  else match exponent with
    | .ofNat e => if 2000 < e then .infinite negative else ofRatio negative (digits * Nat.pow 10 e) 1
    | .negSucc e => ofRatio negative digits (Nat.pow 10 (e + 1))

def magnitude : Binary64 → Nat
  | .finite _ m s _ => m * Nat.pow 2 s
  | _ => 0

def isNegative : Binary64 → Bool
  | .finite n .. => n
  | .infinite n => n
  | .nan => false

def units (x : Binary64) : Int := if x.isNegative then -(x.magnitude : Int) else x.magnitude

def add : Binary64 → Binary64 → Binary64
  | .nan, _ | _, .nan => .nan
  | .infinite a, .infinite b => if a = b then .infinite a else .nan
  | .infinite a, _ | _, .infinite a => .infinite a
  | x@(.finite a ..), y@(.finite b ..) =>
    let sum := x.units + y.units
    ofUnits (if sum = 0 then a && b else decide (sum < 0)) sum.natAbs 1

instance : Add Binary64 := ⟨add⟩

def scaleBy (x : Binary64) (k : Nat) : Binary64 :=
  match x with
  | .finite n .. => ofUnits n (x.magnitude * k) 1
  | _ => x

def divideBy (x : Binary64) (k : Nat) : Binary64 :=
  match x with
  | .finite n .. => ofUnits n x.magnitude k
  | _ => x

/-- Comparison as numbers: the zeros are equal, and a number that is none is below nothing. -/
def lt : Binary64 → Binary64 → Bool
  | .nan, _ | _, .nan => false
  | .infinite a, .infinite b => a && !b
  | .infinite a, _ => a
  | _, .infinite b => !b
  | x, y => decide (x.units < y.units)

def isPositive (x : Binary64) : Bool := zero.lt x

def floor? : Binary64 → Option Int
  | x@(.finite ..) => some (x.units.fdiv unit)
  | _ => none

def round? : Binary64 → Option Int
  | x@(.finite n ..) =>
    let r := roundDiv x.magnitude unit
    some (if n then -(r : Int) else r)
  | _ => none

end Binary64

abbrev Time := Binary64

end MemShell
