import MemShell.Number.Binary64
set_option autoImplicit false

namespace MemShell

structure Decimal where
  digits : Nat
  exponent : Int
deriving DecidableEq, Repr

namespace Decimal

def digitCount (n : Nat) : Nat := (Nat.toDigits 10 n).length

def leadingPlace (num den : Nat) : Int :=
  if den ≤ num then digitCount (num / den) - 1
  else
    let c := digitCount (den / num)
    if den ≤ num * Nat.pow 10 (c - 1) then 1 - (c : Int) else -(c : Int)

def neighbours (num den : Nat) (exponent : Int) : List Decimal :=
  let (n, d) := match exponent with
    | .ofNat e => (num, den * Nat.pow 10 e)
    | .negSucc e => (num * Nat.pow 10 (e + 1), den)
  let below := n / d
  let nearest := Number.roundDiv n d
  [⟨nearest, exponent⟩, ⟨if nearest = below then below + 1 else below, exponent⟩]

def exact (num : Nat) : Decimal := ⟨num * Nat.pow 5 1074, -1074⟩

/-- The first grid with a point that reads back as `x`, from one digit to `17`. -/
def shortest (x : Binary64) : Decimal :=
  let place := leadingPlace x.magnitude Binary64.unit
  let grids := (List.range 17).flatMap fun (n : Nat) =>
    neighbours x.magnitude Binary64.unit (place - (n : Int))
  (grids.find? fun d => Binary64.ofDecimal x.isNegative d.digits d.exponent = x).getD
    (exact x.magnitude)

def trimZeros : Nat → Decimal → Decimal
  | 0, d => d
  | n + 1, d => if d.digits % 10 = 0 then trimZeros n ⟨d.digits / 10, d.exponent + 1⟩ else d

end Decimal

namespace Binary64

def exponentText (e : Int) : String :=
  let digits := toString e.natAbs
  "e" ++ (if e < 0 then "-" else "+") ++ (if digits.length < 2 then "0" ++ digits else digits)

def zeros (n : Nat) : String := String.ofList (List.replicate n '0')

/-- Leading digit at `place`: positional from four zeros after the point up to sixteen digits before
it, else one digit before the point and an exponent of at least two digits. -/
def layout (digits : String) (place : Int) : String :=
  let n := digits.length
  if place < -4 ∨ 16 ≤ place then
    let tail := String.ofList (digits.toList.drop 1)
    String.ofList (digits.toList.take 1) ++ (if tail.isEmpty then "" else "." ++ tail) ++
      exponentText place
  else if place < 0 then "0." ++ zeros (place.natAbs - 1) ++ digits
  else
    let before := place.toNat + 1
    if n ≤ before then digits ++ zeros (before - n) ++ ".0"
    else String.ofList (digits.toList.take before) ++ "." ++ String.ofList (digits.toList.drop before)

def text : Binary64 → String
  | .nan => "nan"
  | .infinite n => if n then "-inf" else "inf"
  | x@(.finite n ..) =>
    let sign := if n then "-" else ""
    if x.magnitude = 0 then sign ++ "0.0"
    else
      let d := (Decimal.shortest x).trimZeros 400
      let digits := toString d.digits
      sign ++ layout digits (d.exponent + digits.length - 1)

end Binary64
end MemShell
