import MemShell.Text.Blank
import MemShell.Number.Binary64
set_option autoImplicit false

namespace MemShell.Number
open MemShell.Text

/-- The zeros of the scripts that have decimal digits; the other nine digits follow each. -/
def scriptZeros : List Nat :=
  [48, 1632, 1776, 1984, 2406, 2534, 2662, 2790, 2918, 3046, 3174, 3302, 3430, 3558, 3664, 3792,
    3872, 4160, 4240, 6112, 6160, 6470, 6608, 6784, 6800, 6992, 7088, 7232, 7248, 42528, 43216,
    43264, 43472, 43504, 43600, 44016, 65296, 66720, 68912, 69734, 69872, 69942, 70096, 70384,
    70736, 70864, 71248, 71360, 71472, 71904, 72016, 72784, 73040, 73120, 92768, 92864, 93008,
    120782, 120792, 120802, 120812, 120822, 123200, 123632, 125264, 130032]

def digitValue? (c : Char) : Option Nat :=
  (scriptZeros.find? fun z => z ≤ c.toNat && c.toNat ≤ z + 9).map (c.toNat - ·)

def isDigit (c : Char) : Bool := (digitValue? c).isSome

/-- The four separators of records are blanks everywhere but around a numeral. -/
def isNumeralBlank (c : Char) : Bool := isBlank c && !(28 ≤ c.toNat && c.toNat ≤ 31)

def trimNumeral (s : List Char) : List Char :=
  ((s.dropWhile isNumeralBlank).reverse.dropWhile isNumeralBlank).reverse

/-- Takes the underscores out of a numeral; each stands between two digits. -/
def dropUnderscores : List Char → Option (List Char)
  | [] => some []
  | a :: '_' :: b :: rest =>
    if isDigit a && isDigit b then (dropUnderscores (b :: rest)).map (a :: ·) else none
  | c :: rest => if c = '_' then none else (dropUnderscores rest).map (c :: ·)

def readSign : List Char → Bool × List Char
  | '-' :: rest => (true, rest)
  | '+' :: rest => (false, rest)
  | s => (false, s)

def digitsValue (s : List Char) : Nat := s.foldl (fun n c => 10 * n + (digitValue? c).getD 0) 0

/-- Integers of more digits are not read. -/
def maxDigits : Nat := 4300

def readInt? (s : String) : Option Int :=
  match dropUnderscores (trimNumeral s.toList) with
  | none => none
  | some cs =>
    let (negative, ds) := readSign cs
    if ds.isEmpty || !ds.all isDigit || maxDigits < ds.length then none
    else some (if negative then -(digitsValue ds : Int) else digitsValue ds)

def readExponent? (s : List Char) : Option Int :=
  let (negative, ds) := readSign s
  if ds.isEmpty || !ds.all isDigit then none
  else some (if negative then -(digitsValue ds : Int) else digitsValue ds)

def readUnsignedDecimal? (negative : Bool) (s : List Char) : Option Binary64 :=
  let whole := s.takeWhile isDigit
  let afterWhole := s.dropWhile isDigit
  let (fraction, rest) := match afterWhole with
    | '.' :: r => (r.takeWhile isDigit, r.dropWhile isDigit)
    | r => ([], r)
  if whole.isEmpty && fraction.isEmpty then none
  else
    let number (e : Int) :=
      Binary64.ofDecimal negative (digitsValue (whole ++ fraction)) (e - fraction.length)
    match rest with
    | [] => some (number 0)
    | m :: e => if m = 'e' ∨ m = 'E' then (readExponent? e).map number else none

def readDecimal? (s : String) : Option Binary64 :=
  match dropUnderscores (trimNumeral s.toList) with
  | none => none
  | some cs =>
    let (negative, rest) := readSign cs
    let word := String.ofList (rest.map Char.toLower)
    if word = "inf" ∨ word = "infinity" then some (.infinite negative)
    else if word = "nan" then some .nan
    else readUnsignedDecimal? negative rest

end MemShell.Number
