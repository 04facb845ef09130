import MemShell.Json.Value
import MemShell.Number.Numeral
set_option autoImplicit false

namespace MemShell.Json
open MemShell.Number

inductive ReadError where
  | malformed
  | tooManyDigits (count : Nat)
deriving DecidableEq, Repr

def isJsonBlank (c : Char) : Bool := c = ' ' || c = '\t' || c = '\n' || c = '\r'

def skipBlanks (s : List Char) : List Char := s.dropWhile isJsonBlank

def isAsciiDigit (c : Char) : Bool := '0' ≤ c && c ≤ '9'

def hexValue? (c : Char) : Option Nat :=
  if '0' ≤ c ∧ c ≤ '9' then some (c.toNat - 48)
  else if 'a' ≤ c ∧ c ≤ 'f' then some (c.toNat - 87)
  else if 'A' ≤ c ∧ c ≤ 'F' then some (c.toNat - 55)
  else none

def hexUnit? (a b c d : Char) : Option Nat := do
  let a ← hexValue? a
  let b ← hexValue? b
  let c ← hexValue? c
  let d ← hexValue? d
  pure (((a * 16 + b) * 16 + c) * 16 + d)

def isHighUnit (n : Nat) : Bool := 0xD800 ≤ n && n < 0xDC00

def isLowUnit (n : Nat) : Bool := 0xDC00 ≤ n && n < 0xE000

def charOfUnit (n : Nat) : Char :=
  if isHighUnit n || isLowUnit n then Char.ofNat 0xFFFD else Char.ofNat n

def charOfPair (high low : Nat) : Char :=
  Char.ofNat (0x10000 + (high - 0xD800) * 1024 + (low - 0xDC00))

def shortEscape? (c : Char) : Option Char :=
  match c with
  | '"' => some '"'
  | '\\' => some '\\'
  | '/' => some '/'
  | 'b' => some (Char.ofNat 8)
  | 'f' => some (Char.ofNat 12)
  | 'n' => some '\n'
  | 'r' => some '\r'
  | 't' => some '\t'
  | _ => none

def consRead (c : Char) :
    Except ReadError (List Char × List Char) → Except ReadError (List Char × List Char)
  | .ok (cs, rest) => .ok (c :: cs, rest)
  | .error e => .error e

def readChars : List Char → Except ReadError (List Char × List Char)
  | [] => .error .malformed
  | '"' :: rest => .ok ([], rest)
  | '\\' :: 'u' :: a :: b :: c :: d :: '\\' :: 'u' :: e :: f :: g :: h :: rest =>
    match hexUnit? a b c d, hexUnit? e f g h with
    | some high, some low =>
      if isHighUnit high && isLowUnit low then consRead (charOfPair high low) (readChars rest)
      else consRead (charOfUnit high) (readChars ('\\' :: 'u' :: e :: f :: g :: h :: rest))
    | _, _ => .error .malformed
  | '\\' :: 'u' :: a :: b :: c :: d :: rest =>
    match hexUnit? a b c d with
    | some n => consRead (charOfUnit n) (readChars rest)
    | none => .error .malformed
  | '\\' :: c :: rest =>
    match shortEscape? c with
    | some e => consRead e (readChars rest)
    | none => .error .malformed
  | c :: rest => if c.toNat < 32 ∨ c = '\\' then .error .malformed else consRead c (readChars rest)

/-- Digits after a point, if there is a point with a digit behind it. -/
def readFraction (s : List Char) : List Char × List Char :=
  match s with
  | '.' :: rest =>
    let ds := rest.takeWhile isAsciiDigit
    if ds.isEmpty then ([], s) else (ds, rest.dropWhile isAsciiDigit)
  | _ => ([], s)

def readPower (s : List Char) : Option Int × List Char :=
  match s with
  | m :: rest =>
    if m = 'e' ∨ m = 'E' then
      let (negative, ds) := readSign rest
      let digits := ds.takeWhile isAsciiDigit
      if digits.isEmpty then (none, s)
      else
        let n : Int := digitsValue digits
        (some (if negative then -n else n), ds.dropWhile isAsciiDigit)
    else (none, s)
  | [] => (none, s)

def wholePart (s : List Char) : List Char :=
  match s with
  | '0' :: _ => ['0']
  | _ => s.takeWhile isAsciiDigit

def readMagnitude (negative : Bool) (s : List Char) : Except ReadError (Json × List Char) :=
  let whole := wholePart s
  if whole.isEmpty then .error .malformed
  else
    let (fraction, s₁) := readFraction (s.drop whole.length)
    let (power, s₂) := readPower s₁
    if fraction.isEmpty && power.isNone then
      if maxDigits < whole.length then .error (.tooManyDigits whole.length)
      else
        let n : Int := digitsValue whole
        .ok (.int (if negative then -n else n), s₂)
    else
      .ok (.real (Binary64.ofDecimal negative (digitsValue (whole ++ fraction))
        (power.getD 0 - fraction.length)), s₂)

def dropWord? (word : String) (s : List Char) : Option (List Char) :=
  if word.toList.isPrefixOf s then some (s.drop word.length) else none

def wordValues : List (String × Json) :=
  [("null", .null), ("true", .bool true), ("false", .bool false), ("NaN", .real .nan),
    ("Infinity", .real (.infinite false)), ("-Infinity", .real (.infinite true))]

def readWord? (s : List Char) : Option (Json × List Char) :=
  wordValues.findSome? fun (word, v) => (dropWord? word s).map fun rest => (v, rest)

def readScalar (s : List Char) : Except ReadError (Json × List Char) :=
  match readWord? s with
  | some r => .ok r
  | none =>
    match s with
    | '"' :: rest => do
      let (cs, rest) ← readChars rest
      pure (.str (String.ofList cs), rest)
    | '-' :: rest => readMagnitude true rest
    | _ => readMagnitude false s

mutual
/-- A value nested at most `fuel` deep, after blanks. -/
def readValue (fuel : Nat) (s : List Char) : Except ReadError (Json × List Char) :=
  match fuel with
  | 0 => .error .malformed
  | fuel + 1 =>
    match skipBlanks s with
    | '[' :: rest =>
      match skipBlanks rest with
      | ']' :: rest => .ok (.arr [], rest)
      | rest => do
        let (items, rest) ← readItems fuel rest
        pure (.arr items, rest)
    | '{' :: rest =>
      match skipBlanks rest with
      | '}' :: rest => .ok (.obj [], rest)
      | rest => do
        let (members, rest) ← readMembers fuel rest
        pure (.obj (Table.ofList members), rest)
    | rest => readScalar rest

def readItems (fuel : Nat) (s : List Char) : Except ReadError (List Json × List Char) :=
  match fuel with
  | 0 => .error .malformed
  | fuel + 1 => do
    let (v, rest) ← readValue fuel s
    match skipBlanks rest with
    | ',' :: rest => do
      let (vs, rest) ← readItems fuel rest
      pure (v :: vs, rest)
    | ']' :: rest => pure ([v], rest)
    | _ => .error .malformed

def readMembers (fuel : Nat) (s : List Char) : Except ReadError (List (String × Json) × List Char) :=
  match fuel with
  | 0 => .error .malformed
  | fuel + 1 =>
    match skipBlanks s with
    | '"' :: rest => do
      let (name, rest) ← readChars rest
      match skipBlanks rest with
      | ':' :: rest => do
        let (v, rest) ← readValue fuel rest
        match skipBlanks rest with
        | ',' :: rest => do
          let (ms, rest) ← readMembers fuel rest
          pure ((String.ofList name, v) :: ms, rest)
        | '}' :: rest => pure ([(String.ofList name, v)], rest)
        | _ => .error .malformed
      | _ => .error .malformed
    | _ => .error .malformed
end

/-- Reads a whole text. Each level of nesting takes a character, so its length bounds the depth. -/
def read (text : String) : Except ReadError Json :=
  let s := text.toList
  match readValue (2 * s.length + 2) s with
  | .error e => .error e
  | .ok (v, rest) => if (skipBlanks rest).isEmpty then .ok v else .error .malformed

end MemShell.Json
