import MemShell.Fault
import MemShell.Text.Blank
set_option autoImplicit false

namespace MemShell

inductive Permission where
  | read | write | execute
deriving DecidableEq, Repr

namespace Permission

def bit : Permission → Nat
  | .read => 4
  | .write => 2
  | .execute => 1

def name : Permission → String
  | .read => "read"
  | .write => "write"
  | .execute => "execute"

def ofName? (s : String) : Option Permission :=
  [.read, .write, .execute].find? fun p => p.name = s

end Permission

namespace Mode

def ofFile : Nat := 0o644
def ofDirectory : Nat := 0o755
def ofPrivateDirectory : Nat := 0o700

def tripletLetters (bits : Nat) : List Char :=
  [if bits.testBit 2 then 'r' else '-', if bits.testBit 1 then 'w' else '-',
    if bits.testBit 0 then 'x' else '-']

def letters (mode : Nat) : List Char :=
  tripletLetters (mode / 64 % 8) ++ tripletLetters (mode / 8 % 8) ++ tripletLetters (mode % 8)

def text (mode : Nat) : String := String.ofList (letters mode)

/-- A bit pattern of any sign, of which the lowest nine bits count. -/
def ofInt (mode : Int) : Nat := (mode % 512).toNat

def isLetterAt (i : Nat) (c : Char) : Bool :=
  c = '-' || (c = 'r' && i % 3 = 0) || (c = 'w' && i % 3 = 1) || (c = 'x' && i % 3 = 2)

def isSymbolic (s : List Char) : Bool :=
  s.length = 9 && s.zipIdx.all fun (c, i) => isLetterAt i c

/-- Each letter that is no dash sets the bit of its position. -/
def symbolicValue (s : List Char) : Nat :=
  s.foldl (fun n c => 2 * n + if c = '-' then 0 else 1) 0

def isOctalDigit (c : Char) : Bool := '0' ≤ c && c ≤ '7'

def isOctal (s : List Char) : Bool :=
  match s with
  | [a, b, c] => [a, b, c].all isOctalDigit
  | ['0', a, b, c] => [a, b, c].all isOctalDigit
  | _ => false

def octalValue (s : List Char) : Nat := s.foldl (fun n c => 8 * n + (c.toNat - 48)) 0

/-- Reads a mode. A final line feed is overlooked behind octal digits and takes the place of a tenth
letter behind nine. -/
def ofText (s : String) : Except Fault Nat :=
  let cs := s.toList
  let body := Text.dropFinalNewline cs
  if isSymbolic body then
    if body.length = cs.length then .ok (symbolicValue body)
    else .error (.breakdown (.value "negative shift count"))
  else if isOctal body then .ok (octalValue body)
  else .error (.node (.invalidMode s))

def applicable (mode : Nat) (isOwner inGroup : Bool) : Nat :=
  if isOwner then mode / 64 % 8 else if inGroup then mode / 8 % 8 else mode % 8

def grants (bits : Nat) (p : Permission) : Bool := bits &&& p.bit ≠ 0

end Mode
end MemShell
