import MemShell.Json.Value
import MemShell.Number.Shortest
set_option autoImplicit false

namespace MemShell.Json

def hexDigit (n : Nat) : Char := "0123456789abcdef".toList.getD n '0'

def escapeUnit (n : Nat) : List Char :=
  ['\\', 'u', hexDigit (n / 4096 % 16), hexDigit (n / 256 % 16), hexDigit (n / 16 % 16),
    hexDigit (n % 16)]

def escapeChar (c : Char) : List Char :=
  let n := c.toNat
  if c = '"' then ['\\', '"']
  else if c = '\\' then ['\\', '\\']
  else if c = '\n' then ['\\', 'n']
  else if c = '\r' then ['\\', 'r']
  else if c = '\t' then ['\\', 't']
  else if n = 8 then ['\\', 'b']
  else if n = 12 then ['\\', 'f']
  else if 32 ≤ n ∧ n < 127 then [c]
  else if n < 0x10000 then escapeUnit n
  else
    escapeUnit (0xD800 + (n - 0x10000) / 1024) ++ escapeUnit (0xDC00 + (n - 0x10000) % 1024)

def quote (s : String) : String := "\"" ++ String.ofList (s.toList.flatMap escapeChar) ++ "\""

def numberText : Binary64 → String
  | .nan => "NaN"
  | .infinite n => if n then "-Infinity" else "Infinity"
  | x => x.text

inductive Layout where
  | line (comma colon : String)
  | indented (step : Nat)

namespace Layout

def opening : Layout → Nat → String
  | .line .., _ => ""
  | .indented step, depth => "\n" ++ String.ofList (List.replicate (step * (depth + 1)) ' ')

def between : Layout → Nat → String
  | .line comma _, _ => comma
  | l@(.indented _), depth => "," ++ l.opening depth

def closing : Layout → Nat → String
  | .line .., _ => ""
  | .indented step, depth => "\n" ++ String.ofList (List.replicate (step * depth) ' ')

def colon : Layout → String
  | .line _ c => c
  | .indented _ => ": "

end Layout

mutual
def write (layout : Layout) (depth : Nat) : Json → String
  | .null => "null"
  | .bool b => if b then "true" else "false"
  | .int n => toString n
  | .real x => numberText x
  | .str s => quote s
  | .arr [] => "[]"
  | .arr (v :: vs) =>
    "[" ++ layout.opening depth ++ write layout (depth + 1) v ++ writeItems layout depth vs ++
      layout.closing depth ++ "]"
  | .obj [] => "\x7b\x7d"
  | .obj ((k, v) :: ms) =>
    "\x7b" ++ layout.opening depth ++ quote k ++ layout.colon ++ write layout (depth + 1) v ++
      writeMembers layout depth ms ++ layout.closing depth ++ "\x7d"

def writeItems (layout : Layout) (depth : Nat) : List Json → String
  | [] => ""
  | v :: vs =>
    layout.between depth ++ write layout (depth + 1) v ++ writeItems layout depth vs

def writeMembers (layout : Layout) (depth : Nat) : List (String × Json) → String
  | [] => ""
  | (k, v) :: ms =>
    layout.between depth ++ quote k ++ layout.colon ++ write layout (depth + 1) v ++
      writeMembers layout depth ms
end

def compact (v : Json) : String := write (.line "," ":") 0 v

def spaced (v : Json) : String := write (.line ", " ": ") 0 v

def pretty (v : Json) : String := write (.indented 2) 0 v

end MemShell.Json
