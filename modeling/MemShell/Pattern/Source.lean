import MemShell.Pattern.Syntax
set_option autoImplicit false

namespace MemShell.Pattern

structure Symbol where
  place : Nat
  text : List Char
deriving DecidableEq, Repr

structure Source where
  rest : List Symbol
  /-- The place behind the last character. -/
  final : Nat
  /-- Whether a lone backslash follows the symbols. -/
  cutShort : Bool
deriving Repr

def symbols (place : Nat) : List Char → List Symbol × Bool
  | [] => ([], false)
  | ['\\'] => ([], true)
  | '\\' :: c :: rest =>
    let (later, cutShort) := symbols (place + 2) rest
    (⟨place, ['\\', c]⟩ :: later, cutShort)
  | c :: rest =>
    let (later, cutShort) := symbols (place + 1) rest
    (⟨place, [c]⟩ :: later, cutShort)

namespace Source

def faultAt (place back : Nat) (text : String) : PatternFault := .invalid text (some (place - back))

def check (s : Source) : Except PatternFault Source :=
  if s.cutShort && s.rest.isEmpty then
    .error (faultAt s.final 1 "bad escape (end of pattern)")
  else .ok s

def ofText (text : String) : Except PatternFault Source :=
  let cs := text.toList
  let (rest, cutShort) := symbols 0 cs
  check ⟨rest, cs.length, cutShort⟩

def place (s : Source) : Nat :=
  match s.rest with
  | [] => s.final
  | t :: _ => t.place

def next? (s : Source) : Option (List Char) := s.rest.head?.map (·.text)

def nextChar? (s : Source) : Option Char :=
  match s.next? with
  | some [c] => some c
  | _ => none

def advance (s : Source) : Except PatternFault Source :=
  match s.rest with
  | [] => .ok s
  | _ :: rest => check { s with rest }

end Source
end MemShell.Pattern
