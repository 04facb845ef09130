import MemShell.Token
set_option autoImplicit false

/-!
# Pipelines

A line is a sequence of pipelines with an operator behind each. A pipeline passes text from command
to command; it may read its first input from a file and write its last output to one.
-/
namespace MemShell

structure Segment where
  name : String
  args : List String := []
deriving DecidableEq, Repr

structure Redirect where
  path : String
  append : Bool := false
deriving DecidableEq, Repr

structure Pipeline where
  segments : List Segment
  input : Option String := none
  output : Option Redirect := none
  background : Bool := false
deriving DecidableEq, Repr

inductive Connective where
  | semicolon | both | either | background
deriving DecidableEq, Repr

def Connective.symbol : Connective → String
  | .semicolon => ";"
  | .both => "&&"
  | .either => "||"
  | .background => "&"

def Connective.ofSymbol? (s : String) : Option Connective :=
  [.semicolon, .both, .either, .background].find? fun c => c.symbol = s

theorem Connective.ofSymbol?_symbol (c : Connective) : ofSymbol? c.symbol = some c := by
  cases c <;> decide

structure SequenceItem where
  pipeline : Pipeline
  connective : Option Connective := none
deriving DecidableEq, Repr

def Segment.words (s : Segment) : List String := s.name :: s.args

/-- The command as it is shown in the list of jobs; an input of no name is left out. -/
def Pipeline.describe (p : Pipeline) : String :=
  let command := " | ".intercalate (p.segments.map fun s => " ".intercalate s.words)
  let input := match p.input with
    | some path => if path.isEmpty then "" else " < " ++ path
    | none => ""
  let output := match p.output with
    | some r => (if r.append then " >> " else " > ") ++ r.path
    | none => ""
  command ++ input ++ output

namespace Pipeline

def unexpected {α : Type} (text : String) : Except Fault α :=
  .error (.grammar (.unexpectedToken text))

def isPipe (t : Token) : Bool := t.isOperator && t.text = "|"

def pushToken (t : Token) : List (List Token) → List (List Token)
  | [] => [[t]]
  | s :: ss => (t :: s) :: ss

def stages : List Token → List (List Token)
  | [] => [[]]
  | t :: ts => if isPipe t then [] :: stages ts else pushToken t (stages ts)

/-- Every stage has a token; a missing one is reported at the pipe that follows it, and the last
one at its own pipe, or at the end of the line. -/
def checkStages (ss : List (List Token)) : Except Fault Unit :=
  if ss.any (·.isEmpty) then unexpected (if ss.length = 1 then "" else "|") else .ok ()

structure Draft where
  input : Option String := none
  output : Option Redirect := none
deriving DecidableEq, Repr

def redirect (isFirst isLast : Bool) (symbol path : String) (d : Draft) : Except Fault Draft :=
  if symbol = "<" then
    if !isFirst then .error (.grammar .inputNotFirst)
    else if d.input.isSome then .error (.grammar .duplicateInput)
    else .ok { d with input := some path }
  else if !isLast then .error (.grammar .outputNotLast)
  else if d.output.isSome then .error (.grammar .duplicateOutput)
  else .ok { d with output := some ⟨path, symbol = ">>"⟩ }

def isRedirection (symbol : String) : Bool := symbol = "<" || symbol = ">" || symbol = ">>"

def readStage (isFirst isLast : Bool) (d : Draft) :
    List Token → Except Fault (List String × Draft)
  | [] => .ok ([], d)
  | t :: ts =>
    if t.isWord then
      match readStage isFirst isLast d ts with
      | .ok (words, d) => .ok (t.text :: words, d)
      | .error f => .error f
    else if !isRedirection t.text then unexpected t.text
    else match ts with
      | [] => unexpected ""
      | target :: ts =>
        if !target.isWord then unexpected target.text
        else match redirect isFirst isLast t.text target.text d with
          | .ok d => readStage isFirst isLast d ts
          | .error f => .error f

def readStages (isFirst : Bool) (d : Draft) : List (List Token) → Except Fault (List Segment × Draft)
  | [] => .ok ([], d)
  | stage :: rest =>
    match readStage isFirst rest.isEmpty d stage with
    | .error f => .error f
    | .ok ([], _) => .error (.grammar .missingCommand)
    | .ok (name :: args, d) =>
      match readStages false d rest with
      | .ok (segments, d) => .ok (⟨name, args⟩ :: segments, d)
      | .error f => .error f

def ofTokens (ts : List Token) : Except Fault Pipeline := do
  let ss := stages ts
  checkStages ss
  let (segments, d) ← readStages true {} ss
  pure { segments, input := d.input, output := d.output }

end Pipeline

namespace SequenceItem

def connective? (t : Token) : Option Connective :=
  if t.isOperator then Connective.ofSymbol? t.text else none

/-- Reads on with the tokens of the pipeline at hand and the operator in front of it. Semicolons may
stand alone; `&&` and `||` need a pipeline on both sides, `&` one in front. -/
def ofTokensFrom (group : List Token) (previous : Option Connective) :
    List Token → Except Fault (List SequenceItem)
  | [] =>
    if !group.isEmpty then
      match Pipeline.ofTokens group with
      | .ok p => .ok [⟨p, none⟩]
      | .error f => .error f
    else if previous = some .both ∨ previous = some .either then Pipeline.unexpected ""
    else .ok []
  | t :: ts =>
    match connective? t with
    | none => ofTokensFrom (group ++ [t]) previous ts
    | some op =>
      if group.isEmpty then
        if op = .semicolon then ofTokensFrom [] (some op) ts else Pipeline.unexpected t.text
      else
        match Pipeline.ofTokens group with
        | .error f => .error f
        | .ok p =>
          match ofTokensFrom [] (some op) ts with
          | .ok items => .ok (⟨{ p with background := op = .background }, some op⟩ :: items)
          | .error f => .error f

def ofTokens (ts : List Token) : Except Fault (List SequenceItem) := ofTokensFrom [] none ts

def ofLine (line : String) : Except Fault (List SequenceItem) := do
  ofTokens (← Token.ofLine line)

end SequenceItem
end MemShell
