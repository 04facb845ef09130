import MemShell.Shell.State
import MemShell.FileSystem.Content
import MemShell.Pattern.Matcher
set_option autoImplicit false

namespace MemShell.Builtins
open MemShell.Text

structure Source where
  name : Option String
  text : String
deriving DecidableEq, Repr

def Source.label (s : Source) : String := s.name.getD "None"

def inputSource (c : Context) : Source := ⟨none, c.inputText⟩

def checkedSources (c : Context) : Effect (List Source) :=
  if c.paths.isEmpty then pure [inputSource c]
  else
    c.paths.mapM fun p => do
      pure ⟨some p.arg, ← Effect.readFiles c.user fun fs a => fs.readText a (Place.text p.place)⟩

def namedSources (c : Context) (files : List String) : Effect (List Source) :=
  if files.isEmpty then pure [inputSource c]
  else
    files.mapM fun f => do
      pure ⟨some f, ← Effect.readFiles c.user fun fs a => fs.readText a f⟩

def joinLines (ls : List String) : String := String.join (ls.map (· ++ "\n"))

def echo (c : Context) : Effect (Result String) :=
  let text := " ".intercalate c.args
  pure (.text (if c.hasFlag "no_newline" then text else text ++ "\n"))

def cat (c : Context) : Effect (Result String) := do
  let sources ← checkedSources c
  pure (.text (String.join (sources.map (·.text))))

inductive Measure where
  | lines | words | bytes
deriving DecidableEq, Repr

def Measure.flag : Measure → String
  | .lines => "lines"
  | .words => "words"
  | .bytes => "bytes"

/-- Line feeds, words between blanks, and bytes of the UTF-8 form. -/
def Measure.count (m : Measure) (text : String) : Nat :=
  match m with
  | .lines => text.toList.count '\n'
  | .words => (wordsOf text).length
  | .bytes => text.utf8ByteSize

def countRow (ms : List Measure) (s : Source) : String :=
  " ".intercalate (ms.map (fun m => toString (m.count s.text)) ++ s.name.toList)

def wc (c : Context) : Effect (Result String) := do
  let all : List Measure := [.lines, .words, .bytes]
  let chosen := all.filter fun m => c.hasFlag m.flag
  let sources ← checkedSources c
  pure (.text (joinLines (sources.map (countRow (if chosen.isEmpty then all else chosen)))))

inductive End where
  | first | last
deriving DecidableEq

def End.keep {α : Type} (e : End) (count : Nat) (xs : List α) : List α :=
  match e with
  | .first => xs.take count
  | .last => xs.drop (xs.length - count)

def cutLines (e : End) (count : Nat) (text : String) : String :=
  String.ofList ((e.keep count (lines text.toList)).flatMap Line.text)

def cutChars (e : End) (count : Nat) (text : String) : String :=
  String.ofList (e.keep count text.toList)

def countFlag (c : Context) (flag : String) : Except Fault (Option Nat) :=
  match c.flags.value? flag with
  | none => .ok none
  | some raw =>
    match Number.readInt? raw with
    | some (.ofNat n) => .ok (some n)
    | _ => .error (c.fault (.invalidNumber raw))

def underNames (cut : String → String) (sources : List Source) : String :=
  match sources with
  | [s] => cut s.text
  | _ => "\n".intercalate (sources.map fun s => "==> " ++ s.label ++ " <==\n" ++ cut s.text)

/-- Characters are counted if their flag is set, else lines, of which there are ten by default. -/
def cutter (c : Context) (e : End) : Except Fault (String → String) := do
  match c.flags.value? "bytes" with
  | some _ => pure (cutChars e ((← countFlag c "bytes").getD 0))
  | none => pure (cutLines e ((← countFlag c "lines").getD 10))

def cutSources (c : Context) (e : End) : Effect (Result String) := do
  let cut ← Work.lift (cutter c e)
  let sources ← checkedSources c
  pure (.text (underNames cut sources))

structure Search where
  matching : String → Bool
  invert : Bool := false
  numbered : Bool := false
  counted : Bool := false

def Search.chosen (s : Search) (text : String) : List (String × Nat) :=
  ((lineBodies text).zipIdx 1).filter fun (line, _) => s.matching line != s.invert

def Search.rows (s : Search) (named : Bool) (source : Source) : List String :=
  let label := if named then source.label ++ ":" else ""
  let chosen := s.chosen source.text
  if s.counted then [label ++ toString chosen.length]
  else chosen.map fun (line, n) => label ++ (if s.numbered then toString n ++ ":" else "") ++ line

def Search.text (s : Search) (sources : List Source) : String :=
  joinLines (sources.flatMap (s.rows (1 < sources.length)))

def patternFault (c : Context) (pattern : String) (f : PatternFault) : Fault :=
  match f with
  | .invalid .. => c.fault (.invalidPattern (f.message pattern))
  | .countTooLarge => .breakdown (.overflow (f.message pattern))
  | .clashingSettings => .breakdown (.value (f.message pattern))

def grep (c : Context) : Effect (Result String) := do
  let pattern := c.args.headD ""
  match Pattern.read (c.hasFlag "ignore_case") pattern with
  | .error f => throw (patternFault c pattern f)
  | .ok p => do
    let sources ← namedSources c c.args.tail
    let search : Search :=
      ⟨p.occursIn, c.hasFlag "invert", c.hasFlag "line_number", c.hasFlag "count"⟩
    pure (.text (search.text sources))

/-- The number at the start of a line behind blanks, and zero without one. -/
def leadingNumber (line : String) : Binary64 :=
  let cs := line.toList.dropWhile isBlank
  let (sign, cs) := match cs with
    | '-' :: rest => (['-'], rest)
    | _ => ([], cs)
  let whole := cs.takeWhile Number.isDigit
  let fraction := match cs.dropWhile Number.isDigit with
    | '.' :: rest =>
      let ds := rest.takeWhile Number.isDigit
      if ds.isEmpty then [] else '.' :: ds
    | _ => []
  if whole.isEmpty then .zero
  else (Number.readDecimal? (String.ofList (sign ++ whole ++ fraction))).getD .zero

def numericLE (a b : Binary64 × String) : Bool :=
  a.1.lt b.1 || (!b.1.lt a.1 && !decide (b.2 < a.2))

structure Order where
  numeric : Bool := false
  reverse : Bool := false
  unique : Bool := false

def Order.sort (o : Order) (ls : List String) : List String :=
  let ls := if o.unique then ls.eraseDups else ls
  let sorted :=
    if o.numeric then ((ls.map fun l => (leadingNumber l, l)).mergeSort numericLE).map (·.2)
    else sortTexts ls
  if o.reverse then sorted.reverse else sorted

def sort (c : Context) : Effect (Result String) := do
  let sources ← checkedSources c
  let order : Order := ⟨c.hasFlag "numeric", c.hasFlag "reverse", c.hasFlag "unique"⟩
  pure (.text (joinLines (order.sort (sources.flatMap fun s => lineBodies s.text))))

end MemShell.Builtins
