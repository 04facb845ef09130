import MemShell.Command.Contract
import MemShell.Table
set_option autoImplicit false

/-!
# Reading flags

The words of a command are divided into declared flags and arguments. A word that declares nothing
stays an argument, also if it begins with a dash; `--` ends the flags. Short flags may be written
together, and the last of them may take the rest of the word, or the next word, as its value.
-/
namespace MemShell

inductive FlagValue where
  | switch (on : Bool)
  | value (text : Option String)
deriving DecidableEq, Repr

abbrev Flags := Table String FlagValue

namespace Flags

def isOn (flags : Flags) (name : String) : Bool := flags.get? name = some (.switch true)

def value? (flags : Flags) (name : String) : Option String :=
  match flags.get? name with
  | some (.value text) => text
  | _ => none

def initial (specs : List FlagSpec) : Flags :=
  Table.ofList (specs.map fun d => (d.name, if d.takesValue then .value none else .switch false))

/-- Of several flags with one spelling the last one counts. -/
def short? (specs : List FlagSpec) (word : String) : Option FlagSpec :=
  if word.isEmpty then none else specs.reverse.find? fun d => d.short = some word

def long? (specs : List FlagSpec) (word : String) : Option FlagSpec :=
  if word.isEmpty then none else specs.reverse.find? fun d => d.long = some word

/-- Settings of the letters of a cluster, and whether the next word was used up as a value; none if
a letter declares no flag. -/
def cluster (specs : List FlagSpec) (next : Option String) :
    List Char → Except Fault (Option (List (String × FlagValue) × Bool))
  | [] => .ok (some ([], false))
  | c :: rest =>
    match short? specs (String.ofList ['-', c]) with
    | none => .ok none
    | some d =>
      if d.takesValue then
        if !rest.isEmpty then .ok (some ([(d.name, .value (some (String.ofList rest)))], false))
        else
          match next with
          | some v => .ok (some ([(d.name, .value (some v))], true))
          | none => .error (.usage (.shortNeedsValue c.toString))
      else
        match cluster specs next rest with
        | .ok (some (settings, used)) => .ok (some ((d.name, .switch true) :: settings, used))
        | r => r

def putAll (flags : Flags) (settings : List (String × FlagValue)) : Flags :=
  settings.foldl (fun f (name, v) => f.put name v) flags

def splitEquals (word : String) : String × Option String :=
  let cs := word.toList
  (String.ofList (cs.takeWhile (· ≠ '=')),
    match cs.dropWhile (· ≠ '=') with
    | [] => none
    | _ :: value => some (String.ofList value))

def keep (word : String) : Except Fault (Flags × List String) → Except Fault (Flags × List String)
  | .ok (flags, rest) => .ok (flags, word :: rest)
  | .error f => .error f

def readFrom (specs : List FlagSpec) (flags : Flags) :
    List String → Except Fault (Flags × List String)
  | [] => .ok (flags, [])
  | word :: rest =>
    match word.toList with
    | ['-', '-'] => .ok (flags, rest)
    | '-' :: '-' :: _ =>
      let (key, inline) := splitEquals word
      match long? specs key with
      | none => keep word (readFrom specs flags rest)
      | some d =>
        if !d.takesValue then readFrom specs (flags.put d.name (.switch true)) rest
        else
          match inline with
          | some v => readFrom specs (flags.put d.name (.value (some v))) rest
          | none =>
            match rest with
            | [] => .error (.usage (.longNeedsValue key))
            | v :: rest => readFrom specs (flags.put d.name (.value (some v))) rest
    | '-' :: c :: cs =>
      match short? specs word with
      | some d =>
        if !d.takesValue then readFrom specs (flags.put d.name (.switch true)) rest
        else
          match rest with
          | [] => .error (.usage (.shortNeedsValue (String.ofList (c :: cs))))
          | v :: rest => readFrom specs (flags.put d.name (.value (some v))) rest
      | none =>
        match cluster specs rest.head? (c :: cs) with
        | .error f => .error f
        | .ok none => keep word (readFrom specs flags rest)
        | .ok (some (settings, false)) => readFrom specs (flags.putAll settings) rest
        | .ok (some (settings, true)) =>
          match rest with
          | [] => .ok (flags.putAll settings, [])
          | _ :: rest => readFrom specs (flags.putAll settings) rest
    | _ => keep word (readFrom specs flags rest)

def read (specs : List FlagSpec) (words : List String) : Except Fault (Flags × List String) :=
  readFrom specs (initial specs) words

end Flags
end MemShell
