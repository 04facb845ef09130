import MemShell.Text.Blank
import MemShell.Table
import MemShell.Fault
set_option autoImplicit false

/-!
# Aliases

The first word of a line is replaced by the text of its alias, again and again up to a limit. The
texts of the aliases and the rest of the line are joined by single blanks, empty ones left out.
-/
namespace MemShell
open Text

structure Aliases where
  limit : Int := 10
  entries : Table String String := []

namespace Aliases

def set (a : Aliases) (name value : String) : Except Fault Aliases :=
  if name.isEmpty || name.toList.any isBlank then .error (.invalidAlias name)
  else .ok { a with entries := a.entries.put name value }

def remove (a : Aliases) (name : String) : Bool × Aliases :=
  (a.entries.contains name, { a with entries := a.entries.erase name })

def get? (a : Aliases) (name : String) : Option String := a.entries.get? name

/-- Joins the parts that are not empty by single blanks. -/
def joinParts (parts : List String) : String := " ".intercalate (parts.filter (!·.isEmpty))

def splitFirst (s : String) : String × String :=
  let (word, rest) := firstWord (trim s.toList)
  (String.ofList word, String.ofList rest)

def expand (a : Aliases) : Nat → String × String → String × String
  | 0, line => line
  | fuel + 1, (command, rest) =>
    match a.get? command with
    | none => (command, rest)
    | some value =>
      let (first, others) := splitFirst value
      expand a fuel (first, joinParts [others, rest])

/-- Resolves the command of a line; a line without a word stays as it is. -/
def resolve (a : Aliases) (line : String) : Except Fault String :=
  let (first, rest) := splitFirst line
  if first.isEmpty then .ok line
  else
    let (command, rest) := a.expand a.limit.toNat (first, rest)
    if (a.get? command).isSome then .error (.grammar (.aliasLoop first))
    else .ok (joinParts [command, rest])

end Aliases
end MemShell
