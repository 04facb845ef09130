import MemShell.Text.Blank
set_option autoImplicit false

namespace MemShell.Line
open Text

/-- The part of a line in front of its comment, inside the quote that was opened; `fresh` says that
the line starts here or the last character was a blank. -/
def beforeComment (quote : Option Char) (fresh : Bool) : List Char → List Char
  | [] => []
  | c :: rest =>
    match quote with
    | some q => c :: beforeComment (if c = q then none else some q) (isBlank c) rest
    | none =>
      if c = '\'' ∨ c = '"' then c :: beforeComment (some c) false rest
      else if c = '#' && fresh then []
      else c :: beforeComment none (isBlank c) rest

def stripComment (line : String) : String :=
  String.ofList (trim (beforeComment none true line.toList))

end MemShell.Line
