import MemShell.Fault
set_option autoImplicit false

namespace MemShell

/-- How the case of letters counts: exactly, only for ASCII letters ignored, or ignored. -/
inductive Fold where
  | exact | ascii | full
deriving DecidableEq, Repr

inductive CharClass where
  | digit | space | word
deriving DecidableEq, Repr

inductive SetItem where
  | char (c : Nat)
  | range (first last : Nat)
  | kind (k : CharClass) (inverted ascii : Bool)
deriving DecidableEq, Repr

inductive Edge where
  | textStart | textEnd
  /-- The end, or the place before a final line feed. -/
  | lastLineEnd
  | lineStart | lineEnd
  | boundary (inverted ascii : Bool)
deriving DecidableEq, Repr

inductive Greed where
  | greedy | lazy | possessive
deriving DecidableEq, Repr

inductive Side where
  | ahead
  /-- Behind the place, by the width of the part. -/
  | behind (width : Nat)
deriving DecidableEq, Repr

inductive Pattern where
  | char (fold : Fold) (c : Nat)
  | notChar (fold : Fold) (c : Nat)
  | any (lineFeeds : Bool)
  | oneOf (fold : Fold) (inverted : Bool) (items : List SetItem)
  | edge (e : Edge)
  | seq (parts : List Pattern)
  | either (options : List Pattern)
  | many (greed : Greed) (atLeast : Nat) (atMost : Option Nat) (part : Pattern)
  | group (number : Nat) (part : Pattern)
  | atomic (part : Pattern)
  | look (side : Side) (inverted : Bool) (part : Pattern)
  | sameAs (fold : Fold) (number : Nat)
  | ifMatched (number : Nat) (yes no : Pattern)
deriving Repr

inductive PatternFault where
  /-- A fault of the pattern, at a place in it if it has one. -/
  | invalid (text : String) (at? : Option Nat)
  /-- A count beyond what is counted. -/
  | countTooLarge
  | clashingSettings
deriving DecidableEq, Repr

/-- The message, with the place where the fault was found: its line and column too, if the pattern
has more than one line. -/
def PatternFault.message (pattern : String) : PatternFault → String
  | .invalid text none => text
  | .invalid text (some p) =>
    let before := pattern.toList.take p
    let column := p + 1 - (before.reverse.dropWhile (· ≠ '\n')).length
    text ++ " at position " ++ toString p ++
      (if pattern.toList.contains '\n' then
        " (line " ++ toString (before.count '\n' + 1) ++ ", column " ++ toString column ++ ")"
      else "")
  | .countTooLarge => "the repetition number is too large"
  | .clashingSettings => "ASCII and UNICODE flags are incompatible"

end MemShell
