import MemShell.Pattern.Parser
import MemShell.Text.LetterCase
set_option autoImplicit false

/-!
# Matching patterns

A pattern is matched from a place in a text by trying its choices in order, each followed by what
comes after the pattern; the first way that succeeds counts. A repetition of parts that match no
character ends by itself, so a bound on its rounds is never reached.
-/
namespace MemShell
open MemShell.Text

namespace Fold

def form (f : Fold) (n : Nat) : Nat :=
  match f with
  | .exact => n
  | .ascii => if 65 ≤ n && n ≤ 90 then n + 32 else n
  | .full => smallForm n

def accepts (f : Fold) (c n : Nat) : Bool :=
  match f with
  | .exact | .ascii => f.form c = f.form n
  | .full => (twinsOf (smallForm c)).contains (smallForm n)

def kin (f : Fold) (n : Nat) : List Nat :=
  match f with
  | .exact => [n]
  | .ascii => if isAsciiLetter then [smaller, smaller - 32] else [n]
  | .full => sameLetter n
where
  smaller : Nat := Fold.ascii.form n
  isAsciiLetter : Bool := 97 ≤ smaller && smaller ≤ 122

end Fold

namespace CharClass

def matchesAscii (k : CharClass) (n : Nat) : Bool :=
  match k with
  | .digit => 48 ≤ n && n ≤ 57
  | .space => (9 ≤ n && n ≤ 13) || n == 32
  | .word => (48 ≤ n && n ≤ 57) || (65 ≤ n && n ≤ 90) || (97 ≤ n && n ≤ 122) || n == 95

def accepts (k : CharClass) (ascii : Bool) (c : Char) : Bool :=
  if ascii then k.matchesAscii c.toNat
  else
    match k with
    | .digit => Number.isDigit c
    | .space => isBlank c
    | .word => isWordChar c

end CharClass

namespace SetItem

/-- Whether a member of a set covers a character. Beyond the first plane a single member covers only
the small form, if case is ignored. -/
def accepts (fold : Fold) (c : Char) : SetItem → Bool
  | .char m =>
    if fold = .full && 0x10000 ≤ m then smallForm c.toNat = m else fold.accepts m c.toNat
  | .range lo hi => (fold.kin c.toNat).any fun n => lo ≤ n && n ≤ hi
  | .kind k inverted ascii => k.accepts ascii c != inverted

end SetItem

namespace Pattern

/-- A place in a text, with what lies behind it in reverse order, and the groups matched so far, the
latest first. -/
structure Spot where
  before : List Char
  after : List Char
  groups : List (Nat × List Char) := []

namespace Spot

def capture (s : Spot) (number : Nat) : Option (List Char) :=
  (s.groups.find? (·.1 = number)).map (·.2)

def close (s from' : Spot) (number : Nat) : Spot :=
  let text := (s.before.take (s.before.length - from'.before.length)).reverse
  { s with groups := (number, text) :: s.groups }

def back (s : Spot) : Nat → Option Spot
  | 0 => some s
  | n + 1 =>
    match s.back n with
    | some ⟨c :: before, after, groups⟩ => some ⟨before, c :: after, groups⟩
    | _ => none

def step (s : Spot) (ok : Char → Bool) : Option Spot :=
  match s.after with
  | c :: after => if ok c then some { s with before := c :: s.before, after } else none
  | [] => none

def isWordAt (ascii : Bool) (s : List Char) : Bool :=
  match s with
  | [] => false
  | c :: _ => CharClass.word.accepts ascii c

/-- An empty text has no boundary, and no place between two either. -/
def holds (s : Spot) : Edge → Bool
  | .textStart => s.before.isEmpty
  | .textEnd => s.after.isEmpty
  | .lastLineEnd => s.after.isEmpty || s.after = ['\n']
  | .lineStart => s.before.isEmpty || s.before.head? = some '\n'
  | .lineEnd => s.after.isEmpty || s.after.head? = some '\n'
  | .boundary inverted ascii =>
    !(s.before.isEmpty && s.after.isEmpty) &&
      ((isWordAt ascii s.before != isWordAt ascii s.after) != inverted)

def stepOver (fold : Fold) : List Char → Spot → Option Spot
  | [], s => some s
  | c :: cs, s =>
    match s.step fun d => fold.form c.toNat = fold.form d.toNat with
    | some s => stepOver fold cs s
    | none => none

end Spot

/-- What comes after a part: a way to go on from a spot, if there is one. -/
abbrev Next := Spot → Option Spot

def times (body : Spot → Next → Option Spot) : Nat → Spot → Next → Option Spot
  | 0, s, next => next s
  | n + 1, s, next => body s fun s => times body n s next

def mayRepeat (most : Option Nat) (last : Option Nat) (s : Spot) : Bool :=
  most ≠ some 0 && last ≠ some s.after.length

def greedily (body : Spot → Next → Option Spot) :
    Nat → Option Nat → Option Nat → Spot → Next → Option Spot
  | 0, _, _, s, next => next s
  | n + 1, most, last, s, next =>
    if mayRepeat most last s then
      match body s fun s' => greedily body n (most.map (· - 1)) (some s.after.length) s' next with
      | some e => some e
      | none => next s
    else next s

def lazily (body : Spot → Next → Option Spot) :
    Nat → Option Nat → Option Nat → Spot → Next → Option Spot
  | 0, _, _, s, next => next s
  | n + 1, most, last, s, next =>
    match next s with
    | some e => some e
    | none =>
      if mayRepeat most last s then
        body s fun s' => lazily body n (most.map (· - 1)) (some s.after.length) s' next
      else none

def possessively (body : Spot → Next → Option Spot) :
    Nat → Option Nat → Option Nat → Spot → Spot
  | 0, _, _, s => s
  | n + 1, most, last, s =>
    if mayRepeat most last s then
      match body s some with
      | some s' => possessively body n (most.map (· - 1)) (some s.after.length) s'
      | none => s
    else s

def timesFirmly (body : Spot → Next → Option Spot) : Nat → Spot → Option Spot
  | 0, s => some s
  | n + 1, s =>
    match body s some with
    | some s => timesFirmly body n s
    | none => none

/-- Rounds of a body from a spot. No more than two rounds can follow the last character. -/
def rounds (body : Spot → Next → Option Spot) (greed : Greed) (least : Nat) (most : Option Nat)
    (s : Spot) (next : Next) : Option Spot :=
  let further := most.map (· - least)
  match greed with
  | .greedy =>
    times body least s fun s => greedily body (s.after.length + 2) further none s next
  | .lazy =>
    times body least s fun s => lazily body (s.after.length + 2) further none s next
  | .possessive =>
    (timesFirmly body least s).bind fun s =>
      next (possessively body (s.after.length + 2) further none s)

mutual

def run : Pattern → Spot → Next → Option Spot
  | .char fold c, s, next => (s.step fun d => fold.accepts c d.toNat).bind next
  | .notChar fold c, s, next => (s.step fun d => !fold.accepts c d.toNat).bind next
  | .any lineFeeds, s, next => (s.step fun d => lineFeeds || d ≠ '\n').bind next
  | .oneOf fold inverted items, s, next =>
    (s.step fun d => items.any (SetItem.accepts fold d) != inverted).bind next
  | .edge a, s, next => if s.holds a then next s else none
  | .seq parts, s, next => runAll parts s next
  | .either options, s, next => runAny options s next
  | .many greed least most part, s, next => rounds (run part) greed least most s next
  | .group number part, s, next => run part s fun s' => next (s'.close s number)
  | .atomic part, s, next => (run part s some).bind next
  | .look side inverted part, s, next =>
    let found :=
      match side with
      | .ahead => run part s some
      | .behind width => (s.back width).bind fun b => run part b some
    match found with
    | some s' => if inverted then none else next { s with groups := s'.groups }
    | none => if inverted then next s else none
  | .sameAs fold number, s, next =>
    match s.capture number with
    | some text => (s.stepOver fold text).bind next
    | none => none
  | .ifMatched number yes no, s, next =>
    if (s.capture number).isSome then run yes s next else run no s next

def runAll : List Pattern → Spot → Next → Option Spot
  | [], s, next => next s
  | p :: ps, s, next => run p s fun s => runAll ps s next

def runAny : List Pattern → Spot → Next → Option Spot
  | [], _, _ => none
  | p :: ps, s, next =>
    match run p s next with
    | some e => some e
    | none => runAny ps s next

end

def occursFrom (p : Pattern) (before : List Char) : List Char → Bool
  | [] => (run p ⟨before, [], []⟩ some).isSome
  | c :: after =>
    (run p ⟨before, c :: after, []⟩ some).isSome || occursFrom p (c :: before) after

def occursIn (p : Pattern) (line : String) : Bool := occursFrom p [] line.toList

end Pattern
end MemShell
