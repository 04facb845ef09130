import MemShell.Pattern.Syntax
set_option autoImplicit false

namespace MemShell

structure Width where
  least : Nat
  most : Nat
deriving DecidableEq, Repr, Inhabited

namespace Width

def limit : Nat := 0x10000000000000000

def cap (w : Width) : Width := ⟨min w.least limit, min w.most limit⟩

def one : Width := ⟨1, 1⟩

def empty : Width := ⟨0, 0⟩

def append (v w : Width) : Width := cap ⟨v.least + w.least, v.most + w.most⟩

def either (v w : Width) : Width := ⟨min v.least w.least, max v.most w.most⟩

def many (w : Width) (atLeast : Nat) (atMost : Option Nat) : Width :=
  cap ⟨w.least * atLeast,
    match atMost with
    | some n => w.most * n
    | none => if w.most = 0 then 0 else limit⟩

end Width

def Greed.operatorName : Greed → String
  | .greedy => "MAX_REPEAT"
  | .lazy => "MIN_REPEAT"
  | .possessive => "POSSESSIVE_REPEAT"

namespace Pattern

mutual

/-- The width of a pattern, given the widths of the groups that it may refer to. -/
def width (groups : Nat → Width) : Pattern → Width
  | .char .. | .notChar .. | .any _ | .oneOf .. => .one
  | .edge _ | .look .. => .empty
  | .seq parts => widthAll groups parts
  | .either options => widthAny groups options
  | .many _ atLeast atMost part => (width groups part).many atLeast atMost
  | .group _ part | .atomic part => width groups part
  | .sameAs _ number => groups number
  | .ifMatched _ yes no => (width groups yes).either (width groups no)

def widthAll (groups : Nat → Width) : List Pattern → Width
  | [] => .empty
  | p :: ps => (width groups p).append (widthAll groups ps)

def widthAny (groups : Nat → Width) : List Pattern → Width
  | [] => .empty
  | [p] => width groups p
  | p :: ps => (width groups p).either (widthAny groups ps)

end

def maxBehind : Nat := 0xFFFFFFFF

def invalidBehind (w : Width) : Option String :=
  if maxBehind < w.least then some "looks too much behind"
  else if w.least ≠ w.most then some "look-behind requires fixed-width pattern"
  else none

mutual

/-- The first part, in reading order, that reads well but cannot be matched. A template may repeat
nothing. -/
def unusable (groups : Nat → Width) (template : Bool) : Pattern → Option String
  | .char .. | .notChar .. | .any _ | .oneOf .. | .edge _ | .sameAs .. => none
  | .seq parts | .either parts => unusableIn groups template parts
  | .many greed _ _ part =>
    if template then some ("internal: unsupported template operator " ++ greed.operatorName)
    else unusable groups template part
  | .group _ part | .atomic part | .look .ahead _ part => unusable groups template part
  | .look (.behind _) _ part =>
    (invalidBehind (width groups part)).or (unusable groups template part)
  | .ifMatched _ yes no =>
    (unusable groups template yes).or (unusable groups template no)

def unusableIn (groups : Nat → Width) (template : Bool) : List Pattern → Option String
  | [] => none
  | p :: ps => (unusable groups template p).or (unusableIn groups template ps)

end

end Pattern
end MemShell
