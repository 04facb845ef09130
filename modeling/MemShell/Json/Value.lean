import MemShell.Table
import MemShell.Number.Binary64
set_option autoImplicit false

namespace MemShell

inductive Json where
  | null
  | bool (b : Bool)
  | int (n : Int)
  | real (x : Binary64)
  | str (s : String)
  | arr (items : List Json)
  | obj (members : List (String × Json))
deriving Inhabited

namespace Json

def member? : Json → String → Option Json
  | .obj members, name => Table.get? members name
  | _, _ => none

def isObject : Json → Bool
  | .obj _ => true
  | _ => false

def text? : Json → Option String
  | .str s => some s
  | _ => none

def int? : Json → Option Int
  | .int n => some n
  | _ => none

def bool? : Json → Option Bool
  | .bool b => some b
  | _ => none

def items : Json → List Json
  | .arr vs => vs
  | _ => []

def texts (v : Json) : List String := v.items.filterMap text?

def ofTexts (xs : List String) : Json := .arr (xs.map .str)

def ofOption {α : Type} (f : α → Json) : Option α → Json
  | some a => f a
  | none => .null

mutual
def sorted : Json → Json
  | .arr items => .arr (sortedItems items)
  | .obj members => .obj (sortByKey (·.1) (sortedMembers members))
  | v => v

def sortedItems : List Json → List Json
  | [] => []
  | v :: vs => sorted v :: sortedItems vs

def sortedMembers : List (String × Json) → List (String × Json)
  | [] => []
  | (k, v) :: ms => (k, sorted v) :: sortedMembers ms
end

end Json
end MemShell
