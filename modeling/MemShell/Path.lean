set_option autoImplicit false

/-!
# Paths

A path is an anchor and the names behind it. Reading a path drops empty names and single dots;
double dots stay until a place in the tree is computed from it. Exactly two leading slashes are an
anchor of their own.
-/
namespace MemShell

inductive Anchor where
  | relative | root | doubleRoot
deriving DecidableEq, Repr

structure Path where
  anchor : Anchor
  names : List String
deriving DecidableEq, Repr

namespace Path

def splitSlashes : List Char → List (List Char)
  | [] => [[]]
  | c :: rest =>
    if c = '/' then [] :: splitSlashes rest
    else match splitSlashes rest with
      | [] => [[c]]
      | p :: ps => (c :: p) :: ps

def anchorOf : List Char → Anchor
  | '/' :: '/' :: '/' :: _ => .root
  | '/' :: '/' :: _ => .doubleRoot
  | '/' :: _ => .root
  | _ => .relative

/-- The names of a text, without empty ones and single dots. -/
def namesOf (s : List Char) : List String :=
  ((splitSlashes s).map String.ofList).filter fun n => !n.isEmpty && n ≠ "."

def ofText (s : String) : Path := ⟨anchorOf s.toList, namesOf s.toList⟩

def isAbsolute (p : Path) : Bool := p.anchor ≠ .relative

def text (p : Path) : String :=
  let names := "/".intercalate p.names
  match p.anchor with
  | .root => "/" ++ names
  | .doubleRoot => "//" ++ names
  | .relative => if p.names.isEmpty then "." else names

def join (p q : Path) : Path := if q.isAbsolute then q else ⟨p.anchor, p.names ++ q.names⟩

def name? (p : Path) : Option String := p.names.getLast?

def parent (p : Path) : Path := { p with names := p.names.dropLast }

end Path

abbrev Place := List String

namespace Place

/-- Goes down to a name, or up at double dots; above the root there is only the root. -/
def step (p : Place) (name : String) : Place :=
  if name = ".." then p.dropLast else if name = "." then p else p ++ [name]

def walk (p : Place) (names : List String) : Place := names.foldl step p

/-- The path to a place. Names that a path cannot hold are lost or read as several. -/
def path (p : Place) : Path := Path.ofText ("/" ++ "/".intercalate p)

def text (p : Place) : String := p.path.text

def ofPath (cwd : Place) (s : String) : Place :=
  let p := Path.ofText s
  if p.isAbsolute then walk [] p.names
  else walk [] (cwd.path.names ++ p.names)

def parent (p : Place) : Place := p.dropLast

def name (p : Place) : String := p.getLast?.getD ""

def within (p q : Place) : Bool := q.isPrefixOf p

end Place

def isValidName (name : String) : Bool :=
  !name.isEmpty && name ≠ "." && name ≠ ".." &&
    name.toList.all fun c => c ≠ '/' && c ≠ Char.ofNat 0

end MemShell
