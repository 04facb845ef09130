import MemShell.FileSystem.Basic
set_option autoImplicit false

namespace MemShell.FileSystem

structure Entry where
  name : String
  place : Place
  node : Node

namespace Entry

def attrs (e : Entry) : Attributes := e.node.attrs

def size (e : Entry) : Nat := e.node.content.length

end Entry

/-- A node without a name is shown as a slash. -/
def shownName (name : String) : String := if name.isEmpty then "/" else name

def list (fs : FileSystem) (a : Actor) (path : String) (hidden : Bool := false) :
    Except Fault (List Entry) := do
  let p := fs.place path
  let n ← fs.node p
  if n.isDir then
    a.require p n .execute
    let shown := n.children.filter fun c => hidden || !c.1.startsWith "."
    pure (sortByKey (·.name) (shown.map fun (name, c) => ⟨shownName name, p ++ [name], c⟩))
  else pure [⟨shownName p.name, p, n⟩]

mutual
/-- A node and all below it, each with its place; children come in ascending order of their names. -/
def below (p : Place) (n : Node) : List (Place × Node) :=
  match n with
  | .file .. => [(p, n)]
  | .dir _ cs => (p, n) :: ((sortByKey (·.1) (belowAll p cs)).map (·.2)).flatten

def belowAll (p : Place) (cs : List (String × Node)) : List (String × List (Place × Node)) :=
  match cs with
  | [] => []
  | (name, n) :: rest => (name, below (p ++ [name]) n) :: belowAll p rest
end

def walk (fs : FileSystem) (path : String) : Except Fault (List (Place × Node)) := do
  let p := fs.place path
  pure (below p (← fs.node p))

inductive Drawing where
  | node (label : String) (below : List Drawing)

def Drawing.label : Drawing → String
  | .node l _ => l

mutual
def Drawing.lines (indent : String) : List Drawing → List String
  | [] => []
  | d :: rest => Drawing.branch indent rest.isEmpty d ++ Drawing.lines indent rest

def Drawing.branch (indent : String) (last : Bool) : Drawing → List String
  | .node label children =>
    (indent ++ (if last then "└── " else "├── ") ++ label) ::
      Drawing.lines (indent ++ if last then "    " else "│   ") children
end

mutual
/-- The drawing of a child. What is in a directory shows only if the actor may execute it. -/
def draw (a : Actor) (name : String) (n : Node) : Drawing :=
  match n with
  | .file .. => .node name []
  | .dir _ cs =>
    .node (name ++ "/")
      (if a.may n .execute then (sortByKey (·.1) (drawAll a cs)).map (·.2) else [])

def drawAll (a : Actor) (cs : List (String × Node)) : List (String × Drawing) :=
  match cs with
  | [] => []
  | (name, n) :: rest => (name, draw a name n) :: drawAll a rest
end

def drawTree (fs : FileSystem) (a : Actor) (path : String) : Except Fault String := do
  let p := fs.place path
  let d ← fs.directory p
  a.require p d .execute
  let children := (sortByKey (·.1) (drawAll a d.children)).map (·.2)
  pure ("\n".intercalate (Place.text p :: Drawing.lines "" children))

end MemShell.FileSystem
