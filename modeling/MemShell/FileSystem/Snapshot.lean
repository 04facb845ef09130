import MemShell.FileSystem.Basic
import MemShell.Json.Display
import MemShell.Number.Numeral
set_option autoImplicit false

/-!
# Snapshots

The tree and the path of the working directory as a JSON value, and the reading of such a value.
Reading checks every entry; the names of children are taken as they are.
-/
namespace MemShell.FileSystem

def kindText (n : Node) : String := if n.isDir then "d" else "f"

def commonMembers (name kind : String) (a : Attributes) : List (String × Json) :=
  [("name", .str name), ("type", .str kind), ("owner", .str a.owner), ("group", .str a.group),
    ("permissions", .str (Mode.text a.mode)), ("ctime", .real a.ctime), ("mtime", .real a.mtime)]

mutual
def nodeSnapshot (name : String) : Node → Json
  | .file a content => .obj (commonMembers name "f" a ++ [("content", .str content)])
  | .dir a cs => .obj (commonMembers name "d" a ++ [("children", .obj (childSnapshots cs))])

def childSnapshots : List (String × Node) → List (String × Json)
  | [] => []
  | (name, n) :: rest => (name, nodeSnapshot name n) :: childSnapshots rest
end

def snapshot (fs : FileSystem) : Json :=
  .obj [("root", nodeSnapshot "" fs.root), ("cwd", .str fs.workingPath)]

def fieldFault {α : Type} (name reason : String) : Except Fault α :=
  .error (.storage (.corruptedField name reason))

def member (name : String) (members : List (String × Json)) (key : String) : Except Fault Json :=
  match Table.get? members key with
  | some v => .ok v
  | none => fieldFault name (Text.literal key)

def readKind (name : String) (v : Json) : Except Fault Bool :=
  match v with
  | .str "d" => .ok true
  | .str "f" => .ok false
  | v =>
    match v.shown with
    | .ok text => fieldFault name (text ++ " is not a valid NodeType")
    | .error reason => fieldFault name reason

def readMode (name : String) (v : Json) : Except Fault Nat :=
  match v with
  | .str s =>
    match Mode.ofText s with
    | .ok m => .ok m
    | .error f => fieldFault name f.message
  | v => fieldFault name ("expected string or bytes-like object, got '" ++ v.kindName ++ "'")

/-- The time that an integer comes to. An integer beyond all times breaks off. -/
def timeOfInt (nearest : Binary64) : Except Fault Time :=
  match nearest with
  | .infinite _ => .error (.breakdown (.overflow "int too large to convert to float"))
  | x => .ok x

def readTime (name : String) (v : Json) : Except Fault Time :=
  match v with
  | .real x => .ok x
  | .bool b => .ok (Binary64.ofInt (if b then 1 else 0))
  | .int n => timeOfInt (Binary64.ofInt n)
  | .str s =>
    match Number.readDecimal? s with
    | some x => .ok x
    | none => fieldFault name ("could not convert string to float: " ++ Text.literal s)
  | v =>
    fieldFault name ("float() argument must be a string or a real number, not '" ++ v.kindName ++ "'")

def readOwner (name : String) (v : Json) : Except Fault String :=
  match v.plainText with
  | .ok s => .ok s
  | .error reason => fieldFault name reason

def readAttributes (name : String) (members : List (String × Json)) :
    Except Fault (Bool × Attributes) := do
  let isDir ← readKind name (← member name members "type")
  let mode ← readMode name (← member name members "permissions")
  let owner ← readOwner name (← member name members "owner")
  let group ← readOwner name (← member name members "group")
  let ctime ← readTime name (← member name members "ctime")
  let mtime ← readTime name (← member name members "mtime")
  pure (isDir, ⟨owner, group, mode, ctime, mtime⟩)

/-- The text of a file, given as any value. One that cannot be shown breaks off. -/
def readContent (members : List (String × Json)) : Except Fault String :=
  match Table.get? members "content" with
  | none => .ok ""
  | some v =>
    match v.plainText with
    | .ok s => .ok s
    | .error reason => .error (.breakdown (.value reason))

mutual
def readNode (name : String) : Json → Except Fault Node
  | .obj members => do
    let (isDir, attrs) ← readAttributes name members
    if isDir then
      if (Table.get? members "content").isSome then .error (.storage (.directoryWithContent name))
      else pure (.dir attrs (← readChildren name members))
    else if (Table.get? members "children").isSome then .error (.storage (.fileWithChildren name))
    else pure (.file attrs (← readContent members))
  | _ => .error (.storage (.corruptedEntry name))

def readChildren (name : String) : List (String × Json) → Except Fault (List (String × Node))
  | [] => .ok []
  | (key, v) :: rest => if key = "children" then readEntries name v else readChildren name rest

def readEntries (name : String) : Json → Except Fault (List (String × Node))
  | .obj entries => readAll [] entries
  | _ => .error (.storage (.corruptedChildren name))

/-- Reads entries in order; a name that stands already is refused. -/
def readAll (taken : List String) : List (String × Json) → Except Fault (List (String × Node))
  | [] => .ok []
  | (name, v) :: rest => do
    let n ← readNode name v
    if taken.contains name then .error (.node (.exists (Place.text [name])))
    else pure ((name, n) :: (← readAll (name :: taken) rest))
end

/-- Replaces the state by the one that a snapshot describes. A working directory that is no directory
of the tree is replaced by the root. -/
def restore (v : Json) : Update Unit := do
  let root ← Work.lift (readNode "" ((v.member? "root").getD .null))
  if !root.isDir then throw (.storage .rootNotDirectory)
  else
    Work.change fun _ => { root }
    match v.member? "cwd" with
    | some (.str cwd) =>
      Work.change fun fs => if fs.isDirectory cwd then { fs with cwd := fs.place cwd } else fs
    | _ => pure ()

end MemShell.FileSystem
