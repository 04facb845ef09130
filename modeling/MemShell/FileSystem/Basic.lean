import MemShell.Node
import MemShell.Mode
import MemShell.Accounts
import MemShell.Work
set_option autoImplicit false

/-!
# The file system

A tree with a working directory. An operation is work on it that is done by an actor, who has a name,
belongs to groups and acts at a point in time. It changes the tree step by step, and a fault leaves
the tree as the steps before it have made it.
-/
namespace MemShell

structure FileSystem where
  root : Node
  cwd : Place := []

structure Actor where
  user : String
  accounts : Accounts
  now : Time

namespace Actor

/-- Root may do everything; for others the bits of the owner, the group or the rest decide. -/
def may (a : Actor) (n : Node) (p : Permission) : Bool :=
  a.user = rootUser ||
    Mode.grants
      (Mode.applicable n.attrs.mode (a.user = n.attrs.owner)
        (a.accounts.isMember a.user n.attrs.group)) p

/-- Group and mode are changed by the owner and by root, whatever the bits. -/
def owns (a : Actor) (n : Node) : Bool := a.user = rootUser || a.user = n.attrs.owner

def require (a : Actor) (place : Place) (n : Node) (p : Permission) : Except Fault Unit :=
  if a.may n p then .ok () else .error (.node (.denied (Place.text place)))

def requireOwner (a : Actor) (place : Place) (n : Node) (action : String) : Except Fault Unit :=
  if a.owns n then .ok () else .error (.node (.notOwner action (Place.text place)))

def attributes (a : Actor) (mode : Nat) : Attributes :=
  ⟨a.user, a.accounts.primaryGroup a.user, mode, a.now, a.now⟩

def newDirectory (a : Actor) : Node := .dir (a.attributes Mode.ofDirectory) []

def newFile (a : Actor) (content : String) : Node := .file (a.attributes Mode.ofFile) content

end Actor

namespace FileSystem

def rootDirectory (now : Time) (children : List (String × Node)) : Node :=
  .dir ⟨rootUser, rootUser, Mode.ofDirectory, now, now⟩ children

def empty (now : Time) : FileSystem := { root := rootDirectory now [] }

/-- A root with `/home` and, for a user other than root, a private home to start in. -/
def fresh (accounts : Accounts) (now : Time) (user : Option String) : FileSystem :=
  match user with
  | none => { root := rootDirectory now [("home", rootDirectory now [])] }
  | some name =>
    if name.isEmpty ∨ name = rootUser then
      { root := rootDirectory now [("home", rootDirectory now [])] }
    else
      let attrs : Attributes :=
        ⟨name, accounts.primaryGroup name, Mode.ofPrivateDirectory, now, now⟩
      { root := rootDirectory now [("home", rootDirectory now [(name, .dir attrs [])])]
        cwd := ["home", name] }

def place (fs : FileSystem) (path : String) : Place := Place.ofPath fs.cwd path

def at? (fs : FileSystem) (p : Place) : Option Node := fs.root.at? p

def node (fs : FileSystem) (p : Place) : Except Fault Node := fs.root.resolve [] p

def directory (fs : FileSystem) (p : Place) : Except Fault Node := do
  let n ← fs.node p
  if n.isDir then pure n else .error (.node (.notDirectory (Place.text p)))

def modify (fs : FileSystem) (p : Place) (f : Node → Node) : FileSystem :=
  { fs with root := fs.root.modify f p }

def stamp (fs : FileSystem) (now : Time) (p : Place) : FileSystem :=
  let fs := fs.modify p (Node.touched now)
  if p.isEmpty then fs else fs.modify p.parent (Node.touched now)

def insert (fs : FileSystem) (now : Time) (parent : Place) (name : String) (n : Node) :
    FileSystem :=
  fs.modify parent (Node.withChild now name n)

def detach (fs : FileSystem) (now : Time) (parent : Place) (name : String) : FileSystem :=
  fs.modify parent (Node.without now name)

def workingPath (fs : FileSystem) : String := Place.text fs.cwd

def has (fs : FileSystem) (path : String) : Bool := (fs.at? (fs.place path)).isSome

def isDirectory (fs : FileSystem) (path : String) : Bool :=
  ((fs.at? (fs.place path)).map Node.isDir).getD false

def isFile (fs : FileSystem) (path : String) : Bool :=
  ((fs.at? (fs.place path)).map fun n => !n.isDir).getD false

end FileSystem

abbrev Update := Work FileSystem

namespace FileSystem

def attach (now : Time) (parent : Place) (name : String) (n : Node) : Update Unit := do
  let d ← Work.ask (·.node parent)
  match d.child? name with
  | some _ => throw (.node (.exists (Place.text (parent ++ [name]))))
  | none => Work.change (·.insert now parent name (n.touched now))

def takeOut (now : Time) (parent : Place) (name : String) : Update Unit := do
  let d ← Work.ask (·.node parent)
  match d.child? name with
  | some _ => Work.change (·.detach now parent name)
  | none => throw (.node (.notFound (Place.text (parent ++ [name]))))

def reset (a : Actor) (user : Option String) : Update Unit :=
  Work.change fun _ => fresh a.accounts a.now user

def enter (a : Actor) (path : String) : Update Unit := do
  let p := (← get).place path
  let d ← Work.ask (·.directory p)
  Work.lift (a.require p d .execute)
  Work.change fun fs => { fs with cwd := p }

end FileSystem
end MemShell
