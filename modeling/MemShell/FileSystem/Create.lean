import MemShell.FileSystem.Basic
set_option autoImplicit false

namespace MemShell.FileSystem

def checkName (name : String) : Except Fault Unit :=
  if isValidName name then .ok () else .error (.node (.invalidName name))

def splitParent (p : Place) : Except Fault (Place × String) :=
  if p.isEmpty then .error (.node .rootTarget) else .ok (p.parent, p.name)

def nearest (above : Place) (n : Node) : Place → Except Fault (Place × List String)
  | [] => .ok (above, [])
  | name :: rest =>
    match n.child? name with
    | none => .ok (above, name :: rest)
    | some c =>
      if c.isDir then nearest (above ++ [name]) c rest
      else .error (.node (.notDirectory (Place.text (above ++ [name]))))

/-- Creates directories one inside the other, below one that stands. -/
def attachChain (a : Actor) (p : Place) : List String → Update Unit
  | [] => pure ()
  | name :: rest => do
    attach a.now p name a.newDirectory
    attachChain a (p ++ [name]) rest

/-- Makes sure that a directory stands at a place, creating what is missing if `parents` is set. -/
def ensure (a : Actor) (p : Place) (parents : Bool) : Update Unit := do
  let (existing, missing) ← Work.ask fun fs => nearest [] fs.root p
  if missing.isEmpty then pure ()
  else if !parents then throw (.node (.notFound (Place.text p)))
  else
    Work.lift (missing.forM checkName)
    let d ← Work.ask (·.node existing)
    Work.lift (a.require existing d .write)
    attachChain a existing missing

def ensureDirectory (a : Actor) (path : String) : Update Place := do
  let p := (← get).place path
  ensure a p true
  pure p

def makeDirectory (a : Actor) (path : String) (parents existOk : Bool := false) :
    Update Place := do
  let p := (← get).place path
  let (parent, name) ← Work.lift (splitParent p)
  Work.lift (checkName name)
  ensure a parent parents
  let d ← Work.ask (·.node parent)
  match d.child? name with
  | some c =>
    if c.isDir && existOk then pure p else throw (.node (.directoryExists (Place.text p)))
  | none =>
    Work.lift (a.require parent d .write)
    attach a.now parent name a.newDirectory
    pure p

def makeFile (a : Actor) (path content : String) (parents : Bool := false) : Update Place := do
  let p := (← get).place path
  let (parent, name) ← Work.lift (splitParent p)
  Work.lift (checkName name)
  ensure a parent parents
  let d ← Work.ask (·.node parent)
  match d.child? name with
  | some _ => throw (.node (.exists (Place.text p)))
  | none =>
    Work.lift (a.require parent d .write)
    attach a.now parent name (a.newFile content)
    pure p

structure Creation where
  isDirectory : Bool := false
  content : String := ""
  owner : Option String := none
  group : Option String := none
  parents : Bool := false

def Creation.assign (c : Creation) (attrs : Attributes) : Attributes :=
  { attrs with owner := c.owner.getD attrs.owner, group := c.group.getD attrs.group }

/-- Creates a node and then gives it the owner and group that are named. -/
def create (a : Actor) (path : String) (c : Creation) : Update Place := do
  let p ←
    if c.isDirectory then makeDirectory a path c.parents else makeFile a path c.content c.parents
  Work.change (·.modify p (Node.mapAttrs c.assign))
  pure p

end MemShell.FileSystem
