import MemShell.FileSystem.Content
set_option autoImplicit false

namespace MemShell.FileSystem

mutual
/-- Removing a full directory takes the permission to write on every directory in it. -/
def checkRemovable (a : Actor) (above : Place) : Node → Except Fault Unit
  | .file .. => .ok ()
  | n@(.dir _ cs) => do
    a.require above n .write
    checkAllRemovable a above cs

def checkAllRemovable (a : Actor) (above : Place) : List (String × Node) → Except Fault Unit
  | [] => .ok ()
  | (name, n) :: rest => do
    checkRemovable a (above ++ [name]) n
    checkAllRemovable a above rest
end

def checkContents (a : Actor) (p : Place) (n : Node) (recursive : Bool) : Except Fault Unit :=
  if n.isDir && !n.children.isEmpty then
    if recursive then checkRemovable a p n else .error (.node (.notEmpty (Place.text p)))
  else .ok ()

/-- The working directory after the subtree at `target` is gone. One that the path of `target` does
not lead to stays with the removed subtree. -/
def cwdAfterRemoval (cwd target : Place) : Place :=
  if cwd = target ∨ (Place.text target ++ "/").toList.isPrefixOf (Place.text cwd).toList then
    target.parent
  else if cwd.within target then cwd.drop target.length
  else cwd

def remove (a : Actor) (path : String) (recursive : Bool := false) : Update Unit := do
  let p := (← get).place path
  if p.isEmpty then throw (.node .removeRoot)
  else
    let n ← Work.ask (·.node p)
    let d ← Work.ask (·.node p.parent)
    Work.lift (a.require p.parent d .write)
    Work.lift (checkContents a p n recursive)
    Work.change fun fs => { fs with cwd := cwdAfterRemoval fs.cwd p }
    takeOut a.now p.parent p.name

/-- Where a node goes that is moved or copied to a place: under its own name into a directory that
stands there, else to the place itself. The existing node at the place is given if it is no
directory. -/
inductive Target where
  | free (parent : Place) (name : String)
  | into (parent : Place)
  | taken (n : Node)

def target (fs : FileSystem) (p : Place) : Except Fault Target :=
  match fs.node p with
  | .ok n => .ok (if n.isDir then .into p else .taken n)
  | .error f =>
    if f.isNotFound then do
      let _ ← fs.directory p.parent
      checkName p.name
      pure (.free p.parent p.name)
    else .error f

def checkFree (fs : FileSystem) (parent : Place) (name : String) : Except Fault Unit := do
  let d ← fs.node parent
  match d.child? name with
  | some _ => .error (.node (.exists (Place.text (parent ++ [name]))))
  | none => pure ()

/-- The directory and the name that a node moves to; nothing must stand there. -/
def destination (fs : FileSystem) (src dst : Place) : Except Fault (Place × String) := do
  match ← fs.target dst with
  | .taken _ => .error (.node (.exists (Place.text dst)))
  | .free parent name => pure (parent, name)
  | .into parent => do
    fs.checkFree parent src.name
    pure (parent, src.name)

def cwdAfterMove (cwd source dest : Place) : Place :=
  if cwd.within source then dest ++ cwd.drop source.length else cwd

def move (a : Actor) (source dest : String) : Update Place := do
  let src := (← get).place source
  if src.isEmpty then throw (.node .moveRoot)
  else
    let n ← Work.ask (·.node src)
    let d ← Work.ask (·.node src.parent)
    Work.lift (a.require src.parent d .write)
    let dst := (← get).place dest
    let (parent, name) ← Work.ask (·.destination src dst)
    let d ← Work.ask (·.node parent)
    Work.lift (a.require parent d .write)
    if n.isDir && parent.within src then throw (.node (.moveInside (Place.text src)))
    else if parent = src.parent && name = src.name then pure src
    else
      takeOut a.now src.parent src.name
      attach a.now parent name n
      Work.change fun fs => { fs with cwd := cwdAfterMove fs.cwd src (parent ++ [name]) }
      pure (parent ++ [name])

mutual
/-- A copy of a subtree that belongs to the actor, who must be able to read all of it. -/
def clone (a : Actor) (above : Place) : Node → Except Fault Node
  | n@(.file attrs content) => do
    a.require above n .read
    pure (.file (a.attributes attrs.mode) content)
  | n@(.dir attrs cs) => do
    a.require above n .read
    pure (.dir (a.attributes attrs.mode) (← cloneAll a above cs))

def cloneAll (a : Actor) (above : Place) : List (String × Node) → Except Fault (List (String × Node))
  | [] => .ok []
  | (name, n) :: rest => do
    let c ← clone a (above ++ [name]) n
    pure ((name, c) :: (← cloneAll a above rest))
end

def copyInto (a : Actor) (src : Place) (n : Node) (parent : Place) (name : String) :
    Update Place := do
  let d ← Work.ask (·.node parent)
  Work.lift (a.require parent d .write)
  Work.ask (·.checkFree parent name)
  if n.isDir && (parent ++ [name]).within src then throw (.node (.copyInside (Place.text src)))
  else
    let c ← Work.lift (clone a src n)
    attach a.now parent name c
    pure (parent ++ [name])

def copyOver (a : Actor) (src : Place) (n : Node) (dst : Place) (old : Node) : Update Place :=
  if n.isDir then throw (.node (.directoryOverFile (Place.text dst)))
  else do
    Work.lift (a.require src n .read)
    Work.lift (a.require dst old .write)
    Work.change fun fs => (fs.modify dst (Node.setContent n.content)).stamp a.now dst
    pure dst

def copy (a : Actor) (source dest : String) (recursive : Bool := false) : Update Place := do
  let src := (← get).place source
  let n ← Work.ask (·.node src)
  if n.isDir && !recursive then throw (.node (.omittedDirectory (Place.text src)))
  else
    let dst := (← get).place dest
    match ← Work.ask (·.target dst) with
    | .free parent name => copyInto a src n parent name
    | .into parent => copyInto a src n parent src.name
    | .taken old => copyOver a src n dst old

end MemShell.FileSystem
