import MemShell.FileSystem.Create
set_option autoImplicit false

namespace MemShell.FileSystem

def readText (fs : FileSystem) (a : Actor) (path : String) : Except Fault String := do
  let p := fs.place path
  let n ← fs.node p
  match n with
  | .dir .. => .error (.node (.isDirectory (Place.text p)))
  | .file _ content =>
    a.require p n .read
    pure content

def writeText (a : Actor) (path text : String) (append : Bool := false) (parents : Bool := true) :
    Update Place := do
  let fs ← get
  let p := fs.place path
  match fs.node p with
  | .error f => if f.isNotFound then makeFile a path text parents else throw f
  | .ok (.dir ..) => throw (.node (.isDirectory (Place.text p)))
  | .ok n@(.file _ content) =>
    Work.lift (a.require p n .write)
    let text := if append then content ++ text else text
    Work.change fun fs => (fs.modify p (Node.setContent text)).stamp a.now p
    pure p

def appendText (a : Actor) (path text : String) : Update Place := writeText a path text true

def touch (a : Actor) (path : String) : Update Place := do
  let fs ← get
  let p := fs.place path
  match fs.node p with
  | .error f => if f.isNotFound then makeFile a path "" else throw f
  | .ok n =>
    Work.lift (a.require p n .write)
    Work.change (·.stamp a.now p)
    pure p

end MemShell.FileSystem
