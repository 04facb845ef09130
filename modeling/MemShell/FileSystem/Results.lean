import MemShell.FileSystem.Create
import MemShell.FileSystem.Ownership
import MemShell.FileSystem.Relocate
import MemShell.Result
set_option autoImplicit false

namespace MemShell.FileSystem

def report {α β : Type} (answer : α → Result β) (x : Update α) : Update (Result β) := do
  match ← x.outcome with
  | .ok v => pure (answer v)
  | .error f => Work.lift (Result.ofFault "" f)

def resolve (path : String) : Update (Result Place) :=
  report .ok do
    let p := (← get).place path
    let _ ← Work.ask (·.node p)
    pure p

def access (a : Actor) (path : String) (permission : Permission) : Update (Result Place) :=
  report .ok do
    let p := (← get).place path
    let n ← Work.ask (·.node p)
    Work.lift (a.require p n permission)
    pure p

def createResult (a : Actor) (path : String) (c : Creation) : Update (Result Place) :=
  report .ok (create a path c)

def rename (a : Actor) (source dest : String) : Update (Result Place) :=
  report .ok (move a source dest)

def delete (a : Actor) (path : String) (recursive : Bool := false) : Update (Result Unit) :=
  report (fun _ => .done) (remove a path recursive)

def setOwner (a : Actor) (path owner : String) : Update (Result Place) :=
  report .ok (changeOwner a path owner)

def setGroup (a : Actor) (path group : String) : Update (Result Place) :=
  report .ok (changeGroup a path group)

def setMode (a : Actor) (path : String) (mode : ModeSpec) : Update (Result Place) :=
  report .ok (changeMode a path mode)

end MemShell.FileSystem
