import MemShell.Shell.State
import MemShell.Calendar
import MemShell.FileSystem.Listing
import MemShell.FileSystem.Ownership
import MemShell.FileSystem.Relocate
set_option autoImplicit false

namespace MemShell.Builtins

def pwd (_ : Context) : Effect (Result String) := do
  pure (.text ((← get).files.workingPath ++ "\n"))

/-- Without an argument the home is entered, or the root if there is none. -/
def cd (c : Context) : Effect (Result String) := do
  let home := ((← get).environmentOf c.caller.job).get "HOME"
  let target := match c.args with
    | path :: _ => path
    | [] => if home.isEmpty then "/" else home
  Effect.changeFiles c.user fun a => FileSystem.enter a target
  pure .done

def padLeft (width : Nat) (s : String) : String :=
  String.ofList (List.replicate (width - s.length) ' ') ++ s

def padRight (width : Nat) (s : String) : String :=
  s ++ String.ofList (List.replicate (width - s.length) ' ')

def longRow (e : FileSystem.Entry) : Except Fault String := do
  let stamp ← timestampText e.attrs.mtime
  pure ((if e.node.isDir then "d" else "-") ++ Mode.text e.attrs.mode ++ " " ++ e.attrs.owner ++
    " " ++ e.attrs.group ++ " " ++ padLeft 6 (toString e.size) ++ " " ++ stamp ++ " " ++ e.name)

def shortName (e : FileSystem.Entry) : String := if e.node.isDir then e.name ++ "/" else e.name

def listing (long : Bool) (entries : List FileSystem.Entry) : Except Fault String :=
  if entries.isEmpty then .ok ""
  else if long then do pure ("\n".intercalate (← entries.mapM longRow) ++ "\n")
  else .ok ("  ".intercalate (entries.map shortName) ++ "\n")

def listPath (c : Context) (several : Bool) (path : String) : Effect String := do
  let entries ← Effect.readFiles c.user fun fs a => fs.list a path (c.hasFlag "all")
  let text ← Work.lift (listing (c.hasFlag "long") entries)
  pure (if several then path ++ ":\n" ++ text else text)

def ls (c : Context) : Effect (Result String) := do
  let here := (← get).files.workingPath
  let paths := if c.args.isEmpty then [here] else c.args
  let texts ← paths.mapM (listPath c (1 < paths.length))
  pure (.text ("\n".intercalate texts))

def tree (c : Context) : Effect (Result String) := do
  let text ← Effect.readFiles c.user fun fs a => fs.drawTree a (c.args.headD ".")
  pure (.text (text ++ "\n"))

def changeOnce (c : Context) (f : Actor → Update Place) : Effect (Result String) := do
  let _ ← Effect.changeFiles c.user f
  pure .changed

def changeEach (c : Context) (f : String → Actor → Update Place) : Effect (Result String) := do
  c.args.forM fun path => do
    let _ ← Effect.changeFiles c.user (f path)
  pure .changed

def touch (c : Context) : Effect (Result String) :=
  changeEach c fun path a => FileSystem.touch a path

def mkdir (c : Context) : Effect (Result String) :=
  let parents := c.hasFlag "parents"
  changeEach c fun path a => FileSystem.makeDirectory a path parents parents

/-- Removes a path; a missing one does not matter if that is forced. -/
def removePath (c : Context) (path : String) : Effect Unit := do
  match ← (Effect.changeFiles c.user fun a =>
      FileSystem.remove a path (c.hasFlag "recursive")).outcome with
  | .ok () => pure ()
  | .error f =>
    if !f.isNotFound then throw f
    else if c.hasFlag "force" then pure ()
    else throw (c.fault (.cannotRemove path))

def rm (c : Context) : Effect (Result String) := do
  c.args.forM (removePath c)
  pure .changed

def removeEmpty (c : Context) (p : CheckedPath) : Effect Unit := do
  let s ← get
  if ((s.files.at? p.place).map fun n => !n.children.isEmpty).getD false then
    throw (c.fault (.failedToRemove p.arg))
  else Effect.changeFiles c.user fun a => FileSystem.remove a (Place.text p.place)

def rmdir (c : Context) : Effect (Result String) := do
  c.paths.forM (removeEmpty c)
  pure .changed

def withTwo (c : Context) (f : String → String → Effect (Result String)) :
    Effect (Result String) :=
  match c.args with
  | x :: y :: _ => f x y
  | _ => pure .changed

def mv (c : Context) : Effect (Result String) :=
  withTwo c fun source target => changeOnce c fun a => FileSystem.move a source target

def cp (c : Context) : Effect (Result String) :=
  withTwo c fun source target =>
    changeOnce c fun a => FileSystem.copy a source target (c.hasFlag "recursive")

def chmod (c : Context) : Effect (Result String) :=
  withTwo c fun mode path => changeOnce c fun a => FileSystem.changeMode a path (.text mode)

def chown (c : Context) : Effect (Result String) :=
  withTwo c fun owner path => changeOnce c fun a => FileSystem.changeOwner a path owner

def chgrp (c : Context) : Effect (Result String) :=
  withTwo c fun group path => changeOnce c fun a => FileSystem.changeGroup a path group

end MemShell.Builtins
