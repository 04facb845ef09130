import MemShell.FileSystem.Listing
import MemShell.Proofs.FileSystem.Changes
set_option autoImplicit false

namespace MemShell.FileSystem

structure Row where
  name : String
  place : Place
  isDir : Bool
  attrs : Attributes
  size : Nat

def Entry.row (e : Entry) : Row := ⟨e.name, e.place, e.node.isDir, e.attrs, e.size⟩

def row (p : Place) (n : Node) : Row := (Entry.mk (shownName p.name) p n).row

inductive Answer where
  | done
  | text (s : String)
  | rows (rs : List Row)
  | node (p : Place) (shown : Option Row)

inductive Call where
  | readText (path : String)
  | list (path : String) (hidden : Bool)
  | drawTree (path : String)
  | enter (path : String)
  | makeDirectory (path : String) (parents existOk : Bool)
  | makeFile (path content : String) (parents : Bool)
  | ensureDirectory (path : String)
  | writeText (path text : String) (append parents : Bool)
  | appendText (path text : String)
  | touch (path : String)
  | remove (path : String) (recursive : Bool)
  | move (source dest : String)
  | copy (source dest : String) (recursive : Bool)
  | changeMode (path : String) (mode : ModeSpec)
  | changeGroup (path group : String)
  | changeOwner (path owner : String)

def showing (x : Update Place) : Update Answer := do
  let p ← x
  let fs ← get
  pure (.node p ((fs.at? p).map (row p)))

def Call.run (a : Actor) : Call → Update Answer
  | .readText path => do
    let text ← Work.ask (·.readText a path)
    pure (.text text)
  | .list path hidden => do
    let entries ← Work.ask (·.list a path hidden)
    pure (.rows (entries.map Entry.row))
  | .drawTree path => do
    let text ← Work.ask (·.drawTree a path)
    pure (.text text)
  | .enter path => do
    FileSystem.enter a path
    let fs ← get
    pure (.text fs.workingPath)
  | .makeDirectory path parents existOk => showing (FileSystem.makeDirectory a path parents existOk)
  | .makeFile path content parents => showing (FileSystem.makeFile a path content parents)
  | .ensureDirectory path => showing (FileSystem.ensureDirectory a path)
  | .writeText path text append parents => showing (FileSystem.writeText a path text append parents)
  | .appendText path text => showing (FileSystem.appendText a path text)
  | .touch path => showing (FileSystem.touch a path)
  | .remove path recursive => do
    FileSystem.remove a path recursive
    pure .done
  | .move source dest => showing (FileSystem.move a source dest)
  | .copy source dest recursive => showing (FileSystem.copy a source dest recursive)
  | .changeMode path mode => showing (FileSystem.changeMode a path mode)
  | .changeGroup path group => showing (FileSystem.changeGroup a path group)
  | .changeOwner path owner => showing (FileSystem.changeOwner a path owner)

/-- Where a call takes what stands at a place. -/
def Call.carry (a : Actor) (fs : FileSystem) : Call → Place → Place
  | .move source dest => placeAfterMove a fs source dest
  | _ => id

def transcript (a : Actor) (fs : FileSystem) :
    List (Time × Call) → List (Except Fault Answer) × FileSystem
  | [] => ([], fs)
  | (now, c) :: rest =>
    let (answer, next) := (c.run { a with now }).run fs
    let (answers, last) := transcript a next rest
    (answer :: answers, last)

def follow (a : Actor) (fs : FileSystem) (p : Place) : List (Time × Call) → Place
  | [] => p
  | (now, c) :: rest =>
    follow a ((c.run { a with now }).run fs).2 (c.carry { a with now } fs p) rest

end MemShell.FileSystem
