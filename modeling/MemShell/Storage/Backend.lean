import MemShell.Storage.Disk
import MemShell.Json.Reader
import MemShell.Json.Writer
import MemShell.FileSystem.Snapshot
import MemShell.Result
set_option autoImplicit false

/-!
# Storage of snapshots

A backend keeps one snapshot: in memory, or as an indented JSON text in a file that is first written
beside its place and then put there. A backend may also answer always the same.
-/
namespace MemShell

inductive Backend where
  | memory (stored : Option Json) (saves : Nat)
  | file (path : Path)
  | fixed (onSave : Except Fault Bool) (onLoad : Except Fault (Option Json))

structure Storage where
  backend : Option Backend := none
  disk : Disk := {}

namespace Storage

def draftPath? (p : Path) : Option Path :=
  p.name?.map fun name => { p.parent with names := p.parent.names ++ [name ++ ".tmp"] }

def writeText (disk : Disk) (p : Path) (text : String) : Except Fault Bool × Disk :=
  match draftPath? p with
  | none => (.error (.breakdown (.value ("PosixPath('" ++ p.text ++ "') has an empty name"))), disk)
  | some draft =>
    match disk.makeDirectories p.parent with
    | none => (.ok false, disk)
    | some disk =>
      match disk.write draft text with
      | none => (.ok false, disk)
      | some disk =>
        match disk.replace draft p with
        | none => (.ok false, disk)
        | some disk => (.ok true, disk)

def digitsFault (count : Nat) : Fault :=
  .breakdown (.value ("Exceeds the limit (4300 digits) for integer string conversion: value has " ++
    toString count ++ " digits; use sys.set_int_max_str_digits() to increase the limit"))

def readText (disk : Disk) (p : Path) : Except Fault (Option Json) :=
  match disk.get? p with
  | none => .ok none
  | some .directory => .error (.storage (.unreadable p.text "Is a directory"))
  | some (.text s) =>
    match Json.read s with
    | .ok v => if v.isObject then .ok (some v) else .error (.storage (.corruptedFile p.text))
    | .error .malformed => .error (.storage (.unreadable p.text "malformed text"))
    | .error (.tooManyDigits n) => .error (digitsFault n)

/-- Hands a snapshot to a backend; `false` means that it was not kept. -/
def put (b : Backend) (disk : Disk) (v : Json) : Except Fault Bool × Backend × Disk :=
  match b with
  | .memory _ saves => (.ok true, .memory (some v) (saves + 1), disk)
  | .file p =>
    let (kept, disk) := writeText disk p v.sorted.pretty
    (kept, b, disk)
  | .fixed onSave _ => (onSave, b, disk)

def get (b : Backend) (disk : Disk) : Except Fault (Option Json) :=
  match b with
  | .memory stored _ => .ok stored
  | .file p => readText disk p
  | .fixed _ onLoad => onLoad

def forget (b : Backend) (disk : Disk) : Except Fault (Backend × Disk) :=
  match b with
  | .memory _ saves => .ok (.memory none saves, disk)
  | .file p =>
    match disk.get? p with
    | some .directory => .error (.breakdown (.diskDirectory p.text))
    | some (.text _) => .ok (b, disk.erase p)
    | none =>
      if disk.isBlocked p then .error (.breakdown (.diskNotDirectory p.text)) else .ok (b, disk)
  | .fixed .. => .ok (b, disk)

def saves (s : Storage) : Nat :=
  match s.backend with
  | some (.memory _ n) => n
  | _ => 0

def attached (s : Storage) : Bool := s.backend.isSome

/-- Saves a state. Without a backend there is nothing to do. -/
def save (s : Storage) (fs : FileSystem) : Except Fault (Result Unit) × Storage :=
  match s.backend with
  | none => (.ok .done, s)
  | some b =>
    let (kept, b, disk) := put b s.disk fs.snapshot
    let s := { s with backend := some b, disk }
    match kept with
    | .ok true => (.ok .done, s)
    | .ok false => (.ok (.fail "failed to save the file system" .system), s)
    | .error f => (Result.ofFault "" f, s)

def clear (s : Storage) : Except Fault (Result Unit × Storage) :=
  match s.backend with
  | none => .ok (.done, s)
  | some b => (forget b s.disk).map fun (b, disk) => (.done, { s with backend := some b, disk })

def fetch (b : Backend) (disk : Disk) : Update Bool := do
  match ← Work.lift (get b disk) with
  | none => pure false
  | some v =>
    FileSystem.restore v
    pure true

/-- Loads a state over another; the data says whether the backend held one. -/
def load (s : Storage) : Update (Result Bool) :=
  match s.backend with
  | none => pure (.ok false)
  | some b => do
    match ← (fetch b s.disk).outcome with
    | .ok held => pure (.ok held)
    | .error f =>
      match f.category? with
      | some .storage => Work.lift (Result.ofFault "" f)
      | _ => throw f

end Storage
end MemShell
