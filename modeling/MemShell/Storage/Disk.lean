import MemShell.Table
import MemShell.Path
set_option autoImplicit false

namespace MemShell

inductive DiskEntry where
  | directory
  | text (s : String)
deriving DecidableEq, Repr

structure Disk where
  entries : Table Path DiskEntry := []

namespace Disk

def get? (d : Disk) (p : Path) : Option DiskEntry :=
  if p.names.isEmpty then some .directory else d.entries.get? p

def put (d : Disk) (p : Path) (e : DiskEntry) : Disk := ⟨d.entries.put p e⟩

def erase (d : Disk) (p : Path) : Disk := ⟨d.entries.erase p⟩

def prefixes (p : Path) : List Path :=
  (List.range p.names.length).map fun n => { p with names := p.names.take (n + 1) }

def isBlocked (d : Disk) (p : Path) : Bool :=
  (prefixes p.parent).any fun q => match d.get? q with
    | some (.text _) => true
    | _ => false

def makeDirectories (d : Disk) (p : Path) : Option Disk :=
  (prefixes p).foldlM (fun d q => match d.get? q with
    | some .directory => some d
    | some (.text _) => none
    | none => some (d.put q .directory)) d

def write (d : Disk) (p : Path) (s : String) : Option Disk :=
  match d.get? p with
  | some .directory => none
  | _ => some (d.put p (.text s))

def withDirectory (d : Disk) (p : Path) : Disk := (d.makeDirectories p).getD d

def withText (d : Disk) (p : Path) (s : String) : Disk := (d.withDirectory p.parent).put p (.text s)

def text? (d : Disk) (p : Path) : Option String :=
  match d.get? p with
  | some (.text s) => some s
  | _ => none

def namesBelow (d : Disk) (p : Path) : List (List String) :=
  d.entries.filterMap fun (q, _) =>
    if p.names.isPrefixOf q.names && p.names ≠ q.names then some (q.names.drop p.names.length)
    else none

def replace (d : Disk) (source dest : Path) : Option Disk :=
  match d.get? source, d.get? dest with
  | _, some .directory => none
  | some e, _ => some ((d.erase source).put dest e)
  | none, _ => none

end Disk
end MemShell
