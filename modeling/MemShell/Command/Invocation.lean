import MemShell.Command.Flags
import MemShell.FileSystem.Basic
set_option autoImplicit false

/-!
# Invocations

Before a command runs, its words are checked against its contract: flags, then the number of
arguments, then each path rule in order. The first fault is reported under the command's name.
-/
namespace MemShell

/-- An argument that is a path, with the place it denotes and the node there, if there is one. -/
structure CheckedPath where
  arg : String
  place : Place
  node : Option Node

structure Invocation where
  flags : Flags
  args : List String
  paths : List CheckedPath

namespace PathRule

def indices (r : PathRule) (count : Nat) : List Int :=
  match r.select with
  | .all => (List.range count).map Int.ofNat
  | .index i => [i]

/-- The argument at an index: none behind the last one, a breakdown in front of the first. -/
def argAt (args : List String) (i : Int) : Except Fault (Option String) :=
  let n : Int := args.length
  if n ≤ i then .ok none
  else
    match args[(if i < 0 then n + i else i).toNat]? with
    | some arg => if i < -n then .error outOfRange else .ok (some arg)
    | none => .error outOfRange
where
  outOfRange : Fault := .breakdown (.index "list index out of range")

def existingParent (fs : FileSystem) (p : Place) (arg : String) : Except Fault Node :=
  match fs.node p.parent with
  | .ok d => if d.isDir then .ok d else .error (.node (.notDirectory arg))
  | .error f => if f.isNotFound then .error (.node (.notFound arg)) else .error f

def kindMatches (kind : NodeKind) (n : Node) : Bool :=
  match kind with
  | .file => !n.isDir
  | .directory => n.isDir

def kindFault (kind : NodeKind) (arg : String) : Fault :=
  match kind with
  | .file => .node (.isDirectory arg)
  | .directory => .node (.notDirectory arg)

def requireAll (a : Actor) (arg : String) (n : Node) (ps : List Permission) : Except Fault Unit :=
  if ps.all (a.may n) then .ok () else .error (.node (.denied arg))

def nodeAt (r : PathRule) (fs : FileSystem) (p : Place) (arg : String) :
    Except Fault (Option Node) :=
  match fs.node p with
  | .ok n => .ok (some n)
  | .error f =>
    if !f.isNotFound then .error f
    else if r.allowMissing then .ok none
    else .error (.node (.notFound arg))

def checkNode (r : PathRule) (a : Actor) (arg : String) (n : Node) : Except Fault Unit := do
  match r.kind with
  | some kind => if kindMatches kind n then pure () else .error (kindFault kind arg)
  | none => pure ()
  requireAll a arg n r.permissions

/-- The directory whose permissions count; the root has none above it. -/
def parentNode (fs : FileSystem) (p : Place) (arg : String) (node : Option Node) :
    Except Fault (Option Node) :=
  match node with
  | some _ => .ok (if p.isEmpty then none else fs.at? p.parent)
  | none => (existingParent fs p arg).map some

def checkParent (r : PathRule) (fs : FileSystem) (a : Actor) (p : Place) (arg : String)
    (node : Option Node) : Except Fault Unit :=
  if r.parentPermissions.isEmpty then .ok ()
  else do
    match ← parentNode fs p arg node with
    | some d => requireAll a arg d r.parentPermissions
    | none => pure ()

def checkOwner (r : PathRule) (a : Actor) (arg : String) (n : Node) : Except Fault Unit :=
  if r.owned && !a.owns n then .error (.node (.notOwner "permissions" arg)) else .ok ()

/-- Checks one argument: what it leads to, then its permissions, its parent's and its owner. -/
def checkArg (r : PathRule) (fs : FileSystem) (a : Actor) (arg : String) :
    Except Fault CheckedPath := do
  let p := fs.place arg
  let node ← r.nodeAt fs p arg
  match node with
  | some n => r.checkNode a arg n
  | none => pure ()
  r.checkParent fs a p arg node
  match node with
  | some n => r.checkOwner a arg n
  | none => pure ()
  pure ⟨arg, p, node⟩

def checkAll (r : PathRule) (fs : FileSystem) (a : Actor) (args : List String) :
    List Int → Except Fault (List CheckedPath)
  | [] => .ok []
  | i :: rest => do
    match ← argAt args i with
    | none =>
      if r.required then .error (.usage .missingPath) else checkAll r fs a args rest
    | some arg => do
      let p ← r.checkArg fs a arg
      pure (p :: (← checkAll r fs a args rest))

def check (r : PathRule) (fs : FileSystem) (a : Actor) (args : List String) :
    Except Fault (List CheckedPath) :=
  r.checkAll fs a args (r.indices args.length)

end PathRule

namespace Contract

def checkRules (fs : FileSystem) (a : Actor) (args : List String) :
    List PathRule → Except Fault (List CheckedPath)
  | [] => .ok []
  | r :: rest => do
    let ps ← r.check fs a args
    pure (ps ++ (← checkRules fs a args rest))

def checkWords (c : Contract) (fs : FileSystem) (a : Actor) (words : List String) :
    Except Fault Invocation := do
  let (flags, args) ← Flags.read c.flags words
  match c.args.bind (·.check args.length) with
  | some text => .error (.usage (.wrongCount text))
  | none => pure ()
  pure ⟨flags, args, ← checkRules fs a args c.paths⟩

def check (c : Contract) (fs : FileSystem) (a : Actor) (words : List String) :
    Except Fault Invocation :=
  match c.checkWords fs a words with
  | .ok i => .ok i
  | .error f => .error (if f.isValidation then .within c.name f else f)

end Contract
end MemShell
