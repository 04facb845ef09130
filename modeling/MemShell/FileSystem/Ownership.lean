import MemShell.FileSystem.Basic
set_option autoImplicit false

namespace MemShell.FileSystem

def setAttrs (fs : FileSystem) (now : Time) (p : Place) (f : Attributes → Attributes) :
    FileSystem :=
  (fs.modify p (Node.mapAttrs f)).stamp now p

/-- Only root gives nodes away. -/
def changeOwner (a : Actor) (path owner : String) : Update Place := do
  let p := (← get).place path
  let _ ← Work.ask (·.node p)
  if a.user ≠ rootUser then throw (.node (.notOwner "ownership" (Place.text p)))
  else if !a.accounts.hasUser owner then throw (.node (.unknownUser owner))
  else
    Work.change (·.setAttrs a.now p fun at' => { at' with owner })
    pure p

def changeGroup (a : Actor) (path group : String) : Update Place := do
  let p := (← get).place path
  let n ← Work.ask (·.node p)
  Work.lift (a.requireOwner p n "group")
  if !a.accounts.hasGroup group then throw (.node (.unknownGroup group))
  else
    Work.change (·.setAttrs a.now p fun at' => { at' with group })
    pure p

inductive ModeSpec where
  | text (s : String)
  | number (n : Int)

def octalText (n : Int) : String :=
  (if n < 0 then "-0o" else "0o") ++ String.ofList (Nat.toDigits 8 n.natAbs)

def ModeSpec.value : ModeSpec → Except Fault Nat
  | .text s => Mode.ofText s
  | .number n =>
    if 0 ≤ n ∧ n ≤ 0o777 then .ok n.toNat else .error (.node (.invalidMode (octalText n)))

def changeMode (a : Actor) (path : String) (mode : ModeSpec) : Update Place := do
  let p := (← get).place path
  let n ← Work.ask (·.node p)
  Work.lift (a.requireOwner p n "permissions")
  let mode ← Work.lift mode.value
  Work.change (·.setAttrs a.now p fun at' => { at' with mode })
  pure p

end MemShell.FileSystem
