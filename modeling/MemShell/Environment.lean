import MemShell.Line.Substitution
import MemShell.Text.Blank
import MemShell.Fault
set_option autoImplicit false

namespace MemShell

abbrev Frame := Table String String

structure Environment where
  top : Frame := []
  below : List Frame := []

namespace Environment

/-- A name may be followed by one line feed. -/
def isVariableName (name : String) : Bool := Line.isName (Text.dropFinalNewline name.toList)

def ofFrame (frame : Frame) : Environment := { top := frame }

def depth (e : Environment) : Nat := e.below.length + 1

def get (e : Environment) (name : String) : String := (e.top.get? name).getD ""

def set (e : Environment) (name value : String) : Except Fault Environment :=
  if isVariableName name then .ok { e with top := e.top.put name value }
  else .error (.invalidVariable name)

def unset (e : Environment) (name : String) : Environment := { e with top := e.top.erase name }

def push (e : Environment) : Environment := { e with below := e.top :: e.below }

/-- Drops the top frame; the last one stays. -/
def pop (e : Environment) : Environment :=
  match e.below with
  | [] => e
  | f :: fs => ⟨f, fs⟩

def load (e : Environment) (frame : Frame) : Environment := { e with top := frame }

/-- Replaces every frame and keeps their number. -/
def rebase (e : Environment) (frame : Frame) : Environment := ⟨frame, e.below.map fun _ => frame⟩

def frames (e : Environment) : List Frame := e.top :: e.below

@[simp] theorem depth_rebase (e : Environment) (f : Frame) : (e.rebase f).depth = e.depth := by
  simp [depth, rebase]

theorem below_set {e e' : Environment} {name value : String} (h : e.set name value = .ok e') :
    e'.below = e.below := by
  unfold set at h
  split at h
  · cases h
    rfl
  · cases h

theorem below_foldl_unset (names : List String) (e : Environment) :
    (names.foldl unset e).below = e.below := by
  induction names generalizing e with
  | nil => rfl
  | cons name rest ih => exact ih (e.unset name)

end Environment
end MemShell
