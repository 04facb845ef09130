import MemShell.Fault
set_option autoImplicit false

namespace MemShell

structure Problem where
  text : String
  kind : ErrorKind
deriving DecidableEq, Repr

structure Result (α : Type) where
  data : Option α := none
  problem : Option Problem := none
  modified : Bool := false
deriving DecidableEq, Repr

namespace Result
variable {α : Type}

def ok (data : α) (modified : Bool := false) : Result α := { data := some data, modified }

def done (modified : Bool := false) : Result α := { modified }

def fail (text : String) (kind : ErrorKind := .execution) : Result α :=
  { problem := some ⟨text, kind⟩ }

def success (r : Result α) : Bool := r.problem.isNone

def errorText (r : Result α) : Option String := r.problem.map (·.text)

def exitCode (r : Result α) : Nat :=
  match r.problem with
  | none => 0
  | some p => if p.kind = .parse then 2 else 1

/-- Turns a fault into a failed result, behind a text; a breakdown is no result. -/
def ofFault (before : String) (f : Fault) : Except Fault (Result α) :=
  match f.category? with
  | some c => .ok (fail (before ++ f.message) c.kind)
  | none => .error f

def map {β : Type} (g : α → β) (r : Result α) : Result β :=
  { data := r.data.map g, problem := r.problem, modified := r.modified }

end Result
end MemShell
