import MemShell.Fault
set_option autoImplicit false

/-!
# Work on a state

Work reads and changes a state, and may stop at a fault. What was changed before the fault stays
changed: nothing is rolled back.
-/
namespace MemShell

abbrev Work (σ : Type) := ExceptT Fault (StateM σ)

namespace Work
variable {σ α β : Type}

def run (x : Work σ α) (s : σ) : Except Fault α × σ := x s

def ask (f : σ → Except Fault α) : Work σ α := fun s => (f s, s)

def lift (r : Except Fault α) : Work σ α := ask fun _ => r

def change (f : σ → σ) : Work σ Unit := fun s => (.ok (), f s)

def outcome (x : Work σ α) : Work σ (Except Fault α) := fun s => (.ok (x.run s).1, (x.run s).2)

@[simp] theorem run_pure (a : α) (s : σ) : (pure a : Work σ α).run s = (.ok a, s) := rfl

@[simp] theorem run_throw (f : Fault) (s : σ) : (throw f : Work σ α).run s = (.error f, s) := rfl

@[simp] theorem run_get (s : σ) : (get : Work σ σ).run s = (.ok s, s) := rfl

@[simp] theorem run_ask (f : σ → Except Fault α) (s : σ) : (ask f).run s = (f s, s) := rfl

@[simp] theorem run_lift (r : Except Fault α) (s : σ) : (lift r : Work σ α).run s = (r, s) := rfl

@[simp] theorem run_change (f : σ → σ) (s : σ) : (change f).run s = (.ok (), f s) := rfl

@[simp] theorem run_outcome (x : Work σ α) (s : σ) :
    x.outcome.run s = (.ok (x.run s).1, (x.run s).2) := rfl

theorem run_bind (x : Work σ α) (f : α → Work σ β) (s : σ) :
    (x >>= f).run s =
      match x.run s with
      | (.ok a, t) => (f a).run t
      | (.error e, t) => (.error e, t) := by
  change ExceptT.bind x f s = _
  simp only [ExceptT.bind, ExceptT.mk, bind, StateT.bind, run]
  rcases x s with ⟨_ | _, t⟩ <;> rfl

end Work
end MemShell
