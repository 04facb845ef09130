import MemShell.Number.Binary64
import MemShell.Shell.Context
set_option autoImplicit false

/-!
# Routines

A routine works on a state without interruption until it is done or waits. While it waits, others
may change the state; it goes on from the state that it then finds. What it notes on its way can be
watched, and makes no difference to anyone.
-/
namespace MemShell

/-- What a routine waits for: that seconds pass and, if `interruptible`, that its job is cancelled. -/
structure Wait where
  seconds : Binary64
  interruptible : Bool := false
deriving DecidableEq

def Wait.isOver (w : Wait) : Bool := w.seconds ≠ .nan && !w.seconds.isPositive

/-- A routine on its way: it is done, waits, or has noted something and goes on. After a wait it is
resumed with a state and whether its job was cancelled. -/
inductive Step (σ ε α : Type) where
  | done (s : σ) (a : α)
  | wait (s : σ) (w : Wait) (resume : σ → Bool → Step σ ε α)
  | note (s : σ) (e : ε) (next : Step σ ε α)

namespace Step
variable {σ ε α β : Type}

def bind : Step σ ε α → (σ → α → Step σ ε β) → Step σ ε β
  | .done s a, next => next s a
  | .wait s w resume, next => .wait s w fun s woken => (resume s woken).bind next
  | .note s e rest, next => .note s e (rest.bind next)

theorem bind_pure (x : Step σ ε α) : x.bind .done = x := by
  induction x with
  | done s a => rfl
  | wait s w resume ih =>
    simp only [bind, wait.injEq, true_and]
    funext s woken
    exact ih s woken
  | note s e rest ih => rw [bind, ih]

theorem bind_assoc {γ : Type} (x : Step σ ε α) (f : σ → α → Step σ ε β)
    (g : σ → β → Step σ ε γ) : (x.bind f).bind g = x.bind fun s a => (f s a).bind g := by
  induction x with
  | done s a => rfl
  | wait s w resume ih =>
    simp only [bind, wait.injEq, true_and]
    funext s woken
    exact ih s woken
  | note s e rest ih => simp only [bind, ih]

end Step

def Routine (σ α : Type) : Type := σ → Step σ Note α

namespace Routine
variable {σ α β : Type}

instance : Monad (Routine σ) where
  pure a := fun s => .done s a
  bind p next := fun s => (p s).bind fun s a => next a s

instance : MonadStateOf σ (Routine σ) where
  get := fun s => .done s s
  set s := fun _ => .done s ()
  modifyGet f := fun s => .done (f s).2 (f s).1

def pause (w : Wait) : Routine σ Bool := fun s => .wait s w fun s woken => .done s woken

end Routine
end MemShell
