import MemShell.Shell.Execute
import MemShell.Proofs.Parallel
import MemShell.Proofs.Routine.Lockstep
set_option autoImplicit false

namespace MemShell.Run
variable {ι α β : Type}

def Ending (E : ι → Shell → Shell → Prop) (Q : ι → α → Shell → Shell → Prop) (v : ι)
    (r : Except Fault α) (s t : Shell) : Prop :=
  match r with
  | .ok a => Q v a s t
  | .error _ => E v s t

def Lockstep (p : Pact ι Shell Note) (E : ι → Shell → Shell → Prop)
    (Q : ι → α → Shell → Shell → Prop) (v : ι) (x y : Run α) (s t : Shell) : Prop :=
  Step.Lockstep p (Ending E Q) v (x s) (y t)

variable {p : Pact ι Shell Note} {E : ι → Shell → Shell → Prop}
  {Q : ι → α → Shell → Shell → Prop} {R : ι → β → Shell → Shell → Prop} {v : ι} {s t : Shell}

theorem Lockstep.bind {x y : Run α} {f g : α → Run β} (h : Lockstep p E Q v x y s t)
    (hf : ∀ v a s t, Q v a s t → Lockstep p E R v (f a) (g a) s t) :
    Lockstep p E R v (x >>= f) (y >>= g) s t := by
  refine Step.Lockstep.bind h fun v r s t hr => ?_
  cases r with
  | ok a => exact hf v a s t hr
  | error e => exact .done hr

theorem Lockstep.mono {Q' : ι → α → Shell → Shell → Prop} {x y : Run α}
    (h : Lockstep p E Q v x y s t) (hQ : ∀ v a s t, Q v a s t → Q' v a s t) :
    Lockstep p E Q' v x y s t := by
  refine Step.Lockstep.mono h fun v r s t hr => ?_
  cases r with
  | ok a => exact hQ v a s t hr
  | error e => exact hr

theorem lockstep_pure {a : α} (h : Q v a s t) : Lockstep p E Q v (pure a) (pure a) s t := .done h

theorem lockstep_throw {f : Fault} (h : E v s t) :
    Lockstep p E Q v (throw f) (throw f) s t := .done h

theorem lockstep_lift {r : Except Fault α} (h : Ending E Q v r s t) :
    Lockstep p E Q v (lift r) (lift r) s t := .done h

theorem effect_eq_done {x : Effect α} {r : Except Fault α} {s t : Shell} (h : x.run s = (r, t)) :
    effect x s = .done t r := by
  change Step.done (x.run s).2 (x.run s).1 = _
  rw [h]

theorem lockstep_lift_bind {r : Except Fault α} {f g : α → Run β} (hE : ∀ e, r = .error e → E v s t)
    (hf : ∀ a, r = .ok a → Lockstep p E R v (f a) (g a) s t) :
    Lockstep p E R v (lift r >>= f) (lift r >>= g) s t := by
  cases r with
  | ok a => exact hf a rfl
  | error e => exact .done (hE e rfl)

theorem lockstep_effect {x y : Effect α} {F : Shell → Shell → Prop}
    {P : α → α → Shell → Shell → Prop} (h : x.Parallel y s t F P) (hF : ∀ s t, F s t → E v s t)
    (hP : ∀ a b s t, P a b s t → b = a ∧ Q v a s t) :
    Lockstep p E Q v (effect x) (effect y) s t := by
  cases h with
  | @ok a b s' t' hx hy h =>
    obtain ⟨rfl, h⟩ := hP _ _ _ _ h
    rw [Lockstep, effect_eq_done hx, effect_eq_done hy]
    exact .done h
  | @error e s' t' hx hy h =>
    rw [Lockstep, effect_eq_done hx, effect_eq_done hy]
    exact .done (hF _ _ h)

theorem lockstep_get_bind {f g : Shell → Run β} (h : Lockstep p E R v (f s) (g t) s t) :
    Lockstep p E R v (get >>= f) (get >>= g) s t := h

theorem lockstep_modify_bind {f g : Shell → Shell} {x y : Unit → Run β}
    (h : Lockstep p E R v (x ()) (y ()) (f s) (g t)) :
    Lockstep p E R v (modify f >>= x) (modify g >>= y) s t := h

theorem lockstep_modifyGet {f g : Shell → α × Shell} (h : (g t).1 = (f s).1)
    (hQ : Q v (f s).1 (f s).2 (g t).2) : Lockstep p E Q v (modifyGet f) (modifyGet g) s t := by
  have hy : (modifyGet g : Run α) t = .done (g t).2 (.ok (f s).1) := by
    rw [← h]
    rfl
  rw [Lockstep, hy]
  exact .done hQ

theorem lockstep_pause {w : Wait} {Q : ι → Bool → Shell → Shell → Prop} (h : p.same v s t)
    (hw : p.wait s) (hQ : ∀ v woken s t, p.same v s t → Q v woken s t) :
    Lockstep p E Q v (pause w) (pause w) s t :=
  .wait h hw fun u s t woken hu => .done (hQ u woken s t hu)

theorem lockstep_note_bind {e : Note} {x y : Unit → Run β} (h : p.same v s t) (he : p.event s e)
    (hx : ∀ u, p.next v s e u → Lockstep p E R u (x ()) (y ()) s t) :
    Lockstep p E R v (note e >>= x) (note e >>= y) s t :=
  .note h he hx

theorem Lockstep.outcome_bind {x y : Run α} {f g : Except Fault α → Run β}
    (h : Lockstep p E Q v x y s t)
    (hf : ∀ v r s t, Ending E Q v r s t → Lockstep p E R v (f r) (g r) s t) :
    Lockstep p E R v (outcome x >>= f) (outcome y >>= g) s t := by
  have houtcome : Lockstep p E (Ending E Q) v (outcome x) (outcome y) s t :=
    Step.Lockstep.bind h fun v r s t hr => .done hr
  exact houtcome.bind hf

section
variable {x : Run α} {f : α → Run β} {a : α} {e : Fault}

theorem bind_of_ok (h : x s = .done t (.ok a)) : (x >>= f) s = f a t := by
  change (x s).bind _ = _
  rw [h]
  rfl

theorem bind_of_error (h : x s = .done t (.error e)) : (x >>= f) s = .done t (.error e) := by
  change (x s).bind _ = _
  rw [h]
  rfl

theorem bind_of_noted {n : Note} (h : x s = .note s n (.done t (.ok a))) :
    (x >>= f) s = .note s n (f a t) := by
  change (x s).bind _ = _
  rw [h]
  rfl

theorem outcome_of_done {r : Except Fault α} (h : x s = .done t r) :
    outcome x s = .done t (.ok r) := by
  change (x s).bind _ = _
  rw [h]
  rfl

end

theorem note_bind (e : Note) (f : Unit → Run β) (s : Shell) :
    (note e >>= f) s = .note s e (f () s) := rfl

theorem get_bind (f : Shell → Run β) (s : Shell) : (get >>= f) s = f s s := rfl

theorem outcome_effect_bind (x : Effect α) (f : Except Fault α → Run β) (s : Shell) :
    (outcome (effect x) >>= f) s = f (x.run s).1 (x.run s).2 := rfl

theorem lockstep_outcome_effect_bind {x y : Effect α} {f g : Except Fault α → Run β}
    (h : Lockstep p E R v (f (x.run s).1) (g (y.run t).1) (x.run s).2 (y.run t).2) :
    Lockstep p E R v (outcome (effect x) >>= f) (outcome (effect y) >>= g) s t := h

end MemShell.Run
