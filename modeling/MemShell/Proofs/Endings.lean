import MemShell.Work
set_option autoImplicit false

namespace MemShell.Work
variable {σ α β : Type} {s t : σ} {E E' : σ → Prop} {Q Q' : α → σ → Prop}

/-- From `s` the work ends with a value and a state that satisfy `Q`, or at a fault in a state that
satisfies `E`. -/
def Ends (x : Work σ α) (s : σ) (E : σ → Prop) (Q : α → σ → Prop) : Prop :=
  match x.run s with
  | (.ok a, t) => Q a t
  | (.error _, t) => E t

theorem run_eq_of_ok {x : Work σ α} {a : α} (h : (x.run s).1 = .ok a) :
    x.run s = (.ok a, (x.run s).2) := Prod.ext h rfl

theorem ends_of_run {x : Work σ α} {a : α} (h : x.run s = (.ok a, t)) (hQ : Q a t) :
    x.Ends s E Q := by
  rw [Ends, h]
  exact hQ

theorem ends_of_fault {x : Work σ α} {f : Fault} (h : x.run s = (.error f, t)) (hE : E t) :
    x.Ends s E Q := by
  rw [Ends, h]
  exact hE

theorem Ends.value {x : Work σ α} {a : α} (h : x.Ends s E Q) (hx : x.run s = (.ok a, t)) :
    Q a t := by
  rw [Ends, hx] at h
  exact h

theorem Ends.fault {x : Work σ α} {f : Fault} (h : x.Ends s E Q) (hx : x.run s = (.error f, t)) :
    E t := by
  rw [Ends, hx] at h
  exact h

theorem Ends.state {x : Work σ α} (h : x.Ends s E fun _ => E) : E (x.run s).2 := by
  unfold Ends at h
  split at h
  · next hrun => rw [hrun]; exact h
  · next hrun => rw [hrun]; exact h

theorem Ends.mono {x : Work σ α} (h : x.Ends s E Q) (hQ : ∀ a t, Q a t → Q' a t) :
    x.Ends s E Q' := by
  unfold Ends at h ⊢
  split at h
  · exact hQ _ _ h
  · exact h

/-- What holds at a value may be shown with the run in hand. -/
theorem Ends.and_run {x : Work σ α} (h : x.Ends s E Q) :
    x.Ends s E fun a t => x.run s = (.ok a, t) ∧ Q a t := by
  cases hrun : x.run s with
  | mk out t =>
    cases out with
    | ok a => exact ends_of_run hrun ⟨rfl, h.value hrun⟩
    | error f => exact ends_of_fault hrun (h.fault hrun)

theorem Ends.mono_fault {x : Work σ α} (h : x.Ends s E Q) (hE : ∀ t, E t → E' t) :
    x.Ends s E' Q := by
  unfold Ends at h ⊢
  split at h
  · exact h
  · exact hE _ h

theorem ends_pure {a : α} (h : Q a s) : (pure a : Work σ α).Ends s E Q := h

theorem ends_throw {f : Fault} (h : E s) : (throw f : Work σ α).Ends s E Q := h

theorem ends_change {f : σ → σ} {Q : Unit → σ → Prop} (h : Q () (f s)) :
    (change f).Ends s E Q := h

/-- A run that is known to return goes on from where it returned. -/
theorem ends_bind_of_run {x : Work σ β} {f : β → Work σ α} {b : β} (hx : x.run s = (.ok b, t))
    (hf : (f b).Ends t E Q) : (x >>= f).Ends s E Q := by
  rw [Ends, run_bind, hx]
  exact hf

theorem Ends.bind {x : Work σ β} {f : β → Work σ α} {R : β → σ → Prop} (hx : x.Ends s E R)
    (hf : ∀ b t, R b t → (f b).Ends t E Q) : (x >>= f).Ends s E Q := by
  unfold Ends at hx
  rw [Ends, run_bind]
  cases hrun : x.run s with
  | mk out t =>
    rw [hrun] at hx
    cases out with
    | ok b => exact hf b t hx
    | error e => exact hx

theorem ends_get_bind {f : σ → Work σ α} (hf : (f s).Ends s E Q) :
    ((get : Work σ σ) >>= f).Ends s E Q := ends_bind_of_run (run_get s) hf

theorem ends_ask_bind {q : σ → Except Fault β} {f : β → Work σ α} (hE : E s)
    (hf : ∀ b, q s = .ok b → (f b).Ends s E Q) : (ask q >>= f).Ends s E Q := by
  cases hq : q s with
  | ok b => exact ends_bind_of_run (by rw [run_ask, hq]) (hf b hq)
  | error e =>
    rw [Ends, run_bind, run_ask, hq]
    exact hE

theorem ends_lift_bind {r : Except Fault β} {f : β → Work σ α} (hE : E s)
    (hf : ∀ b, r = .ok b → (f b).Ends s E Q) : (lift r >>= f).Ends s E Q :=
  ends_ask_bind hE hf

theorem ends_lift_bind_of_ok {r : Except Fault β} {b : β} {f : β → Work σ α} (hr : r = .ok b)
    (hf : (f b).Ends s E Q) : (lift r >>= f).Ends s E Q :=
  ends_bind_of_run (by rw [run_lift, hr]) hf

theorem ends_change_bind {g : σ → σ} {f : Unit → Work σ α} (hf : (f ()).Ends (g s) E Q) :
    (change g >>= f).Ends s E Q := ends_bind_of_run (run_change g s) hf

/-- What holds of the state in which work ends holds at a value and at a fault. -/
theorem ends_of_state {x : Work σ α} (h : E (x.run s).2) : x.Ends s E fun _ => E := by
  unfold Ends
  split <;> simp_all

theorem ends_forM {f : β → Work σ PUnit} {xs : List β} (hs : E s)
    (hf : ∀ x s, E s → (f x).Ends s E fun _ => E) : (xs.forM f).Ends s E fun _ => E := by
  induction xs generalizing s with
  | nil => exact ends_pure hs
  | cons x rest ih => exact (hf x s hs).bind fun _ _ ht => ih ht

end MemShell.Work
