import MemShell.Work
set_option autoImplicit false

namespace MemShell

variable {σ α β : Type}

inductive Agree (R : α → α → Prop) : Except Fault α → Except Fault α → Prop
  | ok {v w : α} (h : R v w) : Agree R (.ok v) (.ok w)
  | error (f : Fault) : Agree R (.error f) (.error f)

namespace Agree
variable {R : α → α → Prop} {S : β → β → Prop} {x y : Except Fault α} {f g : α → Except Fault β}

theorem cases (h : Agree R x y) :
    (∃ f, x = .error f ∧ y = .error f) ∨ ∃ v w, x = .ok v ∧ y = .ok w ∧ R v w := by
  cases h with
  | ok h => exact .inr ⟨_, _, rfl, rfl, h⟩
  | error f => exact .inl ⟨f, rfl, rfl⟩

theorem mono {R' : α → α → Prop} (h : Agree R x y) (hR : ∀ v w, R v w → R' v w) :
    Agree R' x y := by
  cases h with
  | ok h => exact .ok (hR _ _ h)
  | error f => exact .error f

theorem self (h : ∀ v, x = .ok v → R v v) : Agree R x x := by
  cases x with
  | ok v => exact .ok (h v rfl)
  | error f => exact .error f

theorem eq (h : Agree (fun v w => w = v) x y) : y = x := by
  cases h with
  | ok h => rw [h]
  | error f => rfl

theorem bind (h : Agree R x y)
    (hf : ∀ v w, x = .ok v → y = .ok w → R v w → Agree S (f v) (g w)) :
    Agree S (x >>= f) (y >>= g) := by
  cases h with
  | ok h => exact hf _ _ rfl rfl h
  | error e => exact .error e

end Agree

namespace Work

/-- Both end with values and states that satisfy `Q`, or at the same fault in states that satisfy `E`. -/
inductive Parallel (x y : Work σ α) (s t : σ) (E : σ → σ → Prop) (Q : α → α → σ → σ → Prop) : Prop
  | ok {v w : α} {s' t' : σ} (hx : x.run s = (.ok v, s')) (hy : y.run t = (.ok w, t'))
      (h : Q v w s' t') : Parallel x y s t E Q
  | error {f : Fault} {s' t' : σ} (hx : x.run s = (.error f, s')) (hy : y.run t = (.error f, t'))
      (h : E s' t') : Parallel x y s t E Q

variable {s t : σ} {E E' : σ → σ → Prop} {Q Q' : α → α → σ → σ → Prop} {x y : Work σ α}

theorem Parallel.mono (h : Parallel x y s t E Q) (hE : ∀ s t, E s t → E' s t)
    (hQ : ∀ v w s t, Q v w s t → Q' v w s t) : Parallel x y s t E' Q' := by
  cases h with
  | ok hx hy h => exact .ok hx hy (hQ _ _ _ _ h)
  | error hx hy h => exact .error hx hy (hE _ _ h)

theorem parallel_pure {v w : α} (h : Q v w s t) : Parallel (pure v) (pure w) s t E Q :=
  .ok (run_pure v s) (run_pure w t) h

theorem parallel_throw {f : Fault} (h : E s t) :
    Parallel (throw f : Work σ α) (throw f) s t E Q :=
  .error (run_throw f s) (run_throw f t) h

theorem parallel_change {f g : σ → σ} {Q : Unit → Unit → σ → σ → Prop} (h : Q () () (f s) (g t)) :
    Parallel (change f) (change g) s t E Q :=
  .ok (run_change f s) (run_change g t) h

theorem Parallel.bind {x y : Work σ β} {f g : β → Work σ α} {R : β → β → σ → σ → Prop}
    (h : Parallel x y s t E R)
    (hf : ∀ v w s' t', R v w s' t' → Parallel (f v) (g w) s' t' E Q) :
    Parallel (x >>= f) (y >>= g) s t E Q := by
  cases h with
  | ok hx hy h =>
    cases hf _ _ _ _ h with
    | ok hx' hy' h' =>
      refine .ok ?_ ?_ h'
      · rw [run_bind, hx]
        exact hx'
      · rw [run_bind, hy]
        exact hy'
    | @error e _ _ hx' hy' h' =>
      refine .error (f := e) ?_ ?_ h'
      · rw [run_bind, hx]
        exact hx'
      · rw [run_bind, hy]
        exact hy'
  | @error e _ _ hx hy h =>
    refine .error (f := e) ?_ ?_ h
    · rw [run_bind, hx]
    · rw [run_bind, hy]

theorem parallel_ask {q q' : σ → Except Fault α} {R : α → α → Prop} (h : Agree R (q s) (q' t))
    (hE : E s t) (hQ : ∀ v w, q s = .ok v → q' t = .ok w → R v w → Q v w s t) :
    Parallel (ask q) (ask q') s t E Q := by
  have hx : (ask q).run s = (q s, s) := run_ask q s
  have hy : (ask q').run t = (q' t, t) := run_ask q' t
  rcases h.cases with ⟨f, hf, hf'⟩ | ⟨v, w, hv, hw, hR⟩
  · exact .error (by rw [hx, hf]) (by rw [hy, hf']) hE
  · exact .ok (by rw [hx, hv]) (by rw [hy, hw]) (hQ v w hv hw hR)

theorem parallel_get_bind {f g : σ → Work σ α} (h : Parallel (f s) (g t) s t E Q) :
    Parallel (get >>= f) (get >>= g) s t E Q := by
  have hget : Parallel (get : Work σ σ) get s t E fun v w s' t' => v = s ∧ w = t ∧ s' = s ∧ t' = t :=
    .ok (run_get s) (run_get t) ⟨rfl, rfl, rfl, rfl⟩
  refine hget.bind ?_
  rintro _ _ _ _ ⟨rfl, rfl, rfl, rfl⟩
  exact h

theorem parallel_ask_bind {q q' : σ → Except Fault β} {R : β → β → Prop} {f g : β → Work σ α}
    (h : Agree R (q s) (q' t)) (hE : E s t)
    (hf : ∀ v w, q s = .ok v → q' t = .ok w → R v w → Parallel (f v) (g w) s t E Q) :
    Parallel (ask q >>= f) (ask q' >>= g) s t E Q := by
  have hask : Parallel (ask q) (ask q') s t E fun v w s' t' =>
      s' = s ∧ t' = t ∧ q s = .ok v ∧ q' t = .ok w ∧ R v w :=
    parallel_ask h hE fun _ _ hv hw hR => ⟨rfl, rfl, hv, hw, hR⟩
  refine hask.bind ?_
  rintro v w _ _ ⟨rfl, rfl, hv, hw, hR⟩
  exact hf v w hv hw hR

theorem parallel_ask_bind_eq {q q' : σ → Except Fault β} {f g : β → Work σ α} (h : q' t = q s)
    (hE : E s t) (hf : ∀ v, q s = .ok v → Parallel (f v) (g v) s t E Q) :
    Parallel (ask q >>= f) (ask q' >>= g) s t E Q := by
  refine parallel_ask_bind (R := fun v w => w = v) ?_ hE ?_
  · rw [h]
    exact .self fun _ _ => rfl
  · intro v w hv _ hw
    rw [hw]
    exact hf v hv

theorem parallel_lift_bind {r r' : Except Fault β} {f g : β → Work σ α} (h : r' = r) (hE : E s t)
    (hf : ∀ v, r = .ok v → Parallel (f v) (g v) s t E Q) :
    Parallel (lift r >>= f) (lift r' >>= g) s t E Q := parallel_ask_bind_eq h hE hf

theorem parallel_change_bind {f f' : σ → σ} {k k' : Unit → Work σ α}
    (h : Parallel (k ()) (k' ()) (f s) (f' t) E Q) :
    Parallel (change f >>= k) (change f' >>= k') s t E Q := by
  have hchange : Parallel (change f) (change f') s t E fun _ _ s' t' => s' = f s ∧ t' = f' t :=
    parallel_change ⟨rfl, rfl⟩
  refine hchange.bind ?_
  rintro _ _ _ _ ⟨rfl, rfl⟩
  exact h

theorem parallel_set {a b : σ} {Q : PUnit → PUnit → σ → σ → Prop} (h : Q () () a b) :
    Parallel (set a) (set b) s t E Q :=
  parallel_change (f := fun _ => a) (g := fun _ => b) h

theorem parallel_set_bind {a b : σ} {k k' : PUnit → Work σ α}
    (h : Parallel (k ()) (k' ()) a b E Q) :
    Parallel (set a >>= k) (set b >>= k') s t E Q :=
  have hset : Parallel (k ()) (k' ()) ((fun _ => a) s) ((fun _ => b) t) E Q := h
  parallel_change_bind hset

theorem parallel_modify_bind {f f' : σ → σ} {k k' : PUnit → Work σ α}
    (h : Parallel (k ()) (k' ()) (f s) (f' t) E Q) :
    Parallel (modify f >>= k) (modify f' >>= k') s t E Q :=
  parallel_change_bind h

def Lockstep (R : σ → σ → Prop) (x : Work σ α) (s t : σ) : Prop :=
  x.Parallel x s t R fun v w s' t' => w = v ∧ R s' t'

theorem Lockstep.mono {R S : σ → σ → Prop} (h : Lockstep R x s t) (hRS : ∀ s t, R s t → S s t) :
    Lockstep S x s t :=
  Parallel.mono h hRS fun _ _ _ _ h => ⟨h.1, hRS _ _ h.2⟩

section
variable {R : σ → σ → Prop}

theorem lockstep_pure {a : α} (h : R s t) : (pure a : Work σ α).Lockstep R s t :=
  parallel_pure ⟨rfl, h⟩

theorem lockstep_throw {f : Fault} (h : R s t) : (throw f : Work σ α).Lockstep R s t :=
  parallel_throw h

theorem lockstep_lift {r : Except Fault α} (h : R s t) : (lift r).Lockstep R s t :=
  parallel_ask (R := fun v w => w = v) (.self fun _ _ => rfl) h fun _ _ _ _ hw => ⟨hw, h⟩

theorem Lockstep.andThen {x : Work σ β} {f : β → Work σ α} (hx : x.Lockstep R s t)
    (hf : ∀ v s t, R s t → (f v).Lockstep R s t) : (x >>= f).Lockstep R s t := by
  refine Parallel.bind hx ?_
  rintro v w s' t' ⟨rfl, h⟩
  exact hf _ s' t' h

theorem lockstep_of_run {x : Work σ α} (h : (x.run t).1 = (x.run s).1)
    (hR : R (x.run s).2 (x.run t).2) : x.Lockstep R s t := by
  cases hx : x.run s with
  | mk r s' =>
    cases hy : x.run t with
    | mk r' t' =>
      rw [hx, hy] at h hR
      obtain rfl : r' = r := h
      cases r' with
      | ok a => exact .ok hx hy ⟨rfl, hR⟩
      | error f => exact .error hx hy hR

theorem lockstep_self {x : Work σ α} (h : R (x.run s).2 (x.run s).2) : x.Lockstep R s s :=
  lockstep_of_run rfl h

theorem Lockstep.outcome {x : Work σ α} (hx : x.Lockstep R s t) : x.outcome.Lockstep R s t := by
  cases hx with
  | @ok v w s' t' hx hy h =>
    obtain ⟨rfl, h⟩ := h
    exact .ok (by rw [run_outcome, hx]) (by rw [run_outcome, hy]) ⟨rfl, h⟩
  | error hx hy h => exact .ok (by rw [run_outcome, hx]) (by rw [run_outcome, hy]) ⟨rfl, h⟩

theorem lockstep_forM {f : β → Work σ PUnit} (xs : List β)
    (hf : ∀ x s t, R s t → (f x).Lockstep R s t) (h : R s t) : (xs.forM f).Lockstep R s t := by
  induction xs generalizing s t with
  | nil => exact lockstep_pure h
  | cons x xs ih => exact (hf x s t h).andThen fun _ s t h => ih h

theorem lockstep_mapM {f : β → Work σ α} (xs : List β)
    (hf : ∀ x s t, R s t → (f x).Lockstep R s t) (h : R s t) : (xs.mapM f).Lockstep R s t := by
  induction xs generalizing s t with
  | nil => exact lockstep_pure h
  | cons x xs ih =>
    rw [List.mapM_cons]
    refine (hf x s t h).andThen fun v s t h => ?_
    exact (ih h).andThen fun vs s t h => lockstep_pure h

end

end Work
end MemShell
