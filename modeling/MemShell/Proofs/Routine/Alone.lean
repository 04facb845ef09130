import MemShell.Proofs.Jobs.Scheduling
import MemShell.Proofs.Endings
import MemShell.Shell.Terminal
set_option autoImplicit false

namespace MemShell

inductive Host.Passes {σ ρ : Type} (h : Host σ ρ) : σ → σ → Prop
  | refl (s : σ) : Passes h s s
  | taken {s t : σ} (hs : Passes h s t) : Passes h s (h.takeStarted t).2
  | elapsed {s t : σ} (time : Time) (hs : Passes h s t) : Passes h s (h.setElapsed time t)

theorem Host.Passes.trans {σ ρ : Type} {h : Host σ ρ} {s t u : σ} (hs : h.Passes s t)
    (ht : h.Passes t u) : h.Passes s u := by
  induction ht with
  | refl => exact hs
  | taken _ ih => exact .taken ih
  | elapsed time _ ih => exact .elapsed time ih

/-- Wherever the routine ends, `Q` holds, if all that it notes is allowed and its waits pass so. -/
inductive Step.Ends {σ ε α : Type} (passes : σ → σ → Prop) (allowed : σ → ε → Prop)
    (Q : α → σ → Prop) : Step σ ε α → Prop
  | done {s : σ} {a : α} (h : Q a s) : Ends passes allowed Q (.done s a)
  | wait {s : σ} {w : Wait} {resume : σ → Bool → Step σ ε α}
    (h : ∀ t woken, passes s t → Ends passes allowed Q (resume t woken)) :
    Ends passes allowed Q (.wait s w resume)
  | note {s : σ} {e : ε} {next : Step σ ε α} (h : allowed s e → Ends passes allowed Q next) :
    Ends passes allowed Q (.note s e next)

theorem Step.Ends.bind {σ ε α β : Type} {passes : σ → σ → Prop} {allowed : σ → ε → Prop}
    {Q : α → σ → Prop} {Q' : β → σ → Prop} {x : Step σ ε α} {f : σ → α → Step σ ε β}
    (h : x.Ends passes allowed Q) (hf : ∀ a s, Q a s → (f s a).Ends passes allowed Q') :
    (x.bind f).Ends passes allowed Q' := by
  induction h with
  | done h => exact hf _ _ h
  | wait _ ih => exact .wait ih
  | note _ ih => exact .note ih

namespace Runtime
variable {σ ρ α : Type} (h : Host σ ρ)

def isJobNext (rt : Runtime σ ρ) : Bool :=
  match (rt.fireDue h).ready with
  | ⟨0, .job ..⟩ :: _ => true
  | _ => false

def awaitsAlone : Nat → Runtime σ ρ → Bool
  | 0, _ => true
  | n + 1, rt =>
    !rt.isJobNext h &&
      match rt.progress h with
      | .foreground _ => true
      | .moved rt => awaitsAlone n rt
      | .idle rt =>
        match rt.nextDeadline with
        | none => true
        | some t => awaitsAlone n { rt with state := h.setElapsed t rt.state }

def followsAlone : Step σ Note α → Runtime σ ρ → Bool
  | .done _ _, _ => true
  | .wait s w resume, rt =>
    awaitsAlone h maxTurns (rt.giveWay h s w) &&
      match awaitWithin h maxTurns (rt.giveWay h s w) with
      | none => true
      | some rt => followsAlone (resume rt.state false) rt
  | .note _ _ next, rt => followsAlone next rt

variable {h} {rt rt' : Runtime σ ρ}

theorem state_progress (hnext : rt.isJobNext h = false) :
    (rt.progress h).runtime.state = rt.state := by
  have hfired : (rt.fireDue h).state = rt.state := rfl
  unfold isJobNext at hnext
  unfold progress
  generalize rt.fireDue h = fired at hnext hfired
  dsimp only
  cases hqueue : fired.ready with
  | nil => exact hfired
  | cons r rest =>
    rw [hqueue] at hnext
    obtain ⟨passes, turn⟩ := r
    cases passes with
    | succ passes => exact hfired
    | zero =>
      cases turn with
      | foreground => exact hfired
      | nobody => exact hfired
      | job id started run => cases hnext

theorem passes_awaitWithin {n : Nat} (halone : rt.awaitsAlone h n = true)
    (hend : rt.awaitWithin h n = some rt') : h.Passes rt.state rt'.state := by
  induction n generalizing rt with
  | zero => cases hend
  | succ n ih =>
    unfold awaitsAlone at halone
    unfold awaitWithin at hend
    obtain ⟨hnext, hlater⟩ := Bool.and_eq_true_iff.mp halone
    have hstate := state_progress (by simpa using hnext)
    cases hprogress : rt.progress h with
    | foreground rt₁ =>
      rw [hprogress] at hend hstate
      rw [← Option.some.inj hend, ← hstate]
      exact .refl _
    | moved rt₁ =>
      rw [hprogress] at hend hstate hlater
      rw [← hstate]
      exact ih hlater hend
    | idle rt₁ =>
      rw [hprogress] at hend hstate hlater
      rw [← hstate]
      dsimp only at hend hlater
      cases hdeadline : rt₁.nextDeadline with
      | none =>
        rw [hdeadline] at hend
        cases hend
      | some time =>
        rw [hdeadline] at hend hlater
        exact (Host.Passes.elapsed time (.refl _)).trans (ih hlater hend)

theorem state_giveWay (s : σ) (w : Wait) : (rt.giveWay h s w).state = (h.takeStarted s).2 := by
  unfold giveWay
  dsimp only
  split <;> rfl

theorem ends_follow {allowed : σ → Note → Prop} {Q : α → σ → Prop} {x : Step σ Note α} {a : α}
    (hx : x.Ends h.Passes allowed Q) (halone : rt.followsAlone h x = true)
    (hnoted : ∀ n ∈ rt.followNoted h x, allowed n.1 n.2) (hend : rt.follow h x = some (a, rt')) :
    ∃ s, Q a s ∧ rt'.state = (h.takeStarted s).2 := by
  induction hx generalizing rt with
  | @done s _ hs =>
    obtain ⟨rfl, rfl⟩ := Prod.mk.inj (Option.some.inj hend)
    exact ⟨s, hs, rfl⟩
  | note _ ih =>
    exact ih (hnoted _ (List.mem_cons_self ..)) halone
      (fun n hn => hnoted n (List.mem_cons_of_mem _ hn)) hend
  | @wait s w resume _ ih =>
    unfold followsAlone at halone
    unfold followNoted at hnoted
    unfold follow at hend
    obtain ⟨hwait, hlater⟩ := Bool.and_eq_true_iff.mp halone
    cases hawait : (rt.giveWay h s w).awaitWithin h maxTurns with
    | none =>
      rw [hawait] at hend
      cases hend
    | some rt₁ =>
      rw [hawait] at hend hnoted hlater
      have hpasses := passes_awaitWithin hwait hawait
      rw [state_giveWay] at hpasses
      exact ih _ _ ((Host.Passes.taken (.refl s)).trans hpasses) hlater
        (fun n hn => hnoted n (List.mem_append_right _ hn)) hend

end Runtime

namespace Run
variable {α β : Type} {allowed : Shell → Note → Prop} {s : Shell} {E E' : Shell → Prop}
  {Q Q' : α → Shell → Prop} {R : β → Shell → Prop}

def AtEnd (E : Shell → Prop) (Q : α → Shell → Prop) (r : Except Fault α) (s : Shell) : Prop :=
  match r with
  | .ok a => Q a s
  | .error _ => E s

def Ends (allowed : Shell → Note → Prop) (x : Run α) (s : Shell) (E : Shell → Prop)
    (Q : α → Shell → Prop) : Prop :=
  Step.Ends Shell.host.Passes allowed (AtEnd E Q) (x s)

theorem Ends.bind {x : Run α} {f : α → Run β} (h : x.Ends allowed s E Q)
    (hf : ∀ a t, Q a t → (f a).Ends allowed t E R) : (x >>= f).Ends allowed s E R := by
  refine Step.Ends.bind h fun r t hr => ?_
  cases r with
  | ok a => exact hf a t hr
  | error e => exact .done hr

theorem Ends.mono {x : Run α} (h : x.Ends allowed s E Q) (hE : ∀ t, E t → E' t)
    (hQ : ∀ a t, Q a t → Q' a t) : x.Ends allowed s E' Q' := by
  have := Step.Ends.bind (f := .done) h fun r t hr => .done (Q := AtEnd E' Q') ?_
  · rwa [Step.bind_pure] at this
  · cases r with
    | ok a => exact hQ a t hr
    | error e => exact hE t hr

theorem ends_pure {a : α} (h : Q a s) : (pure a : Run α).Ends allowed s E Q := .done h

theorem ends_throw {f : Fault} (h : E s) : (throw f : Run α).Ends allowed s E Q := .done h

theorem ends_lift {r : Except Fault α} (h : AtEnd E Q r s) : (lift r).Ends allowed s E Q :=
  .done h

theorem ends_lift_bind {r : Except Fault α} {f : α → Run β} (hE : E s)
    (hf : ∀ a, r = .ok a → (f a).Ends allowed s E R) : (lift r >>= f).Ends allowed s E R := by
  cases r with
  | ok a => exact hf a rfl
  | error e => exact .done hE

theorem ends_effect {x : Effect α} (h : x.Ends s E Q) : (effect x).Ends allowed s E Q := by
  refine .done ?_
  unfold Work.Ends at h
  change AtEnd E Q (x.run s).1 (x.run s).2
  split at h
  · next hrun =>
    rw [hrun]
    exact h
  · next hrun =>
    rw [hrun]
    exact h

theorem ends_get_bind {f : Shell → Run β} (h : (f s).Ends allowed s E R) :
    (get >>= f).Ends allowed s E R := h

theorem ends_modify_bind {g : Shell → Shell} {f : Unit → Run β}
    (h : (f ()).Ends allowed (g s) E R) : (modify g >>= f).Ends allowed s E R := h

theorem ends_modifyGet {g : Shell → α × Shell} (h : Q (g s).1 (g s).2) :
    (modifyGet g : Run α).Ends allowed s E Q := .done h

theorem ends_pause {w : Wait} {Q : Bool → Shell → Prop}
    (h : ∀ woken t, Shell.host.Passes s t → Q woken t) : (pause w).Ends allowed s E Q :=
  .wait fun t woken ht => .done (h woken t ht)

theorem ends_note_bind {e : Note} {f : Unit → Run β}
    (h : allowed s e → (f ()).Ends allowed s E R) : (note e >>= f).Ends allowed s E R :=
  .note h

theorem Ends.outcome_bind {x : Run α} {f : Except Fault α → Run β} (h : x.Ends allowed s E Q)
    (hf : ∀ r t, AtEnd E Q r t → (f r).Ends allowed t E' R) :
    (outcome x >>= f).Ends allowed s E' R := by
  have houtcome : (outcome x).Ends allowed s E' (AtEnd E Q) :=
    Step.Ends.bind h fun r t hr => .done hr
  exact houtcome.bind hf

theorem ends_outcome_effect_bind {x : Effect α} {f : Except Fault α → Run β}
    (h : (f (x.run s).1).Ends allowed (x.run s).2 E R) :
    (outcome (effect x) >>= f).Ends allowed s E R := h

end Run
end MemShell
