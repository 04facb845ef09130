import MemShell.Shell.Execute
set_option autoImplicit false

namespace MemShell

namespace Step
variable {σ ε α β : Type} {between : σ → List (σ × ε) → σ → Prop}

/-- The routine ends so, with these notes. What happens in its waits is one of `between`. -/
inductive Completes (between : σ → List (σ × ε) → σ → Prop) :
    Step σ ε α → List (σ × ε) → α → σ → Prop
  | done (s : σ) (a : α) : Completes between (.done s a) [] a s
  | wait {s u t : σ} {w : Wait} {resume : σ → Bool → Step σ ε α} {woken : Bool} {a : α}
    {meanwhile notes : List (σ × ε)} (hu : between s meanwhile u)
    (h : Completes between (resume u woken) notes a t) :
    Completes between (.wait s w resume) (meanwhile ++ notes) a t
  | note {s t : σ} {e : ε} {next : Step σ ε α} {a : α} {notes : List (σ × ε)}
    (h : Completes between next notes a t) : Completes between (.note s e next) ((s, e) :: notes) a t

theorem Completes.of_bind {x : Step σ ε α} {f : σ → α → Step σ ε β} {notes : List (σ × ε)} {b : β}
    {t : σ} (h : (x.bind f).Completes between notes b t) :
    ∃ before a s later, x.Completes between before a s ∧ (f s a).Completes between later b t ∧
      notes = before ++ later := by
  induction x generalizing notes with
  | done s a => exact ⟨[], a, s, notes, .done s a, h, rfl⟩
  | wait s w resume ih =>
    rw [Step.bind] at h
    cases h with
    | @wait _ u _ _ _ woken _ meanwhile _ hu h =>
      obtain ⟨before, a, v, later, hbefore, hlater, rfl⟩ := ih u woken h
      exact ⟨meanwhile ++ before, a, v, later, .wait hu hbefore, hlater, by rw [List.append_assoc]⟩
  | note s e next ih =>
    rw [Step.bind] at h
    cases h with
    | note h =>
      obtain ⟨before, a, v, later, hbefore, hlater, rfl⟩ := ih h
      exact ⟨(s, e) :: before, a, v, later, .note hbefore, hlater, rfl⟩

def through (pass : σ → σ) : Step σ ε α → List (σ × ε) × α × σ
  | .done s a => ([], a, s)
  | .wait s _ resume => (resume (pass s) false).through pass
  | .note s e next => ((s, e) :: (next.through pass).1, (next.through pass).2)

theorem completes_through {pass : σ → σ} (h : ∀ s, between s [] (pass s)) (x : Step σ ε α) :
    x.Completes between (x.through pass).1 (x.through pass).2.1 (x.through pass).2.2 := by
  induction x with
  | done s a => exact .done s a
  | wait s w resume ih => exact .wait (h s) (ih _ false)
  | note s e next ih => exact .note ih

end Step

namespace Run
variable {α β : Type} {between : Shell → List (Shell × Note) → Shell → Prop} {s t : Shell}
  {P : List (Shell × Note) → Except Fault α → Shell → Prop}
  {Q : List (Shell × Note) → Except Fault β → Shell → Prop}

def Ensures (between : Shell → List (Shell × Note) → Shell → Prop) (x : Run α) (s : Shell)
    (P : List (Shell × Note) → Except Fault α → Shell → Prop) : Prop :=
  ∀ notes r t, (x s).Completes between notes r t → P notes r t

theorem Ensures.mono {x : Run α} {P' : List (Shell × Note) → Except Fault α → Shell → Prop}
    (h : x.Ensures between s P) (hP : ∀ notes r t, P notes r t → P' notes r t) :
    x.Ensures between s P' := fun notes r t hend => hP notes r t (h notes r t hend)

theorem ensures_completes (x : Run α) (s : Shell) :
    x.Ensures between s fun notes r t => (x s).Completes between notes r t := fun _ _ _ h => h

theorem ensures_done {x : Run α} {r : Except Fault α} (hx : x s = .done t r) (h : P [] r t) :
    x.Ensures between s P := by
  intro notes r' u hend
  rw [hx] at hend
  cases hend
  exact h

theorem ensures_pure {a : α} (h : P [] (.ok a) s) : (pure a : Run α).Ensures between s P :=
  ensures_done rfl h

theorem ensures_throw {f : Fault} (h : P [] (.error f) s) :
    (throw f : Run α).Ensures between s P := ensures_done rfl h

theorem ensures_lift {r : Except Fault α} (h : P [] r s) : (lift r).Ensures between s P :=
  ensures_done rfl h

theorem ensures_effect {x : Effect α} (h : P [] (x.run s).1 (x.run s).2) :
    (effect x).Ensures between s P := ensures_done rfl h

theorem ensures_pause {w : Wait} {P : List (Shell × Note) → Except Fault Bool → Shell → Prop}
    (h : ∀ meanwhile woken t, between s meanwhile t → P meanwhile (.ok woken) t) :
    (pause w).Ensures between s P := by
  intro notes r t hend
  cases hend with
  | wait hu hdone =>
    cases hdone
    rw [List.append_nil]
    exact h _ _ _ hu

theorem Ensures.bind {x : Run α} {f : α → Run β} (hx : x.Ensures between s P)
    (hok : ∀ before a t, P before (.ok a) t →
      (f a).Ensures between t fun later => Q (before ++ later))
    (herror : ∀ before e t, P before (.error e) t → Q before (.error e) t) :
    (x >>= f).Ensures between s Q := by
  intro notes r t hend
  obtain ⟨before, ended, u, later, hbefore, hlater, rfl⟩ := Step.Completes.of_bind hend
  cases ended with
  | ok a => exact hok before a u (hx _ _ _ hbefore) _ _ _ hlater
  | error e =>
    cases hlater
    rw [List.append_nil]
    exact herror before e _ (hx _ _ _ hbefore)

theorem Ensures.outcome_bind {x : Run α} {f : Except Fault α → Run β} (hx : x.Ensures between s P)
    (hf : ∀ before r t, P before r t → (f r).Ensures between t fun later => Q (before ++ later)) :
    (outcome x >>= f).Ensures between s Q := by
  have houtcome : (outcome x).Ensures between s fun notes r t => ∃ ended, r = .ok ended ∧
      P notes ended t := by
    intro notes r t hend
    obtain ⟨before, ended, u, later, hbefore, hlater, rfl⟩ := Step.Completes.of_bind hend
    cases hlater
    rw [List.append_nil]
    exact ⟨ended, rfl, hx _ _ _ hbefore⟩
  refine houtcome.bind ?_ ?_
  · rintro before _ t ⟨_, heq, hended⟩
    cases heq
    exact hf _ _ _ hended
  · rintro before e t ⟨_, heq, -⟩
    cases heq

theorem ensures_get_bind {f : Shell → Run β} (h : (f s).Ensures between s Q) :
    (get >>= f).Ensures between s Q := h

theorem ensures_modify_bind {g : Shell → Shell} {f : Unit → Run β}
    (h : (f ()).Ensures between (g s) Q) : (modify g >>= f).Ensures between s Q := h

theorem ensures_note_bind {e : Note} {f : Unit → Run β}
    (h : (f ()).Ensures between s fun notes => Q ((s, e) :: notes)) :
    (note e >>= f).Ensures between s Q := by
  intro notes r t hend
  change Step.Completes between (.note s e (f () s)) notes r t at hend
  cases hend with
  | note hlater => exact h _ _ _ hlater

def Answers (between : Shell → List (Shell × Note) → Shell → Prop) (x : Run α) (s : Shell)
    (P : α → Shell → Prop) : Prop :=
  x.Ensures between s fun _ r t => ∀ a, r = .ok a → P a t

section Answers
variable {P : α → Shell → Prop} {Q : β → Shell → Prop}

theorem Answers.mono {x : Run α} {P' : α → Shell → Prop} (h : x.Answers between s P)
    (hP : ∀ a t, P a t → P' a t) : x.Answers between s P' :=
  Ensures.mono h fun _ _ t h a ha => hP a t (h a ha)

theorem answers_pure {a : α} (h : P a s) : (pure a : Run α).Answers between s P :=
  ensures_pure fun _ ha => Except.ok.inj ha ▸ h

theorem answers_lift {r : Except Fault α} (h : ∀ a, r = .ok a → P a s) :
    (lift r).Answers between s P := ensures_lift h

theorem Answers.bind {x : Run α} {f : α → Run β} (hx : x.Answers between s P)
    (hf : ∀ a t, P a t → (f a).Answers between t Q) : (x >>= f).Answers between s Q :=
  Ensures.bind hx (fun _ a t ha => hf a t (ha a rfl)) fun _ _ _ _ _ h => nomatch h

theorem Answers.outcome_bind {x : Run α} {f : Except Fault α → Run β} (hx : x.Answers between s P)
    (hf : ∀ r t, (∀ a, r = .ok a → P a t) → (f r).Answers between t Q) :
    (outcome x >>= f).Answers between s Q :=
  Ensures.outcome_bind hx fun _ r t hr => hf r t hr

theorem answers_effect {x : Effect α} : (effect x).Answers between s fun _ _ => True :=
  ensures_effect fun _ _ => trivial

theorem answers_completes (x : Run α) (s : Shell) :
    x.Answers between s fun a t => ∃ notes, (x s).Completes between notes (.ok a) t :=
  fun notes _ _ h _ ha => ⟨notes, ha ▸ h⟩

theorem answers_get_bind {f : Shell → Run β} (h : (f s).Answers between s Q) :
    (get >>= f).Answers between s Q := h

theorem answers_note_bind {e : Note} {f : Unit → Run β} (h : (f ()).Answers between s Q) :
    (note e >>= f).Answers between s Q := ensures_note_bind h

end Answers

end Run
end MemShell
