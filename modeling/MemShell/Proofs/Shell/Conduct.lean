import MemShell.Proofs.Shell.Discipline
import MemShell.Proofs.Routine.Completes
set_option autoImplicit false

/-!
# Conducts

What leads from the state in which a line, a script or a pipeline begins to the one in which it ends,
for those of one caller. Its laws speak of single actions and of a script's frame, and from them it
follows for all that runs inside of a line.
-/
namespace MemShell
open Execute

/-- What the lines of a job, or of the foreground, lead to, and what others do while they wait. -/
structure Conduct where
  job : Option JobId
  between : Shell → List (Shell × Note) → Shell → Prop
  leads : Shell → List (Shell × Note) → Shell → Prop

namespace Conduct

structure Lawful (d : Conduct) : Prop where
  refl (s : Shell) : d.leads s [] s
  trans {s t u : Shell} {before later : List (Shell × Note)} : d.leads s before t →
    d.leads t later u → d.leads s (before ++ later) u
  between {s t : Shell} {notes : List (Shell × Note)} : d.between s notes t → d.leads s notes t
  notify (line : String) (s : Shell) : d.leads s [] (s.notify line)
  record (f : History → History) (s : Shell) : d.leads s [] { s with history := f s.history }
  save (s : Shell) : d.leads s [] (Effect.save.run s).2
  launch {c : Caller} (p : Pipeline) (s : Shell) : c.job = d.job →
    d.leads s [] (startJob p c s).2
  command (action : Action) (c : Context) (s : Shell) : d.leads s [(s, .command action c)] s
  builtin {c : Context} (b : Builtin) (s : Shell) : c.caller.job = d.job →
    d.leads s [(s, .command (.builtin b) c)] ((b.run c).run s).2
  redirect {c : Caller} (target : Redirect) (text : String) (s : Shell) : c.job = d.job →
    d.leads s [(s, .redirect c target text)] ((writeRedirect c target text).run s).2
  script {s t : Shell} {notes : List (Shell × Note)} :
    d.leads (s.changeEnvironment d.job Environment.push) notes t →
    d.leads s notes (t.changeEnvironment d.job Environment.pop)

def Follows {α : Type} (d : Conduct) (x : Run α) (s : Shell) : Prop :=
  x.Ensures d.between s fun notes _ => d.leads s notes

def Runs (d : Conduct) (inner : LineRunner) : Prop :=
  ∀ line c record s, c.job = d.job → d.Follows (inner line c record) s

variable {α β : Type} {d : Conduct} {c : Caller} {inner : LineRunner}

namespace Lawful
variable (h : d.Lawful)
include h

theorem follows_pure (a : α) (s : Shell) : d.Follows (pure a) s := Run.ensures_pure (h.refl s)

theorem follows_throw (f : Fault) (s : Shell) : d.Follows (throw f : Run α) s :=
  Run.ensures_throw (h.refl s)

theorem follows_lift (r : Except Fault α) (s : Shell) : d.Follows (Run.lift r) s :=
  Run.ensures_lift (h.refl s)

theorem follows_pause (w : Wait) (s : Shell) : d.Follows (Run.pause w) s :=
  Run.ensures_pause fun _ _ _ ht => h.between ht

theorem follows_bind {x : Run α} {f : α → Run β} {s : Shell} (hx : d.Follows x s)
    (hf : ∀ a t, d.Follows (f a) t) : d.Follows (x >>= f) s :=
  Run.Ensures.bind hx (fun _ a t ht => (hf a t).mono fun _ _ _ hu => h.trans ht hu)
    fun _ _ _ ht => ht

theorem follows_outcome_bind {x : Run α} {f : Except Fault α → Run β} {s : Shell}
    (hx : d.Follows x s) (hf : ∀ r t, d.Follows (f r) t) : d.Follows (Run.outcome x >>= f) s :=
  Run.Ensures.outcome_bind hx fun _ r t ht => (hf r t).mono fun _ _ _ hu => h.trans ht hu

theorem follows_runLines (hinner : d.Runs inner) (script : Script) (outputs : List String)
    (ls : List (String × Nat)) (hc : c.job = d.job) (s : Shell) :
    d.Follows (runLines inner c script outputs ls) s := by
  induction ls generalizing outputs s with
  | nil => exact h.follows_pure _ s
  | cons l rest ih =>
    obtain ⟨raw, i⟩ := l
    simp only [runLines]
    split
    · exact ih outputs s
    · refine Run.ensures_get_bind ?_
      split
      · exact h.follows_pure _ s
      · refine h.follows_bind (hinner _ { c with script := _ } _ s hc) fun r t => ?_
        split
        · exact h.follows_pure _ t
        · exact ih _ t

/-- A script fails as it begins, or drops in the end the frame in which its lines have run. -/
theorem ensures_runScript (hinner : d.Runs inner) (path : String) (args : List String)
    (hc : c.job = d.job) (s : Shell) :
    (runScript inner path args c).Ensures d.between s fun notes _ t => (notes = [] ∧ t = s) ∨
      ∃ u, d.leads (s.changeEnvironment d.job Environment.push) notes u ∧
        t = u.changeEnvironment d.job Environment.pop := by
  have hjob : (c.orSession s).job = d.job := by rw [Caller.job_orSession, hc]
  refine Run.ensures_get_bind ?_
  dsimp only
  generalize c.orSession s = c at hjob
  rw [hjob]
  split
  · exact Run.ensures_pure (.inl ⟨rfl, rfl⟩)
  split
  · exact Run.ensures_lift (.inl ⟨rfl, rfl⟩)
  · refine Run.ensures_modify_bind ?_
    refine (h.follows_runLines hinner _ _ _ hjob _).outcome_bind fun before r u hu => ?_
    refine Run.ensures_modify_bind (Run.ensures_lift (.inr ⟨u, ?_, rfl⟩))
    rwa [List.append_nil]

theorem follows_runScript (hinner : d.Runs inner) (path : String) (args : List String)
    (hc : c.job = d.job) (s : Shell) : d.Follows (runScript inner path args c) s := by
  refine (h.ensures_runScript hinner path args hc s).mono ?_
  rintro notes r t (⟨rfl, rfl⟩ | ⟨u, hu, rfl⟩)
  · exact h.refl t
  · exact h.script hu

theorem follows_runCommands (hinner : d.Runs inner) (k : Context) (outputs : List String)
    (modified : Bool) (commands : List (List String)) (hk : k.caller.job = d.job) (s : Shell) :
    d.Follows (runCommands inner k outputs modified commands) s := by
  induction commands generalizing outputs modified s with
  | nil => exact h.follows_pure _ s
  | cons words rest ih =>
    simp only [runCommands]
    refine Run.ensures_get_bind ?_
    split
    · exact h.follows_throw _ s
    · refine h.follows_bind (hinner _ _ _ s hk) fun r t => ?_
      split
      · exact ih _ _ t
      · exact h.follows_pure _ t

theorem follows_fanOut (hinner : d.Runs inner) (k : Context) (hk : k.caller.job = d.job)
    (s : Shell) : d.Follows (fanOut inner k) s := by
  simp only [fanOut]
  split
  · exact h.follows_pure _ s
  · exact h.follows_runCommands hinner k _ _ _ hk s

theorem follows_wait (k : Context) (unitsPerSecond : Nat) (s : Shell) :
    d.Follows (wait k unitsPerSecond) s := by
  refine h.follows_bind (h.follows_lift _ s) fun n t => ?_
  refine h.follows_bind (h.follows_pause _ t) fun woken u => ?_
  split
  · exact h.follows_throw _ u
  · exact h.follows_pure _ u

theorem follows_answer (reply : Reply) (s : Shell) : d.Follows (answer reply) s := by
  unfold answer
  split
  · exact h.follows_bind (h.follows_pause _ s) fun _ t => h.follows_lift _ t
  · exact h.follows_lift _ s

theorem ensures_perform (hinner : d.Runs inner) (action : Action) (k : Context)
    (hk : k.caller.job = d.job) (s : Shell) :
    (perform inner action k).Ensures d.between s fun notes _ =>
      d.leads s ((s, .command action k) :: notes) := by
  have hnoted {x : Run (Result String)} (hx : d.Follows x s) : x.Ensures d.between s
      fun notes _ => d.leads s ((s, .command action k) :: notes) :=
    hx.mono fun _ _ _ ht => h.trans (h.command action k s) ht
  cases action with
  | builtin b => exact Run.ensures_effect (h.builtin b s hk)
  | wait n => exact hnoted (h.follows_wait k n s)
  | runScript => exact hnoted (h.follows_runScript hinner _ _ hk s)
  | fanOut => exact hnoted (h.follows_fanOut hinner k hk s)
  | custom reply => exact hnoted (h.follows_answer (reply k) s)

theorem follows_runSegment (hinner : d.Runs inner) (seg : Segment) (input : Option String)
    (hc : c.job = d.job) (s : Shell) : d.Follows (runSegment inner seg input c) s := by
  refine Run.ensures_get_bind ?_
  dsimp only
  split
  · exact h.follows_pure _ s
  split
  · exact h.follows_pure _ s
  split
  · exact h.follows_pure _ s
  · refine Run.ensures_note_bind ?_
    refine (h.ensures_perform hinner _ _ hc s).outcome_bind fun before r t ht => ?_
    cases r <;> exact Run.ensures_pure (by rwa [List.append_nil])

theorem follows_saveOr (failure : String) (s : Shell) : d.Follows (saveOr failure) s := by
  have hsave : d.Follows (Run.effect Effect.save) s := Run.ensures_effect (h.save s)
  refine h.follows_bind hsave fun r t => ?_
  split
  · exact h.follows_pure _ t
  · exact h.follows_pure _ t

theorem follows_runSegments (hinner : d.Runs inner) (modified : Bool) (text : String)
    (input : Option String) (segments : List Segment) (hc : c.job = d.job) (s : Shell) :
    d.Follows (runSegments inner c modified text input segments) s := by
  induction segments generalizing modified text input s with
  | nil => exact h.follows_pure _ s
  | cons seg rest ih =>
    simp only [runSegments]
    refine Run.ensures_get_bind ?_
    split
    · exact h.follows_pure _ s
    · refine h.follows_bind (h.follows_runSegment hinner seg input hc s) fun r t => ?_
      split
      · exact h.follows_pure _ t
      split
      · refine h.follows_bind (h.follows_saveOr _ t) fun failure u => ?_
        cases failure with
        | none => exact ih _ _ _ u
        | some failure => exact h.follows_pure _ u
      · exact ih _ _ _ t

theorem follows_deliver (redirect : Option Redirect) (r : Result String) (hc : c.job = d.job)
    (s : Shell) : d.Follows (deliver c redirect r) s := by
  cases redirect with
  | none => exact h.follows_pure _ s
  | some target =>
    refine Run.ensures_note_bind ?_
    have hwrite : (Run.effect (writeRedirect c target (r.data.getD ""))).Ensures d.between s
        fun notes _ => d.leads s ((s, .redirect c target (r.data.getD "")) :: notes) :=
      Run.ensures_effect (h.redirect target _ s hc)
    refine hwrite.outcome_bind fun before r t ht => ?_
    have hlater {x : Run (Result String)} (hx : d.Follows x t) : x.Ensures d.between t
        fun later _ => d.leads s ((s, .redirect c target _) :: (before ++ later)) :=
      hx.mono fun _ _ _ hu => h.trans ht hu
    cases r with
    | error f => exact hlater (h.follows_lift _ t)
    | ok _ =>
      refine hlater (h.follows_bind (h.follows_saveOr _ t) fun failure u => ?_)
      cases failure with
      | none => exact h.follows_pure _ u
      | some failure => exact h.follows_pure _ u

theorem follows_runPipeline (hinner : d.Runs inner) (p : Pipeline) (hc : c.job = d.job)
    (s : Shell) : d.Follows (runPipeline inner p c) s := by
  refine Run.ensures_get_bind ?_
  split
  · exact h.follows_lift _ s
  · refine h.follows_bind (h.follows_runSegments hinner false "" _ p.segments hc s) fun r t => ?_
    split
    · exact h.follows_deliver _ _ hc t
    · exact h.follows_pure _ t

theorem follows_runItem (hinner : d.Runs inner) (p : Pipeline) (hc : c.job = d.job) (s : Shell) :
    d.Follows (runItem inner p c) s := by
  unfold runItem
  split
  · exact Run.ensures_done rfl (h.launch p s hc)
  · exact h.follows_runPipeline hinner p hc s

theorem follows_runItems (hinner : d.Runs inner) (previous : Option Connective)
    (progress : Progress) (items : List SequenceItem) (hc : c.job = d.job) (s : Shell) :
    d.Follows (runItems inner c previous progress items) s := by
  induction items generalizing previous progress s with
  | nil => exact h.follows_pure _ s
  | cons item rest ih =>
    have hitem (s : Shell) : d.Follows (runItem inner item.pipeline c >>= fun r =>
        if !r.success && endsAtFailure item.connective then pure (progress.add r).result
        else runItems inner c item.connective (progress.add r) rest) s := by
      refine h.follows_bind (h.follows_runItem hinner item.pipeline hc s) fun r t => ?_
      split
      · exact h.follows_pure _ t
      · exact ih _ _ t
    simp only [runItems]
    split
    · exact ih _ _ s
    split
    · refine Run.ensures_modify_bind ((hitem _).mono fun _ _ _ ht => ?_)
      exact h.trans (h.notify _ s) ht
    · exact hitem s

theorem leads_readLine (line : String) (record : Bool) (c : Caller) (s : Shell) :
    d.leads s [] ((readLine line c record).run s).2 := by
  unfold readLine
  simp only [Work.run_bind, Work.run_get, Work.run_lift]
  generalize preprocess _ _ _ _ = text
  cases text with
  | error f => exact h.refl s
  | ok text =>
    dsimp only
    split
    · exact h.record (History.add · line) s
    · exact h.refl s

theorem follows_runLine (hinner : d.Runs inner) : d.Runs (runLine inner) := by
  intro line c record s hc
  have hjob : (c.orSession s).job = d.job := by rw [Caller.job_orSession, hc]
  refine Run.ensures_get_bind ?_
  dsimp only
  generalize c.orSession s = c at hjob
  have hread : d.Follows (Run.effect (readLine line c record)) s :=
    Run.ensures_effect (h.leads_readLine line record c s)
  refine h.follows_outcome_bind hread fun r t => ?_
  cases r with
  | error f => exact h.follows_lift _ t
  | ok items => exact h.follows_runItems hinner _ _ items hjob t

theorem runs_nested (n : Nat) : d.Runs (nested n) := by
  induction n with
  | zero => exact fun _ _ _ s _ => h.follows_throw _ s
  | succ n ih => exact h.follows_runLine ih

end Lawful
end Conduct
end MemShell
