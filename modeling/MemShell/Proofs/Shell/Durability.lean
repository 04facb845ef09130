import MemShell.Shell.Terminal
import MemShell.Proofs.Jobs.Scheduling
import MemShell.Proofs.Shell.Care
import MemShell.Proofs.Shell.Upkeep
import MemShell.Proofs.Storage.Saving
set_option autoImplicit false

/-!
# The stored tree

A line saves what it changes: when it returns, the stored tree is the one in memory. The exception
is what a command or a redirection has changed before it failed. A pipeline ends there without
saving.
-/
namespace MemShell

structure Shell.Durable (s : Shell) : Prop where
  accepts : s.storage.Accepts
  holds : s.storage.Holds s.files.root

namespace Durability

def Kept (v : Prop) (s t : Shell) : Prop := t = s ∧ (v → s.Durable)

def Unsaved (v : Prop) (s t : Shell) : Prop :=
  t = s ∧ (v → s.storage.Accepts ∧ ∃ root, s.storage.Holds root)

def discipline : Discipline Prop where
  mine _ := True
  same := Kept
  unsaved := Unsaved
  next v s e u := u = (v ∧ e.Careful s)

variable {v : Prop} {s t : Shell} {job : Option JobId}

theorem run_save (s : Shell) :
    Effect.save.run s =
      ((s.storage.save s.files).1, { s with storage := (s.storage.save s.files).2 }) := rfl

theorem durable_save (h : s.storage.Accepts ∧ ∃ root, s.storage.Holds root) :
    (Effect.save.run s).2.Durable := by
  obtain ⟨haccepts, root, hholds⟩ := h
  rw [run_save]
  exact ⟨haccepts.save s.files, hholds.save (haccepts.answer s.files)⟩

theorem unsaved_of_durable (h : s.Durable) : s.storage.Accepts ∧ ∃ root, s.storage.Holds root :=
  ⟨h.accepts, s.files.root, h.holds⟩

theorem durable_setEnvironment (h : s.Durable) (job : Option JobId) (e : Environment) :
    (s.setEnvironment job e).Durable := by cases job <;> exact ⟨h.1, h.2⟩

theorem upheld (job : Option JobId) : Upheld Shell.Durable job where
  cwd _ h := ⟨h.1, h.2⟩
  environment e h _ := durable_setEnvironment h job e
  aliases _ h := ⟨h.1, h.2⟩
  accounts _ h := ⟨h.1, h.2⟩
  jobs h _ _ := ⟨h.1, h.2⟩
  save h := durable_save (unsaved_of_durable h)

def Stored (s₀ s t : Shell) : Prop := t = s ∧ s.storage = s₀.storage

theorem malleable (s₀ : Shell) (job : Option JobId) : Malleable (Stored s₀) job where
  view h := by rw [h.1]
  files fs h := ⟨by rw [h.1], h.2⟩
  accounts a h := ⟨by rw [h.1], h.2⟩

/-- Work that changes the tree ends with all to be saved, or at a fault with nothing changed. -/
theorem ends_of_careful {α : Type} {x : Effect α} {Q : α → α → Shell → Shell → Prop}
    (hs : s.Durable) (hcareful : x.Careful s) (h : x.Parallel x s s (Stored s) Q) :
    x.Ends s Shell.Durable fun a t => Q a a t t := by
  cases hrun : x.run s with
  | mk r t =>
    cases r with
    | ok a => exact Work.ends_of_run hrun (h.ends.value hrun)
    | error f =>
      have hstored : Stored s t t := h.ends.fault hrun
      have hroot : t.files.root = s.files.root := hcareful.ends.fault hrun
      refine Work.ends_of_fault hrun ⟨?_, ?_⟩
      · rw [hstored.2]
        exact hs.accepts
      · rw [hstored.2, hroot]
        exact hs.holds

theorem unsaved_of_stored {s₀ : Shell} (hs : s₀.Durable) (h : Stored s₀ t t) :
    t.storage.Accepts ∧ ∃ root, t.storage.Holds root := by
  rw [h.2]
  exact unsaved_of_durable hs

theorem ends_builtin {b : Builtin} {c : Context} {u : Prop} (hs : v → s.Durable)
    (hu : discipline.next v s (.command (.builtin b) c) u) :
    (b.run c).Ends s (fun t => u → t.Durable) fun r t =>
      if r.success && r.modified then u → t.storage.Accepts ∧ ∃ root, t.storage.Holds root
      else u → t.Durable := by
  obtain rfl : u = (v ∧ Note.Careful s (.command (.builtin b) c)) := hu
  by_cases hknown : v ∧ (b.run c).Careful s
  · have hdurable := hs hknown.1
    by_cases htree : b.changesTree = true
    · have hchanges := ends_of_careful hdurable hknown.2
        ((malleable s c.caller.job).changes_run ⟨rfl, rfl⟩ htree)
      refine (hchanges.mono_fault fun _ ht _ => ht).mono ?_
      rintro r t ⟨-, hstored, hr⟩
      rw [if_pos hr]
      exact fun _ => unsaved_of_stored hdurable hstored
    · have hkept : ((b.run c).run s).2.Durable := by
        refine Builtin.upholds (upheld _) hdurable (fun h => absurd h htree) ?_ ?_
        · rintro - t ⟨session, environment, cwd, -, rfl⟩
          exact ⟨hdurable.1, hdurable.2⟩
        · exact fun history => ⟨hdurable.1, hdurable.2⟩
      exact Discipline.ends_of_upholds (fun _ => hkept) fun _ ht h => unsaved_of_durable (ht h)
  · -- Nothing is known afterwards, so there is nothing to keep.
    exact Discipline.ends_of_upholds (fun h => absurd h hknown) fun _ ht h => unsaved_of_durable (ht h)

theorem ends_redirect {c : Caller} {target : Redirect} {text : String} {u : Prop}
    (hs : v → s.Durable) (hu : discipline.next v s (.redirect c target text) u) :
    (Execute.writeRedirect c target text).Ends s (fun t => u → t.Durable) fun _ t =>
      u → t.storage.Accepts ∧ ∃ root, t.storage.Holds root := by
  obtain rfl : u = (v ∧ Note.Careful s (.redirect c target text)) := hu
  by_cases hknown : v ∧ (Execute.writeRedirect c target text).Careful s
  · have hdurable := hs hknown.1
    have hwritten := ends_of_careful hdurable hknown.2
      ((malleable s c.job).lockstep_writeRedirect ⟨rfl, rfl⟩ target text)
    exact (hwritten.mono_fault fun _ ht _ => ht).mono fun _ _ ht _ => unsaved_of_stored hdurable ht.2
  · have hnone : (Execute.writeRedirect c target text).Ends s (fun _ => True) fun _ _ => True :=
      Work.ends_of_state trivial
    exact (hnone.mono_fault fun _ _ h => absurd h hknown).mono fun _ _ _ h => absurd h hknown

theorem upkeep : discipline.Upkeep (fun v s => v → s.Durable)
    fun v s => v → s.storage.Accepts ∧ ∃ root, s.storage.Holds root where
  same := .rfl
  unsaved := .rfl
  script _ _ := trivial
  orSession _ _ := trivial
  weaken _ := .inr fun _ _ h hv => unsaved_of_durable (h hv)
  save h hv := durable_save (h hv)
  notify _ h hv := ⟨(h hv).1, (h hv).2⟩
  record _ h hv := ⟨(h hv).1, (h hv).2⟩
  environment e _ h hv := durable_setEnvironment (h hv) _ e
  launch _ _ _ h hv := ⟨(h hv).1, (h hv).2⟩
  next := by
    rintro v _ s action c rfl h hknown
    exact h hknown.1
  builtin _ hu h := ends_builtin h hu
  redirect _ hu h := ends_redirect h hu

theorem lawful : discipline.Lawful := upkeep.lawful

/-- As long as all that is noted is careful, the stored tree is the one in memory at every wait and
at the end. -/
theorem keeps_of_lockstep {α : Type} {Q : Prop → α → Shell → Shell → Prop}
    {x y : Step Shell Note α} (h : Step.Lockstep discipline.pact Q v x y) (hv : v)
    (hQ : ∀ v a s t, Q v a s t → Kept v s t) :
    x.Keeps Shell.Durable Shell.Durable fun s e => e.Careful s :=
  Step.Lockstep.keeps id h hv hQ (fun _ _ _ hv hs => hs.2 hv)
    (fun _ hs => ⟨True, trivial, rfl, fun _ => hs⟩)
    fun v s e hv hcareful => ⟨v ∧ e.Careful s, ⟨hv, hcareful⟩, rfl⟩

/-- The routine of a job, or one that only tells that the job was cancelled. -/
inductive JobRoutine : Routine Shell (Outcome String) → Prop
  | launched (l : Launch) : JobRoutine (Shell.jobRoutine l).2
  | cancelled (r : Outcome String) : JobRoutine fun s => .done s r

theorem JobRoutine.steady {run : Routine Shell (Outcome String)} (h : JobRoutine run)
    (hs : Kept v s t) : discipline.Steady v run run s t := by
  cases h with
  | launched l => exact lawful.steady_runPipeline lawful.runs_execute l.pipeline trivial hs
  | cancelled r =>
    refine .done ?_
    cases r <;> exact hs

theorem invariant : Runtime.Invariant Shell.host Shell.Durable Shell.Durable
    (fun s e => e.Careful s) (.of (Step.Rest JobRoutine)) where
  started _ j hj := by
    obtain ⟨l, -, rfl⟩ := List.mem_map.mp hj
    exact .start (.launched l)
  woken := id
  resumed woken hrun _ hresume := .later hrun hresume woken
  turn {_ run s} hrun hs := by
    -- Nothing is known of the states in which the job had its turns before.
    have hany (s : Shell) : Kept False s s := ⟨rfl, False.elim⟩
    have hsteady : discipline.Steady True run run s s :=
      Step.Rest.lockstep hrun (fun s => ⟨False, hany s⟩) (Step.exists_knows fun _ _ _ => ⟨_, rfl⟩)
        (fun _ h _ _ _ hs => h.steady hs)
        True s s ⟨rfl, fun _ => hs⟩
    exact keeps_of_lockstep hsteady trivial fun _ _ _ _ => Discipline.same_of_ending
  taken hs := ⟨hs.accepts, hs.holds⟩
  elapsed _ hs := ⟨hs.accepts, hs.holds⟩
  finish _ _ hs := ⟨hs.accepts, hs.holds⟩

end Durability

namespace Terminal
open Durability

def Proper (t : Terminal) : Prop := Runtime.Runs (.of (Step.Rest JobRoutine)) t

def noted (t : Terminal) (line : String) (user : Option String) (record : Bool) :
    List (Shell × Note) :=
  t.followNoted Shell.host (Shell.execute line { user := t.userOr user } record t.state)

theorem proper_ofShell (s : Shell) : (ofShell s).Proper :=
  ⟨fun _ h => (nomatch h), fun _ h => (nomatch h)⟩

/-- Wherever a line returns and however it ends, the stored tree is the one in memory, unless a
command or a redirection failed that had changed the tree. -/
theorem durable_of_execute {t t' : Terminal} {line : String} {user : Option String} {record : Bool}
    {r : Except Fault (Result String)} (hproper : t.Proper) (hdurable : t.state.Durable)
    (hcareful : ∀ n ∈ t.noted line user record, n.2.Careful n.1)
    (hend : t.execute line user record = some (r, t')) : t'.Proper ∧ t'.state.Durable := by
  have hsteady : discipline.Steady True (Shell.execute line { user := t.userOr user } record)
      (Shell.execute line { user := t.userOr user } record) t.state t.state :=
    lawful.runs_execute line _ record True t.state t.state trivial ⟨rfl, fun _ => hdurable⟩
  have hkeeps := keeps_of_lockstep hsteady trivial fun _ _ _ _ => Discipline.same_of_ending
  exact Runtime.Sound.follow invariant hproper hkeeps hcareful hend

def recorded : Terminal :=
  let s := Shell.bare (Catalogue.files ++ Catalogue.jobs)
  ofShell { s with storage := { backend := some (.memory (some s.files.snapshot) 0) } }

/-- While the line sleeps its job makes a file, and then the line fails. -/
theorem durable_of_execute_failing : ∃ r t',
    recorded.execute "touch a & sleep 1; rm b" = some (r, t') ∧
    r.toOption.map (·.success) = some false ∧ t'.state.files.root.children.length = 1 ∧
    t'.Proper ∧ t'.state.Durable := by
  have hran : (recorded.execute "touch a & sleep 1; rm b").any (fun p =>
      p.1.toOption.map (·.success) = some false ∧
        p.2.state.files.root.children.length = 1) = true := by decide +kernel
  have hsimple : ∀ n ∈ recorded.noted "touch a & sleep 1; rm b" none true,
      n.1.files.root.isDir = true ∧ n.2.isSimple n.1 = true := by decide +kernel
  have hdurable : recorded.state.Durable := ⟨Storage.accepts_memory, _, _, rfl, rfl⟩
  obtain ⟨⟨r, t'⟩, hend, hr⟩ := (Option.any_eq_true _ _).mp hran
  obtain ⟨hsuccess, hchildren⟩ := of_decide_eq_true hr
  have hcareful := fun n hn => Care.careful_of_isSimple (hsimple n hn).1 (hsimple n hn).2
  exact ⟨r, t', hend, hsuccess, hchildren,
    durable_of_execute (proper_ofShell _) hdurable hcareful hend⟩

end Terminal
end MemShell
