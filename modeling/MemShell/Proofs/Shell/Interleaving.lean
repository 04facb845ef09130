import MemShell.Proofs.Shell.Durability
set_option autoImplicit false

/-!
# Interleavings

Lines, scripts and jobs take turns in any order, from the states that they find, and between the turns
jobs start and end, time passes and the terminal does its work. Whatever the terminal schedules is one
of these interleavings.
-/
namespace MemShell

namespace Shell

inductive Routines (who : Option JobId → Prop) :
    (Shell → Step Shell Note (Except Fault (Result String))) → Prop
  | line (text : String) {c : Caller} (hc : who c.job) (record : Bool) :
    Routines who (Shell.execute text c record)
  | script (path : String) (args : List String) {c : Caller} (hc : who c.job) :
    Routines who (Execute.runScript Shell.execute path args c)
  | job (l : Launch) (hl : who l.caller.job) : Routines who (jobRoutine l).2
  | ending (r : Outcome String) : Routines who fun s => .done s r

inductive Meanwhile (who : Option JobId → Prop) : Shell → Shell → Prop
  | ended {id : JobId} (h : who (some id)) (r : Outcome String) (s : Shell) :
    Meanwhile who s (host.finish id r s)
  | taken (s : Shell) : Meanwhile who s (host.takeStarted s).2
  | passed (t : Time) (s : Shell) : Meanwhile who s (host.setElapsed t s)
  | shutDown (s : Shell) : Meanwhile who s (host.setJobs s.jobs.cancelAll s)
  | shown (s : Shell) : Meanwhile who s { s with console := [] }

/-- Turns of some callers one after the other, with all that they note, and what happens between. -/
inductive Interleaves (who : Option JobId → Prop) : Shell → List (Shell × Note) → Shell → Prop
  | refl (s : Shell) : Interleaves who s [] s
  | turn {s t : Shell} {notes : List (Shell × Note)}
    {run : Shell → Step Shell Note (Except Fault (Result String))} (h : Interleaves who s notes t)
    (hrun : Step.Rest (Routines who) run) :
    Interleaves who s (notes ++ (run t).noted) (run t).finish
  | meanwhile {s t u : Shell} {notes : List (Shell × Note)} (h : Interleaves who s notes t)
    (ht : Meanwhile who t u) : Interleaves who s notes u

variable {who : Option JobId → Prop} {s t u : Shell} {notes more : List (Shell × Note)}
  {run : Shell → Step Shell Note (Except Fault (Result String))}

theorem Interleaves.trans (h : Interleaves who s notes t) (h' : Interleaves who t more u) :
    Interleaves who s (notes ++ more) u := by
  induction h' with
  | refl =>
    rw [List.append_nil]
    exact h
  | turn _ hrun ih =>
    rw [← List.append_assoc]
    exact .turn ih hrun
  | meanwhile _ ht ih => exact .meanwhile ih ht

theorem interleaves_meanwhile (h : Meanwhile who s t) : Interleaves who s [] t :=
  .meanwhile (.refl s) h

theorem interleaves_turn (hrun : Step.Rest (Routines who) run) (s : Shell) :
    Interleaves who s (run s).noted (run s).finish := .turn (.refl s) hrun

section
variable {ι : Type} {d : Discipline ι} {v : ι} (hlawful : d.Lawful)
  (hmine : ∀ c : Caller, who c.job → d.mine c)
include hlawful hmine

theorem Routines.steady (h : Routines who run) (hs : d.same v s t) : d.Steady v run run s t := by
  cases h with
  | line text hc record => exact hlawful.runs_execute text _ record v s t (hmine _ hc) hs
  | script path args hc => exact hlawful.steady_runScript hlawful.runs_execute path args (hmine _ hc) hs
  | job l hl => exact hlawful.steady_runPipeline hlawful.runs_execute l.pipeline (hmine _ hl) hs
  | ending r =>
    refine .done ?_
    cases r <;> exact hs

/-- What is left of a routine keeps a discipline, whatever is known when it goes on. -/
theorem steady_of_rest (hrun : Step.Rest (Routines who) run) (hsame : ∀ s, ∃ v, d.same v s s)
    (hnext : ∀ v s e, ∃ u, d.next v s e u) (hs : d.same v s s) : d.Steady v run run s s :=
  hrun.lockstep hsame (Step.exists_knows hnext) (fun _ h _ _ _ hs => h.steady hlawful hmine hs)
    v s s hs

theorem along_of_rest (hrun : Step.Rest (Routines who) run) (hsame : ∀ s, ∃ v, d.same v s s)
    (hnext : ∀ v s e, ∃ u, d.next v s e u) (hs : d.same v s s) :
    Step.Along d.pact v (run s).noted (run s).noted (run s).finish (run s).finish :=
  (steady_of_rest hlawful hmine hrun hsame hnext hs).along fun _ _ _ _ => Discipline.same_of_ending

end

end Shell

namespace Terminal
open Shell Durability

abbrev Anyone : Option JobId → Prop := fun _ => True

variable {rt rt' : Terminal} {run : Shell → Step Shell Note (Outcome String)}

theorem rest_of_jobRoutine (h : Step.Rest JobRoutine run) : Step.Rest (Routines Anyone) run := by
  induction h with
  | start h =>
    cases h with
    | launched l => exact .start (.job l trivial)
    | cancelled r => exact .start (.ending r)
  | later _ hs woken ih => exact .later ih hs woken

theorem keeps_anything {α : Type} (x : Step Shell Note α) :
    x.Keeps (fun _ => True) (fun _ => True) fun _ _ => True := by
  induction x with
  | done s a => exact .done trivial
  | wait s w resume ih => exact .wait trivial fun t woken _ => ih t woken
  | note s e next ih => exact .note fun _ => ih

theorem invariant_anything :
    Runtime.Invariant Shell.host (fun _ => True) (fun _ => True) (fun _ _ => True)
      (.of (Step.Rest JobRoutine)) where
  started _ j hj := by
    obtain ⟨l, -, rfl⟩ := List.mem_map.mp hj
    exact .start (.launched l)
  woken := id
  resumed woken hrun _ hresume := .later hrun hresume woken
  turn _ _ := keeps_anything _
  taken _ := trivial
  elapsed _ _ := trivial
  finish _ _ _ := trivial

theorem interleaves_take (rt : Terminal) (id : JobId) (x : Step Shell Note (Outcome String)) :
    Interleaves Anyone x.finish [] (rt.take host id x).state := by
  induction x with
  | done s r =>
    have hended : Interleaves Anyone s [] (host.finish id r s) :=
      interleaves_meanwhile (.ended trivial r s)
    exact .meanwhile hended (.taken _)
  | note s e next ih => exact ih
  | wait s w resume _ =>
    unfold Runtime.take
    dsimp only
    split
    · exact interleaves_meanwhile (.taken s)
    · exact interleaves_meanwhile (.taken s)

theorem interleaves_progress (hrt : rt.Proper) :
    Interleaves Anyone rt.state (rt.nextNoted host) (rt.progress host).runtime.state := by
  have hstate : (rt.fireDue host).state = rt.state := rfl
  have hfired := (Runtime.Sound.fireDue invariant_anything ⟨hrt, trivial⟩).1.ready
  unfold Runtime.progress Runtime.nextNoted
  generalize rt.fireDue host = fired at hstate hfired
  dsimp only
  rw [← hstate]
  cases hqueue : fired.ready with
  | nil => exact .refl _
  | cons r rest =>
    rw [hqueue] at hfired
    have hr := hfired r List.mem_cons_self
    obtain ⟨passes, turn⟩ := r
    cases passes with
    | succ passes => exact .refl _
    | zero =>
      cases turn with
      | foreground => exact .refl _
      | nobody => exact .refl _
      | job id started run =>
        have hturn := interleaves_turn (rest_of_jobRoutine hr) fired.state
        have htake := interleaves_take { fired with ready := rest } id (run fired.state)
        have hboth := hturn.trans htake
        rw [List.append_nil] at hboth
        exact hboth

theorem interleaves_awaitWithin {n : Nat} (hrt : rt.Proper)
    (hend : rt.awaitWithin host n = some rt') :
    Interleaves Anyone rt.state (rt.awaitNoted host n) rt'.state := by
  induction n generalizing rt with
  | zero => cases hend
  | succ n ih =>
    have hstep := interleaves_progress hrt
    have hproper := (Runtime.Sound.progress invariant_anything ⟨hrt, trivial⟩ fun _ _ => trivial).1
    unfold Runtime.awaitWithin at hend
    unfold Runtime.awaitNoted
    cases hp : rt.progress host with
    | foreground rt₁ =>
      rw [hp] at hend hstep
      rw [← Option.some.inj hend, List.append_nil]
      exact hstep
    | moved rt₁ =>
      rw [hp] at hend hstep hproper
      exact hstep.trans (ih hproper hend)
    | idle rt₁ =>
      rw [hp] at hend hstep hproper
      dsimp only at hend ⊢
      cases hdeadline : rt₁.nextDeadline with
      | none =>
        rw [hdeadline] at hend
        cases hend
      | some time =>
        rw [hdeadline] at hend
        have hpassed : Interleaves Anyone rt.state (rt.nextNoted host)
            (host.setElapsed time rt₁.state) := .meanwhile hstep (.passed time _)
        have hlater : Proper { rt₁ with state := host.setElapsed time rt₁.state } :=
          ⟨hproper.ready, hproper.timers⟩
        exact hpassed.trans (ih hlater hend)

theorem interleaves_giveWay (s : Shell) (w : Wait) :
    Interleaves Anyone s [] (rt.giveWay host s w).state := by
  unfold Runtime.giveWay
  dsimp only
  split
  · exact interleaves_meanwhile (.taken s)
  · exact interleaves_meanwhile (.taken s)

/-- The foreground goes on in turns of its own, between which the jobs have theirs. -/
theorem interleaves_follow {x : Step Shell Note (Except Fault (Result String))}
    {r : Except Fault (Result String)} (hrt : rt.Proper)
    (hrest : ∀ resume, x.resume? = some resume → ∀ woken,
      Step.Rest (Routines Anyone) fun s => resume s woken)
    (hend : rt.follow host x = some (r, rt')) :
    ∃ later, rt.followNoted host x = x.noted ++ later ∧
      Interleaves Anyone x.finish later rt'.state := by
  induction x generalizing rt with
  | done s a =>
    rw [← (Prod.mk.inj (Option.some.inj hend)).2]
    exact ⟨[], rfl, interleaves_meanwhile (.taken s)⟩
  | note s e next ih =>
    obtain ⟨later, hnoted, hlater⟩ := ih hrt hrest hend
    refine ⟨later, ?_, hlater⟩
    rw [Runtime.followNoted, hnoted]
    rfl
  | wait s w resume ih =>
    have hgiven := (Runtime.Sound.giveWay invariant_anything (s := s) w hrt trivial).1
    unfold Runtime.follow at hend
    unfold Runtime.followNoted
    cases hawait : (rt.giveWay host s w).awaitWithin host Runtime.maxTurns with
    | none =>
      rw [hawait] at hend
      cases hend
    | some rt₁ =>
      rw [hawait] at hend
      have hback := (Runtime.Sound.awaitWithin invariant_anything ⟨hgiven, trivial⟩
        (fun _ _ => trivial) hawait).1
      have hrun := hrest resume rfl false
      obtain ⟨later, hnoted, hlater⟩ := ih rt₁.state false hback
        (fun g hg woken => .later (s := rt₁.state) hrun hg woken) hend
      have hwaited := (interleaves_giveWay s w).trans (interleaves_awaitWithin hgiven hawait)
      have hresumed := hwaited.trans ((interleaves_turn hrun rt₁.state).trans hlater)
      refine ⟨_, rfl, ?_⟩
      dsimp only
      rw [hnoted]
      exact hresumed

theorem interleaves_of_execute {line : String} {user : Option String} {record : Bool}
    {r : Except Fault (Result String)} (hrt : rt.Proper)
    (hend : rt.execute line user record = some (r, rt')) :
    Interleaves Anyone rt.state (rt.noted line user record) rt'.state := by
  have hline : Routines Anyone (Shell.execute line { user := rt.userOr user } record) :=
    .line line trivial record
  have hrun : Step.Rest (Routines Anyone)
      (Shell.execute line { user := rt.userOr user } record) := .start hline
  obtain ⟨later, hnoted, hlater⟩ := interleaves_follow hrt
    (fun g hg woken => .later (s := rt.state) hrun hg woken) hend
  unfold noted
  rw [hnoted]
  exact (interleaves_turn hrun rt.state).trans hlater

end Terminal
end MemShell
