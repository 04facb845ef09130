import MemShell.Proofs.Jobs.Shutdown
import MemShell.Proofs.Shell.Cancellation
import MemShell.Proofs.Shell.Interleaving
import MemShell.Proofs.Shell.Recording
import MemShell.Proofs.Shell.Upkeep
set_option autoImplicit false

/-!
# Shutdown

A shutdown cancels the jobs that are in the table when it begins, and lets them come to their end.
What they start on their way there goes on, and so does a job that had left the table before and has
not come to its end yet.
-/
namespace MemShell

namespace Shutdown
open Shell

/-- The table is in order. It is that of a ledger; its jobs have been given their numbers, from `first`
on; those that were started know their own; and those that are to end are cancelled. -/
structure Tidy (first : JobId) (ending : JobId → Prop) (s : Shell) : Prop where
  recorded : JobLedger.Recorded s.jobs
  next : first ≤ s.jobs.next
  listed : ∀ id ∈ s.jobs.active.keys, first ≤ id ∧ id < s.jobs.next
  launches : ∀ l ∈ s.launches, l.caller.job = some l.id ∧ first ≤ l.id
  cancelled : ∀ id, ending id → s.jobs.isCancelled id = true

variable {first : JobId} {ending : JobId → Prop} {s t : Shell} {id : JobId}

theorem Tidy.of_eq (h : Tidy first ending s) (hjobs : t.jobs = s.jobs)
    (hlaunches : t.launches = s.launches) : Tidy first ending t := by
  refine ⟨?_, ?_, ?_, ?_, ?_⟩
  · rw [hjobs]; exact h.recorded
  · rw [hjobs]; exact h.next
  · rw [hjobs]; exact h.listed
  · rw [hlaunches]; exact h.launches
  · rw [hjobs]; exact h.cancelled

theorem Tidy.weaken {first' : JobId} (h : Tidy first ending s) (hfirst : first' ≤ first) :
    Tidy first' (fun _ => False) s where
  recorded := h.recorded
  next := Int.le_trans hfirst h.next
  listed id hid := ⟨Int.le_trans hfirst (h.listed id hid).1, (h.listed id hid).2⟩
  launches l hl := ⟨(h.launches l hl).1, Int.le_trans hfirst (h.launches l hl).2⟩
  cancelled _ h := h.elim

theorem Tidy.move {j : JobTable} (h : Tidy first ending s) (hmove : s.jobs.Move j) :
    Tidy first ending { s with jobs := j } where
  recorded := h.recorded.move hmove
  next := Int.le_trans h.next hmove.next_le
  listed id hid := by
    rcases hmove.mem_keys hid with hold | ⟨rfl, hnext⟩
    · have hold := h.listed id hold
      exact ⟨hold.1, Int.lt_of_lt_of_le hold.2 hmove.next_le⟩
    · refine ⟨h.next, ?_⟩
      rw [hnext]
      exact Int.lt_succ _
  launches := h.launches
  cancelled id hid := hmove.isCancelled (h.cancelled id hid)

theorem Tidy.startJob (h : Tidy first ending s) (p : Pipeline) (c : Caller) :
    Tidy first ending (Execute.startJob p c s).2 := by
  have hspawned := h.move (.spawn p.describe s.jobs)
  refine ⟨hspawned.recorded, hspawned.next, hspawned.listed, fun l hl => ?_, hspawned.cancelled⟩
  rcases List.mem_append.mp hl with hl | hl
  · exact h.launches l hl
  · rw [List.mem_singleton.mp hl]
    exact ⟨rfl, h.next⟩

def Kept (first : JobId) (ending : JobId → Prop) (v : Prop) (s t : Shell) : Prop :=
  t = s ∧ (v → Tidy first ending s)

def discipline (first : JobId) (ending : JobId → Prop) : Discipline Prop where
  mine _ := True
  same := Kept first ending
  unsaved := Kept first ending
  next v _ _ u := u = v

theorem Tidy.setEnvironment (h : Tidy first ending s) (job : Option JobId) (e : Environment) :
    Tidy first ending (s.setEnvironment job e) := by cases job <;> exact h.of_eq rfl rfl

theorem upheld (job : Option JobId) : Upheld (Tidy first ending) job where
  cwd _ h := h.of_eq rfl rfl
  environment e h _ := h.setEnvironment job e
  aliases _ h := h.of_eq rfl rfl
  accounts _ h := h.of_eq rfl rfl
  jobs h hmove _ := h.move hmove
  save h := h.of_eq rfl rfl

theorem unmoved : Unmoved (Tidy first ending) where
  files _ h := h.of_eq rfl rfl
  accounts _ h := h.of_eq rfl rfl

theorem Tidy.builtin {b : Builtin} {c : Context} (h : Tidy first ending s) :
    Tidy first ending ((b.run c).run s).2 := by
  refine Builtin.upholds (upheld _) h (unmoved.run h) ?_ fun _ => h.of_eq rfl rfl
  rintro - t ⟨session, environment, cwd, -, rfl⟩
  exact h.of_eq rfl rfl

theorem upkeep (first : JobId) (ending : JobId → Prop) :
    (discipline first ending).Upkeep (fun v s => v → Tidy first ending s)
      fun v s => v → Tidy first ending s where
  same := .rfl
  unsaved := .rfl
  script _ _ := trivial
  orSession _ _ := trivial
  weaken _ := .inr fun _ _ h => h
  save h hv := (upheld none).save (h hv)
  notify _ h hv := (h hv).of_eq rfl rfl
  record _ h hv := (h hv).of_eq rfl rfl
  environment e _ h hv := (h hv).setEnvironment _ e
  launch p _ _ h hv := (h hv).startJob p _
  next := by
    rintro v _ s action c rfl h
    exact h
  builtin := by
    rintro b c v _ s - rfl h
    exact Discipline.ends_of_upholds (fun hv => (h hv).builtin) fun _ h => h
  redirect := by
    rintro c target text v _ s - rfl h
    exact Work.ends_of_state fun hv => unmoved.writeRedirect (h hv) c target text

theorem lawful (first : JobId) (ending : JobId → Prop) : (discipline first ending).Lawful :=
  (upkeep first ending).lawful

/-- Between turns all jobs that were started have been taken in. -/
def Rested (first : JobId) (ending : JobId → Prop) (s : Shell) : Prop :=
  Tidy first ending s ∧ s.launches = []

theorem keeps_of_steady {work : Run (Result String)}
    (h : (discipline first ending).Steady True work work s s) :
    (work s).Keeps (Tidy first ending) (Rested first ending) fun _ _ => True :=
  Step.Lockstep.keeps id h trivial (fun _ _ _ _ => Discipline.same_of_ending)
    (fun _ _ _ hv hs => hs.2 hv) (fun _ hs => ⟨True, trivial, rfl, fun _ => hs.1⟩)
    fun v _ _ hv _ => ⟨v, hv, rfl⟩

theorem rested_of_empty (hrecorded : JobLedger.Recorded s.jobs) (hactive : s.jobs.active.keys = [])
    (hnext : first ≤ s.jobs.next) (hlaunches : s.launches = [])
    (hending : ∀ id, ending id → s.jobs.isCancelled id = true) : Rested first ending s := by
  refine ⟨⟨hrecorded, hnext, fun id hid => ?_, fun l hl => ?_, hending⟩, hlaunches⟩
  · rw [hactive] at hid
    cases hid
  · rw [hlaunches] at hl
    cases hl

def Own (id : JobId) (run : Shell → Step Shell Note (Outcome String)) : Prop :=
  Step.Rest (Routines (· = some id)) run

variable {run : Shell → Step Shell Note (Outcome String)}

theorem isCancelled_of_resume? {resume : Shell → Bool → Step Shell Note (Outcome String)}
    (hrun : Own id run) (hwaits : (run s).resume? = some resume) : s.jobs.isCancelled id = false := by
  have hnext := Cancellation.exists_next (· = some id)
  have hsteady := steady_of_rest (Cancellation.lawful (· = some id)) (fun _ hc => hc) hrun
    (fun s => ⟨(s, none), Cancellation.kept_self (s, none)⟩) hnext
    (Cancellation.kept_self (s, none))
  obtain ⟨u, hu⟩ := Step.exists_knows hnext (s, none) (run s).noted
  -- Where the turn ends with a wait the job is not cancelled, and a turn takes no cancellation back.
  obtain ⟨c, hc, hnot⟩ := hsteady.wait_finish hwaits hu
  have hstay := Cancellation.stayCancelled_of_along (T := ⟨s, (run s).noted, (run s).finish⟩)
    (hsteady.along fun _ _ _ _ => Discipline.same_of_ending)
  rw [Cancellation.isCancelled_of_job hc] at hnot
  by_contra hcancelled
  rw [hstay id (by simpa using hcancelled)] at hnot
  cases hnot

def roster (going leaving : JobId → Prop) : Runtime.Roster Shell String :=
  .among Own (fun id => going id ∨ leaving id) going

/-- Jobs that are cancelled wait no more, and those that are started go on. -/
theorem invariant {going leaving : JobId → Prop} (hgoing : ∀ id, first ≤ id → going id)
    (hleaving : ∀ id, leaving id → ending id) :
    Runtime.Invariant host (Tidy first ending) (Rested first ending) (fun _ _ => True)
      (roster going leaving) where
  started {s} hs j hj := by
    obtain ⟨l, hl, rfl⟩ := List.mem_map.mp hj
    obtain ⟨hjob, hfirst⟩ := hs.launches l hl
    exact ⟨.start (.job l hjob), .inl (hgoing _ hfirst)⟩
  woken h := ⟨h.1, .inl h.2⟩
  resumed {id run s resume} woken hrun hs hresume := by
    refine ⟨.later hrun.1 hresume woken, hrun.2.resolve_right fun hid => ?_⟩
    -- A job that is to end was cancelled before this turn, so the turn was its last.
    have hcancelled := hs.1.cancelled id (hleaving id hid)
    rw [isCancelled_of_resume? hrun.1 hresume] at hcancelled
    cases hcancelled
  turn {id run s} hrun hs := by
    have hsteady : (discipline first ending).Steady True run run s s :=
      steady_of_rest (lawful first ending) (fun _ _ => trivial) hrun.1
        (fun _ => ⟨False, rfl, False.elim⟩) (fun v _ _ => ⟨v, rfl⟩) ⟨rfl, fun _ => hs.1⟩
    exact keeps_of_steady hsteady
  taken hs := ⟨⟨hs.recorded, hs.next, hs.listed, (fun _ h => nomatch h), hs.cancelled⟩, rfl⟩
  elapsed _ hs := ⟨hs.1.of_eq rfl rfl, hs.2⟩
  finish {s} id _ hs := (hs.move (.forget id s.jobs)).of_eq rfl rfl

end Shutdown

namespace Terminal
open Shell Shutdown

variable {t t' : Terminal} {id : JobId}

/-- From a shell without jobs, by lines, scripts and all else that is done at a terminal. The
surroundings may change all of the shell but its jobs. -/
inductive Reachable : Terminal → Prop
  | start {s : Shell} (hjobs : s.jobs = {}) (hlaunches : s.launches = []) : Reachable (ofShell s)
  | execute {t t' : Terminal} {line : String} {user : Option String} {record : Bool}
    {r : Except Fault (Result String)} (h : Reachable t)
    (hend : t.execute line user record = some (r, t')) : Reachable t'
  | runScript {t t' : Terminal} {path : String} {args : List String}
    {r : Except Fault (Result String)} (h : Reachable t)
    (hend : t.runScript path args = some (r, t')) : Reachable t'
  | settle {t : Terminal} (h : Reachable t) : Reachable t.settle
  | advance {t t' : Terminal} {seconds : Binary64} (h : Reachable t)
    (hend : t.advance seconds = some t') : Reachable t'
  | shutdown {t t' : Terminal} (h : Reachable t) (hend : t.shutdown? = some t') : Reachable t'
  | edited {t : Terminal} {s : Shell} (h : Reachable t) (hjobs : s.jobs = t.state.jobs)
    (hlaunches : s.launches = t.state.launches) : Reachable { t with state := s }

def Orderly (t : Terminal) : Prop :=
  t.Sound (Rested 1 fun _ => False) (roster (fun _ => True) fun _ => False)

theorem invariant_orderly :
    Runtime.Invariant host (Tidy 1 fun _ => False) (Rested 1 fun _ => False) (fun _ _ => True)
      (roster (fun _ => True) fun _ => False) :=
  invariant (fun _ _ => trivial) fun _ h => h

theorem Orderly.run {work : Run (Result String)} {r : Except Fault (Result String)} (h : t.Orderly)
    (hwork : (discipline 1 fun _ => False).Steady True work work t.state t.state)
    (hend : t.run work = some (r, t')) : t'.Orderly :=
  Runtime.Sound.follow invariant_orderly h.1 (keeps_of_steady hwork) (fun _ _ => trivial) hend

theorem Orderly.pause {w : Wait} {woken : Bool} (h : t.Orderly)
    (hend : Runtime.perform host (Routine.pause w) t = some (woken, t')) : t'.Orderly :=
  Runtime.Sound.follow invariant_orderly h.1 (.wait h.2.1 fun _ _ hs => .done hs.1)
    (fun _ _ => trivial) hend

/-- The jobs that go on when the table is shut down: those that are started meanwhile, and those that
had left the table without having come to their end. -/
def Goes (t : Terminal) (id : JobId) : Prop :=
  t.state.jobs.next ≤ id ∨ id ∈ t.pending host ∧ id ∉ t.state.jobs.active.keys

theorem closed_of_not_isEnding {listed : JobId → Bool} {going : JobId → Prop}
    (h : t.Runs (roster going (listed · = true)))
    (hover : t.ready.any (Runtime.isEnding listed) = false) :
    t.Runs (roster going fun _ => False) := by
  refine ⟨fun r hr => ?_, h.timers⟩
  have hrun := h.ready r hr
  have hnot := List.any_eq_false.mp hover r hr
  obtain ⟨passes, turn⟩ := r
  cases turn with
  | foreground => trivial
  | nobody => trivial
  | job id started run => exact ⟨hrun.1, .inl (hrun.2.resolve_right hnot)⟩

theorem rested_cancelAll (h : t.Orderly) :
    Rested t.state.jobs.next (t.state.jobs.active.contains · = true)
      { t.state with jobs := t.state.jobs.cancelAll } := by
  obtain ⟨-, htidy, hlaunches⟩ := h
  refine rested_of_empty htidy.recorded.cancelAll (JobTable.keys_active_cancelAll _)
    (Int.le_of_eq (JobTable.next_cancelAll _).symm) hlaunches fun id hid => ?_
  exact (JobTable.isCancelled_cancelAll _ id).mpr (.inl ((Table.contains_iff _ id).mp hid))

theorem Orderly.runs_pending (h : t.Orderly) :
    t.Runs (.among Own (· ∈ t.pending host) (· ∈ t.pending host)) := h.1.among_pending

theorem goes_of_pending (hid : id ∈ t.pending host)
    (hnot : t.state.jobs.active.contains id = false) : t.Goes id := by
  refine .inr ⟨hid, fun hmem => ?_⟩
  rw [(Table.contains_iff _ id).mpr hmem] at hnot
  cases hnot

theorem Orderly.runs_interrupt (h : t.Orderly) :
    (Runtime.interrupt t.state.jobs.active.contains t).Runs
      (roster t.Goes (t.state.jobs.active.contains · = true)) :=
  h.runs_pending.interrupt (fun _ _ hrun hid => ⟨hrun.1, .inl (goes_of_pending hrun.2 hid)⟩)
    (fun _ _ hrun hid => ⟨hrun.1, goes_of_pending hrun.2 hid⟩)
    (fun _ _ hrun hid => ⟨hrun.1, .inr hid⟩) fun _ hid => ⟨.start (.ending _), .inr hid⟩

/-- When the shutdown is over, all that is ready or waits is what is left of jobs that go on. -/
theorem Orderly.shutdown (h : t.Orderly) (hend : t.shutdown? = some t') :
    t'.Sound (Rested t.state.jobs.next (t.state.jobs.active.contains · = true))
      (roster t.Goes fun _ => False) := by
  change (if t.state.jobs.active.isEmpty then _ else _) = _ at hend
  split at hend
  · next hempty =>
    -- No job is in the table, and nothing is done.
    obtain rfl : t = t' := Option.some.inj hend
    have hactive : t.state.jobs.active = [] := List.isEmpty_iff.mp hempty
    have hnot (id : JobId) : t.state.jobs.active.contains id = false := by
      rw [hactive]
      rfl
    have hkeys : t.state.jobs.active.keys = [] := by
      rw [hactive]
      rfl
    have hrested : Rested t.state.jobs.next (t.state.jobs.active.contains · = true) t.state := by
      refine rested_of_empty h.2.1.recorded hkeys (Int.le_refl _) h.2.2 fun id hid => ?_
      rw [hnot id] at hid
      cases hid
    exact ⟨h.runs_pending.mono (fun id _ hrun => ⟨hrun.1, .inl (goes_of_pending hrun.2 (hnot id))⟩)
      fun id _ hrun => ⟨hrun.1, goes_of_pending hrun.2 (hnot id)⟩, hrested⟩
  · -- The jobs of the table are leaving as long as they are ready; then the others are left.
    have hbegun : Runtime.Sound _ _ (Runtime.interrupt t.state.jobs.active.contains
        { t with state := { t.state with jobs := t.state.jobs.cancelAll } }) :=
      ⟨⟨h.runs_interrupt.ready, h.runs_interrupt.timers⟩, rested_cancelAll h⟩
    exact Runtime.Sound.endWithin (invariant (fun _ => .inl) fun _ hid => hid)
      (invariant (fun _ => .inl) fun _ hid => hid.elim) (fun _ => closed_of_not_isEnding) hbegun hend

theorem Reachable.orderly (h : t.Reachable) : t.Orderly := by
  induction h with
  | @start s hjobs hlaunches =>
    have hrecorded : JobLedger.Recorded s.jobs := ⟨[], hjobs.symm⟩
    have hactive : s.jobs.active.keys = [] := congrArg (fun j => j.active.keys) hjobs
    have hnext : s.jobs.next = 1 := congrArg JobTable.next hjobs
    exact ⟨⟨fun _ h => (nomatch h), fun _ h => (nomatch h)⟩,
      rested_of_empty hrecorded hactive (Int.le_of_eq hnext.symm) hlaunches fun _ h => h.elim⟩
  | execute h hend ih =>
    refine ih.run ((lawful 1 fun _ => False).runs_execute _ _ _ _ _ _ trivial ?_) hend
    exact ⟨rfl, fun _ => ih.2.1⟩
  | runScript h hend ih =>
    have hlawful := lawful 1 fun _ => False
    refine ih.run (hlawful.steady_runScript hlawful.runs_execute _ _ trivial ?_) hend
    exact ⟨rfl, fun _ => ih.2.1⟩
  | settle h ih => exact Runtime.Sound.settleWithin invariant_orderly ih
  | advance h hend ih =>
    obtain ⟨p, hpaused, rfl⟩ := Option.map_eq_some_iff.mp hend
    exact Runtime.Sound.settleWithin invariant_orderly (ih.pause hpaused)
  | shutdown h hend ih =>
    obtain ⟨hruns, htidy, hlaunches⟩ := ih.shutdown hend
    refine ⟨hruns.mono (fun _ _ hrun => ⟨hrun.1, .inl trivial⟩) fun _ _ hrun => ⟨hrun.1, trivial⟩,
      htidy.weaken ih.2.1.next, hlaunches⟩
  | edited h hjobs hlaunches ih =>
    exact ⟨⟨ih.1.ready, ih.1.timers⟩, ih.2.1.of_eq hjobs hlaunches, hlaunches.trans ih.2.2⟩

/-- Whatever is done at a terminal is some acts of a ledger. -/
theorem Reachable.recorded (h : t.Reachable) : JobLedger.Recorded t.state.jobs :=
  h.orderly.2.1.recorded

structure Over (t t' : Terminal) : Prop where
  /-- Those that were in the table are cancelled and have come to their end. -/
  ended : ∀ id ∈ t.state.jobs.active.keys,
    t'.state.jobs.isCancelled id = true ∧ id ∉ t'.pending host ∧ id ∉ t'.state.jobs.active.keys
  /-- Those that are in the table were started meanwhile. -/
  table : ∀ id ∈ t'.state.jobs.active.keys, t.state.jobs.next ≤ id ∧ id < t'.state.jobs.next
  boxes : t'.state.jobs.boxes.keys = t'.state.jobs.active.keys
  /-- Those that go on were started meanwhile, or had left the table before. -/
  pending : ∀ id ∈ t'.pending host, t.Goes id
  /-- If none was started, no job and no mailbox is left. -/
  complete : t'.state.jobs.next = t.state.jobs.next →
    t'.state.jobs.active = [] ∧ t'.state.jobs.boxes = []

/-- Wherever a shutdown returns, the jobs of the table have come to their end. What they have started
on their way there, and what was killed before and has not found out, goes on. -/
theorem over_of_shutdown (h : t.Reachable) (hend : t.shutdown? = some t') : t.Over t' := by
  obtain ⟨hruns, htidy, hlaunches⟩ := h.orderly.shutdown hend
  have hpending : ∀ id ∈ t'.pending host, t.Goes id := by
    refine hruns.pending (fun _ _ hrun => hrun.2.resolve_right id) (fun _ _ hrun => hrun.2) ?_
    intro j hj
    change j ∈ t'.state.launches.map jobRoutine at hj
    rw [hlaunches] at hj
    cases hj
  have hold : ∀ id ∈ t.state.jobs.active.keys, id < t.state.jobs.next :=
    fun id hid => (h.orderly.2.1.listed id hid).2
  refine ⟨fun id hid => ⟨htidy.cancelled id ((Table.contains_iff _ id).mpr hid), fun hmem => ?_,
    fun hmem => ?_⟩, htidy.listed, htidy.recorded.boxes, hpending, fun hnext => ?_⟩
  · rcases hpending id hmem with hnew | hkilled
    · exact Int.not_lt.mpr hnew (hold id hid)
    · exact hkilled.2 hid
  · exact Int.not_lt.mpr (htidy.listed id hmem).1 (hold id hid)
  · have hactive : t'.state.jobs.active.keys = [] := by
      refine List.eq_nil_iff_forall_not_mem.mpr fun id hid => ?_
      obtain ⟨hfirst, hlast⟩ := htidy.listed id hid
      rw [hnext] at hlast
      exact Int.not_lt.mpr hfirst hlast
    exact ⟨List.map_eq_nil_iff.mp hactive, List.map_eq_nil_iff.mp (htidy.recorded.boxes.trans hactive)⟩

/-- A job that sleeps, and starts another one when it is cancelled. -/
theorem over_of_shutdown_survivor : ∃ t t' : Terminal, t.Reachable ∧ t.shutdown? = some t' ∧
    t.state.jobs.active.keys = [1] ∧ t'.state.jobs.active.keys = [2] ∧ t'.pending host = [2] ∧
    t.Over t' := by
  have hran : ((ofShell Cancellation.attic).execute "run /s.sh &").any (fun p =>
      p.2.settle.shutdown?.any fun t' => p.2.settle.state.jobs.active.keys = [1] ∧
        t'.state.jobs.active.keys = [2] ∧ t'.pending host = [2]) = true := by decide +kernel
  obtain ⟨⟨r, begun⟩, hbegun, hover⟩ := (Option.any_eq_true _ _).mp hran
  obtain ⟨t', hend, hkeys⟩ := (Option.any_eq_true _ _).mp hover
  obtain ⟨hbefore, hafter, hpending⟩ := of_decide_eq_true hkeys
  have hreachable : begun.settle.Reachable := .settle (.execute (.start rfl rfl) hbegun)
  exact ⟨begun.settle, t', hreachable, hend, hbefore, hafter, hpending,
    over_of_shutdown hreachable hend⟩

end Terminal
end MemShell
