import Mathlib.Logic.Relation
import MemShell.Shell.Terminal
import MemShell.Proofs.Shell.Upkeep
set_option autoImplicit false

namespace MemShell

structure Shell.Held where
  environment : Environment
  config : Config
  commands : Table String Command
  services : Table String Bool
  startTime : Time

def Shell.held (id : JobId) (s : Shell) : Shell.Held :=
  { s with environment := s.environmentOf (some id) }

/-- A later state, in which a job still has what it had. -/
def Shell.SameFor (id : JobId) (s t : Shell) : Prop :=
  t.held id = s.held id ∧ s.jobs.next ≤ t.jobs.next

namespace Isolation
variable {id : JobId} {v s t : Shell}

theorem sameFor_refl (s : Shell) : s.SameFor id s := ⟨rfl, Int.le_refl _⟩

theorem sameFor_trans {u : Shell} (h : s.SameFor id t) (h' : t.SameFor id u) : s.SameFor id u :=
  ⟨h'.1.trans h.1, Int.le_trans h.2 h'.2⟩

theorem sameFor_setEnvironment {job : Option JobId} (hjob : job ≠ some id) (e : Environment)
    (s : Shell) : s.SameFor id (s.setEnvironment job e) := by
  cases job with
  | none => exact ⟨rfl, Int.le_refl _⟩
  | some other =>
    have hne : other ≠ id := fun heq => hjob (by rw [heq])
    have hget : (s.setEnvironment (some other) e).environmentOf (some id) =
        s.environmentOf (some id) := by
      simp [Shell.setEnvironment, Shell.environmentOf, hne]
    exact ⟨congrArg (fun e => { s.held id with environment := e }) hget, Int.le_refl _⟩

theorem sameFor_startJob (p : Pipeline) (c : Caller) (h : id < s.jobs.next) :
    s.SameFor id (Execute.startJob p c s).2 := by
  have hne : s.jobs.next ≠ id := Int.ne_of_gt h
  have hget : (Execute.startJob p c s).2.environmentOf (some id) = s.environmentOf (some id) := by
    simp [Execute.startJob, JobTable.spawn, JobTable.nextId, Shell.environmentOf, hne]
  exact ⟨congrArg (fun e => { s.held id with environment := e }) hget,
    Int.le_of_lt (Int.lt_succ s.jobs.next)⟩

def Kept (id : JobId) (v s t : Shell) : Prop := t = s ∧ (id < v.jobs.next → v.SameFor id s)

def discipline (id : JobId) : Discipline Shell where
  mine c := c.job ≠ some id
  same := Kept id
  unsaved := Kept id
  next v _ _ u := u = v

theorem upheld {job : Option JobId} (hjob : job ≠ some id) : Upheld (v.SameFor id) job where
  cwd _ h := h
  environment {s} e h _ := sameFor_trans h (sameFor_setEnvironment hjob e s)
  aliases _ h := h
  accounts _ h := h
  jobs h _ hnext := ⟨h.1, Int.le_trans h.2 (Int.le_of_eq hnext.symm)⟩
  save h := h

theorem unmoved : Unmoved (v.SameFor id) where
  files _ h := h
  accounts _ h := h

theorem sameFor_builtin {b : Builtin} {c : Context} (hc : c.caller.job ≠ some id)
    (h : v.SameFor id s) : v.SameFor id ((b.run c).run s).2 := by
  refine Builtin.upholds (upheld hc) h (unmoved.run h) ?_ fun _ => h
  rintro - t ⟨session, environment, cwd, -, rfl⟩
  exact h

theorem upkeep : (discipline id).Upkeep (fun v s => id < v.jobs.next → v.SameFor id s)
    fun v s => id < v.jobs.next → v.SameFor id s where
  same := .rfl
  unsaved := .rfl
  script _ h := h
  orSession {c _ s} h _ := by
    change (c.orSession s).job ≠ some id
    rwa [Caller.job_orSession]
  weaken _ := .inr fun _ _ h => h
  save h := h
  notify _ h := h
  record _ h := h
  environment {_ _ s} e hc h hid := sameFor_trans (h hid) (sameFor_setEnvironment hc e s)
  launch p _ _ h hid :=
    sameFor_trans (h hid) (sameFor_startJob p _ (Int.lt_of_lt_of_le hid (h hid).2))
  next := by
    rintro v _ s action c rfl h
    exact h
  builtin := by
    rintro b c v _ s hc rfl h
    exact Discipline.ends_of_upholds (fun hid => sameFor_builtin hc (h hid)) fun _ h => h
  redirect := by
    rintro c target text v _ s - rfl h
    exact Work.ends_of_state fun hid => unmoved.writeRedirect (h hid) c target text

theorem lawful : (discipline id).Lawful := upkeep.lawful

inductive Outside (id : JobId) : (Shell → Step Shell Note (Except Fault (Result String))) → Prop
  | line (text : String) {c : Caller} (hc : c.job ≠ some id) (record : Bool) :
    Outside id (Shell.execute text c record)
  | script (path : String) (args : List String) {c : Caller} (hc : c.job ≠ some id) :
    Outside id (Execute.runScript Shell.execute path args c)
  | job {other : JobId} (h : other ≠ id) (p : Pipeline) (c : Caller) :
    Outside id (Shell.jobRoutine ⟨other, p, { c with job := some other }⟩).2

theorem Outside.steady {ι : Type} {d : Discipline ι} (hd : d.Lawful)
    (hmine : ∀ c : Caller, c.job ≠ some id → d.mine c) {v : ι} {s t : Shell}
    {run : Shell → Step Shell Note (Except Fault (Result String))} (h : Outside id run)
    (hs : d.same v s t) : d.Steady v run run s t := by
  cases h with
  | line text hc record => exact hd.runs_execute text _ record v s t (hmine _ hc) hs
  | script path args hc => exact hd.steady_runScript hd.runs_execute path args (hmine _ hc) hs
  | @job other h p c =>
    have hc : d.mine { c with job := some other } := hmine _ fun heq => h (Option.some.inj heq)
    exact hd.steady_runPipeline hd.runs_execute p hc hs

theorem sameFor_turn {run : Shell → Step Shell Note (Except Fault (Result String))}
    (h : Step.Rest (Outside id) run) (hid : id < s.jobs.next) : s.SameFor id (run s).finish := by
  have hself (s : Shell) : Kept id s s s := ⟨rfl, fun _ => sameFor_refl s⟩
  have hrun : (discipline id).Steady s run run s s := h.lockstep (fun s => ⟨s, hself s⟩)
    (Step.exists_knows fun v _ _ => ⟨v, rfl⟩)
    (fun _ h _ _ _ hs => h.steady lawful (fun _ hc => hc) hs) s s s (hself s)
  have halong := hrun.along fun _ _ _ _ => Discipline.same_of_ending
  exact (halong.finish (Step.knows_self fun _ _ => rfl)).2 hid

/-- One thing that is done while a job waits: a turn of a line or of another job, or work of the
terminal and of whoever uses it. -/
inductive Others (id : JobId) : Shell → Shell → Prop
  | turn {run : Shell → Step Shell Note (Except Fault (Result String))}
      (h : Step.Rest (Outside id) run) (s : Shell) : Others id s (run s).finish
  | ended {other : JobId} (h : other ≠ id) (r : Outcome String) (s : Shell) :
    Others id s (Shell.host.finish other r s)
  | taken (s : Shell) : Others id s (Shell.host.takeStarted s).2
  | passed (t : Time) (s : Shell) : Others id s (Shell.host.setElapsed t s)
  | shutDown (s : Shell) : Others id s (Shell.host.setJobs s.jobs.cancelAll s)
  | shown (s : Shell) : Others id s { s with console := [] }
  | edited (files : FileSystem) (accounts : Accounts) (s : Shell) :
    Others id s { s with files, accounts }

theorem Others.sameFor (h : Others id s t) (hid : id < s.jobs.next) : s.SameFor id t := by
  cases h with
  | turn h => exact sameFor_turn h hid
  | @ended other h r =>
    have hget : (s.finishJob other r).environmentOf (some id) = s.environmentOf (some id) := by
      simp [Shell.finishJob, Shell.notify, Shell.environmentOf, h]
    exact ⟨congrArg (fun e => { s.held id with environment := e }) hget, Int.le_refl _⟩
  | taken => exact ⟨rfl, Int.le_refl _⟩
  | passed => exact ⟨rfl, Int.le_refl _⟩
  | shutDown => exact ⟨rfl, Int.le_of_eq (JobTable.next_cancelAll s.jobs).symm⟩
  | shown => exact ⟨rfl, Int.le_refl _⟩
  | edited => exact ⟨rfl, Int.le_refl _⟩

/-- Whatever the others do, a job that is there has in the end what it had. -/
theorem sameFor_of_others (h : Relation.ReflTransGen (Others id) s t) (hid : id < s.jobs.next) :
    s.SameFor id t := by
  induction h with
  | refl => exact sameFor_refl s
  | tail _ hlast ih => exact sameFor_trans ih (hlast.sameFor (Int.lt_of_lt_of_le hid ih.2))

end Isolation
end MemShell
