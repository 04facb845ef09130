import MemShell.Proofs.Jobs.Ledger
import MemShell.Proofs.Jobs.Shutdown
import MemShell.Shell.Terminal
set_option autoImplicit false

/-!
# The ledger of a terminal

The table of jobs of a shell is that of a ledger, whatever is done with it. Where a job comes to its
end, the terminal does what the ledger does when a task ends.
-/
namespace MemShell

namespace JobLedger
variable {t t' : JobTable} {id : JobId}

def Recorded (t : JobTable) : Prop := ∃ acts : List (JobAct String), (run acts).table = t

theorem recorded_act (acts : List (JobAct String)) (a : JobAct String) :
    Recorded ((run acts).act a).table :=
  ⟨acts ++ [a], congrArg table (after_concat {} acts a)⟩

namespace Recorded

theorem boxes (h : Recorded t) : t.boxes.keys = t.active.keys := by
  obtain ⟨acts, rfl⟩ := h
  exact (sound_run acts).boxes

theorem nodup_active (h : Recorded t) : t.active.keys.Nodup := by
  obtain ⟨acts, rfl⟩ := h
  have hsound := sound_run acts
  rw [hsound.running]
  exact hsound.nodup_tasks.sublist (List.filter_sublist.map _)

/-- A job without a task has left the table already. -/
theorem forget (h : Recorded t) (id : JobId) : Recorded (t.forget id) := by
  obtain ⟨acts, rfl⟩ := h
  by_cases hid : id ∈ (run acts).tasks.map JobTask.id
  · obtain ⟨task, htask, rfl⟩ := List.mem_map.mp hid
    obtain ⟨place, hplace⟩ := List.mem_iff_getElem?.mp htask
    have hended := recorded_act acts (.finish place (.error .jobCancelled))
    rw [act_finish_some hplace] at hended
    exact hended
  · have hsound := sound_run acts
    have hout : id ∉ (run acts).table.active.keys := by
      rw [hsound.running]
      exact fun hmem => hid ((List.filter_sublist.map JobTask.id).subset hmem)
    rw [JobTable.forget_of_not_mem hsound.boxes hout]
    exact ⟨acts, rfl⟩

theorem kill (h : Recorded t) (hkill : t.kill id = .ok t') : Recorded t' := by
  obtain ⟨acts, rfl⟩ := h
  have hkilled := recorded_act acts (.kill id)
  simp only [act, hkill] at hkilled
  exact hkilled

theorem move (h : Recorded t) (hmove : t.Move t') : Recorded t' := by
  cases hmove with
  | spawn text =>
    obtain ⟨acts, rfl⟩ := h
    exact recorded_act acts (.spawn text true)
  | forget id => exact h.forget id
  | kill hkill => exact h.kill hkill
  | @post id message _ _ hpost =>
    obtain ⟨acts, rfl⟩ := h
    have hposted := recorded_act acts (.post id message)
    simp only [act, hpost] at hposted
    exact hposted
  | drain id =>
    obtain ⟨acts, rfl⟩ := h
    exact recorded_act acts (.drain id)

theorem foldl_cancel {ids : List JobId} (h : Recorded t) (hids : ids.Nodup)
    (hmem : ∀ id ∈ ids, id ∈ t.active.keys) : Recorded (ids.foldl JobTable.cancel t) := by
  induction ids generalizing t with
  | nil => exact h
  | cons first rest ih =>
    obtain ⟨hfirst, hrest⟩ := List.nodup_cons.mp hids
    refine ih (h.kill (JobTable.kill_of_mem (hmem first List.mem_cons_self))) hrest ?_
    intro id hid
    have hne : id ≠ first := fun heq => hfirst (heq ▸ hid)
    have hkeys : (t.cancel first).active.keys = t.active.keys.filter (· ≠ first) :=
      Table.keys_erase t.active first
    rw [hkeys]
    exact List.mem_filter.mpr ⟨hmem id (List.mem_cons_of_mem _ hid), decide_eq_true hne⟩

theorem cancelAll (h : Recorded t) : Recorded t.cancelAll :=
  h.foldl_cancel h.nodup_active fun _ hid => hid

end Recorded
end JobLedger

section
variable {σ ε ρ α : Type}

/-- What a routine ends with, if this is its last turn. -/
def Step.result? : Step σ ε α → Option α
  | .done _ a => some a
  | .wait .. => none
  | .note _ _ next => next.result?

theorem Runtime.take_of_result? {h : Host σ ρ} {rt : Runtime σ ρ} {id : JobId}
    {x : Step σ Note (Outcome ρ)} {r : Outcome ρ} (hend : x.result? = some r) :
    rt.take h id x = ({ rt with state := h.finish id r x.finish } : Runtime σ ρ).absorb h := by
  induction x with
  | done s a =>
    obtain rfl : a = r := Option.some.inj hend
    rfl
  | wait s w resume => cases hend
  | note s e next ih => exact ih hend

end

open Shell

/-- A ledger has the table of a shell and a task for each of some jobs, and someone is told of the end
of all of them. -/
structure JobLedger.Mirrors (l : JobLedger String) (jobs : List JobId) (s : Shell) : Prop where
  table : l.table = s.jobs
  tasks : (l.tasks.map JobTask.id).Perm jobs
  watched : ∀ task ∈ l.tasks, task.watched = true

theorem JobLedger.Mirrors.finish {l : JobLedger String} {jobs : List JobId} {s : Shell} {id : JobId}
    (h : l.Mirrors (id :: jobs) s) (r : Outcome String) :
    ∃ place, (l.act (.finish place r)).Mirrors jobs (s.finishJob id r) ∧
      (l.act (.finish place r)).told = l.told ++ [(id, r)] := by
  have hid : id ∈ l.tasks.map JobTask.id := h.tasks.symm.subset List.mem_cons_self
  obtain ⟨task, htask, rfl⟩ := List.mem_map.mp hid
  obtain ⟨place, hplace, rfl⟩ := List.mem_iff_getElem.mp htask
  have hact := act_finish_some (List.getElem?_eq_getElem hplace) r
  refine ⟨place, ⟨?_, ?_, fun other hother => ?_⟩, ?_⟩
  · rw [hact, h.table]
    rfl
  · have herased := (List.getElem_cons_eraseIdx_perm hplace).map JobTask.id
    rw [hact]
    exact (herased.trans h.tasks).cons_inv
  · rw [hact] at hother
    exact h.watched other (List.mem_of_mem_eraseIdx hother)
  · rw [hact, told, List.filterMap_append, told_endOf, if_pos (h.watched _ htask), told]

namespace Terminal

theorem perm_pending_absorb (t : Terminal) :
    ((Runtime.absorb host t).pending host).Perm (t.pending host) := by
  let woken (timer : Timer Shell String) : Bool := timer.isWoken t.state.jobs
  let sorted := (t.timers.filter woken).mergeSort fun a b => b.age t.state.jobs ≤ a.age t.state.jobs
  have hready : (Runtime.absorb host t).ready.filterMap (·.turn.job?) =
      t.ready.filterMap (·.turn.job?) ++ (host.takeStarted t.state).1.map Prod.fst ++
        sorted.filterMap Timer.job? := by
    have hstarted (j : JobId × Routine Shell (Outcome String)) :
        (Turn.job j.1 false j.2 : Turn Shell String).job? = some j.1 := rfl
    have hwake (timer : Timer Shell String) : timer.wake.turn.job? = timer.job? :=
      Runtime.job?_of_turn
    simp only [Runtime.absorb, List.partition_eq_filter_filter, List.filterMap_append,
      List.filterMap_map, Function.comp_def, hstarted, hwake, List.filterMap_eq_map']
    rfl
  have hpending : (Runtime.absorb host t).pending host =
      t.ready.filterMap (·.turn.job?) ++ ((host.takeStarted t.state).1.map Prod.fst ++
        (sorted.filterMap Timer.job? ++ (t.timers.filter (not ∘ woken)).filterMap Timer.job?)) := by
    rw [Runtime.pending, hready]
    simp only [Runtime.absorb, List.partition_eq_filter_filter, List.append_assoc]
    exact congrArg _ (congrArg _ (congrArg _ (List.append_nil _)))
  have htimers : (sorted ++ t.timers.filter (not ∘ woken)).Perm t.timers :=
    ((List.mergeSort_perm _ _).append_right _).trans (List.filter_append_perm woken t.timers)
  have hjobs := htimers.filterMap Timer.job?
  rw [List.filterMap_append] at hjobs
  rw [hpending, Runtime.pending, List.append_assoc]
  exact ((hjobs.append_left _).trans List.perm_append_comm).append_left _

/-- Where a job is taken back at its end, a task of the ledger comes to its end, and whoever is told
of that is told on the console. -/
theorem exists_finish_of_take {t : Terminal} {l : JobLedger String} {id : JobId}
    {x : Step Shell Note (Outcome String)} {r : Outcome String} (hend : x.result? = some r)
    (h : l.Mirrors (id :: ({ t with state := x.finish } : Terminal).pending host) x.finish) :
    ∃ place, (l.act (.finish place r)).Mirrors ((t.take host id x).pending host)
        (t.take host id x).state ∧
      (l.act (.finish place r)).told = l.told ++ [(id, r)] ∧
      (t.take host id x).state.console = x.finish.console ++ [notice id r] := by
  obtain ⟨place, hmirrors, htold⟩ := h.finish r
  rw [Runtime.take_of_result? hend]
  have hpending := perm_pending_absorb { t with state := x.finish.finishJob id r }
  exact ⟨place, ⟨hmirrors.table, hmirrors.tasks.trans hpending.symm, hmirrors.watched⟩, htold, rfl⟩

end Terminal
end MemShell
