import Mathlib.Data.List.Perm.Basic
import Mathlib.Data.List.Induction
import Mathlib.Data.List.Nodup
import MemShell.Jobs.Schedule
import MemShell.Proofs.Jobs.Moves
set_option autoImplicit false

/-!
# Ledgers of jobs

A table of jobs, the tasks that run for them, and a record of what has happened. Tasks end in any
order, long after their jobs have left the table or before; whatever the order, each number stands
for one job.
-/
namespace MemShell

/-- What runs for a job, and whether someone is to be told of its end. -/
structure JobTask where
  id : JobId
  watched : Bool

inductive JobAct (ρ : Type) where
  | spawn (text : String) (watched : Bool)
  /-- One of the tasks that run comes to its end, whether its job is in the table or not. -/
  | finish (place : Nat) (r : Outcome ρ)
  | kill (id : JobId)
  | post (id : JobId) (message : String)
  | drain (id : JobId)

inductive JobEvent (ρ : Type) where
  | spawned (task : JobTask)
  | ended (task : JobTask) (r : Outcome ρ)
  | told (id : JobId) (r : Outcome ρ)
  | posted (id : JobId) (message : String)
  | drained (id : JobId) (messages : List String)

structure JobLedger (ρ : Type) where
  table : JobTable := {}
  tasks : List JobTask := []
  events : List (JobEvent ρ) := []

namespace JobLedger
variable {ρ : Type}

def endOf (task : JobTask) (r : Outcome ρ) : List (JobEvent ρ) :=
  if task.watched then [.ended task r, .told task.id r] else [.ended task r]

/-- An act that is refused leaves everything as it was. -/
def act (l : JobLedger ρ) : JobAct ρ → JobLedger ρ
  | .spawn text watched =>
    let (id, table) := l.table.spawn text
    let task : JobTask := ⟨id, watched⟩
    { table, tasks := l.tasks ++ [task], events := l.events ++ [.spawned task] }
  | .finish place r =>
    match l.tasks[place]? with
    | none => l
    | some task =>
      { table := l.table.forget task.id
        tasks := l.tasks.eraseIdx place
        events := l.events ++ endOf task r }
  | .kill id =>
    match l.table.kill id with
    | .ok table => { l with table }
    | .error _ => l
  | .post id message =>
    match l.table.post id message with
    | .ok table => { l with table, events := l.events ++ [.posted id message] }
    | .error _ => l
  | .drain id =>
    let (messages, table) := l.table.drain id
    { l with table, events := l.events ++ [.drained id messages] }

def after (l : JobLedger ρ) (acts : List (JobAct ρ)) : JobLedger ρ := acts.foldl act l

def run (acts : List (JobAct ρ)) : JobLedger ρ := after {} acts

theorem after_concat (l : JobLedger ρ) (acts : List (JobAct ρ)) (a : JobAct ρ) :
    l.after (acts ++ [a]) = (l.after acts).act a := by
  rw [after, List.foldl_append]
  rfl

inductive Does (l : JobLedger ρ) : JobAct ρ → JobLedger ρ → Prop
  | refused (a : JobAct ρ) : Does l a l
  | spawn (text : String) (watched : Bool) :
    Does l (.spawn text watched)
      { table := (l.table.spawn text).2
        tasks := l.tasks ++ [⟨l.table.next, watched⟩]
        events := l.events ++ [.spawned ⟨l.table.next, watched⟩] }
  | finish {place : Nat} {task : JobTask} (h : l.tasks[place]? = some task) (r : Outcome ρ) :
    Does l (.finish place r)
      { table := l.table.forget task.id
        tasks := l.tasks.eraseIdx place
        events := l.events ++ endOf task r }
  | kill {id : JobId} {table : JobTable} (h : l.table.kill id = .ok table) :
    Does l (.kill id) { l with table }
  | post {id : JobId} {message : String} {table : JobTable}
      (h : l.table.post id message = .ok table) :
    Does l (.post id message) { l with table, events := l.events ++ [.posted id message] }
  | drain (id : JobId) :
    Does l (.drain id)
      { l with
        table := (l.table.drain id).2
        events := l.events ++ [.drained id (l.table.drain id).1] }

theorem act_finish_some {l : JobLedger ρ} {place : Nat} {task : JobTask}
    (h : l.tasks[place]? = some task) (r : Outcome ρ) :
    l.act (.finish place r) =
      { table := l.table.forget task.id
        tasks := l.tasks.eraseIdx place
        events := l.events ++ endOf task r } := by
  simp only [act, h]

theorem act_post_error {l : JobLedger ρ} {id : JobId} {message : String} {f : Fault}
    (h : l.table.post id message = .error f) : l.act (.post id message) = l := by
  simp only [act, h]

theorem does_act (l : JobLedger ρ) (a : JobAct ρ) : l.Does a (l.act a) := by
  cases a with
  | spawn text watched => exact .spawn text watched
  | finish place r =>
    cases htask : l.tasks[place]? with
    | none =>
      simp only [act, htask]
      exact .refused _
    | some task =>
      rw [act_finish_some htask]
      exact .finish htask r
  | kill id =>
    cases hkill : l.table.kill id with
    | error f =>
      simp only [act, hkill]
      exact .refused _
    | ok table =>
      simp only [act, hkill]
      exact .kill hkill
  | post id message =>
    cases hpost : l.table.post id message with
    | error f =>
      rw [act_post_error hpost]
      exact .refused _
    | ok table =>
      simp only [act, hpost]
      exact .post hpost
  | drain id => exact .drain id

def spawned? : JobEvent ρ → Option JobTask
  | .spawned task => some task
  | _ => none

def ended? : JobEvent ρ → Option (JobTask × Outcome ρ)
  | .ended task r => some (task, r)
  | _ => none

def told? : JobEvent ρ → Option (JobId × Outcome ρ)
  | .told id r => some (id, r)
  | _ => none

def spawned (l : JobLedger ρ) : List JobTask := l.events.filterMap spawned?

def ended (l : JobLedger ρ) : List (JobTask × Outcome ρ) := l.events.filterMap ended?

def told (l : JobLedger ρ) : List (JobId × Outcome ρ) := l.events.filterMap told?

def callsFor (l : JobLedger ρ) (id : JobId) : Nat := (l.told.map Prod.fst).count id

def running (l : JobLedger ρ) : List JobTask :=
  l.tasks.filter fun task => !l.table.isCancelled task.id

structure Sound (l : JobLedger ρ) : Prop where
  boxes : l.table.boxes.keys = l.table.active.keys
  running : l.table.active.keys = l.running.map JobTask.id
  cancelled : ∀ id, l.table.isCancelled id = true → id < l.table.next
  fresh : ∀ task ∈ l.spawned, task.id < l.table.next
  increasing : (l.spawned.map JobTask.id).Pairwise (· < ·)
  tasks : (l.tasks ++ l.ended.map Prod.fst).Perm l.spawned
  told : l.told = (l.ended.filter fun e => e.1.watched).map fun e => (e.1.id, e.2)

variable {l l' : JobLedger ρ} {a : JobAct ρ} {id : JobId}

namespace Sound

theorem active (h : l.Sound) (hid : id ∈ l.table.active.keys) : id < l.table.next := by
  rw [h.running] at hid
  obtain ⟨task, htask, rfl⟩ := List.mem_map.mp hid
  have hspawned := h.tasks.subset (List.mem_append_left _ (List.mem_of_mem_filter htask))
  exact h.fresh task hspawned

theorem nodup_spawned (h : l.Sound) : (l.spawned.map JobTask.id).Nodup :=
  h.increasing.imp Int.ne_of_lt

theorem nodup_all (h : l.Sound) : ((l.tasks ++ l.ended.map Prod.fst).map JobTask.id).Nodup :=
  (h.tasks.map JobTask.id).nodup_iff.mpr h.nodup_spawned

theorem nodup_tasks (h : l.Sound) : (l.tasks.map JobTask.id).Nodup := by
  have hall := h.nodup_all
  rw [List.map_append] at hall
  exact (List.nodup_append.mp hall).1

theorem nodup_ended (h : l.Sound) : ((l.ended.map Prod.fst).map JobTask.id).Nodup := by
  have hall := h.nodup_all
  rw [List.map_append] at hall
  exact (List.nodup_append.mp hall).2.1

end Sound

namespace Does

theorem move (h : l.Does a l') : l'.table = l.table ∨ l.table.Move l'.table := by
  cases h with
  | refused => exact .inl rfl
  | spawn text => exact .inr (.spawn text l.table)
  | @finish _ task => exact .inr (.forget task.id l.table)
  | kill h => exact .inr (.kill h)
  | post h => exact .inr (.post h)
  | drain id => exact .inr (.drain id l.table)

theorem next_le (h : l.Does a l') : l.table.next ≤ l'.table.next := by
  rcases h.move with hmove | hmove
  · exact Int.le_of_eq (congrArg JobTable.next hmove.symm)
  · exact hmove.next_le

theorem boxes (h : l.Does a l') (hs : l.Sound) : l'.table.boxes.keys = l'.table.active.keys := by
  rcases h.move with hmove | hmove
  · rw [hmove]
    exact hs.boxes
  · exact hmove.keys_boxes hs.boxes

end Does

/-- A task is the only one of its number. -/
theorem eraseIdx_eq_filter {tasks : List JobTask} (h : (tasks.map JobTask.id).Nodup) {place : Nat}
    {task : JobTask} (htask : tasks[place]? = some task) :
    tasks.eraseIdx place = tasks.filter fun other => decide (other.id ≠ task.id) := by
  induction tasks generalizing place with
  | nil => cases htask
  | cons first rest ih =>
    obtain ⟨hfirst, hrest⟩ := List.nodup_cons.mp h
    cases place with
    | zero =>
      obtain rfl : first = task := by simpa using htask
      have hothers : ∀ other ∈ rest, decide (other.id ≠ first.id) = true := by
        intro other hother
        refine decide_eq_true fun heq => hfirst ?_
        rw [← heq]
        exact List.mem_map_of_mem hother
      rw [List.filter_cons_of_neg (by simp), List.filter_eq_self.mpr hothers]
      rfl
    | succ place =>
      have hplace : rest[place]? = some task := by simpa using htask
      have hne : first.id ≠ task.id := by
        intro heq
        refine hfirst ?_
        rw [heq]
        exact List.mem_map_of_mem (List.mem_of_getElem? hplace)
      simp [hne, ih hrest hplace]

theorem keys_forget (h : l.Sound) (other : JobId) :
    (l.table.forget other).active.keys =
      (l.running.filter fun task => decide (task.id ≠ other)).map JobTask.id := by
  rw [JobTable.forget, Table.keys_erase, h.running, List.filter_map]
  rfl

theorem running_spawn (hs : l.Sound) (watched : Bool) :
    (l.tasks ++ [(⟨l.table.next, watched⟩ : JobTask)]).filter
        (fun task => !l.table.isCancelled task.id) =
      l.running ++ [⟨l.table.next, watched⟩] := by
  have hopen : l.table.isCancelled l.table.next = false := by
    rw [Bool.eq_false_iff]
    exact fun hid => Int.lt_irrefl _ (hs.cancelled _ hid)
  rw [List.filter_append, running]
  simp [hopen]

theorem running_eraseIdx (hs : l.Sound) {place : Nat} {task : JobTask}
    (htask : l.tasks[place]? = some task) :
    (l.tasks.eraseIdx place).filter (fun other => !l.table.isCancelled other.id) =
      l.running.filter fun other => decide (other.id ≠ task.id) := by
  rw [eraseIdx_eq_filter hs.nodup_tasks htask, running, List.filter_comm]

theorem running_cancel (l : JobLedger ρ) (id : JobId) :
    l.tasks.filter (fun task => !(l.table.cancel id).isCancelled task.id) =
      l.running.filter fun task => decide (task.id ≠ id) := by
  rw [running, List.filter_filter]
  refine List.filter_congr fun task _ => ?_
  by_cases heq : task.id = id
  · simp [JobTable.isCancelled, JobTable.cancel, heq]
  · simp [JobTable.isCancelled, JobTable.cancel, heq]

namespace Does

theorem running (h : l.Does a l') (hs : l.Sound) :
    l'.table.active.keys = l'.running.map JobTask.id := by
  cases h with
  | refused => exact hs.running
  | spawn text watched =>
    have hnew : l.table.next ∉ l.table.active.keys := fun hid => Int.lt_irrefl _ (hs.active hid)
    have hkeys := Table.keys_put l.table.active l.table.next text
    rw [if_neg hnew, hs.running] at hkeys
    have hmap : l.running.map JobTask.id ++ [l.table.next] =
        (l.running ++ [(⟨l.table.next, watched⟩ : JobTask)]).map JobTask.id := by
      rw [List.map_append, List.map_singleton]
    exact (hkeys.trans hmap).trans (congrArg (List.map JobTask.id) (running_spawn hs watched).symm)
  | @finish _ task htask =>
    have hrunning := running_eraseIdx hs htask
    exact (keys_forget hs task.id).trans (congrArg (List.map JobTask.id) hrunning.symm)
  | @kill id _ hkill =>
    obtain ⟨-, rfl⟩ := JobTable.kill_eq_ok hkill
    have hrunning := running_cancel l id
    exact (keys_forget hs id).trans (congrArg (List.map JobTask.id) hrunning.symm)
  | post hpost =>
    obtain ⟨-, rfl⟩ := JobTable.post_eq_ok hpost
    exact hs.running
  | drain => exact hs.running

theorem cancelled (h : l.Does a l') (hs : l.Sound) :
    ∀ id, l'.table.isCancelled id = true → id < l'.table.next := by
  have hle := h.next_le
  have hkept (id : JobId) (hid : l.table.isCancelled id = true) : id < l'.table.next :=
    Int.lt_of_lt_of_le (hs.cancelled id hid) hle
  cases h with
  | refused => exact hkept
  | spawn => exact hkept
  | finish => exact hkept
  | kill hkill =>
    obtain ⟨hkilled, rfl⟩ := JobTable.kill_eq_ok hkill
    intro id hid
    rcases List.mem_cons.mp (List.contains_iff_mem.mp hid) with rfl | hold
    · exact hs.active hkilled
    · exact hkept id (List.contains_iff_mem.mpr hold)
  | post hpost =>
    obtain ⟨-, rfl⟩ := JobTable.post_eq_ok hpost
    exact hkept
  | drain => exact hkept

theorem sound_of_quiet (h : l.Does a l') (hs : l.Sound) (htasks : l'.tasks = l.tasks)
    (hspawned : l'.spawned = l.spawned) (hended : l'.ended = l.ended) (htold : l'.told = l.told) :
    l'.Sound where
  boxes := h.boxes hs
  running := h.running hs
  cancelled := h.cancelled hs
  fresh task htask := by
    rw [hspawned] at htask
    exact Int.lt_of_lt_of_le (hs.fresh task htask) h.next_le
  increasing := by
    rw [hspawned]
    exact hs.increasing
  tasks := by
    rw [htasks, hended, hspawned]
    exact hs.tasks
  told := by
    rw [htold, hended]
    exact hs.told

end Does

theorem sound_act_spawn (h : l.Sound) (text : String) (watched : Bool) :
    (l.act (.spawn text watched)).Sound := by
  let task : JobTask := ⟨l.table.next, watched⟩
  have hdoes := does_act l (.spawn text watched)
  have hspawned : (l.act (.spawn text watched)).spawned = l.spawned ++ [task] :=
    List.filterMap_append
  have hended : (l.act (.spawn text watched)).ended = l.ended := by
    simp [ended, act, ended?]
  have htold : (l.act (.spawn text watched)).told = l.told := by
    simp [told, act, told?]
  refine ⟨hdoes.boxes h, hdoes.running h, hdoes.cancelled h, ?_, ?_, ?_, ?_⟩
  · intro other hother
    rw [hspawned] at hother
    rcases List.mem_append.mp hother with hother | hother
    · exact Int.lt_trans (h.fresh other hother) (Int.lt_succ _)
    · rw [List.mem_singleton.mp hother]
      exact Int.lt_succ _
  · rw [hspawned, List.map_append, List.pairwise_append]
    refine ⟨h.increasing, List.pairwise_singleton _ _, ?_⟩
    intro id hid last hlast
    obtain ⟨other, hother, rfl⟩ := List.mem_map.mp hid
    rw [List.mem_singleton.mp hlast]
    exact h.fresh other hother
  · have hmiddle : (l.tasks ++ [task] ++ l.ended.map Prod.fst).Perm
        (l.tasks ++ l.ended.map Prod.fst ++ [task]) := by
      rw [List.append_assoc, List.append_assoc]
      exact List.Perm.append_left _ List.perm_append_comm
    rw [hended, hspawned]
    exact hmiddle.trans (h.tasks.append_right _)
  · rw [htold, hended]
    exact h.told

theorem spawned_endOf (task : JobTask) (r : Outcome ρ) :
    (endOf task r).filterMap spawned? = [] := by
  unfold endOf
  split <;> rfl

theorem ended_endOf (task : JobTask) (r : Outcome ρ) :
    (endOf task r).filterMap ended? = [(task, r)] := by
  unfold endOf
  split <;> rfl

theorem told_endOf (task : JobTask) (r : Outcome ρ) :
    (endOf task r).filterMap told? = if task.watched then [(task.id, r)] else [] := by
  unfold endOf
  split <;> rfl

theorem sound_act_finish (h : l.Sound) {place : Nat} {task : JobTask}
    (htask : l.tasks[place]? = some task) (r : Outcome ρ) :
    (l.act (.finish place r)).Sound := by
  have hdoes := does_act l (.finish place r)
  have hact := act_finish_some htask r
  have hspawned : (l.act (.finish place r)).spawned = l.spawned := by
    rw [hact, spawned, List.filterMap_append, spawned_endOf, List.append_nil, spawned]
  have hended : (l.act (.finish place r)).ended = l.ended ++ [(task, r)] := by
    rw [hact, ended, List.filterMap_append, ended_endOf, ended]
  have htold : (l.act (.finish place r)).told =
      l.told ++ if task.watched then [(task.id, r)] else [] := by
    rw [hact, told, List.filterMap_append, told_endOf, told]
  refine ⟨hdoes.boxes h, hdoes.running h, hdoes.cancelled h, ?_, ?_, ?_, ?_⟩
  · intro other hother
    rw [hspawned] at hother
    exact Int.lt_of_lt_of_le (h.fresh other hother) hdoes.next_le
  · rw [hspawned]
    exact h.increasing
  · obtain ⟨hplace, rfl⟩ := List.getElem?_eq_some_iff.mp htask
    have htasks : (l.act (.finish place r)).tasks = l.tasks.eraseIdx place := by rw [hact]
    have hperm := List.getElem_cons_eraseIdx_perm hplace
    rw [hspawned, hended, htasks, List.map_append, ← List.append_assoc]
    exact ((List.perm_append_singleton _ _).trans (hperm.append_right _)).trans h.tasks
  · rw [htold, hended, h.told, List.filter_append, List.map_append]
    cases hwatched : task.watched with
    | true => simp [hwatched]
    | false => simp [hwatched]

theorem sound_act (h : l.Sound) (a : JobAct ρ) : (l.act a).Sound := by
  have hdoes := does_act l a
  generalize hact : l.act a = l' at hdoes
  cases hdoes with
  | refused => exact h
  | spawn text watched => exact sound_act_spawn h text watched
  | finish htask r => exact hact ▸ sound_act_finish h htask r
  | kill hkill => exact (Does.kill hkill).sound_of_quiet h rfl rfl rfl rfl
  | post hpost =>
    refine (Does.post hpost).sound_of_quiet h rfl ?_ ?_ ?_
    · simp [spawned, spawned?]
    · simp [ended, ended?]
    · simp [told, told?]
  | drain id =>
    refine (Does.drain id).sound_of_quiet h rfl ?_ ?_ ?_
    · simp [spawned, spawned?]
    · simp [ended, ended?]
    · simp [told, told?]

theorem sound_after (h : l.Sound) (acts : List (JobAct ρ)) : (l.after acts).Sound := by
  induction acts using List.reverseRecOn with
  | nil => exact h
  | append_singleton acts a ih =>
    rw [after_concat]
    exact sound_act ih a

theorem sound_run (acts : List (JobAct ρ)) : (run acts).Sound := by
  have hstart : Sound ({} : JobLedger ρ) := by
    constructor <;> simp [spawned, ended, told, running, Table.keys, JobTable.isCancelled]
  exact sound_after hstart acts

/-- A number that was given out and has left the table does not come back. -/
theorem not_mem_after (hid : id < l.table.next) (hgone : id ∉ l.table.active.keys)
    (acts : List (JobAct ρ)) : id ∉ (l.after acts).table.active.keys := by
  suffices h : id < (l.after acts).table.next ∧ id ∉ (l.after acts).table.active.keys from h.2
  induction acts using List.reverseRecOn with
  | nil => exact ⟨hid, hgone⟩
  | append_singleton acts a ih =>
    obtain ⟨hlt, hout⟩ := ih
    rw [after_concat]
    have hdoes := does_act (l.after acts) a
    refine ⟨Int.lt_of_lt_of_le hlt hdoes.next_le, fun hmem => ?_⟩
    rcases hdoes.move with hmove | hmove
    · rw [hmove] at hmem
      exact hout hmem
    · rcases hmove.mem_keys hmem with hold | ⟨hnew, -⟩
      · exact hout hold
      · exact Int.ne_of_lt hlt hnew

theorem Sound.nodup_told (h : l.Sound) : (l.told.map Prod.fst).Nodup := by
  have hsub : (l.told.map Prod.fst).Sublist ((l.ended.map Prod.fst).map JobTask.id) := by
    rw [h.told, List.map_map, List.map_map]
    exact List.filter_sublist.map _
  exact hsub.nodup h.nodup_ended

/-- The order that holds in a ledger at all times. -/
structure Orderly (l : JobLedger ρ) : Prop where
  boxes : l.table.boxes.keys = l.table.active.keys
  /-- A job is in the table until it is cancelled or its task comes to its end. -/
  running : l.table.active.keys = l.running.map JobTask.id
  increasing : (l.spawned.map JobTask.id).Pairwise (· < ·)
  kill_iff : ∀ id, (∃ table, l.table.kill id = .ok table) ↔ id ∈ l.table.active.keys
  /-- A job that is killed leaves the table at once. -/
  killed : ∀ id table, l.table.kill id = .ok table → id ∉ table.active.keys
  post_iff : ∀ id message,
    (∃ table, l.table.post id message = .ok table) ↔ id ∈ l.table.active.keys
  /-- A job that has left the table stays away. -/
  gone : ∀ task ∈ l.spawned, task.id ∉ l.table.active.keys →
    ∀ acts, task.id ∉ (l.after acts).table.active.keys
  /-- Its task may still come to its end, and the table stays as it is. -/
  late : ∀ place task r, l.tasks[place]? = some task → task.id ∉ l.table.active.keys →
    (l.act (.finish place r)).table = l.table
  others : ∀ place task r, l.tasks[place]? = some task → ∀ id, id ≠ task.id →
    (l.act (.finish place r)).table.active.get? id = l.table.active.get? id ∧
      (l.act (.finish place r)).table.boxes.get? id = l.table.boxes.get? id
  once : ∀ id, l.callsFor id ≤ 1
  /-- Whoever is to be told of the end of a task is told of it when it comes. -/
  called : ∀ task r, (task, r) ∈ l.ended → task.watched = true →
    (task.id, r) ∈ l.told ∧ l.callsFor task.id = 1
  uncalled : ∀ id r, (id, r) ∈ l.told →
    ∃ task, (task, r) ∈ l.ended ∧ task.id = id ∧ task.watched = true

theorem Sound.orderly (h : l.Sound) : l.Orderly where
  boxes := h.boxes
  running := h.running
  increasing := h.increasing
  kill_iff id := by
    constructor
    · rintro ⟨table, hkill⟩
      exact (JobTable.kill_eq_ok hkill).1
    · intro hid
      exact ⟨_, JobTable.kill_of_mem hid⟩
  killed id table hkill := by
    obtain ⟨-, rfl⟩ := JobTable.kill_eq_ok hkill
    rw [← Table.contains_iff]
    exact Bool.eq_false_iff.mp (l.table.not_contains_forget id)
  post_iff id message := by
    rw [← h.boxes]
    constructor
    · rintro ⟨table, hpost⟩
      exact (JobTable.post_eq_ok hpost).1
    · intro hid
      exact ⟨_, JobTable.post_of_mem hid message⟩
  gone task htask hout acts := not_mem_after (h.fresh task htask) hout acts
  late place task r htask hout := by
    rw [act_finish_some htask]
    exact JobTable.forget_of_not_mem h.boxes hout
  others place task r htask id hid := by
    rw [act_finish_some htask]
    constructor
    · exact (Table.get?_erase _ _ _).trans (if_neg (Ne.symm hid))
    · exact (Table.get?_erase _ _ _).trans (if_neg (Ne.symm hid))
  once id := List.nodup_iff_count_le_one.mp h.nodup_told id
  called task r hended hwatched := by
    have htold : (task.id, r) ∈ l.told := by
      rw [h.told]
      exact List.mem_map.mpr ⟨(task, r), List.mem_filter.mpr ⟨hended, hwatched⟩, rfl⟩
    have hmem : task.id ∈ l.told.map Prod.fst := List.mem_map_of_mem htold
    exact ⟨htold, List.count_eq_one_of_mem h.nodup_told hmem⟩
  uncalled id r htold := by
    rw [h.told] at htold
    obtain ⟨⟨task, r⟩, hmem, heq⟩ := List.mem_map.mp htold
    obtain ⟨hended, hwatched⟩ := List.mem_filter.mp hmem
    cases heq
    exact ⟨task, hended, rfl, hwatched⟩

theorem orderly_run (acts : List (JobAct ρ)) : (run acts).Orderly :=
  (sound_run acts).orderly

/-- A job that is killed and ends when another one has been started. -/
example :
    let l : JobLedger Unit := run [.spawn "sleep 9" true, .kill 1, .spawn "ps" true,
      .finish 0 (.error .jobCancelled), .kill 1]
    l.table.active.keys = [2] ∧ l.callsFor 1 = 1 ∧ l.callsFor 2 = 0 := by
  decide

end JobLedger
end MemShell
