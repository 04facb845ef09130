import MemShell.Routine
import MemShell.Jobs.Table
import MemShell.Result
set_option autoImplicit false

/-!
# Scheduling

One routine runs at a time. The foreground runs until it waits; meanwhile the jobs run, in the order
in which they became ready, and time passes only when none is ready. Timers that are due fire in the
order of their deadlines, equal ones in the order in which they were started. Who has been woken lets
those who are ready pass before going on: once after a plain wait, and more often after one that the
end of a job could have interrupted.
-/
namespace MemShell

abbrev Outcome (ρ : Type) := Except Fault (Result ρ)

/-- What scheduling needs to know of the state that the routines share. -/
structure Host (σ ρ : Type) where
  elapsed : σ → Time
  setElapsed : Time → σ → σ
  jobs : σ → JobTable
  setJobs : JobTable → σ → σ
  /-- Takes the jobs that were started and have no routine yet. -/
  takeStarted : σ → List (JobId × Routine σ (Outcome ρ)) × σ
  /-- Records the end of a job, which may have left the table already. -/
  finish : JobId → Outcome ρ → σ → σ

/-- Whose turn it is. A job that was given up before it started leaves an empty place. -/
inductive Turn (σ ρ : Type) where
  | foreground
  | nobody
  | job (id : JobId) (started : Bool) (run : σ → Step σ Note (Outcome ρ))

/-- A place in the queue of what is ready, and how often the others may still pass. -/
structure Ready (σ ρ : Type) where
  passes : Nat := 0
  turn : Turn σ ρ

inductive Waiting (σ ρ : Type) where
  | foreground
  | job (id : JobId) (interruptible : Bool) (resume : σ → Bool → Step σ Note (Outcome ρ))

structure Timer (σ ρ : Type) where
  deadline : Time
  waiting : Waiting σ ρ

structure Runtime (σ ρ : Type) where
  state : σ
  ready : List (Ready σ ρ) := []
  timers : List (Timer σ ρ) := []

namespace Timer
variable {σ ρ : Type}

def isDue (now : Time) (t : Timer σ ρ) : Bool := !now.lt t.deadline

def turn (woken : Bool) (t : Timer σ ρ) : Turn σ ρ :=
  match t.waiting with
  | .foreground => .foreground
  | .job id _ resume => .job id true fun s => resume s woken

def isInterruptible (t : Timer σ ρ) : Bool :=
  match t.waiting with
  | .foreground => false
  | .job _ interruptible _ => interruptible

def job? (t : Timer σ ρ) : Option JobId :=
  match t.waiting with
  | .foreground => none
  | .job id .. => some id

/-- A wait that could have been interrupted is given up before the job goes on. -/
def expire (t : Timer σ ρ) : Ready σ ρ :=
  { passes := if t.isInterruptible then 4 else 1, turn := t.turn false }

def wake (t : Timer σ ρ) : Ready σ ρ := { passes := 2, turn := t.turn true }

def isWoken (jobs : JobTable) (t : Timer σ ρ) : Bool :=
  t.isInterruptible && (t.job?.map jobs.isCancelled).getD false

def age (jobs : JobTable) (t : Timer σ ρ) : Nat :=
  (t.job?.map fun id => jobs.cancelled.idxOf id).getD 0

end Timer

namespace Runtime
variable {σ ρ α : Type} (h : Host σ ρ)

def jobs (rt : Runtime σ ρ) : JobTable := h.jobs rt.state

/-- Queues the jobs that were started, and then those that were cancelled while they waited, the
first to be cancelled first. -/
def absorb (rt : Runtime σ ρ) : Runtime σ ρ :=
  let (started, state) := h.takeStarted rt.state
  let jobs := h.jobs state
  let (woken, timers) := rt.timers.partition (Timer.isWoken jobs)
  let woken := woken.mergeSort fun a b => b.age jobs ≤ a.age jobs
  { state
    ready := rt.ready ++ started.map (fun (id, p) => { turn := .job id false p }) ++
      woken.map Timer.wake
    timers }

/-- When a wait ends. A wait for no number of seconds ends at once. -/
def deadline (rt : Runtime σ ρ) (w : Wait) : Time :=
  let now := h.elapsed rt.state
  if w.seconds = .nan then now else now + w.seconds

def park (w : Wait) (waiting : Waiting σ ρ) (rt : Runtime σ ρ) : Runtime σ ρ :=
  { rt with timers := rt.timers ++ [⟨rt.deadline h w, waiting⟩] }

/-- Takes a job that waits or is done back. A wait that is over at once only lets others pass. -/
def take (id : JobId) (step : Step σ Note (Outcome ρ)) (rt : Runtime σ ρ) : Runtime σ ρ :=
  match step with
  | .done s r => { rt with state := h.finish id r s }.absorb h
  | .wait s w resume =>
    let rt := { rt with state := s }
    if w.isOver then
      let next : Ready σ ρ :=
        { passes := if w.interruptible then 2 else 0, turn := .job id true fun s => resume s false }
      { rt with ready := rt.ready ++ [next] }.absorb h
    else (rt.park h w (.job id w.interruptible resume)).absorb h
  | .note _ _ next => rt.take id next

def fireDue (rt : Runtime σ ρ) : Runtime σ ρ :=
  let (due, timers) := rt.timers.partition (Timer.isDue (h.elapsed rt.state))
  let due := due.mergeSort fun a b => !b.deadline.lt a.deadline
  { rt with ready := rt.ready ++ due.map Timer.expire, timers }

def nextDeadline (rt : Runtime σ ρ) : Option Time :=
  rt.timers.foldl (fun first t =>
    match first with
    | none => if t.deadline.lt (.infinite false) then some t.deadline else none
    | some d => if t.deadline.lt d then some t.deadline else some d) none

/-- How the queue goes on: none is ready, it is the turn of the foreground, or a job had its turn or
let the others pass. -/
inductive Progress (σ ρ : Type) where
  | idle (rt : Runtime σ ρ)
  | foreground (rt : Runtime σ ρ)
  | moved (rt : Runtime σ ρ)

def progress (rt : Runtime σ ρ) : Progress σ ρ :=
  let rt := rt.fireDue h
  match rt.ready with
  | [] => .idle rt
  | ⟨passes + 1, turn⟩ :: rest => .moved { rt with ready := rest ++ [⟨passes, turn⟩] }
  | ⟨0, .foreground⟩ :: rest => .foreground { rt with ready := rest }
  | ⟨0, .nobody⟩ :: rest => .moved { rt with ready := rest }
  | ⟨0, .job id _ run⟩ :: rest =>
    .moved (({ rt with ready := rest } : Runtime σ ρ).take h id (run rt.state))

/-- Runs what is ready until all wait. Time does not pass. -/
def settleWithin : Nat → Runtime σ ρ → Runtime σ ρ
  | 0, rt => rt
  | n + 1, rt =>
    match rt.progress h with
    | .idle rt => rt
    | .foreground rt | .moved rt => settleWithin n rt

def awaitWithin : Nat → Runtime σ ρ → Option (Runtime σ ρ)
  | 0, _ => none
  | n + 1, rt =>
    match rt.progress h with
    | .foreground rt => some rt
    | .moved rt => awaitWithin n rt
    | .idle rt =>
      match rt.nextDeadline with
      | none => none
      | some t => awaitWithin n { rt with state := h.setElapsed t rt.state }

/-- The number of turns after which a queue that never empties is left alone. -/
def maxTurns : Nat := 1000000

def giveWay (s : σ) (w : Wait) (rt : Runtime σ ρ) : Runtime σ ρ :=
  let rt := ({ rt with state := s } : Runtime σ ρ).absorb h
  if w.isOver then { rt with ready := rt.ready ++ [{ turn := .foreground }] }
  else rt.park h w .foreground

def follow : Step σ Note α → Runtime σ ρ → Option (α × Runtime σ ρ)
  | .done s a, rt => some (a, { rt with state := s }.absorb h)
  | .wait s w resume, rt =>
    match awaitWithin h maxTurns (rt.giveWay h s w) with
    | none => none
    | some rt => follow (resume rt.state false) rt
  | .note _ _ next, rt => follow next rt

def perform (p : Routine σ α) (rt : Runtime σ ρ) : Option (α × Runtime σ ρ) :=
  follow h (p rt.state) rt

def settle (rt : Runtime σ ρ) : Runtime σ ρ := settleWithin h maxTurns rt

def advance (seconds : Binary64) (rt : Runtime σ ρ) : Option (Runtime σ ρ) :=
  (rt.perform h (Routine.pause ⟨seconds, false⟩)).map fun (_, rt) => rt.settle h

def cancelledOutcome : Outcome ρ := .error .jobCancelled

def cancelledTurn (id : JobId) : Turn σ ρ := .job id true fun s => .done s cancelledOutcome

/-- What becomes of a place in the queue when a job is shut down. One that never started has nothing
to report. One that is about to go on, or has not begun to give its wait up, keeps its place. -/
def cutShort (listed : JobId → Bool) (r : Ready σ ρ) : Option (Ready σ ρ) :=
  match r.turn with
  | .foreground | .nobody => some r
  | .job id started _ =>
    if !listed id then some r
    else if !started then some { r with turn := .nobody }
    else if r.passes = 0 || 3 ≤ r.passes then some { r with turn := cancelledTurn id }
    else none

def givingUp? (listed : JobId → Bool) (r : Ready σ ρ) : Option (JobId × Turn σ ρ) :=
  match r.turn with
  | .foreground | .nobody => none
  | .job id started _ =>
    if listed id && started && (r.passes = 1 || r.passes = 2) then some (id, cancelledTurn id)
    else none

def interrupted? (listed : JobId → Bool) (t : Timer σ ρ) : Option (JobId × Turn σ ρ) :=
  match t.job? with
  | some id =>
    if !listed id then none
    else some (id, if t.isInterruptible then t.turn true else cancelledTurn id)
  | none => none

def isEnding (listed : JobId → Bool) (r : Ready σ ρ) : Bool :=
  match r.turn with
  | .foreground => false
  | .nobody => true
  | .job id .. => listed id

/-- Runs what is ready until the jobs that are shut down have ended and the foreground knows; none if
that takes too many turns. -/
def endWithin (listed : JobId → Bool) : Nat → Runtime σ ρ → Option (Runtime σ ρ)
  | 0, _ => none
  | n + 1, rt =>
    if rt.ready.any (isEnding listed) then
      match rt.progress h with
      | .idle _ => none
      | .foreground rt | .moved rt => endWithin listed n rt
    else ({ rt with ready := rt.ready ++ [⟨1, .foreground⟩] } : Runtime σ ρ).awaitWithin h maxTurns

/-- Queues the jobs that are shut down where they find out, in the order of their numbers. -/
def interrupt (listed : JobId → Bool) (rt : Runtime σ ρ) : Runtime σ ρ :=
  let ending := rt.ready.filterMap (givingUp? listed) ++ rt.timers.filterMap (interrupted? listed)
  let ending := ending.mergeSort fun a b => a.1 ≤ b.1
  { rt with
    ready := rt.ready.filterMap (cutShort listed) ++ ending.map fun (_, turn) => ⟨0, turn⟩
    timers := rt.timers.filter fun t => (interrupted? listed t).isNone }

def shutdown? (rt : Runtime σ ρ) : Option (Runtime σ ρ) :=
  let jobs := rt.jobs h
  let listed := jobs.active.contains
  if jobs.active.isEmpty then some rt
  else
    let rt : Runtime σ ρ := { rt with state := h.setJobs jobs.cancelAll rt.state }
    (rt.interrupt listed).endWithin h listed maxTurns

/-- A shutdown that takes too many turns is left alone. -/
def shutdown (rt : Runtime σ ρ) : Runtime σ ρ := (rt.shutdown? h).getD rt

end Runtime
end MemShell
