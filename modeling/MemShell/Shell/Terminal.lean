import MemShell.Jobs.Schedule
import MemShell.Shell.Execute
import MemShell.Shell.Start
set_option autoImplicit false

namespace MemShell

namespace Shell

def notice (id : JobId) (r : Outcome String) : String :=
  let failed (text : String) :=
    "[Job " ++ toString id ++ " finished with error: " ++
      (if text.isEmpty then "Unknown error" else text) ++ "]"
  match r with
  | .error f => failed f.message
  | .ok r =>
    match r.problem with
    | some p => failed p.text
    | none => "[Job " ++ toString id ++ " finished]"

def finishJob (id : JobId) (r : Outcome String) (s : Shell) : Shell :=
  ({ s with
      jobs := s.jobs.forget id
      jobEnvironments := s.jobEnvironments.erase id }).notify (notice id r)

def jobRoutine (l : Launch) : JobId × Routine Shell (Outcome String) :=
  (l.id, Execute.runPipeline Shell.execute l.pipeline l.caller)

def host : Host Shell String where
  elapsed := Shell.elapsed
  setElapsed t s := { s with elapsed := t }
  jobs := Shell.jobs
  setJobs jobs s := { s with jobs }
  takeStarted s := (s.launches.map jobRoutine, { s with launches := [] })
  finish := finishJob

end Shell

abbrev Terminal := Runtime Shell String

namespace Terminal

def ofShell (s : Shell) : Terminal := { state := s }

def userOr (t : Terminal) (user : Option String) : String :=
  match user with
  | some name => if name.isEmpty then t.state.user else name
  | none => t.state.user

/-- Runs work in the foreground; none if it waits for ever. -/
def run {α : Type} (work : Run α) (t : Terminal) : Option (Except Fault α × Terminal) :=
  Runtime.perform Shell.host work t

def execute (t : Terminal) (line : String) (user : Option String := none) (record : Bool := true) :
    Option (Except Fault (Result String) × Terminal) :=
  t.run (Shell.execute line { user := t.userOr user } record)

def runScript (t : Terminal) (path : String) (args : List String) :
    Option (Except Fault (Result String) × Terminal) :=
  t.run (Execute.runScript Shell.execute path args { user := t.state.user })

def settle (t : Terminal) : Terminal := Runtime.settle Shell.host t

def advance (t : Terminal) (seconds : Binary64) : Option Terminal :=
  Runtime.advance Shell.host seconds t

def shutdown? (t : Terminal) : Option Terminal := Runtime.shutdown? Shell.host t

def shutdown (t : Terminal) : Terminal := Runtime.shutdown Shell.host t

def drainConsole (t : Terminal) : List String × Terminal :=
  (t.state.console, { t with state := { t.state with console := [] } })

end Terminal
end MemShell
