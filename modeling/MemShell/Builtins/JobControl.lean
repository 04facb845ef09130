import MemShell.Shell.State
import MemShell.Builtins.Files
set_option autoImplicit false

namespace MemShell.Builtins

def jobRow (id : JobId) (text : String) : String := "  " ++ padRight 5 (toString id) ++ " " ++ text

def ps (_ : Context) : Effect (Result String) := do
  let active := (← get).jobs.active
  if active.isEmpty then pure (.text "No active background jobs.\n")
  else
    let rows := active.map fun (id, text) => jobRow id text
    pure (.text ("\n".intercalate ("  PID   COMMAND" :: rows) ++ "\n"))

def jobId (c : Context) (text : String) : Effect JobId :=
  match Number.readInt? text with
  | some id => pure id
  | none => throw (c.fault (.invalidJobId text))

def changeJobs (c : Context) (f : JobTable → Except Fault JobTable) : Effect Unit := do
  let s ← get
  match f s.jobs with
  | .ok jobs => set { s with jobs }
  | .error f => throw (c.fault (.reported f.message))

def kill (c : Context) : Effect (Result String) := do
  let id ← jobId c (c.args.headD "")
  changeJobs c (·.kill id)
  pure (.text ("Signal sent to terminate job " ++ toString id ++ ".\n"))

def postMessage (c : Context) : Effect (Result String) := do
  let id ← jobId c (c.args.headD "")
  changeJobs c (·.post id (" ".intercalate c.args.tail))
  pure (.text ("Message sent to job " ++ toString id ++ ".\n"))

def readMessages (c : Context) : Effect (Result String) := do
  match c.caller.job with
  | none => throw (c.fault .outsideJob)
  | some id =>
    let s ← get
    let (messages, jobs) := s.jobs.drain id
    set { s with jobs }
    pure (.text (String.join (messages.map (· ++ "\n"))))

end MemShell.Builtins
