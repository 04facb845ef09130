import MemShell.Jobs.Table
import MemShell.Line.Alias
import MemShell.Line.History
import MemShell.Session
import MemShell.Shell.Context
import MemShell.Storage.Backend
set_option autoImplicit false

/-!
# The state of a shell

Everything that a command line can see or change. Each background job has its own environment, a
copy of the one that it was started in; all else is shared.
-/
namespace MemShell

structure Launch where
  id : JobId
  pipeline : Pipeline
  caller : Caller

structure Shell where
  config : Config
  files : FileSystem
  accounts : Accounts
  storage : Storage := {}
  session : Session
  /-- The variables of the foreground. -/
  environment : Environment
  /-- The variables of each job. -/
  jobEnvironments : Table JobId Environment := []
  aliases : Aliases
  history : History
  jobs : JobTable := {}
  /-- Jobs that were started since the last look. -/
  launches : List Launch := []
  /-- Lines for the console that have not been shown. -/
  console : List String := []
  commands : Table String Command
  /-- The optional services that are there. -/
  provided : List String := []
  services : Table String Bool := []
  startTime : Time
  elapsed : Time := .zero

namespace Shell

def now (s : Shell) : Time := s.startTime + s.elapsed

def user (s : Shell) : String := s.session.current

def actor (s : Shell) (user : String) : Actor := ⟨user, s.accounts, s.now⟩

def environmentOf (s : Shell) (job : Option JobId) : Environment :=
  match job with
  | none => s.environment
  | some id => (s.jobEnvironments.get? id).getD {}

def setEnvironment (job : Option JobId) (e : Environment) (s : Shell) : Shell :=
  match job with
  | none => { s with environment := e }
  | some id => { s with jobEnvironments := s.jobEnvironments.put id e }

def changeEnvironment (job : Option JobId) (f : Environment → Environment) (s : Shell) : Shell :=
  s.setEnvironment job (f (s.environmentOf job))

def notify (line : String) (s : Shell) : Shell := { s with console := s.console ++ [line] }

def hasService (s : Shell) (name : String) : Bool := (s.services.get? name).getD false

/-- Looks up the services that a command asks for, those not asked for before. -/
def resolveServices (names : List String) (s : Shell) : Shell :=
  names.foldl (fun s name =>
    if s.services.contains name then s
    else { s with services := s.services.put name (s.provided.contains name) }) s

def register (c : Command) (s : Shell) : Shell :=
  ({ s with commands := s.commands.put c.contract.name c }).resolveServices c.contract.requires

def commandNames (s : Shell) : List String := sortTexts s.commands.keys

def prompt (s : Shell) : String :=
  let host := s.environment.get "HOST"
  s.user ++ "@" ++ (if host.isEmpty then s.config.hostName else host) ++ ":" ++
    s.files.workingPath ++ "$ "

/-- Moves to the home of the current user if it can be entered, else to the root. -/
def enterHome (s : Shell) : Shell :=
  let home := s.environment.get "HOME"
  let top := { s.files with cwd := [] }
  if !home.isEmpty && s.files.isDirectory home then
    match (FileSystem.enter (s.actor s.user) home).run s.files with
    | (.ok (), files) => { s with files }
    | (.error _, _) => { s with files := top }
  else { s with files := top }

@[simp] theorem environmentOf_setEnvironment (s : Shell) (job : Option JobId) (e : Environment) :
    (s.setEnvironment job e).environmentOf job = e := by
  cases job <;> simp [environmentOf, setEnvironment]

end Shell

abbrev Effect := Work Shell

namespace Effect
variable {α : Type}

def changeFiles (user : String) (f : Actor → Update α) : Effect α := do
  let s ← get
  let (r, files) := (f (s.actor user)).run s.files
  set { s with files }
  Work.lift r

def readFiles (user : String) (f : FileSystem → Actor → Except Fault α) : Effect α :=
  Work.ask fun s => f s.files (s.actor user)

def save : Effect (Result Unit) := do
  let s ← get
  let (saved, storage) := s.storage.save s.files
  set { s with storage }
  Work.lift saved

end Effect

namespace Result

def text (s : String) : Result String := .ok s

def changed : Result String := .ok "" true

end Result
end MemShell
