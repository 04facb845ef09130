import MemShell.Cli.Options
import MemShell.Shell.Terminal
set_option autoImplicit false

namespace MemShell.Cli

structure Written where
  output : String := ""
  errors : String := ""
deriving DecidableEq, Repr

namespace Written

def addLines (w : Written) (ls : List String) : Written :=
  { w with errors := w.errors ++ String.join (ls.map (· ++ "\n")) }

def addResult (w : Written) (r : Result String) : Written :=
  let w := { w with output := w.output ++ r.data.getD "" }
  match r.errorText.filter (!·.isEmpty) with
  | some text => w.addLines [text]
  | none => w

end Written

structure Dialogue where
  terminal : Terminal
  written : Written := {}

namespace Dialogue

def flush (d : Dialogue) : Dialogue :=
  let (ls, terminal) := d.terminal.drainConsole
  { terminal, written := d.written.addLines ls }

def type (line : String) (d : Dialogue) : Option (Except Fault Nat × Dialogue) :=
  match d.terminal.execute line with
  | none => none
  | some (.ok r, terminal) =>
    let d := ({ d with terminal } : Dialogue).flush
    some (.ok r.exitCode, { d with written := d.written.addResult r })
  | some (.error f, terminal) => some (.error f, ({ d with terminal } : Dialogue).flush)

def settle (d : Dialogue) : Dialogue := ({ d with terminal := d.terminal.settle } : Dialogue).flush

/-- Cancels all jobs; those that were killed before find out as well. -/
def close (d : Dialogue) : Dialogue :=
  ({ d with terminal := d.terminal.shutdown.settle } : Dialogue).flush

def prompt (d : Dialogue) : String := d.terminal.state.prompt

end Dialogue

def isFarewell (line : String) : Bool := [":q", "exit", "quit"].contains (Text.strip line)

def messageLevels : List String :=
  ["CRITICAL", "FATAL", "ERROR", "WARN", "WARNING", "INFO", "DEBUG", "NOTSET"]

def checkLevel (config : Config) : Except Fault Unit :=
  let level := upperText config.logLevel
  if messageLevels.contains level then .ok ()
  else .error (.breakdown (.value ("Unknown level: " ++ Text.literal level)))

def configure (outer : Table String String) (o : Config.Overrides) : Except Fault Config := do
  pure ((← Config.ofVariables outer).override o)

def begin (config : Config) (disk : Disk) (startTime : Time) : Except Fault Dialogue := do
  checkLevel config
  pure { terminal := .ofShell (← Shell.start config none disk [] startTime) }

structure Report where
  ending : Except Fault Nat
  written : Written := {}
  prompts : List String := []
  disk : Disk

def misuse (name text : String) (w : Written) : Written :=
  { w with errors := w.errors ++ name ++ ": error: " ++ text }

/-- Ends a run. A value that was not accepted counts as a misuse of the program. -/
def finish (ending : Except Fault Nat) (written : Written) (prompts : List String) (disk : Disk) :
    Report :=
  match ending with
  | .error (.breakdown (.value text)) =>
    { ending := .ok 2, written := misuse program text written, prompts, disk }
  | _ => { ending, written, prompts, disk }

def finishDialogue (ending : Except Fault Nat) (prompts : List String) (d : Dialogue) : Report :=
  let d := d.close
  finish ending d.written prompts d.terminal.state.storage.disk

def runLine (line : String) (d : Dialogue) : Option Report :=
  (d.type line).map fun (ending, d) => finishDialogue ending [] d

/-- Runs lines until one ends the dialogue or breaks down, or there are no more. The jobs run while a
line is awaited. -/
def runLines (prompts : List String) (d : Dialogue) : List String → Option Report
  | [] => some (finishDialogue (.ok 0) (prompts ++ [d.prompt]) d.settle)
  | line :: rest =>
    let prompts := prompts ++ [d.prompt]
    let d := d.settle
    if isFarewell line then some (finishDialogue (.ok 0) prompts d)
    else
      match d.type line with
      | none => none
      | some (.error f, d) => some (finishDialogue (.error f) prompts d)
      | some (.ok _, d) => runLines prompts d rest

/-- Runs the program on its words, the variables of the outer system, a disk and the lines to be
read; none if it never ends. -/
def run (words : List String) (outer : Table String String) (disk : Disk) (lines : List String)
    (startTime : Time) : Option Report :=
  match read words with
  | .help => some { ending := .ok 0, disk }
  | .misuse name text => some { ending := .ok 2, written := misuse name text {}, disk }
  | .run mode overrides line =>
    match do begin (← configure outer overrides) disk startTime with
    | .error f => some (finish (.error f) {} [] disk)
    | .ok d =>
      match mode with
      | .exec => runLine line d
      | .shell => runLines [] d lines

end MemShell.Cli
