import MemShell.Cli.Run
import Std.Time.DateTime.Timestamp
set_option autoImplicit false

namespace MemShell.Cli

def loadDisk (p : Path) : IO Disk := do
  let mut disk : Disk := {}
  for q in Disk.prefixes p do
    let outer := (← IO.currentDir) / q.text
    if ← outer.isDir then disk := disk.put q .directory
    else if ← outer.pathExists then
      let text ← try IO.FS.readFile outer catch _ => pure ""
      disk := disk.put q (.text text)
  return disk

/-- Writes a file that has changed: beside its place first, and then into it. -/
def storeDisk (p : Path) (before after : Disk) : IO Unit := do
  match after.text? p, Storage.draftPath? p with
  | some text, some draft =>
    if before.text? p ≠ some text then
      let here ← IO.currentDir
      IO.FS.createDirAll (here / p.parent.text)
      IO.FS.writeFile (here / draft.text) text
      IO.FS.rename (here / draft.text) (here / p.text)
  | _, _ => return

def milliseconds (t : Time) : Nat := (((t.scaleBy 1000).round?).getD 0).toNat

/-- Brings the clock of the shell and the outer one, which began at `origin`, together. -/
def keepTime (origin : Nat) (d : Dialogue) : IO Dialogue := do
  let outer := (← IO.monoMsNow) - origin
  let inner := milliseconds d.terminal.state.elapsed
  if outer < inner then
    IO.sleep (inner - outer).toUInt32
    return d
  else
    match d.terminal.advance (Binary64.ofRatio false (outer - inner) 1000) with
    | some terminal => return { d with terminal }
    | none => return d

def emit (w : Written) : IO Unit := do
  (← IO.getStdout).putStr w.output
  (← IO.getStdout).flush
  (← IO.getStderr).putStr w.errors

def speak (d : Dialogue) : IO Dialogue := do
  let d := d.flush
  emit d.written
  return { d with written := {} }

partial def converse (origin : Nat) (d : Dialogue) : IO (Except Fault Nat × Dialogue) := do
  let d ← speak d
  emit { output := d.prompt }
  let line ← (← IO.getStdin).getLine
  let d := (← keepTime origin d).settle
  if line.isEmpty || isFarewell line then return (.ok 0, d)
  match d.type (line.dropEndWhile (· = '\n')).toString with
  | none => return (.ok 1, d)
  | some (.error f, d) => return (.error f, d)
  | some (.ok _, d) => converse origin (← keepTime origin d)

def hold (mode : Mode) (line : String) (origin : Nat) (d : Dialogue) :
    IO (Except Fault Nat × Dialogue) := do
  match mode with
  | .shell => converse origin d
  | .exec =>
    match d.type line with
    | none => return (.ok 1, d)
    | some (ending, d) => return (ending, ← keepTime origin d)

def leave (r : Report) : IO UInt32 := do
  emit r.written
  match r.ending with
  | .ok code =>
    if code = 2 && !r.written.errors.endsWith "\n" then emit { errors := "\n" }
    return code.toUInt32
  | .error f =>
    emit { errors := f.message ++ "\n" }
    return 1

def outerVariables : IO (Table String String) := do
  let values ← Config.variableNames.mapM fun name => return (name, ← IO.getEnv name)
  return values.filterMap fun (name, value) => value.map fun v => (name, v)

def serve (mode : Mode) (config : Config) (line : String) : IO UInt32 := do
  let disk ← match config.storagePath with
    | some p => loadDisk p
    | none => pure {}
  let startTime := (← Std.Time.Timestamp.now).toSecondsSinceUnixEpoch.val
  match begin config disk (Binary64.ofInt startTime) with
  | .error f => leave (finish (.error f) {} [] disk)
  | .ok d =>
    let (ending, d) ← hold mode line (← IO.monoMsNow) d
    let report := finishDialogue ending [] d
    match config.storagePath with
    | some p => storeDisk p disk report.disk
    | none => pure ()
    leave report

def start (words : List String) : IO UInt32 := do
  match read words with
  | .help => emit { output := usage } *> return 0
  | .misuse name text => leave { ending := .ok 2, written := misuse name text {}, disk := {} }
  | .run mode overrides line =>
    match configure (← outerVariables) overrides with
    | .error f => leave (finish (.error f) {} [] {})
    | .ok config => serve mode config line

end MemShell.Cli

def main (words : List String) : IO UInt32 := MemShell.Cli.start words
