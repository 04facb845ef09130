import MemShell.Builtins.Catalogue
import MemShell.Line.Comment
import MemShell.Routine
import MemShell.Text.Quoted
set_option autoImplicit false

/-!
# Running command lines

A line is expanded, read as a sequence of pipelines and run from left to right. Scripts and the
commands that are built from an input run lines in their turn; how they do that is a parameter of
all that runs inside of one line, and nesting is bounded.
-/
namespace MemShell

abbrev Run := ExceptT Fault (Routine Shell)

namespace Run
variable {α : Type}

def effect (e : Effect α) : Run α := fun s => .done (e s).2 (e s).1

def lift (r : Except Fault α) : Run α := fun s => .done s r

def pause (w : Wait) : Run Bool := fun s => .wait s w fun s woken => .done s (.ok woken)

def note (e : Note) : Run Unit := fun s => .note s e (.done s (.ok ()))

def outcome (r : Run α) : Run (Except Fault α) := fun s => (r s).bind fun s a => .done s (.ok a)

end Run

/-- How a line is run on behalf of a caller; the flag says whether it is entered in the history. -/
abbrev LineRunner := String → Caller → Bool → Run (Result String)

/-- A caller without a name acts as the user of the session. -/
def Caller.orSession (c : Caller) (s : Shell) : Caller :=
  if c.user.isEmpty then { c with user := s.user } else c

def Caller.isCancelled (c : Caller) (s : Shell) : Bool :=
  match c.job with
  | some id => s.jobs.isCancelled id
  | none => false

def jobText (job : Option JobId) : String := "job " ++ toString (job.getD 0)

namespace Execute

/-! ## Expanding lines -/

/-- A line without its comment, with arguments, variables and aliases put in. -/
def preprocess (line : String) (args : Option (List String)) (value : String → String)
    (aliases : Aliases) : Except Fault String :=
  let text := Line.stripComment line
  if text.isEmpty then .ok ""
  else
    let text := match args with
      | some args => Line.substituteArgs args text
      | none => text
    aliases.resolve (Line.expandVariables value text)

/-! ## Waiting -/

def units (c : Context) (text : String) : Except Fault Binary64 :=
  match Number.readDecimal? text with
  | some x => if x.lt .zero then .error (c.fault (.invalidInterval text)) else .ok x
  | none => .error (c.fault (.invalidInterval text))

def wait (c : Context) (unitsPerSecond : Nat) : Run (Result String) := do
  let n ← Run.lift (units c (c.args.headD ""))
  let seconds := if unitsPerSecond = 1 then n else n.divideBy unitsPerSecond
  let woken ← Run.pause ⟨seconds, c.caller.job.isSome⟩
  match woken, c.caller.job with
  | true, some id => throw (.wokenByCancel c.name id)
  | _, _ => pure .done

/-! ## Scripts -/

/-- A script stops before its next line when its job is cancelled. -/
def cancelledScript (path : String) (line : Nat) (job : Option JobId) (outputs : List String) :
    Result String :=
  { data := some (String.join outputs)
    problem := some ⟨"Script '" ++ path ++ "' cancelled before line " ++ toString (line + 1) ++
      ": " ++ jobText job ++ " cancelled", .execution⟩ }

/-- A failed line ends a script, which keeps the output made so far. -/
def failedScript (path : String) (line : Nat) (p : Problem) (outputs : List String) :
    Result String :=
  { data := some (String.join outputs)
    problem := some ⟨"Script '" ++ path ++ "' error on line " ++ toString (line + 1) ++ ": " ++
      p.text, p.kind⟩ }

def isSkipped (line : String) : Bool := line.isEmpty || line.startsWith "#"

def output (r : Result String) : List String := r.data.toList.filter (!·.isEmpty)

def runLines (inner : LineRunner) (caller : Caller) (script : Script) (outputs : List String) :
    List (String × Nat) → Run (Result String)
  | [] => pure (.ok (String.join outputs))
  | (raw, i) :: rest => do
    let line := Text.strip raw
    if isSkipped line then runLines inner caller script outputs rest
    else if caller.isCancelled (← get) then
      pure (cancelledScript script.source i caller.job outputs)
    else do
      let r ← inner line { caller with script := some { script with line := i } } true
      let outputs := outputs ++ output r
      match r.problem with
      | some p => pure (failedScript script.source i p outputs)
      | none => runLines inner caller script outputs rest

def depthOf (parent : Option Script) : Nat := ((parent.map (·.depth)).getD 0) + 1

def runScript (inner : LineRunner) (path : String) (args : List String) (caller : Caller) :
    Run (Result String) := do
  let s ← get
  let caller := caller.orSession s
  let depth := depthOf caller.script
  if s.config.maxScriptDepth < depth then
    pure (.fail ("maximum script depth (" ++ toString s.config.maxScriptDepth ++ ") exceeded"))
  else
    match s.files.readText (s.actor caller.user) path with
    | .error f => Run.lift (Result.ofFault "" f)
    | .ok content => do
      modify (Shell.changeEnvironment caller.job Environment.push)
      let ended ← Run.outcome
        (runLines inner caller { source := path, args, depth } [] (Text.lineBodies content).zipIdx)
      modify (Shell.changeEnvironment caller.job Environment.pop)
      Run.lift ended

/-! ## Building commands from the input -/

def replaceAll (old new : List Char) : List Char → List Char
  | [] => []
  | c :: rest =>
    if old.isPrefixOf (c :: rest) then new ++ replaceAll old new (rest.drop (old.length - 1))
    else c :: replaceAll old new rest
termination_by s => s.length
decreasing_by
  · simp only [List.length_drop, List.length_cons]; omega
  · simp

def replaceText (old new s : String) : String :=
  String.ofList (replaceAll old.toList new.toList s.toList)

def inputLines (text : String) : List String :=
  ((Text.lineBodies (Text.strip text)).map Text.strip).filter (!·.isEmpty)

/-- The commands for the lines of an input: one for each line if the text to be replaced is given,
else one with all lines behind its words. -/
def commandsFor (base : List String) (replace : Option String) (ls : List String) :
    List (List String) :=
  let base := if base.isEmpty then ["echo"] else base
  match replace.filter (!·.isEmpty) with
  | some old => ls.map fun l => base.map (replaceText old l)
  | none => [base ++ ls]

def runCommands (inner : LineRunner) (c : Context) (outputs : List String) (modified : Bool) :
    List (List String) → Run (Result String)
  | [] => pure (.ok (String.join outputs) modified)
  | words :: rest => do
    if c.caller.isCancelled (← get) then throw .jobCancelled
    else
      let line := Text.quoteWords words
      let r ← inner line c.caller false
      match r.problem with
      | none => runCommands inner c (outputs ++ output r) (modified || r.modified) rest
      | some p =>
        let reason := if p.text.isEmpty then "command failed" else p.text
        pure (.fail ("xargs: " ++ line ++ ": " ++ reason) p.kind)

def fanOut (inner : LineRunner) (c : Context) : Run (Result String) :=
  let ls := inputLines c.inputText
  if ls.isEmpty then pure (.ok "")
  else runCommands inner c [] false (commandsFor c.args (c.flags.value? "replace") ls)

/-! ## Commands -/

def answer (reply : Reply) : Run (Result String) := do
  match reply.pause with
  | some seconds => do
    let _ ← Run.pause ⟨seconds, false⟩
    Run.lift reply.outcome
  | none => Run.lift reply.outcome

def perform (inner : LineRunner) (action : Action) (c : Context) : Run (Result String) :=
  match action with
  | .builtin b => Run.effect (b.run c)
  | .wait unitsPerSecond => wait c unitsPerSecond
  | .runScript => runScript inner (c.args.headD "") c.args.tail c.caller
  | .fanOut => fanOut inner c
  | .custom reply => answer (reply c)

/-- Reports a fault under a command's name, which is not written twice. A breakdown is reported like
any failure of the command. -/
def report (name : String) (f : Fault) : Result String :=
  let named := name ++ ": "
  match f.category? with
  | some category =>
    .fail (if f.message.startsWith named then f.message else named ++ f.message) category.kind
  | none => .fail (named ++ f.message)

def withData (r : Result String) : Result String :=
  if r.success && r.data.isNone then { r with data := some "" } else r

def contextFor (s : Shell) (k : Contract) (i : Invocation) (name : String) (input : Option String)
    (caller : Caller) : Context :=
  { name, args := i.args, flags := i.flags, paths := i.paths
    input := if k.readsInput then input else none
    caller, services := s.services }

def runSegment (inner : LineRunner) (seg : Segment) (input : Option String) (caller : Caller) :
    Run (Result String) := do
  let s ← get
  match s.commands.get? seg.name with
  | none => pure (.fail (seg.name ++ ": command not found"))
  | some command =>
    let missing := command.contract.requires.filter fun name => !s.hasService name
    if !missing.isEmpty then
      pure (.fail (seg.name ++ ": required service unavailable: " ++ ", ".intercalate missing))
    else
      match command.contract.check s.files (s.actor caller.user) seg.args with
      | .error f => pure (report seg.name f)
      | .ok i => do
        let c := contextFor s command.contract i seg.name input caller
        Run.note (.command command.action c)
        match ← Run.outcome (perform inner command.action c) with
        | .ok r => pure (withData r)
        | .error f => pure (report seg.name f)

/-! ## Pipelines -/

def saveOr (failure : String) : Run (Option (Result String)) := do
  let saved ← Run.effect Effect.save
  match saved.problem with
  | none => pure none
  | some p => pure (some (.fail (failure ++ ": " ++ p.text) .system))

/-- Passes texts from command to command. The tree is saved after each command that changed it. -/
def runSegments (inner : LineRunner) (caller : Caller) (modified : Bool) (text : String)
    (input : Option String) : List Segment → Run (Result String)
  | [] => pure (.ok text modified)
  | seg :: rest => do
    if caller.isCancelled (← get) then pure (.fail (jobText caller.job ++ " cancelled"))
    else
      let r ← runSegment inner seg input caller
      let text := r.data.getD ""
      if !r.success then pure r
      else if r.modified then
        match ← saveOr "failed to save file system state" with
        | some failure => pure failure
        | none => runSegments inner caller true text (some text) rest
      else runSegments inner caller modified text (some text) rest

def writeRedirect (caller : Caller) (r : Redirect) (text : String) : Effect Unit := do
  let target := (← get).files.place r.path
  if target.isEmpty then throw (.node .redirectRoot)
  else
    let parent ← Effect.changeFiles caller.user fun a =>
      FileSystem.ensureDirectory a (Place.text target.parent)
    Effect.readFiles caller.user fun fs a => do
      let d ← fs.node parent
      match d.child? target.name with
      | some n =>
        if n.isDir then throw (.node (.isDirectory r.path)) else a.require target n .write
      | none => a.require parent d .write
    let _ ← Effect.changeFiles caller.user fun a =>
      FileSystem.writeText a (Place.text target) text r.append
    pure ()

def deliver (caller : Caller) (redirect : Option Redirect) (r : Result String) :
    Run (Result String) :=
  match redirect with
  | none => pure r
  | some target => do
    let text := r.data.getD ""
    Run.note (.redirect caller target text)
    match ← Run.outcome (Run.effect (writeRedirect caller target text)) with
    | .error f => Run.lift (Result.ofFault "" f)
    | .ok () =>
      match ← saveOr "failed to save redirect" with
      | some failure => pure failure
      | none => pure .changed

def runPipeline (inner : LineRunner) (p : Pipeline) (caller : Caller) : Run (Result String) := do
  let s ← get
  match p.input.map (s.files.readText (s.actor caller.user)) with
  | some (.error f) => Run.lift (Result.ofFault "cannot open input: " f)
  | input => do
    let text := input.bind Except.toOption
    let r ← runSegments inner caller false "" text p.segments
    if r.success then deliver caller p.output r else pure r

/-- Starts a job with a copy of the caller's variables. -/
def startJob (p : Pipeline) (caller : Caller) (s : Shell) : Result String × Shell :=
  let (id, jobs) := s.jobs.spawn p.describe
  let copy := Environment.ofFrame (s.environmentOf caller.job).top
  (.ok ("[" ++ toString id ++ "] Backgrounded.\n"),
    { s with
      jobs
      jobEnvironments := s.jobEnvironments.put id copy
      launches := s.launches ++ [⟨id, p, { caller with job := some id }⟩] })

/-! ## Sequences -/

/-- How far a sequence has come: the result of the last item that ran, if any did, the outputs of
those that succeeded, and whether one of them changed the tree. -/
structure Progress where
  last : Option (Result String) := none
  outputs : List String := []
  modified : Bool := false

namespace Progress

def succeeded (p : Progress) : Bool := (p.last.map Result.success).getD true

def notice (p : Progress) : Option String :=
  (p.last.bind Result.errorText).filter (!·.isEmpty)

def add (p : Progress) (r : Result String) : Progress :=
  { last := some r
    outputs := p.outputs ++ (if r.success then output r else [])
    modified := p.modified || r.modified }

def result (p : Progress) : Result String :=
  { data := some (String.join p.outputs)
    problem := p.last.bind (·.problem)
    modified := p.modified }

end Progress

def isLeftOut (previous : Option Connective) (succeeded : Bool) : Bool :=
  match previous with
  | some .both => !succeeded
  | some .either => succeeded
  | _ => false

def endsAtFailure : Option Connective → Bool
  | none | some .semicolon => true
  | _ => false

def runItem (inner : LineRunner) (p : Pipeline) (caller : Caller) : Run (Result String) :=
  if p.background then modifyGet (startJob p caller) else runPipeline inner p caller

def runItems (inner : LineRunner) (caller : Caller) (previous : Option Connective)
    (progress : Progress) : List SequenceItem → Run (Result String)
  | [] => pure progress.result
  | item :: rest => do
    if isLeftOut previous progress.succeeded then
      runItems inner caller item.connective progress rest
    else do
      match progress.notice with
      | some line => modify (Shell.notify line)
      | none => pure ()
      let r ← runItem inner item.pipeline caller
      let progress := progress.add r
      if !r.success && endsAtFailure item.connective then pure progress.result
      else runItems inner caller item.connective progress rest

/-! ## Lines -/

/-- Expands a line and reads it. It enters the history once it has been expanded, unless it belongs
to a script. -/
def readLine (line : String) (caller : Caller) (record : Bool) : Effect (List SequenceItem) := do
  let s ← get
  let env := s.environmentOf caller.job
  let text ← Work.lift (preprocess line (caller.script.map (·.args)) env.get s.aliases)
  if record && caller.script.isNone then set { s with history := s.history.add line }
  Work.lift (SequenceItem.ofLine text)

def runLine (inner : LineRunner) : LineRunner := fun line caller record => do
  let caller := caller.orSession (← get)
  match ← Run.outcome (Run.effect (readLine line caller record)) with
  | .error f => Run.lift (Result.ofFault "" f)
  | .ok items => runItems inner caller none {} items

/-- Lines may be nested so deep; beyond that a line breaks down. -/
def nested : Nat → LineRunner
  | 0 => fun _ _ _ => throw (.breakdown (.runtime "maximum recursion depth exceeded"))
  | n + 1 => runLine (nested n)

def maxNesting : Nat := 190

end Execute

def Shell.execute : LineRunner := Execute.nested Execute.maxNesting

end MemShell
