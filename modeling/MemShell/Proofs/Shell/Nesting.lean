import MemShell.Proofs.Jobs.Scheduling
import MemShell.Proofs.Shell.Upkeep
set_option autoImplicit false

/-!
# Lines inside of lines

Lines run other lines in their turn: those of the scripts that they run, and those that they build
from an input. Which ones, is told by what makes a difference to them. A line of a script stands one
script deeper, a line that was built and a job that was launched as deep as the line they come from.
-/
namespace MemShell
open Execute

def Caller.depth (c : Caller) : Nat := (c.script.map (·.depth)).getD 0

theorem Caller.depth_congr {c c' : Caller} (h : c.script = c'.script) : c.depth = c'.depth := by
  rw [depth, depth, h]

inductive Task where
  | line (text : String) (c : Caller) (record : Bool)
  | script (path : String) (args : List String) (c : Caller)
  | job (l : Launch)

namespace Task

def caller : Task → Caller
  | line _ c _ | script _ _ c => c
  | job l => l.caller

def run (inner : LineRunner) : Task → Run (Result String)
  | line text c record => runLine inner text c record
  | script path args c => runScript inner path args c
  | job l => runPipeline inner l.pipeline l.caller

def isWritten : Task → Bool
  | line _ _ record => record
  | script .. | job _ => false

end Task

structure Call where
  task : Task
  state : Shell

namespace Call

def caller (x : Call) : Caller := x.task.caller

/-- The pipelines that the task runs itself. That of a job is not for the background any more. -/
def pipelines : Call → List Pipeline
  | ⟨.line text c record, s⟩ => pipelinesOf text c record s
  | ⟨.script .., _⟩ => []
  | ⟨.job l, _⟩ => [{ l.pipeline with background := false }]

def Feeds (x : Call) : Prop := ∃ p ∈ x.pipelines, p.Feeds

def Starts (x : Call) : Prop := ∃ p ∈ x.pipelines, p.background = true

instance (x : Call) : Decidable x.Feeds := inferInstanceAs (Decidable (∃ p ∈ x.pipelines, p.Feeds))

instance (x : Call) : Decidable x.Starts :=
  inferInstanceAs (Decidable (∃ p ∈ x.pipelines, p.background = true))

end Call

namespace Nesting

structure Kept (d : Int) (P : List Launch → Prop) (s : Shell) : Prop where
  bound : s.config.maxScriptDepth = d
  launches : P s.launches

def discipline (d : Int) (mine : Caller → Prop) (P : List Launch → Prop) : Discipline Unit where
  mine := mine
  same _ s t := t = s ∧ Kept d P s
  unsaved _ s t := t = s ∧ Kept d P s
  next _ _ _ _ := True

variable {d : Int} {mine : Caller → Prop} {P : List Launch → Prop} {s t : Shell}

theorem Kept.setEnvironment (h : Kept d P s) (job : Option JobId) (e : Environment) :
    Kept d P (s.setEnvironment job e) := by cases job <;> exact ⟨h.1, h.2⟩

theorem upheld (job : Option JobId) : Upheld (Kept d P) job where
  cwd _ h := ⟨h.1, h.2⟩
  environment e h _ := h.setEnvironment job e
  aliases _ h := ⟨h.1, h.2⟩
  accounts _ h := ⟨h.1, h.2⟩
  jobs h _ _ := ⟨h.1, h.2⟩
  save h := ⟨h.1, h.2⟩

theorem unmoved : Unmoved (Kept d P) where
  files _ h := ⟨h.1, h.2⟩
  accounts _ h := ⟨h.1, h.2⟩

theorem Kept.builtin (h : Kept d P s) (b : Builtin) (c : Context) :
    Kept d P ((b.run c).run s).2 := by
  refine Builtin.upholds (upheld _) h (unmoved.run h) ?_ fun _ => ⟨h.1, h.2⟩
  rintro - t ⟨session, environment, cwd, -, rfl⟩
  exact ⟨h.1, h.2⟩

theorem laws (hsession : ∀ c s, mine c → mine (c.orSession s)) : (discipline d mine P).Laws := by
  have hupholds : (discipline d mine P).Upholds (fun _ => Kept d P) fun _ => Kept d P :=
    { same := .rfl
      unsaved := .rfl
      orSession := fun hc _ => hsession _ _ hc
      weaken := fun _ => .inr fun _ _ h => h
      save := fun h => ⟨h.1, h.2⟩
      notify := fun _ h => ⟨h.1, h.2⟩
      record := fun _ h => ⟨h.1, h.2⟩
      environment := fun e _ h => h.setEnvironment _ e
      next := fun _ h => h
      builtin := fun _ _ h => Discipline.ends_of_upholds (h.builtin _ _) fun _ h => h
      redirect := fun _ _ h => Work.ends_of_state (unmoved.writeRedirect h _ _ _) }
  exact hupholds.laws

theorem launching
    (h : ∀ c p id ls, mine c → P ls → P (ls ++ [⟨id, p, { c with job := some id }⟩])) :
    (discipline d mine P).Launching := by
  rintro c - s _ p - hc ⟨rfl, hs⟩
  exact ⟨rfl, hs.bound, h c p _ _ hc hs.launches⟩

/-- Tasks keep what their own actions keep. -/
theorem steady_run {d : Discipline Unit} (h : d.Laws) {x : Call} {inner inner' : LineRunner}
    (hinner : d.Agrees x.caller.script x.Feeds inner inner') (hlaunch : x.Starts → d.Launching)
    (hmine : d.mine x.caller) (hs : d.same () x.state x.state) :
    d.Steady () (x.task.run inner) (x.task.run inner') x.state x.state := by
  obtain ⟨task, s⟩ := x
  cases task with
  | line text c record => exact h.steady_runLine hinner hlaunch hmine hs
  | script path args c => exact h.steady_runScript hinner path args hmine hs
  | job l =>
    exact h.steady_runPipeline hinner (fun hfeeds => ⟨_, List.mem_singleton_self _, hfeeds⟩) hmine hs

def Alike (d : Int) (x y : Run (Result String)) (s : Shell) : Prop :=
  (discipline d (fun _ => True) fun _ => True).Steady () x y s s

def DifferAt (d : Int) (y : Call) (inner inner' : LineRunner) : Prop :=
  ∀ text c record s, Call.mk (.line text c record) s ≠ y → s.config.maxScriptDepth = d →
    Alike d (inner text c record) (inner' text c record) s

/-- The task runs a line: it makes a difference what that line does, and it alone. -/
def Hands (d : Int) (x y : Call) : Prop :=
  ∃ inner inner', DifferAt d y inner inner' ∧
    ¬Alike d (x.task.run inner) (x.task.run inner') x.state

def AtOnce (d : Int) (l : Launch) (inner : LineRunner) : Prop :=
  ∀ text c record s, Kept d (l ∉ ·) s →
    ∃ t r, inner text c record s = .done t r ∧ Kept d (l ∉ ·) t

/-- A turn of the task launches a job: neither the lines inside of it nor others did. -/
def Launches (d : Int) (x : Call) (l : Launch) : Prop :=
  ∃ inner, AtOnce d l inner ∧ Kept d (l ∉ ·) x.state ∧
    ¬(x.task.run inner x.state).Keeps (Kept d (l ∉ ·)) (Kept d (l ∉ ·)) fun _ _ => True

inductive Follows (d : Int) (x : Call) : Call → Prop
  | line {y : Call} (h : Hands d x y) : Follows d x y
  | job {l : Launch} {s : Shell} (h : Launches d x l) (hs : s.config.maxScriptDepth = d) :
      Follows d x ⟨.job l, s⟩

/-- The three ways in which tasks come from others: a line of a script that is entered, a line that
is built from an input, and a job. -/
inductive Arises (d : Int) (x : Call) : Call → Prop
  | script {text : String} {c : Caller} {script : Script} {s : Shell}
      (hscript : c.script = some script) (hdepth : script.depth = x.caller.depth + 1)
      (hbound : (script.depth : Int) ≤ d) : Arises d x ⟨.line text c true, s⟩
  | built {words : List String} {c : Caller} {s : Shell} (hsame : c.script = x.caller.script)
      (hfeeds : x.Feeds) (hwords : words ≠ []) :
      Arises d x ⟨.line (Text.quoteWords words) c false, s⟩
  | job {l : Launch} {s : Shell} (hsame : l.caller.script = x.caller.script) (hstarts : x.Starts) :
      Arises d x ⟨.job l, s⟩

variable {x y : Call}

/-- Two ways to run lines that differ in one line only agree on all that a task runs, if that line
does not come from it. -/
theorem agrees_of_not_arises {inner inner' : LineRunner} (hdiffer : DifferAt d y inner inner')
    (hnone : ¬(y.state.config.maxScriptDepth = d ∧ Arises d x y)) :
    (discipline d (fun _ => True) fun _ => True).Agrees x.caller.script x.Feeds inner inner' where
  script {c script _ s t} line _ hparent henters hs := by
    obtain ⟨rfl, hs⟩ := hs
    obtain ⟨-, u, -, ⟨-, hu⟩, hallowed⟩ := henters.allowed
    have hbound : (script.depth : Int) ≤ d := hu.bound ▸ hallowed
    refine hdiffer line { c with script := some script } true t ?_ hs.bound
    rintro rfl
    exact hnone ⟨hs.bound, .script rfl henters.depth hbound⟩
  built {c words _ s t} _ hparent hfeeds hwords hs := by
    obtain ⟨rfl, hs⟩ := hs
    refine hdiffer (Text.quoteWords words) c false t ?_ hs.bound
    rintro rfl
    exact hnone ⟨hs.bound, .built hparent hfeeds hwords⟩

theorem arises_of_hands (hx : x.state.config.maxScriptDepth = d) (h : Hands d x y) :
    y.state.config.maxScriptDepth = d ∧ Arises d x y := by
  obtain ⟨inner, inner', hdiffer, hbroken⟩ := h
  by_contra hnone
  exact hbroken (steady_run (laws fun _ _ _ => trivial) (agrees_of_not_arises hdiffer hnone)
    (fun _ => launching fun _ _ _ _ _ _ => trivial) trivial ⟨rfl, hx, trivial⟩)

/-- Only lines with a pipeline for the background launch jobs, each in the script of the line. -/
theorem arises_of_launches {l : Launch} (h : Launches d x l) : Arises d x ⟨.job l, s⟩ := by
  obtain ⟨inner, hinner, hs, hbroken⟩ := h
  by_contra hnone
  have hsession (c : Caller) (s : Shell) (hc : c.script = x.caller.script) :
      (c.orSession s).script = x.caller.script := (c.script_orSession s).trans hc
  have hlaunch : x.Starts →
      (discipline d (fun c => c.script = x.caller.script) (l ∉ ·)).Launching := by
    refine fun hstarts => launching fun c p id ls hc hls hmem => ?_
    rcases List.mem_append.mp hmem with hmem | hmem
    · exact hls hmem
    · rw [List.mem_singleton.mp hmem] at hnone
      exact hnone (.job hc hstarts)
  have hagrees : (discipline d (fun c => c.script = x.caller.script) (l ∉ ·)).Agrees
      x.caller.script x.Feeds inner inner := by
    have hsteady (text : String) (c : Caller) (record : Bool) {v : Unit} {s t : Shell}
        (hs : t = s ∧ Kept d (l ∉ ·) s) :
        (discipline d (fun c => c.script = x.caller.script) (l ∉ ·)).Steady v
          (inner text c record) (inner text c record) s t := by
      obtain ⟨rfl, hs⟩ := hs
      obtain ⟨u, r, hdone, hu⟩ := hinner text c record t hs
      unfold Discipline.Steady Run.Lockstep
      rw [hdone]
      refine .done ?_
      cases r <;> exact ⟨rfl, hu⟩
    exact ⟨fun _ _ _ _ hs => hsteady _ _ _ hs, fun _ _ _ _ hs => hsteady _ _ _ hs⟩
  have hrun := steady_run (laws hsession) hagrees hlaunch rfl ⟨rfl, hs⟩
  refine hbroken (Step.Lockstep.keeps (fun _ => True) hrun trivial
    (fun _ _ _ _ => Discipline.same_of_ending) (fun _ _ _ _ h => h.2)
    (fun s hs => ⟨(), trivial, rfl, hs⟩) fun _ _ _ _ _ => ⟨(), trivial, trivial⟩)

theorem arises_of_follows (hx : x.state.config.maxScriptDepth = d) (h : Follows d x y) :
    y.state.config.maxScriptDepth = d ∧ Arises d x y := by
  cases h with
  | line h => exact arises_of_hands hx h
  | job h hs => exact ⟨hs, arises_of_launches h⟩

theorem depth_of_arises (h : Arises d x y) :
    y.caller.depth = if y.task.isWritten then x.caller.depth + 1 else x.caller.depth := by
  cases h with
  | @script _ c _ _ hscript hdepth hbound =>
    change c.depth = x.caller.depth + 1
    rw [Caller.depth, hscript]
    exact hdepth
  | built hsame => exact Caller.depth_congr hsame
  | job hsame => exact Caller.depth_congr hsame

theorem depth_le_of_arises (h : Arises d x y)
    (hx : ∀ script ∈ x.caller.script, (script.depth : Int) ≤ d) :
    ∀ script ∈ y.caller.script, (script.depth : Int) ≤ d := by
  cases h with
  | script hscript hdepth hbound =>
    intro other hother
    obtain rfl : _ = other := Option.some.inj (hscript.symm.trans hother)
    exact hbound
  | built hsame => exact fun script hscript => hx script (hsame ▸ hscript)
  | job hsame => exact fun script hscript => hx script (hsame ▸ hscript)

theorem hands_of_fault {text : String} {c : Caller} {record : Bool}
    {ends : Fault → Step Shell Note (Except Fault (Result String))}
    (hends : ∀ (inner : LineRunner) f,
      inner text c record t = .done t (.error f) → x.task.run inner x.state = ends f)
    {f g : Fault} (hdiffer : ¬Alike d (fun _ => ends f) (fun _ => ends g) x.state) :
    Hands d x ⟨.line text c record, t⟩ := by
  classical
  let inner : LineRunner := fun _ _ _ s => .done s (.error f)
  let inner' : LineRunner := fun text' c' record' s =>
    if Call.mk (.line text' c' record') s = ⟨.line text c record, t⟩ then .done s (.error g)
    else .done s (.error f)
  refine ⟨inner, inner', fun text' c' record' s hne hbound => ?_, fun hsame => hdiffer ?_⟩
  · have hinner' : inner' text' c' record' s = .done s (.error f) := if_neg hne
    unfold Alike Discipline.Steady Run.Lockstep
    rw [hinner']
    exact .done ⟨rfl, hbound, trivial⟩
  · unfold Alike Discipline.Steady Run.Lockstep at hsame ⊢
    rwa [hends inner f rfl, hends inner' g (if_pos rfl)] at hsame

section
variable {path content raw : String} {args : List String} {c : Caller} {i : Nat}
  {rest : List (String × Nat)}

def firstLine (path : String) (args : List String) (c : Caller) (raw : String) (i : Nat)
    (s : Shell) : Call where
  task := .line (Text.strip raw) { c with
    script := some { source := path, args, depth := depthOf c.script, line := i } } true
  state := s.changeEnvironment c.job Environment.push

theorem runScript_of_fault {inner : LineRunner} {f : Fault} (huser : c.user ≠ "")
    (hbound : (depthOf c.script : Int) ≤ s.config.maxScriptDepth)
    (hread : s.files.readText (s.actor c.user) path = .ok content)
    (hlines : (Text.lineBodies content).zipIdx = (raw, i) :: rest)
    (hskipped : isSkipped (Text.strip raw) = false)
    (hcancelled : c.isCancelled (s.changeEnvironment c.job Environment.push) = false)
    (hinner : inner (Text.strip raw) (firstLine path args c raw i s).caller true
        (s.changeEnvironment c.job Environment.push) =
      .done (s.changeEnvironment c.job Environment.push) (.error f)) :
    runScript inner path args c s =
      .done ((s.changeEnvironment c.job Environment.push).changeEnvironment c.job Environment.pop)
        (.error f) := by
  have hsession : c.orSession s = c := by simp [Caller.orSession, huser]
  have hended : runLines inner c { source := path, args, depth := depthOf c.script } []
      (Text.lineBodies content).zipIdx (s.changeEnvironment c.job Environment.push) =
      .done (s.changeEnvironment c.job Environment.push) (.error f) := by
    rw [hlines, runLines, hskipped, if_neg Bool.false_ne_true, Run.get_bind, hcancelled,
      if_neg Bool.false_ne_true]
    exact Run.bind_of_error hinner
  rw [runScript, Run.get_bind]
  simp only [hsession, if_neg (Int.not_lt.mpr hbound), hread]
  exact Run.bind_of_ok (Run.outcome_of_done hended)

theorem hands_firstLine (huser : c.user ≠ "")
    (hbound : (depthOf c.script : Int) ≤ s.config.maxScriptDepth)
    (hread : s.files.readText (s.actor c.user) path = .ok content)
    (hlines : (Text.lineBodies content).zipIdx = (raw, i) :: rest)
    (hskipped : isSkipped (Text.strip raw) = false)
    (hcancelled : c.isCancelled (s.changeEnvironment c.job Environment.push) = false) :
    Hands s.config.maxScriptDepth ⟨.script path args c, s⟩ (firstLine path args c raw i s) :=
  hands_of_fault (f := .jobCancelled) (g := .unknownJob 0)
    (fun _ _ hinner => runScript_of_fault huser hbound hread hlines hskipped hcancelled hinner) nofun

end

inductive Inside (d : Int) (first : Call) : Nat → Call → Prop
  | first : Inside d first 0 first
  | next {k : Nat} {x y : Call} (h : Inside d first k x) (hxy : Follows d x y) :
      Inside d first (if y.task.isWritten then k + 1 else k) y

/-- The number of scripts is handed down from task to task. -/
theorem depth_of_inside {first : Call} {k : Nat} (hbound : first.state.config.maxScriptDepth = d)
    (hfirst : first.caller.script = none) (h : Inside d first k x) :
    x.state.config.maxScriptDepth = d ∧ x.caller.depth = k ∧
      ∀ script ∈ x.caller.script, (script.depth : Int) ≤ d := by
  induction h with
  | first =>
    rw [Caller.depth, hfirst]
    exact ⟨hbound, rfl, fun _ h => nomatch h⟩
  | next _ hxy ih =>
    obtain ⟨hx, hdepth, hle⟩ := ih
    obtain ⟨hy, harises⟩ := arises_of_follows hx hxy
    rw [← hdepth]
    exact ⟨hy, depth_of_arises harises, depth_le_of_arises harises hle⟩

theorem runScript_of_bound (inner : LineRunner) (path : String) (args : List String) {c : Caller}
    (h : s.config.maxScriptDepth ≤ c.depth) :
    runScript inner path args c s = .done s (.ok (.fail ("maximum script depth (" ++
      toString s.config.maxScriptDepth ++ ") exceeded"))) := by
  have hdepth : s.config.maxScriptDepth < depthOf (c.orSession s).script := by
    rw [Caller.script_orSession]
    exact Int.lt_add_one_iff.mpr h
  change (if s.config.maxScriptDepth < depthOf (c.orSession s).script then _ else _ : Run _) s = _
  rw [if_pos hdepth]
  rfl

/-- Scripts are inside of each other only as deep as the shell allows, on whatever way they come to
run. Where that many are, and with no script allowed anywhere, running another one fails before its
first line. -/
theorem script_depth_bounded {first : Call} {k : Nat}
    (hbound : first.state.config.maxScriptDepth = d) (hfirst : first.caller.script = none)
    (h : Inside d first k x) :
    (x.caller.depth = k ∧ ∀ script ∈ x.caller.script, (script.depth : Int) ≤ d) ∧
    (d ≤ k → ∀ inner path args s, s.config.maxScriptDepth = d →
      runScript inner path args x.caller s =
        .done s (.ok (.fail ("maximum script depth (" ++ toString d ++ ") exceeded")))) := by
  obtain ⟨-, hdepth, hle⟩ := depth_of_inside hbound hfirst h
  refine ⟨⟨hdepth, hle⟩, fun hd inner path args s hs => ?_⟩
  subst hs
  exact runScript_of_bound inner path args (hdepth ▸ hd)

def recursive : Shell :=
  let s := Shell.bare Catalogue.scripting
  { s with config := { s.config with maxScriptDepth := 1 } }.withFile "/s" "run /s\n"

theorem script_depth_bounded_recursive :
    let first : Call := ⟨.script "/s" [] { user := rootUser }, recursive⟩
    let y := firstLine "/s" [] { user := rootUser } "run /s" 0 recursive
    Inside 1 first 1 y ∧ y.caller.depth = 1 ∧
      runScript Shell.execute "/s" [] y.caller y.state =
        .done y.state (.ok (.fail "maximum script depth (1) exceeded")) := by
  intro first y
  have hread : recursive.files.readText (recursive.actor rootUser) "/s" = .ok "run /s\n" := by
    decide +kernel
  have hlines : (Text.lineBodies "run /s\n").zipIdx = ("run /s", 0) :: [] := by decide +kernel
  have hy : Hands 1 first y :=
    hands_firstLine (by decide) (by decide) hread hlines (by decide +kernel) (by decide)
  have hinside : Inside 1 first 1 y := .next .first (.line hy)
  have hbound : first.state.config.maxScriptDepth = 1 := rfl
  obtain ⟨⟨hdepth, -⟩, hfails⟩ := script_depth_bounded hbound rfl hinside
  exact ⟨hinside, hdepth, hfails (by decide) Shell.execute "/s" [] y.state rfl⟩

end Nesting
end MemShell
