import MemShell.Proofs.Routine.Runs
set_option autoImplicit false

/-!
# Disciplines

What all lines of some callers keep. A discipline relates the states of two runs of a line; where
both runs are one, it is a property that the line keeps. Its laws speak of single actions, and from
them it follows for lines, scripts and pipelines, with all that runs inside of them.
-/
namespace MemShell
open Execute

def Shell.bare (commands : List Command) : Shell where
  config := {}
  files := .empty .zero
  accounts := {}
  session := { current := rootUser }
  environment := {}
  aliases := { limit := 10 }
  history := { size := 50 }
  commands := commands.map fun c => (c.contract.name, c)
  startTime := .zero

def Shell.withFile (path text : String) (s : Shell) : Shell :=
  { s with files := ((FileSystem.makeFile (s.actor rootUser) path text).run s.files).2 }

def Context.ofRoot (name : String) (args : List String) : Context where
  name := name
  args := args
  flags := []
  paths := []
  input := none
  caller := { user := rootUser }
  services := []

theorem Caller.script_orSession (c : Caller) (s : Shell) : (c.orSession s).script = c.script := by
  unfold orSession
  split <;> rfl

def Pipeline.Feeds (p : Pipeline) : Prop := p.input ≠ none ∨ 1 < p.segments.length

instance (p : Pipeline) : Decidable p.Feeds := inferInstanceAs (Decidable (_ ∨ _))

namespace Execute

def pipelinesOf (line : String) (c : Caller) (record : Bool) (s : Shell) : List Pipeline :=
  match ((readLine line (c.orSession s) record).run s).1 with
  | .ok items => items.map (·.pipeline)
  | .error _ => []

theorem ne_nil_of_mem_commandsFor {base ls words : List String} {replace : Option String}
    (h : words ∈ commandsFor base replace ls) : words ≠ [] := by
  have hbase : (if base.isEmpty then ["echo"] else base) ≠ [] := by
    split
    · simp
    · next hne => simpa using hne
  unfold commandsFor at h
  dsimp only at h
  split at h
  · obtain ⟨l, -, rfl⟩ := List.mem_map.mp h
    simpa using hbase
  · rw [List.mem_singleton.mp h]
    exact List.append_ne_nil_of_left_ne_nil hbase _

theorem success_report (name : String) (f : Fault) : (report name f).success = false := by
  unfold report
  split <;> rfl

end Execute

structure Shell.View where
  config : Config
  files : FileSystem
  accounts : Accounts
  commands : Table String Command
  services : Table String Bool
  aliases : Aliases
  environment : Environment
  jobs : JobTable
  startTime : Time
  elapsed : Time

def Shell.view (job : Option JobId) (s : Shell) : Shell.View :=
  { s with environment := s.environmentOf job }

namespace Shell.View
variable {job : Option JobId} {s t : Shell}

theorem files_eq (h : t.view job = s.view job) : t.files = s.files := congrArg files h

theorem accounts_eq (h : t.view job = s.view job) : t.accounts = s.accounts := congrArg accounts h

theorem commands_eq (h : t.view job = s.view job) : t.commands = s.commands := congrArg commands h

theorem aliases_eq (h : t.view job = s.view job) : t.aliases = s.aliases := congrArg aliases h

theorem environmentOf_eq (h : t.view job = s.view job) :
    t.environmentOf job = s.environmentOf job := congrArg environment h

theorem jobs_eq (h : t.view job = s.view job) : t.jobs = s.jobs := congrArg jobs h

theorem actor_eq (h : t.view job = s.view job) (user : String) : t.actor user = s.actor user := by
  have hstart : t.startTime = s.startTime := congrArg startTime h
  have helapsed : t.elapsed = s.elapsed := congrArg elapsed h
  rw [Shell.actor, Shell.actor, Shell.now, Shell.now, accounts_eq h, hstart, helapsed]

end Shell.View

/-- A relation of states between actions, and a weaker one between a change of the tree and its
saving, for the lines of some callers. -/
structure Discipline (ι : Type) where
  mine : Caller → Prop
  same : ι → Shell → Shell → Prop
  unsaved : ι → Shell → Shell → Prop
  next : ι → Shell → Note → ι → Prop

def Note.Timely (s : Shell) : Note → Prop
  | .command _ c => c.caller.isCancelled s = false
  | .redirect .. => True

theorem Caller.job_orSession (c : Caller) (s : Shell) : (c.orSession s).job = c.job := by
  unfold orSession
  split <;> rfl

namespace Discipline
variable {ι : Type}

def pact (d : Discipline ι) : Pact ι Shell Note where
  same := d.same
  next := d.next
  event s e := d.mine e.caller ∧ e.Timely s
  wait s := ∃ c, d.mine c ∧ c.isCancelled s = false

def after (d : Discipline ι) (v : ι) (r : Result String) (s t : Shell) : Prop :=
  if r.success && r.modified then d.unsaved v s t else d.same v s t

structure Laws (d : Discipline ι) : Prop where
  orSession {c : Caller} {v : ι} {s t : Shell} : d.mine c → d.same v s t →
    c.orSession t = c.orSession s ∧ d.mine (c.orSession s)
  view {c : Caller} {v : ι} {s t : Shell} : d.mine c → d.same v s t → t.view c.job = s.view c.job
  unsaved {action : Action} {c : Context} {v u : ι} {s : Shell} :
    d.next v s (.command action c) u →
    (∃ b, action = .builtin b) ∨ ∀ v s t, d.same v s t → d.unsaved v s t
  save {v : ι} {s t : Shell} : d.unsaved v s t →
    Effect.save.Parallel Effect.save s t (d.same v) fun r r' s t => r' = r ∧ d.same v s t
  notify {v : ι} {s t : Shell} (line : String) : d.same v s t →
    d.same v (s.notify line) (t.notify line)
  record {v : ι} {s t : Shell} (f : History → History) : d.same v s t →
    d.same v { s with history := f s.history } { t with history := f t.history }
  environment {c : Caller} {v : ι} {s t : Shell} (e : Environment) : d.mine c → d.same v s t →
    d.same v (s.setEnvironment c.job e) (t.setEnvironment c.job e)
  next {v u : ι} {s t : Shell} {action : Action} {c : Context} :
    d.next v s (.command action c) u → d.same v s t → d.same u s t
  builtin {b : Builtin} {c : Context} {v u : ι} {s t : Shell} : d.mine c.caller →
    d.next v s (.command (.builtin b) c) u → d.same v s t →
    (b.run c).Parallel (b.run c) s t (d.same u) fun r r' s t => r' = r ∧ d.after u r s t
  redirect {c : Caller} {target : Redirect} {text : String} {v u : ι} {s t : Shell} : d.mine c →
    d.next v s (.redirect c target text) u → d.same v s t →
    (writeRedirect c target text).Parallel (writeRedirect c target text) s t (d.same u)
      fun _ _ s t => d.unsaved u s t

def Launching (d : Discipline ι) : Prop :=
  ∀ {c : Caller} {v : ι} {s t : Shell} (p : Pipeline), p.background = true → d.mine c →
    d.same v s t → d.same v (startJob p c s).2 (startJob p c t).2

structure Lawful (d : Discipline ι) : Prop extends d.Laws where
  script {c : Caller} (script : Option Script) : d.mine c → d.mine { c with script }
  launch {c : Caller} {v : ι} {s t : Shell} (p : Pipeline) : p.background = true → d.mine c →
    d.same v s t → d.same v (startJob p c s).2 (startJob p c t).2

def Steady (d : Discipline ι) (v : ι) (x y : Run (Result String)) (s t : Shell) : Prop :=
  Run.Lockstep d.pact d.same (fun v _ => d.same v) v x y s t

def Runs (d : Discipline ι) (inner : LineRunner) : Prop :=
  ∀ line c record v s t, d.mine c → d.same v s t →
    d.Steady v (inner line c record) (inner line c record) s t

structure Enters (d : Discipline ι) (parent : Option Script) (script : Script) : Prop where
  depth : script.depth = depthOf parent
  allowed : ∃ v s t, d.same v s t ∧ (script.depth : Int) ≤ s.config.maxScriptDepth

/-- Two ways to run the lines inside of others that make no difference in a script, or in none: the
lines of the scripts that are entered there and, if some input is there, the commands that are built
from it. -/
structure Agrees (d : Discipline ι) (parent : Option Script) (fed : Prop)
    (inner inner' : LineRunner) : Prop where
  script {c : Caller} {script : Script} {v : ι} {s t : Shell} (line : String) : d.mine c →
    c.script = parent → d.Enters parent script → d.same v s t →
    d.Steady v (inner line { c with script } true) (inner' line { c with script } true) s t
  built {c : Caller} {words : List String} {v : ι} {s t : Shell} : d.mine c → c.script = parent →
    fed → words ≠ [] → d.same v s t →
    d.Steady v (inner (Text.quoteWords words) c false) (inner' (Text.quoteWords words) c false) s t

variable {d : Discipline ι} {v : ι} {s t : Shell} {c : Caller} {inner inner' : LineRunner}
  {fed : Prop}

theorem Agrees.mono {parent : Option Script} {fed' : Prop}
    (h : d.Agrees parent fed inner inner') (hfed : fed' → fed) :
    d.Agrees parent fed' inner inner' where
  script := h.script
  built hc hparent h' := h.built hc hparent (hfed h')

theorem same_of_ending {r : Except Fault (Result String)}
    (h : Run.Ending d.same (fun v _ => d.same v) v r s t) : d.same v s t := by
  cases r <;> exact h

theorem steady_pure {r : Result String} (h : d.same v s t) : d.Steady v (pure r) (pure r) s t :=
  Run.lockstep_pure h

theorem steady_throw {f : Fault} (h : d.same v s t) : d.Steady v (throw f) (throw f) s t :=
  Run.lockstep_throw h

theorem steady_lift {r : Except Fault (Result String)} (h : d.same v s t) :
    d.Steady v (Run.lift r) (Run.lift r) s t := by
  refine Run.lockstep_lift ?_
  cases r <;> exact h

theorem steady_wait (k : Context) (unitsPerSecond : Nat) (hw : d.pact.wait s)
    (hs : d.same v s t) :
    d.Steady v (wait k unitsPerSecond) (wait k unitsPerSecond) s t := by
  refine Run.lockstep_lift_bind (fun _ _ => hs) fun n _ => ?_
  have hpause := Run.lockstep_pause (E := d.same) (Q := fun v _ => d.same v) (p := d.pact)
    (w := ⟨if unitsPerSecond = 1 then n else n.divideBy unitsPerSecond, k.caller.job.isSome⟩) hs hw
    fun v _ s t hs => hs
  refine hpause.bind fun v woken s t hs => ?_
  split
  · exact steady_throw hs
  · exact steady_pure hs

theorem steady_answer (reply : Reply) (hw : d.pact.wait s) (hs : d.same v s t) :
    d.Steady v (answer reply) (answer reply) s t := by
  unfold answer
  split
  · next seconds _ =>
    have hpause := Run.lockstep_pause (E := d.same) (Q := fun v _ => d.same v) (p := d.pact)
      (w := ⟨seconds, false⟩) hs hw fun v _ s t hs => hs
    exact hpause.bind fun v _ s t hs => steady_lift hs
  · exact steady_lift hs

theorem after_of_same {r : Result String} (hs : d.same v s t) (hu : d.unsaved v s t) :
    d.after v r s t := by
  unfold after
  split
  · exact hu
  · exact hs

theorem parallel_of_lockstep {x : Effect (Result String)} (h : x.Lockstep (d.same v) s t)
    (hunsaved : ∀ s t, d.same v s t → d.unsaved v s t) :
    x.Parallel x s t (d.same v) fun r r' s t => r' = r ∧ d.after v r s t :=
  Work.Parallel.mono h (fun _ _ h => h)
    fun _ _ _ _ h => ⟨h.1, after_of_same h.2 (hunsaved _ _ h.2)⟩

theorem after_of_not_success {r : Result String} (hr : r.success = false) (hs : d.same v s t) :
    d.after v r s t := by
  simpa [after, hr] using hs

theorem after_report (name : String) (f : Fault) (hs : d.same v s t) :
    d.after v (report name f) s t := after_of_not_success (success_report name f) hs

theorem after_withData {r : Result String} (hr : d.after v r s t) : d.after v (withData r) s t := by
  unfold withData
  split <;> exact hr

namespace Laws
variable (h : d.Laws)

include h

theorem files (hc : d.mine c) (hs : d.same v s t) : t.files = s.files :=
  Shell.View.files_eq (h.view hc hs)

theorem jobs (hc : d.mine c) (hs : d.same v s t) : t.jobs = s.jobs :=
  Shell.View.jobs_eq (h.view hc hs)

theorem environmentOf (hc : d.mine c) (hs : d.same v s t) :
    t.environmentOf c.job = s.environmentOf c.job :=
  Shell.View.environmentOf_eq (h.view hc hs)

theorem actor (hc : d.mine c) (hs : d.same v s t) (user : String) : t.actor user = s.actor user :=
  Shell.View.actor_eq (h.view hc hs) user

theorem isCancelled (hc : d.mine c) (hs : d.same v s t) : c.isCancelled t = c.isCancelled s := by
  unfold Caller.isCancelled
  rw [h.jobs hc hs]

theorem changeEnvironment (f : Environment → Environment) (hc : d.mine c) (hs : d.same v s t) :
    d.same v (s.changeEnvironment c.job f) (t.changeEnvironment c.job f) := by
  rw [Shell.changeEnvironment, Shell.changeEnvironment, h.environmentOf hc hs]
  exact h.environment _ hc hs

/-! ## Scripts -/

theorem steady_runLines (hinner : d.Agrees c.script fed inner inner') {script : Script}
    (hscript : d.Enters c.script script) (outputs : List String) (ls : List (String × Nat))
    (hc : d.mine c) (hs : d.same v s t) :
    d.Steady v (runLines inner c script outputs ls) (runLines inner' c script outputs ls) s t := by
  induction ls generalizing outputs v s t with
  | nil => exact steady_pure hs
  | cons l rest ih =>
    obtain ⟨raw, i⟩ := l
    simp only [runLines]
    split
    · exact ih outputs hs
    · refine Run.lockstep_get_bind ?_
      rw [h.isCancelled hc hs]
      split
      · exact steady_pure hs
      · have henters : d.Enters c.script { script with line := i } := ⟨hscript.depth, hscript.allowed⟩
        refine (hinner.script _ hc rfl henters hs).bind fun v r s t hs => ?_
        split
        · exact steady_pure hs
        · exact ih _ hs

theorem steady_runScript (hinner : d.Agrees c.script fed inner inner') (path : String)
    (args : List String) (hc : d.mine c) (hs : d.same v s t) :
    d.Steady v (runScript inner path args c) (runScript inner' path args c) s t := by
  obtain ⟨hcaller, hmine⟩ := h.orSession hc hs
  refine Run.lockstep_get_bind ?_
  rw [← c.script_orSession s] at hinner
  simp only [hcaller]
  generalize c.orSession s = c at hmine hinner
  have hconfig : t.config = s.config := congrArg Shell.View.config (h.view hmine hs)
  rw [hconfig, h.files hmine hs, h.actor hmine hs]
  split
  · exact steady_pure hs
  next hdepth =>
  split
  · exact steady_lift hs
  · refine Run.lockstep_modify_bind ?_
    have hpushed := h.changeEnvironment Environment.push hmine hs
    have hscript : d.Enters c.script { source := path, args, depth := depthOf c.script } :=
      ⟨rfl, v, s, t, hs, Int.not_lt.mp hdepth⟩
    refine (h.steady_runLines hinner hscript _ _ hmine hpushed).outcome_bind fun v r s t hr => ?_
    refine Run.lockstep_modify_bind ?_
    exact steady_lift (h.changeEnvironment Environment.pop hmine (same_of_ending hr))

/-! ## Commands -/

theorem steady_runCommands {k : Context} (hinner : d.Agrees k.caller.script fed inner inner')
    (hfed : fed) (outputs : List String) (modified : Bool) {commands : List (List String)}
    (hwords : ∀ words ∈ commands, words ≠ []) (hk : d.mine k.caller) (hs : d.same v s t) :
    d.Steady v (runCommands inner k outputs modified commands)
      (runCommands inner' k outputs modified commands) s t := by
  induction commands generalizing outputs modified v s t with
  | nil => exact steady_pure hs
  | cons words rest ih =>
    have hrest := fun words hmem => hwords words (List.mem_cons_of_mem _ hmem)
    simp only [runCommands]
    refine Run.lockstep_get_bind ?_
    rw [h.isCancelled hk hs]
    split
    · exact steady_throw hs
    · have hbuilt := hinner.built hk rfl hfed (hwords words List.mem_cons_self) hs
      refine hbuilt.bind fun v r s t hs => ?_
      split
      · exact ih _ _ hrest hs
      · exact steady_pure hs

theorem steady_fanOut {k : Context} (hinner : d.Agrees k.caller.script fed inner inner')
    (hfed : k.input ≠ none → fed) (hk : d.mine k.caller) (hs : d.same v s t) :
    d.Steady v (fanOut inner k) (fanOut inner' k) s t := by
  simp only [fanOut]
  split
  · exact steady_pure hs
  next hlines =>
  have hinput : k.input ≠ none := by
    intro hnone
    rw [Context.inputText, hnone] at hlines
    exact hlines rfl
  exact h.steady_runCommands hinner (hfed hinput) _ _ (fun _ => ne_nil_of_mem_commandsFor) hk hs

/-- A command ends with the tree to be saved only if it succeeded and says that it changed it. -/
theorem lockstep_perform {k : Context} (hinner : d.Agrees k.caller.script fed inner inner')
    (hfed : k.input ≠ none → fed) {u : ι} (action : Action)
    (hk : d.mine k.caller) (htime : k.caller.isCancelled s = false)
    (hnext : d.next v s (.command action k) u) (hs : d.same v s t) :
    Run.Lockstep d.pact d.same d.after u (perform inner action k) (perform inner' action k) s t := by
  have hu := h.next hnext hs
  have hafter (hb : ∀ b, action ≠ .builtin b) (v : ι) (r : Result String) (s t : Shell)
      (hs : d.same v s t) : d.after v r s t := by
    rcases h.unsaved hnext with ⟨b, hbuiltin⟩ | hunsaved
    · exact absurd hbuiltin (hb b)
    · exact after_of_same hs (hunsaved v s t hs)
  cases action with
  | builtin b =>
    exact Run.lockstep_effect (h.builtin hk hnext hs) (fun _ _ hs => hs) fun _ _ _ _ hr => hr
  | wait n => exact (steady_wait k n ⟨_, hk, htime⟩ hu).mono (hafter nofun)
  | runScript => exact (h.steady_runScript hinner _ _ hk hu).mono (hafter nofun)
  | fanOut => exact (h.steady_fanOut hinner hfed hk hu).mono (hafter nofun)
  | custom reply => exact (steady_answer (reply k) ⟨_, hk, htime⟩ hu).mono (hafter nofun)

theorem lockstep_runSegment (hinner : d.Agrees c.script fed inner inner') {input : Option String}
    (hfed : input ≠ none → fed) (seg : Segment) (hc : d.mine c) (htime : c.isCancelled s = false)
    (hs : d.same v s t) :
    Run.Lockstep d.pact d.same d.after v (runSegment inner seg input c)
      (runSegment inner' seg input c) s t := by
  have hview := h.view hc hs
  have hservices : t.services = s.services := congrArg Shell.View.services hview
  have hhas (name : String) : t.hasService name = s.hasService name := by
    rw [Shell.hasService, Shell.hasService, hservices]
  refine Run.lockstep_get_bind ?_
  simp only [Shell.View.commands_eq hview, hhas, h.files hc hs, h.actor hc hs, contextFor, hservices]
  split
  · exact Run.lockstep_pure (after_of_not_success rfl hs)
  split
  · exact Run.lockstep_pure (after_of_not_success rfl hs)
  split
  · exact Run.lockstep_pure (after_report _ _ hs)
  · refine Run.lockstep_note_bind hs ⟨hc, htime⟩ fun u hu => ?_
    refine (h.lockstep_perform hinner (fun hinput => hfed ?_) _ hc htime hu hs).outcome_bind
      fun v r s t hr => ?_
    · rintro rfl
      exact hinput (ite_self none)
    · cases r with
      | ok r => exact Run.lockstep_pure (after_withData hr)
      | error f => exact Run.lockstep_pure (after_report _ _ hr)

/-! ## Pipelines -/

theorem lockstep_saveOr (failure : String) (hs : d.unsaved v s t) :
    Run.Lockstep d.pact d.same (fun v _ => d.same v) v (saveOr failure) (saveOr failure) s t := by
  have hsave := Run.lockstep_effect (E := d.same) (Q := fun v _ => d.same v) (p := d.pact)
    (h.save hs) (fun _ _ hs => hs) fun _ _ _ _ hr => hr
  refine hsave.bind fun v r s t hs => ?_
  split
  · exact Run.lockstep_pure hs
  · exact Run.lockstep_pure hs

/-- Behind the first command each one has an input. -/
theorem steady_runSegments (hinner : d.Agrees c.script fed inner inner') {input : Option String}
    {segments : List Segment}
    (hfed : segments ≠ [] → input ≠ none ∨ 1 < segments.length → fed) (modified : Bool)
    (text : String) (hc : d.mine c) (hs : d.same v s t) :
    d.Steady v (runSegments inner c modified text input segments)
      (runSegments inner' c modified text input segments) s t := by
  induction segments generalizing modified text input v s t with
  | nil => exact steady_pure hs
  | cons seg rest ih =>
    have hseg : input ≠ none → fed := fun hinput => hfed (List.cons_ne_nil _ _) (.inl hinput)
    have hrest (text : String) : rest ≠ [] → some text ≠ none ∨ 1 < rest.length → fed := by
      intro hne _
      exact hfed (List.cons_ne_nil _ _) (.inr (Nat.succ_lt_succ (List.length_pos_iff.mpr hne)))
    simp only [runSegments]
    refine Run.lockstep_get_bind ?_
    rw [h.isCancelled hc hs]
    split
    · exact steady_pure hs
    · next htime =>
      have htime : c.isCancelled s = false := by simpa using htime
      refine (h.lockstep_runSegment hinner hseg seg hc htime hs).bind fun v r s t hr => ?_
      cases hsuccess : r.success with
      | false =>
        simp only [after, hsuccess, Bool.false_and, Bool.false_eq_true, if_false] at hr
        exact steady_pure hr
      | true =>
        cases hmodified : r.modified with
        | false =>
          simp only [after, hmodified, Bool.and_false, Bool.false_eq_true, if_false] at hr
          exact ih (hrest _) _ _ hr
        | true =>
          simp only [after, hsuccess, hmodified, Bool.and_self, if_true] at hr
          refine (h.lockstep_saveOr _ hr).bind fun v failure s t hs => ?_
          cases failure with
          | none => exact ih (hrest _) _ _ hs
          | some failure => exact steady_pure hs

theorem steady_deliver (redirect : Option Redirect) (r : Result String) (hc : d.mine c)
    (hs : d.same v s t) : d.Steady v (deliver c redirect r) (deliver c redirect r) s t := by
  cases redirect with
  | none => exact steady_pure hs
  | some target =>
    refine Run.lockstep_note_bind hs ⟨hc, trivial⟩ fun u hu => ?_
    have hwrite := Run.lockstep_effect (E := d.same) (Q := fun v _ => d.unsaved v) (p := d.pact)
      (h.redirect hc hu hs) (fun _ _ hs => hs) fun _ _ _ _ hr => ⟨rfl, hr⟩
    refine hwrite.outcome_bind fun v r s t hr => ?_
    cases r with
    | error f => exact steady_lift hr
    | ok _ =>
      refine (h.lockstep_saveOr _ hr).bind fun v failure s t hs => ?_
      cases failure with
      | none => exact steady_pure hs
      | some failure => exact steady_pure hs

theorem steady_runPipeline (hinner : d.Agrees c.script fed inner inner') {p : Pipeline}
    (hfed : p.Feeds → fed) (hc : d.mine c) (hs : d.same v s t) :
    d.Steady v (runPipeline inner p c) (runPipeline inner' p c) s t := by
  refine Run.lockstep_get_bind ?_
  rw [h.files hc hs, h.actor hc hs]
  split
  · exact steady_lift hs
  · have hsegments : p.segments ≠ [] →
        (p.input.map (s.files.readText (s.actor c.user))).bind Except.toOption ≠ none ∨
          1 < p.segments.length → fed := by
      rintro - (hinput | hmore)
      · refine hfed (.inl fun hnone => hinput ?_)
        rw [hnone]
        rfl
      · exact hfed (.inr hmore)
    refine (h.steady_runSegments hinner hsegments false "" hc hs).bind fun v r s t hs => ?_
    split
    · exact h.steady_deliver _ _ hc hs
    · exact steady_pure hs

/-! ## Lines -/

theorem steady_runItem (hinner : d.Agrees c.script fed inner inner') {p : Pipeline}
    (hfed : p.Feeds → fed) (hlaunch : p.background = true → d.Launching) (hc : d.mine c)
    (hs : d.same v s t) :
    d.Steady v (runItem inner p c) (runItem inner' p c) s t := by
  unfold runItem
  split
  · next hbackground =>
    refine Run.lockstep_modifyGet ?_ (hlaunch hbackground p hbackground hc hs)
    simp only [startJob, h.jobs hc hs]
  · exact h.steady_runPipeline hinner hfed hc hs

theorem steady_runItems (hinner : d.Agrees c.script fed inner inner') {items : List SequenceItem}
    (hfed : ∀ item ∈ items, item.pipeline.Feeds → fed)
    (hlaunch : ∀ item ∈ items, item.pipeline.background = true → d.Launching)
    (previous : Option Connective) (progress : Progress) (hc : d.mine c) (hs : d.same v s t) :
    d.Steady v (runItems inner c previous progress items)
      (runItems inner' c previous progress items) s t := by
  induction items generalizing previous progress v s t with
  | nil => exact steady_pure hs
  | cons item rest ih =>
    have hfed' := fun i hi => hfed i (List.mem_cons_of_mem _ hi)
    have hlaunch' := fun i hi => hlaunch i (List.mem_cons_of_mem _ hi)
    have hitem {s t : Shell} (hs : d.same v s t) :
        d.Steady v
          (runItem inner item.pipeline c >>= fun r =>
            if !r.success && endsAtFailure item.connective then pure (progress.add r).result
            else runItems inner c item.connective (progress.add r) rest)
          (runItem inner' item.pipeline c >>= fun r =>
            if !r.success && endsAtFailure item.connective then pure (progress.add r).result
            else runItems inner' c item.connective (progress.add r) rest) s t := by
      have hrun := h.steady_runItem hinner (hfed item List.mem_cons_self)
        (hlaunch item List.mem_cons_self) hc hs
      refine hrun.bind fun v r s t hs => ?_
      split
      · exact steady_pure hs
      · exact ih hfed' hlaunch' _ _ hs
    simp only [runItems]
    split
    · exact ih hfed' hlaunch' _ _ hs
    split
    · exact Run.lockstep_modify_bind (hitem (h.notify _ hs))
    · exact hitem hs

theorem parallel_readLine (line : String) (record : Bool) (hc : d.mine c) (hs : d.same v s t) :
    (readLine line c record).Parallel (readLine line c record) s t (d.same v)
      fun items items' s t => items' = items ∧ d.same v s t := by
  have hparsed (text : String) {s t : Shell} (hs : d.same v s t) :
      (Work.lift (SequenceItem.ofLine text) : Effect _).Parallel
        (Work.lift (SequenceItem.ofLine text)) s t (d.same v)
        fun items items' s t => items' = items ∧ d.same v s t :=
    Work.parallel_ask (R := fun r r' => r' = r) (.self fun _ _ => rfl) hs
      fun _ _ _ _ hr => ⟨hr, hs⟩
  refine Work.parallel_get_bind ?_
  have htext : preprocess line (c.script.map (·.args)) (t.environmentOf c.job).get t.aliases =
      preprocess line (c.script.map (·.args)) (s.environmentOf c.job).get s.aliases := by
    rw [Shell.View.aliases_eq (h.view hc hs), h.environmentOf hc hs]
  refine Work.parallel_lift_bind htext hs fun text _ => ?_
  split
  · exact Work.parallel_set_bind (hparsed text (h.record (History.add · line) hs))
  · exact hparsed text hs

theorem steady_runLine {line : String} {record : Bool}
    (hinner : d.Agrees c.script (∃ p ∈ pipelinesOf line c record s, p.Feeds) inner inner')
    (hlaunch : (∃ p ∈ pipelinesOf line c record s, p.background = true) → d.Launching)
    (hc : d.mine c) (hs : d.same v s t) :
    d.Steady v (runLine inner line c record) (runLine inner' line c record) s t := by
  obtain ⟨hcaller, hmine⟩ := h.orSession hc hs
  refine Run.lockstep_get_bind ?_
  rw [← c.script_orSession s] at hinner
  unfold pipelinesOf at hinner hlaunch
  simp only [hcaller]
  generalize c.orSession s = c at hmine hinner hlaunch
  have hread := h.parallel_readLine line record hmine hs
  refine Run.lockstep_outcome_effect_bind ?_
  cases hread with
  | ok hx hy hr =>
    obtain ⟨rfl, hr⟩ := hr
    rw [hx] at hinner hlaunch
    rw [hx, hy]
    exact h.steady_runItems hinner (fun item hitem hfeeds => ⟨_, List.mem_map_of_mem hitem, hfeeds⟩)
      (fun item hitem hbackground => hlaunch ⟨_, List.mem_map_of_mem hitem, hbackground⟩) _ _ hmine hr
  | error hx hy hr =>
    rw [hx, hy]
    exact steady_lift hr

end Laws

namespace Lawful
variable (h : d.Lawful)

include h

theorem agrees (hinner : d.Runs inner) (parent : Option Script) :
    d.Agrees parent True inner inner where
  script _ hc _ _ hs := hinner _ _ _ _ _ _ (h.script _ hc) hs
  built hc _ _ _ hs := hinner _ _ _ _ _ _ hc hs

theorem steady_runScript (hinner : d.Runs inner) (path : String) (args : List String)
    (hc : d.mine c) (hs : d.same v s t) :
    d.Steady v (runScript inner path args c) (runScript inner path args c) s t :=
  h.toLaws.steady_runScript (h.agrees hinner _) path args hc hs

theorem steady_runPipeline (hinner : d.Runs inner) (p : Pipeline) (hc : d.mine c)
    (hs : d.same v s t) : d.Steady v (runPipeline inner p c) (runPipeline inner p c) s t :=
  h.toLaws.steady_runPipeline (h.agrees hinner _) (fun _ => trivial) hc hs

theorem runs_nested (n : Nat) : d.Runs (nested n) := by
  induction n with
  | zero => exact fun _ _ _ _ _ _ _ hs => steady_throw hs
  | succ n ih =>
    intro line c record v s t hc hs
    exact h.steady_runLine ((h.agrees ih _).mono fun _ => trivial) (fun _ => @h.launch) hc hs

theorem runs_execute : d.Runs Shell.execute := h.runs_nested maxNesting

end Lawful
end Discipline
end MemShell
