import MemShell.Proofs.Shell.Stages
set_option autoImplicit false

/-!
# The output of scripts that fail

A script that fails keeps in its answer what its lines have put out, and that answer is the result
of the pipeline that ran the script. The line around the pipeline drops it: a line puts out what its
items that succeeded have put out, at every depth of nesting.
-/
namespace MemShell
open Execute

structure LineRun where
  text : String
  caller : Caller
  record : Bool
  start : Shell
  notes : List (Shell × Note)
  result : Result String
  finish : Shell

namespace LineRun

def output (l : LineRun) : String := l.result.data.getD ""

def Runs (between : Shell → List (Shell × Note) → Shell → Prop) (inner : LineRunner)
    (l : LineRun) : Prop :=
  (inner l.text l.caller l.record l.start).Completes between l.notes (.ok l.result) l.finish

structure Belongs (l : LineRun) (c : Caller) (script : Script) (raw : String) (i : Nat) : Prop where
  text : l.text = Text.strip raw
  caller : l.caller = { c with script := some { script with line := i } }
  record : l.record = true

inductive Stages (between : Shell → List (Shell × Note) → Shell → Prop) (inner : LineRunner)
    (l : LineRun) : List Stage → Prop
  | unread {f : Fault}
      (hread : (readLine l.text (l.caller.orSession l.start) l.record).run l.start =
        (.error f, l.finish)) : Stages between inner l []
  | read {items : List SequenceItem} {s : Shell} {stages : List Stage}
      (hread : (readLine l.text (l.caller.orSession l.start) l.record).run l.start = (.ok items, s))
      (hstages : Staged between inner (l.caller.orSession l.start) none none items s stages
        l.finish) : Stages between inner l stages

end LineRun

/-- How a script goes on from a state: which of its lines have a result, how it ends - without a
problem, with one, or by a line that breaks down - and where. -/
inductive Scripted (between : Shell → List (Shell × Note) → Shell → Prop) (inner : LineRunner)
    (c : Caller) (script : Script) :
    List (String × Nat) → Shell → List LineRun → Except Fault (Option Problem) → Shell → Prop
  | finished {s : Shell} : Scripted between inner c script [] s [] (.ok none) s
  | skipped {raw : String} {i : Nat} {rest : List (String × Nat)} {s t : Shell}
      {ls : List LineRun} {ending : Except Fault (Option Problem)}
      (hskipped : isSkipped (Text.strip raw) = true)
      (hrest : Scripted between inner c script rest s ls ending t) :
      Scripted between inner c script ((raw, i) :: rest) s ls ending t
  | cancelled {raw : String} {i : Nat} {rest : List (String × Nat)} {s : Shell}
      (hcancelled : c.isCancelled s = true) :
      Scripted between inner c script ((raw, i) :: rest) s []
        (.ok (cancelledScript script.source i c.job []).problem) s
  | broken {raw : String} {i : Nat} {rest : List (String × Nat)} {s t : Shell} {f : Fault}
      {notes : List (Shell × Note)}
      (hbreaks : (inner (Text.strip raw) { c with script := some { script with line := i } } true
        s).Completes between notes (.error f) t) :
      Scripted between inner c script ((raw, i) :: rest) s [] (.error f) t
  | failed {raw : String} {i : Nat} {rest : List (String × Nat)} {l : LineRun} {p : Problem}
      (hl : l.Belongs c script raw i) (hruns : l.Runs between inner)
      (hfailed : l.result.problem = some p) :
      Scripted between inner c script ((raw, i) :: rest) l.start [l]
        (.ok (failedScript script.source i p []).problem) l.finish
  | further {raw : String} {i : Nat} {rest : List (String × Nat)} {t : Shell} {l : LineRun}
      {ls : List LineRun} {ending : Except Fault (Option Problem)} (hl : l.Belongs c script raw i)
      (hruns : l.Runs between inner) (hsucceeded : l.result.problem = none)
      (hrest : Scripted between inner c script rest l.finish ls ending t) :
      Scripted between inner c script ((raw, i) :: rest) l.start (l :: ls) ending t

theorem Scripted.runs {between : Shell → List (Shell × Note) → Shell → Prop} {inner : LineRunner}
    {c : Caller} {script : Script} {lines : List (String × Nat)} {s t : Shell} {ls : List LineRun}
    {ending : Except Fault (Option Problem)}
    (h : Scripted between inner c script lines s ls ending t) : ∀ l ∈ ls, l.Runs between inner := by
  induction h with
  | finished | cancelled | broken => exact fun _ h => nomatch h
  | skipped _ _ ih => exact ih
  | failed _ hruns => exact fun _ h => List.mem_singleton.mp h ▸ hruns
  | further _ hruns _ _ ih => exact List.forall_mem_cons.mpr ⟨hruns, ih⟩

/-- The answer of a script that has ended so. It has all that the lines have put out, whether the
script failed or not; only a breakdown drops that. -/
def scriptAnswer (name : String) (ls : List LineRun) : Except Fault (Option Problem) → Result String
  | .ok problem => { data := some (String.join (ls.map LineRun.output)), problem }
  | .error f => report name f

def Shell.Saves (s t : Shell) : Prop :=
  ∃ saved, Effect.save.run s = (.ok saved, t) ∧ saved.problem = none

structure SegmentRun where
  segment : Segment
  input : Option String
  start : Shell
  notes : List (Shell × Note)
  result : Result String
  finish : Shell

namespace SegmentRun

def Runs (between : Shell → List (Shell × Note) → Shell → Prop) (inner : LineRunner) (c : Caller)
    (g : SegmentRun) : Prop :=
  (runSegment inner g.segment g.input c g.start).Completes between g.notes (.ok g.result) g.finish

structure Enters (g : SegmentRun) (c : Caller) (path : String) (args : List String)
    (content : String) : Prop where
  command : ∃ command i, g.start.commands.get? g.segment.name = some command ∧
    command.action = .runScript ∧
    (∀ name ∈ command.contract.requires, g.start.hasService name = true) ∧
    command.contract.check g.start.files (g.start.actor c.user) g.segment.args = .ok i ∧
    path = i.args.headD "" ∧ args = i.args.tail
  depth : ¬ g.start.config.maxScriptDepth < depthOf c.script
  content : g.start.files.readText (g.start.actor (c.orSession g.start).user) path = .ok content

def GoesOn (g : SegmentRun) (s : Shell) : Prop :=
  g.result.success = true ∧ if g.result.modified then g.finish.Saves s else s = g.finish

end SegmentRun

inductive Piped (between : Shell → List (Shell × Note) → Shell → Prop) (inner : LineRunner)
    (c : Caller) : Option String → List Segment → Shell → List SegmentRun → Prop
  | finished {input : Option String} {s : Shell} : Piped between inner c input [] s []
  | cancelled {input : Option String} {seg : Segment} {rest : List Segment} {s : Shell}
      (hcancelled : c.isCancelled s = true) : Piped between inner c input (seg :: rest) s []
  | failed {rest : List Segment} {g : SegmentRun} (hruns : g.Runs between inner c)
      (hfailed : g.result.success = false) :
      Piped between inner c g.input (g.segment :: rest) g.start [g]
  | unsaved {rest : List Segment} {g : SegmentRun} (hruns : g.Runs between inner c)
      (hsucceeded : g.result.success = true) (hstops : ∀ s, ¬ g.GoesOn s) :
      Piped between inner c g.input (g.segment :: rest) g.start [g]
  | further {rest : List Segment} {g : SegmentRun} {gs : List SegmentRun} {s : Shell}
      (hruns : g.Runs between inner c) (hgoes : g.GoesOn s)
      (hrest : Piped between inner c (some (g.result.data.getD "")) rest s gs) :
      Piped between inner c g.input (g.segment :: rest) g.start (g :: gs)

def Stage.opened (x : Stage) (c : Caller) : Option (Except Fault String) :=
  x.item.pipeline.input.map (x.start.files.readText (x.start.actor c.user))

inductive Stage.Pipes (between : Shell → List (Shell × Note) → Shell → Prop) (inner : LineRunner)
    (c : Caller) (x : Stage) : List SegmentRun → Prop
  | job (hjob : x.item.pipeline.background = true) : Pipes between inner c x []
  | unopened {f : Fault} (hopened : x.opened c = some (.error f)) : Pipes between inner c x []
  | opened {gs : List SegmentRun} (hopened : ∀ f, x.opened c ≠ some (.error f))
      (hpiped : Piped between inner c ((x.opened c).bind Except.toOption) x.item.pipeline.segments
        x.start gs) : Pipes between inner c x gs

section
variable {between : Shell → List (Shell × Note) → Shell → Prop} {inner : LineRunner} {c : Caller}

theorem LineRun.Stages.runs {l : LineRun} {stages : List Stage}
    (h : l.Stages between inner stages) :
    ∀ x ∈ stages, x.Runs between inner (l.caller.orSession l.start) := by
  cases h with
  | unread => exact fun _ h => nomatch h
  | read _ hstages => exact hstages.runs

theorem Piped.runs {input : Option String} {segs : List Segment} {s : Shell}
    {gs : List SegmentRun} (h : Piped between inner c input segs s gs) :
    ∀ g ∈ gs, g.Runs between inner c := by
  induction h with
  | finished | cancelled => exact fun _ h => nomatch h
  | failed hruns | unsaved hruns => exact fun _ h => List.mem_singleton.mp h ▸ hruns
  | further hruns _ _ ih => exact List.forall_mem_cons.mpr ⟨hruns, ih⟩

theorem Stage.Pipes.runs {x : Stage} {gs : List SegmentRun} (h : x.Pipes between inner c gs) :
    ∀ g ∈ gs, g.Runs between inner c := by
  cases h with
  | job | unopened => exact fun _ h => nomatch h
  | opened _ hpiped => exact hpiped.runs

end

namespace Outputs

/-- The result of an item behind its commands: that of the last one if that fails. An item that
fails otherwise has no data. -/
def Concludes (gs : List SegmentRun) (r : Result String) : Prop :=
  (∀ g ∈ gs, g.result.success = true) ∧ (r.success = false → r.data = none) ∨
    r.success = false ∧ gs.getLast?.map SegmentRun.result = some r

/-- The lines of the script that a command enters are run like this in a frame of their own, and
each of them is `P`. -/
def OfScript (between : Shell → List (Shell × Note) → Shell → Prop) (inner : LineRunner)
    (P : LineRun → Prop) (c : Caller) (g : SegmentRun) (path : String) (args : List String)
    (content : String) : Prop :=
  ∃ ls ending s,
    Scripted between inner (c.orSession g.start) { source := path, args, depth := depthOf c.script }
      (Text.lineBodies content).zipIdx (g.start.changeEnvironment c.job Environment.push) ls ending
      s ∧
    g.finish = s.changeEnvironment c.job Environment.pop ∧
    g.result = scriptAnswer g.segment.name ls ending ∧ ∀ l ∈ ls, P l

/-- The account of a line that other lines are nested in, at most so many deep. It puts out what
those of its items put out that succeed. The result of an item that fails is that of its last
command; if this is a script that was entered, all that its lines put out is in there, and there is
an account of each of them in turn. -/
def Accounted (between : Shell → List (Shell × Note) → Shell → Prop) : Nat → LineRun → Prop
  | 0, _ => False
  | n + 1, l => ∃ stages, l.Stages between (nested n) stages ∧
      l.output = String.join (stages.map Stage.output) ∧
      ∀ x ∈ stages, ∃ gs, x.Pipes between (nested n) (l.caller.orSession l.start) gs ∧
        Concludes gs x.result ∧
        ∀ g ∈ gs, ∀ path args content, g.Enters (l.caller.orSession l.start) path args content →
          OfScript between (nested n) (Accounted between n) (l.caller.orSession l.start) g path args
            content

variable {between : Shell → List (Shell × Note) → Shell → Prop} {inner : LineRunner} {c : Caller}
  {s t : Shell}

theorem ensures_runLines (inner : LineRunner) (c : Caller) (script : Script)
    (outputs : List String) (lines : List (String × Nat)) (s : Shell) :
    (runLines inner c script outputs lines).Ensures between s fun _ r t => ∃ ls ending,
      Scripted between inner c script lines s ls ending t ∧
      r = ending.map fun problem =>
        { data := some (String.join outputs ++ String.join (ls.map LineRun.output)), problem } := by
  induction lines generalizing outputs s with
  | nil =>
    refine Run.ensures_pure ⟨[], .ok none, .finished, ?_⟩
    simp [Except.map, String.join, Result.ok]
  | cons line rest ih =>
    obtain ⟨raw, i⟩ := line
    rw [runLines]
    dsimp only
    split
    · next hskipped =>
      refine (ih outputs s).mono ?_
      rintro _ r t ⟨ls, ending, hls, hr⟩
      exact ⟨ls, ending, .skipped hskipped hls, hr⟩
    · refine Run.ensures_get_bind ?_
      split
      · next hcancelled =>
        refine Run.ensures_pure ⟨[], _, .cancelled hcancelled, ?_⟩
        simp [Except.map, cancelledScript, String.join]
      · let caller := { c with script := some { script with line := i } }
        refine (Run.ensures_completes (inner (Text.strip raw) caller true) s).bind
          (fun notes r t hr => ?_) fun notes f t hf => ⟨[], _, .broken hf, rfl⟩
        let l : LineRun := ⟨Text.strip raw, caller, true, s, notes, r, t⟩
        have hl : l.Belongs c script raw i := ⟨rfl, rfl, rfl⟩
        have houtput : String.join (outputs ++ output r) = String.join outputs ++ l.output := by
          rw [String.join_append, Stages.join_output]
          rfl
        split
        · next p hp =>
          refine Run.ensures_pure ⟨[l], _, .failed hl hr hp, ?_⟩
          rw [failedScript, houtput]
          simp [Except.map, failedScript, String.join]
        · next hp =>
          refine (ih _ t).mono ?_
          rintro _ r' u ⟨ls, ending, hls, hr'⟩
          refine ⟨l :: ls, ending, .further hl hr hp hls, ?_⟩
          rw [hr', houtput]
          simp only [List.map_cons, String.join_cons, String.append_assoc]

theorem ensures_runScript {g : SegmentRun} {path content : String} {args : List String}
    (h : g.Enters c path args content) :
    (runScript inner path args c).Ensures between g.start fun _ r t => ∃ ls ending s,
      Scripted between inner (c.orSession g.start)
        { source := path, args, depth := depthOf c.script } (Text.lineBodies content).zipIdx
        (g.start.changeEnvironment c.job Environment.push) ls ending s ∧
      t = s.changeEnvironment c.job Environment.pop ∧
      r = ending.map fun problem =>
        { data := some (String.join (ls.map LineRun.output)), problem } := by
  have hscript := Caller.script_orSession c g.start
  have hjob := Caller.job_orSession c g.start
  have hdepth := h.depth
  refine Run.ensures_get_bind ?_
  rw [← hscript] at hdepth
  dsimp only
  rw [if_neg hdepth, h.content]
  refine Run.ensures_modify_bind ((ensures_runLines inner _ _ _ _ _).outcome_bind ?_)
  rintro _ r s ⟨ls, ending, hls, hr⟩
  refine Run.ensures_modify_bind (Run.ensures_lift ⟨ls, ending, s, ?_, by rw [hjob], ?_⟩)
  · rwa [hscript, hjob] at hls
  · rw [hr]
    simp [String.join]

theorem withData_of_data {r : Result String} {text : String} (h : r.data = some text) :
    withData r = r := by
  simp [withData, h]

theorem ofScript_of_runs {P : LineRun → Prop} (hP : ∀ l, l.Runs between inner → P l)
    {g : SegmentRun} (hruns : g.Runs between inner c) {path content : String} {args : List String}
    (h : g.Enters c path args content) : OfScript between inner P c g path args content := by
  obtain ⟨command, i, hcommand, haction, hrequires, hcheck, rfl, rfl⟩ := h.command
  have hmissing : (command.contract.requires.filter fun name => !g.start.hasService name) = [] := by
    simpa using hrequires
  have hends : (runSegment inner g.segment g.input c).Ensures between g.start fun _ r t =>
      ∃ ls ending s, Scripted between inner (c.orSession g.start)
          { source := i.args.headD "", args := i.args.tail, depth := depthOf c.script }
          (Text.lineBodies content).zipIdx (g.start.changeEnvironment c.job Environment.push) ls
          ending s ∧
        t = s.changeEnvironment c.job Environment.pop ∧
        r = .ok (scriptAnswer g.segment.name ls ending) := by
    refine Run.ensures_get_bind ?_
    rw [hcommand]
    dsimp only
    rw [hmissing, hcheck]
    refine Run.ensures_note_bind ?_
    rw [haction]
    refine (ensures_runScript h).outcome_bind ?_
    rintro _ r t ⟨ls, ending, s, hls, ht, rfl⟩
    cases ending with
    | error f => exact Run.ensures_pure ⟨ls, .error f, s, hls, ht, rfl⟩
    | ok problem =>
      refine Run.ensures_pure ⟨ls, .ok problem, s, hls, ht, ?_⟩
      exact congrArg _ (withData_of_data rfl)
  obtain ⟨ls, ending, s, hls, hfinish, hresult⟩ := hends _ _ _ hruns
  exact ⟨ls, ending, s, hls, hfinish, Except.ok.inj hresult, fun l hl => hP l (hls.runs l hl)⟩

theorem data_of_ofFault {before : String} {f : Fault} {r : Result String}
    (h : Result.ofFault before f = .ok r) : r.data = none := by
  unfold Result.ofFault at h
  split at h <;> cases h
  rfl

theorem answers_saveOr (failure : String) (s : Shell) :
    (saveOr failure).Answers between s fun failed t =>
      (failed = none → s.Saves t) ∧ ∀ r ∈ failed, r.data = none ∧ ∀ u, ¬ s.Saves u := by
  have hsave : (Run.effect Effect.save).Answers between s fun saved t =>
      Effect.save.run s = (.ok saved, t) :=
    Run.ensures_effect fun saved h => Prod.ext h rfl
  refine hsave.bind fun saved t hsaved => ?_
  split
  · next hnone => exact Run.answers_pure ⟨fun _ => ⟨saved, hsaved, hnone⟩, fun _ h => nomatch h⟩
  · next p hp =>
    refine Run.answers_pure ⟨fun h => (nomatch h), ?_⟩
    rintro _ ⟨⟩
    refine ⟨rfl, fun u hu => ?_⟩
    obtain ⟨saved', hsaved', hnone⟩ := hu
    rw [hsaved] at hsaved'
    cases hsaved'
    rw [hp] at hnone
    cases hnone

theorem Concludes.cons {g : SegmentRun} {gs : List SegmentRun} {r : Result String}
    (hg : g.result.success = true) (h : Concludes gs r) : Concludes (g :: gs) r := by
  obtain ⟨hgs, hr⟩ | ⟨hr, hlast⟩ := h
  · exact .inl ⟨List.forall_mem_cons.mpr ⟨hg, hgs⟩, hr⟩
  · refine .inr ⟨hr, ?_⟩
    cases gs with
    | nil => cases hlast
    | cons g' rest => rwa [List.getLast?_cons_cons]

theorem answers_runSegments (inner : LineRunner) (c : Caller) (modified : Bool) (text : String)
    (input : Option String) (segs : List Segment) (s : Shell) :
    (runSegments inner c modified text input segs).Answers between s fun r _ =>
      ∃ gs, Piped between inner c input segs s gs ∧ Concludes gs r := by
  induction segs generalizing modified text input s with
  | nil => exact Run.answers_pure ⟨[], .finished, .inl ⟨fun _ h => (nomatch h), fun h => nomatch h⟩⟩
  | cons seg rest ih =>
    rw [runSegments]
    refine Run.answers_get_bind ?_
    split
    · next hcancelled =>
      refine Run.answers_pure ⟨[], .cancelled hcancelled, ?_⟩
      exact .inl ⟨fun _ h => (nomatch h), fun _ => rfl⟩
    · refine (Run.answers_completes (runSegment inner seg input c) s).bind ?_
      rintro r t ⟨notes, hr⟩
      let g : SegmentRun := ⟨seg, input, s, notes, r, t⟩
      have hrest (modified : Bool) (u : Shell) (hgoes : g.GoesOn u) :
          (runSegments inner c modified (r.data.getD "") (some (r.data.getD "")) rest).Answers
            between u fun r _ => ∃ gs, Piped between inner c input (seg :: rest) s gs ∧
              Concludes gs r := by
        refine (ih modified _ _ u).mono ?_
        rintro r' v ⟨gs, hgs, hr'⟩
        exact ⟨g :: gs, .further (g := g) hr hgoes hgs, hr'.cons hgoes.1⟩
      dsimp only
      split
      · next hfailed =>
        have hfailed : r.success = false := by simpa using hfailed
        exact Run.answers_pure ⟨[g], .failed (g := g) hr hfailed, .inr ⟨hfailed, rfl⟩⟩
      · next hsucceeded =>
        have hsucceeded : r.success = true := by simpa using hsucceeded
        split
        · next hmodified =>
          refine (answers_saveOr _ t).bind fun failed u hfailed => ?_
          split
          · next failure =>
            obtain ⟨hdata, hstops⟩ := hfailed.2 failure rfl
            refine Run.answers_pure
              ⟨[g], .unsaved (g := g) hr hsucceeded ?_, .inl ⟨?_, fun _ => hdata⟩⟩
            · intro v hv
              exact hstops v (by simpa [g, hmodified] using hv.2)
            · simpa using hsucceeded
          · exact hrest true u ⟨hsucceeded, by simpa [g, hmodified] using hfailed.1 rfl⟩
        · next hmodified =>
          exact hrest modified t ⟨hsucceeded, by simp [g, hmodified]⟩

theorem answers_deliver (c : Caller) (redirect : Option Redirect) {r : Result String}
    (hr : r.success = true) (s : Shell) :
    (deliver c redirect r).Answers between s fun r _ => r.success = false → r.data = none := by
  cases redirect with
  | none => exact Run.answers_pure fun hfailed => absurd hfailed (by simp [hr])
  | some target =>
    refine Run.answers_note_bind (Run.answers_effect.outcome_bind fun ended t _ => ?_)
    split
    · exact Run.answers_lift fun r h _ => data_of_ofFault h
    · refine (answers_saveOr _ t).bind fun saved u hsaved => ?_
      split
      · exact Run.answers_pure fun _ => (hsaved.2 _ rfl).1
      · exact Run.answers_pure fun h => nomatch h

theorem pipes_of_runs {x : Stage} (h : x.Runs between inner c) :
    ∃ gs, x.Pipes between inner c gs ∧ Concludes gs x.result := by
  have hends : (runItem inner x.item.pipeline c).Answers between x.start fun r _ =>
      ∃ gs, x.Pipes between inner c gs ∧ Concludes gs r := by
    unfold runItem
    split
    · next hjob =>
      refine Run.answers_pure (s := (startJob x.item.pipeline c x.start).2) ?_
      exact ⟨[], .job hjob, .inl ⟨fun _ h => (nomatch h), fun h => nomatch h⟩⟩
    · refine Run.answers_get_bind ?_
      split
      · next hopened =>
        refine Run.answers_lift fun r hr => ?_
        exact ⟨[], .unopened hopened, .inl ⟨fun _ h => (nomatch h), fun _ => data_of_ofFault hr⟩⟩
      · next hopened =>
        refine (answers_runSegments inner c false "" _ _ x.start).bind ?_
        rintro r t ⟨gs, hgs, hr⟩
        split
        · next hsucceeded =>
          refine (answers_deliver c _ hsucceeded t).mono fun r' _ hr' =>
            ⟨gs, .opened hopened hgs, .inl ⟨?_, hr'⟩⟩
          obtain ⟨hall, -⟩ | ⟨hfailed, -⟩ := hr
          · exact hall
          · rw [hsucceeded] at hfailed
            cases hfailed
        · exact Run.answers_pure ⟨gs, .opened hopened hgs, hr⟩
  exact hends _ _ _ h _ rfl

theorem stages_of_runs {l : LineRun} (h : l.Runs between (runLine inner)) :
    ∃ stages, l.Stages between inner stages ∧
      l.output = String.join (stages.map Stage.output) := by
  rw [LineRun.Runs, runLine, Run.get_bind, Run.outcome_effect_bind] at h
  cases hread : (readLine l.text (l.caller.orSession l.start) l.record).run l.start with
  | mk read s =>
    rw [hread] at h
    cases read with
    | error f =>
      obtain ⟨hdata, rfl⟩ := Run.answers_lift (P := fun r t => r.data = none ∧ s = t)
        (fun r hr => ⟨data_of_ofFault hr, rfl⟩) _ _ _ h _ rfl
      exact ⟨[], .unread hread, by simp [LineRun.output, hdata, String.join]⟩
    | ok items =>
      obtain ⟨stages, hstages, -, hresult⟩ :=
        Stages.ensures_runItems inner _ none {} items s _ _ _ h _ rfl
      refine ⟨stages, .read hread hstages, ?_⟩
      rw [LineRun.output, hresult, Progress.result, Stages.join_outputs_progress]
      simp [String.join]

/-- What a line puts out is told by its account, however deep scripts are nested in it. So the
output of a script that fails is in the result of its item, and no further. -/
theorem accounted_of_runs {n : Nat} {l : LineRun} (h : l.Runs between (nested n)) :
    Accounted between n l := by
  induction n generalizing l with
  | zero =>
    have hthrown := Run.ensures_throw (P := fun _ r _ => ∀ a : Result String, r ≠ .ok a)
      (fun _ h => nomatch h) _ _ _ h
    exact absurd rfl (hthrown l.result)
  | succ n ih =>
    rw [nested] at h
    obtain ⟨stages, hstages, houtput⟩ := stages_of_runs h
    rw [Accounted]
    refine ⟨stages, hstages, houtput, fun x hx => ?_⟩
    obtain ⟨gs, hgs, hresult⟩ := pipes_of_runs (hstages.runs x hx)
    refine ⟨gs, hgs, hresult, fun g hg path args content henters => ?_⟩
    exact ofScript_of_runs (fun _ => ih) (hgs.runs g hg) henters

def scripts : Shell :=
  ((Shell.bare (Catalogue.texts ++ Catalogue.scripting)).withFile "/in"
    "echo c\necho d && gone\necho never\n").withFile "/out" "echo b\nrun /in\n"

/-- The line has its own output only, the script the one before the line that it got to, and the
nested script all. -/
theorem accounted_of_runs_nested :
    let answer (path : String) := ((runScript (nested (maxNesting - 1)) path [] { user := rootUser }
      scripts).through id).2.1.toOption.bind Result.data
    answer "/in" = some "c\nd\n" ∧ answer "/out" = some "b\n" ∧
      ∃ l : LineRun, l.text = "echo a; run /out" ∧ l.start = scripts ∧ l.output = "a\n" ∧
        l.result.success = false ∧
        Accounted (fun s notes t => notes = [] ∧ t = s) maxNesting l := by
  intro answer
  let ended := (Shell.execute "echo a; run /out" { user := rootUser } true scripts).through id
  have hend : (Shell.execute "echo a; run /out" { user := rootUser } true scripts).Completes
      (fun s notes t => notes = [] ∧ t = s) ended.1 ended.2.1 ended.2.2 :=
    Step.completes_through (fun s => ⟨rfl, rfl⟩) _
  have hresult : ended.2.1.toOption.any (fun r => r.data = some "a\n" ∧ r.success = false) =
      true := by decide +kernel
  refine ⟨by decide +kernel, by decide +kernel, ?_⟩
  generalize ended.2.1 = r at hend hresult
  cases r with
  | error f => cases hresult
  | ok r =>
    let l : LineRun :=
      ⟨"echo a; run /out", { user := rootUser }, true, scripts, ended.1, r, ended.2.2⟩
    obtain ⟨hdata, hfailed⟩ : r.data = some "a\n" ∧ r.success = false := by
      simpa [Except.toOption] using hresult
    exact ⟨l, rfl, rfl, by simp [l, LineRun.output, hdata], hfailed,
      accounted_of_runs (n := maxNesting) (l := l) hend⟩

end Outputs
end MemShell
