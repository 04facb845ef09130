import MemShell.Proofs.Shell.AndOr
import MemShell.Proofs.Shell.BuiltCommands
import MemShell.Proofs.Shell.Nesting
set_option autoImplicit false

/-!
# Chains of lines

Lines that each run the next one. Scripts cannot go on for ever, since they are counted. A command
that is built from an input and read back as it was built has no input for others and launches
nothing, so it can only run a script. Where a value turns it into something else, it may be the line
that built it, and there is no end.
-/
namespace MemShell
open Execute Written

namespace Call

/-- Unless the task is a line that was built from an input, or if that is read as the command that
was built. -/
def Intact (x : Call) : Prop :=
  ∀ text c, x.task = .line text c false →
    ∃ word words, text = Text.quoteWords (word :: words) ∧
      (∀ w ∈ word :: words, Whole x.state c w) ∧
      x.state.aliases.get? (leading (filled x.state c word).chars) = none

/-- How far a task is from the next script: lines may launch jobs, and both may build lines. -/
def stage (x : Call) : Nat := if x.Starts then 2 else if x.Feeds then 1 else 0

def rank (d : Int) (x : Call) : Nat := 3 * (d - x.caller.depth).toNat + x.stage

theorem stage_le (x : Call) : x.stage ≤ 2 := by
  unfold stage
  split
  · exact Nat.le_refl 2
  · split <;> decide

theorem stage_of_starts {x : Call} (h : x.Starts) : x.stage = 2 := if_pos h

theorem stage_pos_of_feeds {x : Call} (h : x.Feeds) : 0 < x.stage := by
  unfold stage
  rw [if_pos h]
  split <;> decide

theorem not_starts {x : Call} {p : Pipeline} (hp : x.pipelines = [p])
    (hforeground : p.background = false) : ¬x.Starts := by simp [Starts, hp, hforeground]

theorem stage_le_one {x : Call} {p : Pipeline} (hp : x.pipelines = [p])
    (hforeground : p.background = false) : x.stage ≤ 1 := by
  rw [stage, if_neg (not_starts hp hforeground)]
  split <;> decide

theorem stage_eq_zero {x : Call} {p : Pipeline} (hp : x.pipelines = [p])
    (hforeground : p.background = false) (hfeeds : ¬p.Feeds) : x.stage = 0 := by
  have hnone : ¬x.Feeds := by simpa [Feeds, hp] using hfeeds
  rw [stage, if_neg (not_starts hp hforeground), if_neg hnone]

theorem stage_of_intact {text : String} {c : Caller} {s : Shell}
    (h : Intact ⟨.line text c false, s⟩) : stage ⟨.line text c false, s⟩ = 0 := by
  obtain ⟨word, words, rfl, hwhole, halias⟩ := h text c rfl
  have hpipelines := pipelinesOf_quoteWords hwhole halias
  refine stage_eq_zero hpipelines rfl ?_
  simp [readAs, Pipeline.Feeds]

end Call

namespace Nesting

structure Builder (s : Shell) (c : Caller) (text : String) where
  segment : Segment
  path : String
  content : String
  command : Command
  invocation : Invocation
  named : c.user ≠ ""
  going : c.isCancelled s = false
  read : (readLine text c false).run s =
    (.ok [⟨{ segments := [segment], input := some path }, none⟩], s)
  hasContent : s.files.readText (s.actor c.user) path = .ok content
  isCommand : s.commands.get? segment.name = some command
  action : command.action = .fanOut
  services : command.contract.requires = []
  check : command.contract.check s.files (s.actor c.user) segment.args = .ok invocation

namespace Builder
variable {s : Shell} {c : Caller} {text : String} {words : List String}

def context (b : Builder s c text) : Context :=
  contextFor s b.command.contract b.invocation b.segment.name (some b.content) c

structure Builds (b : Builder s c text) (words : List String) : Prop where
  hasLines : inputLines b.context.inputText ≠ []
  first : ∃ rest, commandsFor b.context.args (b.context.flags.value? "replace")
    (inputLines b.context.inputText) = words :: rest

variable {b : Builder s c text} {inner : LineRunner} {f : Fault}

theorem caller_context (b : Builder s c text) : b.context.caller = c := rfl

theorem fanOut_of_fault (h : b.Builds words)
    (hinner : inner (Text.quoteWords words) c false s = .done s (.error f)) :
    fanOut inner b.context s = .done s (.error f) := by
  obtain ⟨rest, hwords⟩ := h.first
  have hlines : (inputLines b.context.inputText).isEmpty = false := by simpa using h.hasLines
  unfold fanOut
  simp only [hlines, Bool.false_eq_true, if_false, hwords, runCommands]
  rw [Run.get_bind, caller_context, b.going, if_neg Bool.false_ne_true]
  exact Run.bind_of_error hinner

theorem runSegment_of_fault (h : b.Builds words)
    (hinner : inner (Text.quoteWords words) c false s = .done s (.error f)) :
    runSegment inner b.segment (some b.content) c s =
      .note s (.command .fanOut b.context) (.done s (.ok (report b.segment.name f))) := by
  have hfan := fanOut_of_fault h hinner
  have hperform : perform inner .fanOut b.context s = .done s (.error f) := by rw [perform, hfan]
  have hcontext : contextFor s b.command.contract b.invocation b.segment.name (some b.content) c =
      b.context := rfl
  unfold runSegment
  rw [Run.get_bind]
  simp only [b.isCommand, b.services, List.filter_nil, List.isEmpty_nil, Bool.not_true,
    Bool.false_eq_true, if_false, b.check, hcontext, b.action]
  rw [Run.note_bind, Run.bind_of_ok (Run.outcome_of_done hperform)]
  rfl

theorem runLine_of_fault (h : b.Builds words)
    (hinner : inner (Text.quoteWords words) c false s = .done s (.error f)) :
    runLine inner text c false s = .note s (.command .fanOut b.context)
      (.done s (.ok (Progress.add {} (report b.segment.name f)).result)) := by
  have hsession : c.orSession s = c := by simp [Caller.orSession, b.named]
  have hsegments : runSegments inner c false "" (some b.content) [b.segment] s =
      .note s (.command .fanOut b.context) (.done s (.ok (report b.segment.name f))) := by
    rw [runSegments, Run.get_bind, b.going, if_neg Bool.false_ne_true,
      Run.bind_of_noted (runSegment_of_fault h hinner)]
    simp only [success_report, Bool.not_false, if_true]
    rfl
  have hitem : runItem inner { segments := [b.segment], input := some b.path } c s =
      .note s (.command .fanOut b.context) (.done s (.ok (report b.segment.name f))) := by
    rw [runItem, if_neg Bool.false_ne_true, runPipeline, Run.get_bind]
    simp only [Option.map_some, b.hasContent]
    rw [Option.bind_some, Except.toOption, Run.bind_of_noted hsegments]
    simp only [success_report, Bool.false_eq_true, if_false]
    rfl
  rw [runLine_of_read (by rw [hsession]; exact b.read), hsession,
    AndOr.runItems_cons (.inr rfl) rfl]
  exact Run.bind_of_noted hitem

theorem eq_of_alike {d : Int} {e : Note} {r r' : Except Fault (Result String)}
    (h : Alike d (fun _ => .note s e (.done s r)) (fun _ => .note s e (.done s r')) s) : r' = r := by
  cases h with
  | note _ _ hends =>
    cases hends () trivial
    rfl

theorem Builds.hands (h : b.Builds words) :
    Hands s.config.maxScriptDepth ⟨.line text c false, s⟩
      ⟨.line (Text.quoteWords words) c false, s⟩ := by
  refine hands_of_fault (f := .jobCancelled) (g := .grammar .missingCommand)
    (fun _ _ hinner => runLine_of_fault h hinner) fun halike => ?_
  -- The two results differ in the kind of their problem.
  have hkinds := congrArg (fun r => r.toOption.bind fun r => r.problem.map (·.kind))
    (eq_of_alike halike)
  have hne : (some .parse : Option ErrorKind) ≠ some .execution := by decide
  exact hne hkinds

end Builder

def endless : Shell :=
  { (Shell.bare Catalogue.scripting).withFile "/in" "x\n" with
    environment := ⟨[("V", "'xargs < /in -I y '$V")], []⟩ }

def Builder.ofFile {text : String} {args : List String} {i : Invocation}
    (hread : (readLine text { user := rootUser } false).run endless =
      (.ok [⟨{ segments := [⟨"xargs", args⟩], input := some "/in" }, none⟩], endless))
    (hcheck : Catalogue.scripting[1].contract.check endless.files (endless.actor rootUser) args =
      .ok i) : Builder endless { user := rootUser } text where
  segment := ⟨"xargs", args⟩
  path := "/in"
  content := "x\n"
  command := Catalogue.scripting[1]
  invocation := i
  named := by decide
  going := rfl
  read := hread
  hasContent := by decide +kernel
  isCommand := rfl
  action := rfl
  services := rfl
  check := hcheck

theorem hands_of_file (text expanded : String) (args words : List String) {i : Invocation}
    (htext : preprocess text none (endless.environmentOf none).get endless.aliases = .ok expanded)
    (hitems : SequenceItem.ofLine expanded =
      .ok [⟨{ segments := [⟨"xargs", args⟩], input := some "/in" }, none⟩])
    (hcheck : Catalogue.scripting[1].contract.check endless.files (endless.actor rootUser) args =
      .ok i)
    (hwords : commandsFor i.args (i.flags.value? "replace") ["x"] = [words]) :
    Hands 10 ⟨.line text { user := rootUser } false, endless⟩
      ⟨.line (Text.quoteWords words) { user := rootUser } false, endless⟩ := by
  have hcaller : ({ user := rootUser } : Caller).script.map (·.args) = none := rfl
  rw [← hcaller] at htext
  have hread := run_readLine (s := endless) (c := { user := rootUser }) htext
  rw [hitems] at hread
  have hlines : inputLines "x\n" = ["x"] := by decide +kernel
  have hbuilds : (Builder.ofFile hread hcheck).Builds words := by
    refine ⟨?_, [], ?_⟩
    · change inputLines "x\n" ≠ []
      rw [hlines]
      exact List.cons_ne_nil _ _
    · change commandsFor i.args (i.flags.value? "replace") (inputLines "x\n") = [words]
      rw [hlines, hwords]
  exact hbuilds.hands

variable {d : Int} {x y : Call} {ys : List Call}

/-- A script takes one of the levels that are left. On one level a line may launch a job, and the job
may build a line, which is the last one there. -/
theorem rank_lt (h : Arises d x y) (hy : y.Intact) : y.rank d < x.rank d := by
  have hdepth := depth_of_arises h
  unfold Call.rank
  cases h with
  | @script text c script s hscript hscriptDepth hbound =>
    have hstage := Call.stage_le ⟨.line text c true, s⟩
    rw [Task.isWritten, if_pos rfl] at hdepth
    omega
  | built hsame hfeeds hwords =>
    have hpos := Call.stage_pos_of_feeds hfeeds
    rw [Task.isWritten, if_neg Bool.false_ne_true] at hdepth
    rw [Call.stage_of_intact hy, hdepth]
    exact Nat.add_lt_add_left hpos _
  | @job l s hsame hstarts =>
    have hjob : Call.stage ⟨.job l, s⟩ ≤ 1 := Call.stage_le_one rfl rfl
    rw [Task.isWritten, if_neg Bool.false_ne_true] at hdepth
    rw [Call.stage_of_starts hstarts, hdepth]
    exact Nat.add_lt_add_left (Nat.lt_succ_of_le hjob) _

theorem length_le_rank (hx : x.state.config.maxScriptDepth = d)
    (h : (x :: ys).IsChain (Follows d)) (hintact : ∀ y ∈ ys, y.Intact) :
    ys.length ≤ x.rank d := by
  induction ys generalizing x with
  | nil => exact Nat.zero_le _
  | cons y ys ih =>
    obtain ⟨hxy, hrest⟩ := List.isChain_cons_cons.mp h
    obtain ⟨hy, harises⟩ := arises_of_follows hx hxy
    have hlater := ih hy hrest fun z hz => hintact z (List.mem_cons_of_mem _ hz)
    exact Nat.succ_le_of_lt (hlater.trans_lt (rank_lt harises (hintact y List.mem_cons_self)))

/-- A chain of tasks, each run or launched by the one before, comes to an end if the lines that are
built from an input are read as they were built. How soon, depends on the scripts that may still be
entered. -/
theorem length_le_of_intact (hx : x.state.config.maxScriptDepth = d)
    (h : (x :: ys).IsChain (Follows d)) (hintact : ∀ y ∈ ys, y.Intact) :
    ys.length ≤ 3 * (d - x.caller.depth).toNat + 2 :=
  (length_le_rank hx h hintact).trans (Nat.add_le_add_left x.stage_le _)

theorem length_le_of_intact_echo :
    let x : Call := ⟨.line "xargs < /in" { user := rootUser } false, endless⟩
    let y : Call := ⟨.line "echo x" { user := rootUser } false, endless⟩
    [x, y].IsChain (Follows 10) ∧ y.Intact ∧ [y].length ≤ 3 * (10 - (0 : Int)).toNat + 2 := by
  intro x y
  have hline : Text.quoteWords ["echo", "x"] = "echo x" := by decide +kernel
  have hhands := hands_of_file "xargs < /in" "xargs < /in" [] ["echo", "x"] (by decide +kernel)
    (by decide +kernel) rfl (by decide +kernel)
  rw [hline] at hhands
  have hchain : [x, y].IsChain (Follows 10) := List.isChain_pair.mpr (.line hhands)
  have hintact : y.Intact := by
    rintro text c ⟨⟩
    refine ⟨"echo", ["x"], hline.symm, by decide +kernel, rfl⟩
  have hbound : x.state.config.maxScriptDepth = 10 := rfl
  have hshort := length_le_of_intact hbound hchain
    fun z hz => List.mem_singleton.mp hz ▸ hintact
  exact ⟨hchain, hintact, hshort⟩

def endlessLine : Call := ⟨.line "'$V'" { user := rootUser } false, endless⟩

theorem follows_endlessLine : Follows 10 endlessLine endlessLine := by
  have hline : Text.quoteWords ["$V"] = "'$V'" := by decide +kernel
  have hhands := hands_of_file "'$V'" "''xargs < /in -I y '$V'" ["-I", "y", "$V"] ["$V"]
    (by decide +kernel) (by decide +kernel) rfl (by decide +kernel)
  rw [hline] at hhands
  exact .line hhands

/-- A value that holds a quote can make a line out of a word which is the line that it came from, so
that no chain of such lines is the longest. -/
theorem isChain_replicate_endlessLine (n : Nat) :
    (List.replicate n endlessLine).IsChain (Follows 10) :=
  List.isChain_replicate_of_rel n follows_endlessLine

end Nesting
end MemShell
