import Mathlib.Data.List.Induction
import MemShell.Proofs.Routine.Completes
import MemShell.Proofs.Shell.Discipline
set_option autoImplicit false

namespace MemShell
open Execute

instance (σ : Type) : LawfulMonad (Routine σ) :=
  .mk' (Routine σ) (fun x => funext fun s => Step.bind_pure (x s)) (fun _ _ => rfl)
    fun x f g => funext fun s => Step.bind_assoc (x s) (fun s a => f a s) fun s b => g b s

inductive AndOr where
  | pipeline (p : Pipeline)
  | both (left : AndOr) (right : Pipeline)
  | either (left : AndOr) (right : Pipeline)

namespace AndOr

def pipelines : AndOr → List Pipeline
  | pipeline p => [p]
  | both left right | either left right => left.pipelines ++ [right]

def itemsBefore : AndOr → Option Connective → List SequenceItem
  | pipeline p, behind => [⟨p, behind⟩]
  | both left right, behind => left.itemsBefore (some .both) ++ [⟨right, behind⟩]
  | either left right, behind => left.itemsBefore (some .either) ++ [⟨right, behind⟩]

def items (e : AndOr) : List SequenceItem := e.itemsBefore none

def Joins (connective : Option Connective) : Prop :=
  connective = some .both ∨ connective = some .either

theorem exists_itemsBefore_eq (before : List SequenceItem)
    (hbefore : ∀ item ∈ before, Joins item.connective) (p : Pipeline) (behind : Option Connective) :
    ∃ e : AndOr, e.itemsBefore behind = before ++ [⟨p, behind⟩] := by
  induction before using List.reverseRecOn generalizing p behind with
  | nil => exact ⟨pipeline p, rfl⟩
  | append_singleton before item ih =>
    obtain ⟨q, connective⟩ := item
    obtain ⟨left, hleft⟩ := ih (fun i hi => hbefore i (List.mem_append_left _ hi)) q connective
    have hjoins : Joins connective := hbefore ⟨q, connective⟩ (by simp)
    rcases hjoins with rfl | rfl
    · exact ⟨both left p, by rw [itemsBefore, hleft]⟩
    · exact ⟨either left p, by rw [itemsBefore, hleft]⟩

/-- Every sequence that only `&&` and `||` join is that of an expression. -/
theorem exists_items_eq {before : List SequenceItem}
    (hbefore : ∀ item ∈ before, Joins item.connective) (p : Pipeline) :
    ∃ e : AndOr, e.items = before ++ [⟨p, none⟩] :=
  exists_itemsBefore_eq before hbefore p none

def progress (ran : List (Pipeline × Result String)) : Progress :=
  (ran.map Prod.snd).foldl Progress.add {}

theorem progress_concat (ran : List (Pipeline × Result String)) (p : Pipeline) (r : Result String) :
    progress (ran ++ [(p, r)]) = (progress ran).add r := by
  simp [progress]

/-- What came of an expression: its truth value and the pipelines that ran, in order, with their
results. -/
structure Evaluation (e : AndOr) where
  value : Bool
  ran : List (Pipeline × Result String)
  inOrder : (ran.map Prod.fst).Sublist e.pipelines
  isValue : (progress ran).succeeded = value

namespace Evaluation
variable {e e' : AndOr}

def result (v : Evaluation e) : Result String := (progress v.ran).result

theorem success_result (v : Evaluation e) : v.result.success = v.value := by
  rw [← v.isValue]
  unfold result Progress.result Progress.succeeded Result.success
  cases (progress v.ran).last <;> rfl

def first (p : Pipeline) (r : Result String) : Evaluation (pipeline p) where
  value := r.success
  ran := [(p, r)]
  inOrder := .refl _
  isValue := rfl

def next (v : Evaluation e) (p : Pipeline) (r : Result String)
    (h : e'.pipelines = e.pipelines ++ [p]) : Evaluation e' where
  value := r.success
  ran := v.ran ++ [(p, r)]
  inOrder := by
    rw [h, List.map_append]
    exact v.inOrder.append (.refl _)
  isValue := by
    rw [progress_concat]
    rfl

def skip (v : Evaluation e) (p : Pipeline) (h : e'.pipelines = e.pipelines ++ [p]) :
    Evaluation e' where
  value := v.value
  ran := v.ran
  inOrder := by
    rw [h]
    exact v.inOrder.trans (List.sublist_append_left _ _)
  isValue := v.isValue

end Evaluation

def showProblem (progress : Progress) : Run Unit :=
  match progress.notice with
  | some line => modify (Shell.notify line)
  | none => pure ()

/-- Evaluates from left to right: the right side of `&&` runs if the left one is true, that of `||`
if it is false. A failure on the left is shown before that. -/
def eval (run : Pipeline → Run (Result String)) : (e : AndOr) → Run e.Evaluation
  | pipeline p => do
    let r ← run p
    pure (.first p r)
  | both left right => do
    let v ← left.eval run
    if v.value then
      let r ← run right
      pure (v.next right r rfl)
    else pure (v.skip right rfl)
  | either left right => do
    let v ← left.eval run
    if v.value then pure (v.skip right rfl)
    else
      showProblem (progress v.ran)
      let r ← run right
      pure (v.next right r rfl)

variable {inner : LineRunner} {c : Caller}

theorem notice_of_value {e : AndOr} {v : Evaluation e} (h : v.value = true) :
    (progress v.ran).notice = none := by
  have hsucceeded := v.isValue.trans h
  unfold Progress.succeeded at hsucceeded
  unfold Progress.notice
  cases hlast : (progress v.ran).last with
  | none => rfl
  | some r =>
    rw [hlast] at hsucceeded
    have hproblem : r.problem = none := by simpa [Result.success] using hsucceeded
    simp [Result.errorText, hproblem]

/-- An item that is not left out runs, and the sequence goes on behind it. -/
theorem runItems_cons {previous behind : Option Connective} {progress : Progress}
    {rest : List SequenceItem} (hrest : Joins behind ∨ rest = [])
    (hruns : isLeftOut previous progress.succeeded = false) (p : Pipeline) :
    runItems inner c previous progress (⟨p, behind⟩ :: rest) = (do
      showProblem progress
      let r ← runItem inner p c
      runItems inner c behind (progress.add r) rest) := by
  have hgo (r : Result String) :
      (if !r.success && endsAtFailure behind then pure (progress.add r).result
        else runItems inner c behind (progress.add r) rest) =
      runItems inner c behind (progress.add r) rest := by
    rcases hrest with (rfl | rfl) | rfl
    · simp [endsAtFailure]
    · simp [endsAtFailure]
    · simp [runItems]
  simp only [runItems, hruns, Bool.false_eq_true, if_false, hgo, showProblem]
  cases progress.notice <;> rfl

theorem runItems_cons_leftOut {previous behind : Option Connective} {progress : Progress}
    (hleft : isLeftOut previous progress.succeeded = true) (p : Pipeline)
    (rest : List SequenceItem) :
    runItems inner c previous progress (⟨p, behind⟩ :: rest) =
      runItems inner c behind progress rest := by
  simp only [runItems, hleft, if_true]

/-- By induction on the expression: in front of an operator its value decides what is left out. -/
theorem runItems_itemsBefore (e : AndOr) {behind : Option Connective} {rest : List SequenceItem}
    (hrest : Joins behind ∨ rest = []) :
    runItems inner c none {} (e.itemsBefore behind ++ rest) =
      (e.eval fun p => runItem inner p c) >>= fun v =>
        runItems inner c behind (progress v.ran) rest := by
  induction e generalizing behind rest with
  | pipeline p =>
    rw [itemsBefore, List.singleton_append, runItems_cons hrest rfl]
    simp [eval, Evaluation.first, progress, showProblem, Progress.notice]
  | both left right ih =>
    rw [itemsBefore, List.append_assoc, List.singleton_append, ih (.inl (.inl rfl)), eval, bind_assoc]
    refine bind_congr fun v => ?_
    cases hv : v.value with
    | true =>
      rw [runItems_cons hrest (by simp [isLeftOut, v.isValue, hv])]
      simp [Evaluation.next, progress_concat, showProblem, notice_of_value hv]
    | false =>
      rw [runItems_cons_leftOut (by simp [isLeftOut, v.isValue, hv])]
      simp [Evaluation.skip]
  | either left right ih =>
    rw [itemsBefore, List.append_assoc, List.singleton_append, ih (.inl (.inr rfl)), eval, bind_assoc]
    refine bind_congr fun v => ?_
    cases hv : v.value with
    | true =>
      rw [runItems_cons_leftOut (by simp [isLeftOut, v.isValue, hv])]
      simp [Evaluation.skip]
    | false =>
      rw [runItems_cons hrest (by simp [isLeftOut, v.isValue, hv])]
      simp [Evaluation.next, progress_concat]

theorem eval_congr {run run' : Pipeline → Run (Result String)} {e : AndOr}
    (h : ∀ p ∈ e.pipelines, run p = run' p) : e.eval run = e.eval run' := by
  induction e with
  | pipeline p => rw [eval, eval, h p List.mem_cons_self]
  | both left right ih =>
    have hleft := ih fun p hp => h p (List.mem_append_left _ hp)
    have hright : run right = run' right := h right (by simp [pipelines])
    rw [eval, eval, hleft, hright]
  | either left right ih =>
    have hleft := ih fun p hp => h p (List.mem_append_left _ hp)
    have hright : run right = run' right := h right (by simp [pipelines])
    rw [eval, eval, hleft, hright]

/-- A sequence of pipelines in the foreground that only `&&` and `||` join is run as its expression is
evaluated, whatever the pipelines do: the same ones run, in the same states, each at most once and in
their order, and the sequence succeeds if the expression is true. -/
theorem runItems_items (inner : LineRunner) (c : Caller) {e : AndOr}
    (he : ∀ p ∈ e.pipelines, p.background = false) :
    runItems inner c none {} e.items =
      Evaluation.result <$> e.eval (fun p => runPipeline inner p c) ∧
    ∀ v : e.Evaluation, v.result.success = v.value ∧
      (v.ran.map Prod.fst).Sublist e.pipelines := by
  have hitem : ∀ p ∈ e.pipelines, runItem inner p c = runPipeline inner p c := by
    intro p hp
    simp [runItem, he p hp]
  have hruns : runItems inner c none {} (e.itemsBefore none ++ []) = _ :=
    runItems_itemsBefore e (.inr rfl)
  rw [List.append_nil, eval_congr hitem] at hruns
  refine ⟨?_, fun v => ⟨v.success_result, v.inOrder⟩⟩
  rw [items, hruns, map_eq_pure_bind]
  refine bind_congr fun v => ?_
  rw [runItems]
  rfl

def mixed : AndOr :=
  either (both (pipeline { segments := [⟨"nothing", []⟩] }) { segments := [⟨"echo", ["a"]⟩] })
    { segments := [⟨"echo", ["b"]⟩] }

theorem runItems_items_mixed :
    let s := Shell.bare Catalogue.texts
    let ended := (runItems Shell.execute { user := rootUser } none {} mixed.items s).through id
    ended.2.1.toOption = some (.ok "b\n") ∧
      ended.2.2.console = ["nothing: command not found"] := by
  have hforeground : ∀ p ∈ mixed.pipelines, p.background = false := by decide
  intro s ended
  obtain ⟨hruns, -⟩ := runItems_items Shell.execute { user := rootUser } hforeground
  have hended : ended = ((Evaluation.result <$> mixed.eval fun p =>
      runPipeline Shell.execute p { user := rootUser }) s).through id := by
    rw [← hruns]
  rw [hended]
  decide +kernel

end AndOr
end MemShell
