import Mathlib.Data.List.Chain
import MemShell.Proofs.Routine.Completes
import MemShell.Proofs.Shell.Discipline
set_option autoImplicit false

/-!
# The stages of a sequence

A sequence runs its items in stages, and leaves some out. Its result accounts for the stages: it has
the output of those that succeeded, says whether one of them changed the tree, and each failure is
told once, on the console before the next stage or, for the last one, in the result.
-/
namespace MemShell
open Execute

def Result.complaint {α : Type} (r : Result α) : List String :=
  (r.errorText.filter (!·.isEmpty)).toList

def Shell.showing (s : Shell) (lines : List String) : Shell :=
  { s with console := s.console ++ lines }

/-- An item that ran: the lines that were shown right before, the state in which it began, what was
noted until it ended, its result, and the state in which it ended. -/
structure Stage where
  item : SequenceItem
  shown : List String
  start : Shell
  notes : List (Shell × Note)
  result : Result String
  finish : Shell

namespace Stage

def output (x : Stage) : String := if x.result.success then x.result.data.getD "" else ""

def complaint (x : Stage) : List String := x.result.complaint

def Runs (between : Shell → List (Shell × Note) → Shell → Prop) (inner : LineRunner) (c : Caller)
    (x : Stage) : Prop :=
  (runItem inner x.item.pipeline c x.start).Completes between x.notes (.ok x.result) x.finish

structure Begins (x : Stage) (last : Option (Result String)) (s : Shell) : Prop where
  shown : x.shown = last.toList.flatMap Result.complaint
  start : x.start = s.showing x.shown

end Stage

/-- How a sequence goes on from a state, behind an operator and the result of the last stage: which
of its items are left out, and the stages of the others up to the state in the end. -/
inductive Staged (between : Shell → List (Shell × Note) → Shell → Prop) (inner : LineRunner)
    (c : Caller) : Option Connective → Option (Result String) → List SequenceItem → Shell →
      List Stage → Shell → Prop
  | finished {previous : Option Connective} {last : Option (Result String)} {s : Shell} :
      Staged between inner c previous last [] s [] s
  | leftOut {previous : Option Connective} {last : Option (Result String)} {item : SequenceItem}
      {rest : List SequenceItem} {s t : Shell} {stages : List Stage}
      (hleft : isLeftOut previous ((last.map Result.success).getD true) = true)
      (hrest : Staged between inner c item.connective last rest s stages t) :
      Staged between inner c previous last (item :: rest) s stages t
  | broken {previous : Option Connective} {last : Option (Result String)}
      {rest : List SequenceItem} {s : Shell} {x : Stage}
      (hruns : isLeftOut previous ((last.map Result.success).getD true) = false)
      (hbegins : x.Begins last s) (hx : x.Runs between inner c)
      (hends : (!x.result.success && endsAtFailure x.item.connective) = true) :
      Staged between inner c previous last (x.item :: rest) s [x] x.finish
  | further {previous : Option Connective} {last : Option (Result String)}
      {rest : List SequenceItem} {s t : Shell} {x : Stage} {stages : List Stage}
      (hruns : isLeftOut previous ((last.map Result.success).getD true) = false)
      (hbegins : x.Begins last s) (hx : x.Runs between inner c)
      (hgoes : (!x.result.success && endsAtFailure x.item.connective) = false)
      (hrest : Staged between inner c x.item.connective (some x.result) rest x.finish stages t) :
      Staged between inner c previous last (x.item :: rest) s (x :: stages) t

variable {between : Shell → List (Shell × Note) → Shell → Prop} {inner : LineRunner} {c : Caller}
  {previous : Option Connective} {last : Option (Result String)} {items : List SequenceItem}
  {s t : Shell} {stages : List Stage}

namespace Staged

def lastOf (last : Option (Result String)) (stages : List Stage) : Option (Result String) :=
  (stages.getLast?.map Stage.result).or last

theorem lastOf_cons (last : Option (Result String)) (x : Stage) (stages : List Stage) :
    lastOf last (x :: stages) = lastOf (some x.result) stages := by
  cases stages with
  | nil => rfl
  | cons y rest =>
    rw [lastOf, lastOf, List.getLast?_cons_cons,
      List.getLast?_eq_some_getLast (List.cons_ne_nil y rest)]
    rfl

theorem complaints (h : Staged between inner c previous last items s stages t) :
    stages.flatMap Stage.shown ++ (lastOf last stages).toList.flatMap Result.complaint =
      last.toList.flatMap Result.complaint ++ stages.flatMap Stage.complaint := by
  induction h with
  | finished => simp [lastOf]
  | leftOut _ _ ih => exact ih
  | broken _ hbegins => simp [lastOf, hbegins.shown, Stage.complaint]
  | @further _ last _ _ _ x stages _ hbegins _ _ _ ih =>
    rw [lastOf_cons, List.flatMap_cons, List.flatMap_cons, List.append_assoc, ih, hbegins.shown]
    simp [Stage.complaint]

theorem begins_head (h : Staged between inner c previous last items s stages t) :
    ∀ x ∈ stages.head?, x.Begins last s := by
  induction h with
  | finished => exact fun _ h => nomatch h
  | leftOut _ _ ih => exact ih
  | broken _ hbegins => exact fun y hy => Option.some.inj hy ▸ hbegins
  | further _ hbegins => exact fun y hy => Option.some.inj hy ▸ hbegins

theorem isChain (h : Staged between inner c previous last items s stages t) :
    stages.IsChain fun x y => y.Begins (some x.result) x.finish := by
  induction h with
  | finished => exact .nil
  | leftOut _ _ ih => exact ih
  | broken => exact .singleton _
  | further _ _ _ _ hrest ih => exact List.isChain_cons.mpr ⟨hrest.begins_head, ih⟩

theorem runs (h : Staged between inner c previous last items s stages t) :
    ∀ x ∈ stages, x.Runs between inner c := by
  induction h with
  | finished => exact fun _ h => nomatch h
  | leftOut _ _ ih => exact ih
  | broken _ _ hx => exact fun y hy => List.mem_singleton.mp hy ▸ hx
  | further _ _ hx _ _ ih => exact List.forall_mem_cons.mpr ⟨hx, ih⟩

end Staged

namespace Stages

def progress (before : Progress) (stages : List Stage) : Progress :=
  stages.foldl (fun p x => p.add x.result) before

theorem progress_cons (before : Progress) (x : Stage) (stages : List Stage) :
    progress before (x :: stages) = progress (before.add x.result) stages := rfl

theorem last_progress (before : Progress) (stages : List Stage) :
    (progress before stages).last = Staged.lastOf before.last stages := by
  induction stages generalizing before with
  | nil => rfl
  | cons x rest ih =>
    rw [progress_cons, ih, Staged.lastOf_cons]
    rfl

theorem join_output (r : Result String) : String.join (output r) = r.data.getD "" := by
  unfold output
  cases r.data with
  | none => rfl
  | some text => by_cases h : text = "" <;> simp [h, String.join]

theorem join_outputs_add (before : Progress) (x : Stage) :
    String.join (before.add x.result).outputs = String.join before.outputs ++ x.output := by
  rw [Progress.add, String.join_append, Stage.output]
  cases x.result.success with
  | true => simp [join_output]
  | false => simp [String.join]

theorem join_outputs_progress (before : Progress) (stages : List Stage) :
    String.join (progress before stages).outputs =
      String.join before.outputs ++ String.join (stages.map Stage.output) := by
  induction stages generalizing before with
  | nil => simp [progress, String.join]
  | cons x rest ih =>
    rw [progress_cons, ih, join_outputs_add, List.map_cons, String.join_cons, String.append_assoc]

theorem modified_progress (before : Progress) (stages : List Stage) :
    (progress before stages).modified =
      (before.modified || stages.any fun x => x.result.modified) := by
  induction stages generalizing before with
  | nil => simp [progress]
  | cons x rest ih =>
    rw [progress_cons, ih, List.any_cons, ← Bool.or_assoc]
    rfl

theorem complaint_of_notice (progress : Progress) :
    progress.last.toList.flatMap Result.complaint = progress.notice.toList := by
  unfold Progress.notice Result.complaint
  cases progress.last <;> simp

/-- A sequence that ends with a result has run in stages, and the result is that of the progress. -/
theorem ensures_runItems (inner : LineRunner) (c : Caller) (previous : Option Connective)
    (before : Progress) (items : List SequenceItem) (s : Shell) :
    (runItems inner c previous before items).Ensures between s fun notes r t => ∀ result,
      r = .ok result → ∃ stages, Staged between inner c previous before.last items s stages t ∧
        notes = stages.flatMap Stage.notes ∧ result = (progress before stages).result := by
  induction items generalizing previous before s with
  | nil =>
    refine Run.ensures_pure ?_
    rintro _ ⟨⟩
    exact ⟨[], .finished, rfl, rfl⟩
  | cons item rest ih =>
    -- An item that is not left out begins once the failure before it is shown.
    have hitem (hruns : isLeftOut previous before.succeeded = false) (u : Shell)
        (hu : u = s.showing (before.last.toList.flatMap Result.complaint)) :
        (runItem inner item.pipeline c >>= fun r =>
          if !r.success && endsAtFailure item.connective then pure (before.add r).result
          else runItems inner c item.connective (before.add r) rest).Ensures between u
            fun notes r t => ∀ result, r = .ok result →
              ∃ stages, Staged between inner c previous before.last (item :: rest) s stages t ∧
                notes = stages.flatMap Stage.notes ∧
                result = (progress before stages).result := by
      refine (Run.ensures_completes (runItem inner item.pipeline c) u).bind (fun notes r t hr => ?_)
        fun notes f t _ result hresult => nomatch hresult
      let x : Stage := ⟨item, before.last.toList.flatMap Result.complaint, u, notes, r, t⟩
      have hbegins : x.Begins before.last s := ⟨rfl, hu⟩
      split
      · next hends =>
        refine Run.ensures_pure ?_
        rintro _ ⟨⟩
        exact ⟨[x], .broken hruns hbegins hr hends, by simp [x], rfl⟩
      · next hgoes =>
        have hgoes : (!r.success && endsAtFailure item.connective) = false := by simpa using hgoes
        refine (ih item.connective (before.add r) t).mono fun later r' t' hlater result hr' => ?_
        obtain ⟨stages, hstages, hnotes, hprogress⟩ := hlater result hr'
        refine ⟨x :: stages, .further hruns hbegins hr hgoes hstages, ?_, hprogress⟩
        rw [hnotes, List.flatMap_cons]
    rw [runItems]
    split
    · next hleft =>
      refine (ih item.connective before s).mono fun notes r t hr result hresult => ?_
      obtain ⟨stages, hstages, hnotes, hprogress⟩ := hr result hresult
      exact ⟨stages, .leftOut hleft hstages, hnotes, hprogress⟩
    · next hruns =>
      have hcomplaint := complaint_of_notice before
      split
      · next line hnotice =>
        rw [hnotice] at hcomplaint
        exact Run.ensures_modify_bind (hitem (by simpa using hruns) _ (by rw [hcomplaint]; rfl))
      · next hnotice =>
        rw [hnotice] at hcomplaint
        refine hitem (by simpa using hruns) s ?_
        rw [hcomplaint]
        simp [Shell.showing]

/-- However a sequence is joined and whatever comes of its items: if it ends with a result, that
accounts for its stages. The data is the output of those that succeeded, in order; the flag says
whether one of them changed the tree; and each failure with words is told once, on the console
between its stage and the next one, where nothing else is done, or, if it is that of the last stage,
by the result. -/
theorem accounts_of_runItems {notes : List (Shell × Note)} {r : Result String}
    (hend : (runItems inner c none {} items s).Completes between notes (.ok r) t) :
    ∃ stages : List Stage, Staged between inner c none none items s stages t ∧
      notes = stages.flatMap Stage.notes ∧
      r.data = some (String.join (stages.map Stage.output)) ∧
      (r.modified = true ↔ ∃ x ∈ stages, x.result.modified = true) ∧
      r.problem = stages.getLast?.bind (fun x => x.result.problem) ∧
      stages.IsChain (fun x y => y.shown = x.complaint ∧ y.start = x.finish.showing y.shown) ∧
      stages.flatMap Stage.shown ++ r.complaint = stages.flatMap Stage.complaint := by
  obtain ⟨stages, hstages, hnotes, rfl⟩ := ensures_runItems inner c none {} items s _ _ _ hend r rfl
  have hlast := last_progress {} stages
  refine ⟨stages, hstages, hnotes, ?_, ?_, ?_, ?_, ?_⟩
  · rw [Progress.result, join_outputs_progress]
    simp [String.join]
  · simp [Progress.result, modified_progress]
  · rw [Progress.result, hlast]
    cases hx : stages.getLast? <;> simp [Staged.lastOf, hx]
  · refine hstages.isChain.imp fun x y hy => ⟨?_, hy.start⟩
    simpa [Stage.complaint] using hy.shown
  · have hcomplaints := hstages.complaints
    have hresult : (progress {} stages).result.complaint =
        (Staged.lastOf none stages).toList.flatMap Result.complaint := by
      rw [Result.complaint, Result.errorText, Progress.result, hlast]
      cases Staged.lastOf none stages <;> simp [Result.complaint, Result.errorText]
    rw [hresult, hcomplaints]
    rfl

def mixedItems : List SequenceItem :=
  [⟨{ segments := [⟨"nope", []⟩] }, some .either⟩,
    ⟨{ segments := [⟨"echo", ["a"]⟩] }, some .both⟩,
    ⟨{ segments := [⟨"false", []⟩] }, some .either⟩,
    ⟨{ segments := [⟨"sort", []⟩], background := true }, some .background⟩,
    ⟨{ segments := [⟨"gone", []⟩] }, some .semicolon⟩,
    ⟨{ segments := [⟨"echo", ["never"]⟩] }, none⟩]

theorem accounts_of_runItems_mixed :
    let s := Shell.bare (Catalogue.texts ++ Catalogue.general)
    let ended := (runItems Shell.execute { user := rootUser } none {} mixedItems s).through id
    ∃ r, ended.2.1 = .ok r ∧ r.data = some "a\n[1] Backgrounded.\n" ∧
      ended.2.2.console = ["nope: command not found"] ∧
      ∃ stages, Staged (fun s notes t => notes = [] ∧ t = s) Shell.execute { user := rootUser } none
          none mixedItems s stages ended.2.2 ∧
        stages.flatMap Stage.shown ++ ["gone: command not found"] =
          stages.flatMap Stage.complaint := by
  intro s ended
  have hend : (runItems Shell.execute { user := rootUser } none {} mixedItems s).Completes
      (fun s notes t => notes = [] ∧ t = s) ended.1 ended.2.1 ended.2.2 :=
    Step.completes_through (fun s => ⟨rfl, rfl⟩) _
  have hran : ended.2.1.toOption.any (fun r => r.data = some "a\n[1] Backgrounded.\n" ∧
      r.complaint = ["gone: command not found"]) = true ∧
      ended.2.2.console = ["nope: command not found"] := by decide +kernel
  obtain ⟨hresult, hconsole⟩ := hran
  generalize ended.2.1 = r at hend hresult ⊢
  cases r with
  | error f => cases hresult
  | ok r =>
    obtain ⟨hdata, hcomplaint⟩ : r.data = some "a\n[1] Backgrounded.\n" ∧
        r.complaint = ["gone: command not found"] := by simpa [Except.toOption] using hresult
    obtain ⟨stages, hstages, -, -, -, -, -, hcomplaints⟩ := accounts_of_runItems hend
    rw [hcomplaint] at hcomplaints
    exact ⟨r, rfl, hdata, hconsole, stages, hstages, hcomplaints⟩

end Stages
end MemShell
