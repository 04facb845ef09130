import Mathlib.Data.List.Infix
import Mathlib.Tactic.MkIffOfInductiveProp
import MemShell.Pipeline
set_option autoImplicit false

namespace MemShell

namespace Pipeline

def isInputSymbol (symbol : String) : Bool := symbol = "<"

def isOutputSymbol (symbol : String) : Bool := symbol = ">" || symbol = ">>"

end Pipeline

namespace Token

def isInput (t : Token) : Bool := t.isOperator && Pipeline.isInputSymbol t.text

def isOutput (t : Token) : Bool := t.isOperator && Pipeline.isOutputSymbol t.text

theorem isOperator_eq (t : Token) : t.isOperator = !t.isWord := by
  obtain ⟨kind, text, quoted⟩ := t
  cases kind <;> rfl

end Token

namespace Pipeline
variable {isFirst isLast : Bool} {d d' : Draft} {s : List Token} {ss : List (List Token)}

/-- The words of a stage that stand behind no operator; `behind` says that the first one does. -/
def commandWords (behind : Bool) : List Token → List String
  | [] => []
  | t :: s =>
    if t.isWord && !behind then t.text :: commandWords false s else commandWords t.isOperator s

def redirections : List Token → List (String × String)
  | o :: t :: s =>
    if o.isOperator && t.isWord then (o.text, t.text) :: redirections (t :: s)
    else redirections (t :: s)
  | _ => []

def inputOf (r : String × String) : Option String := if r.1 = "<" then some r.2 else none

def outputOf (r : String × String) : Option Redirect :=
  if r.1 = ">" then some ⟨r.2, false⟩ else if r.1 = ">>" then some ⟨r.2, true⟩ else none

def inputs (s : List Token) : List String := (redirections s).filterMap inputOf

def outputs (s : List Token) : List Redirect := (redirections s).filterMap outputOf

def Targeted (s : List Token) : Prop :=
  ∀ t after, t :: after <:+ s → t.isOperator = true →
    isRedirection t.text = true ∧ ∃ w ∈ after.head?, w.isWord = true

theorem targeted_iff_tails :
    Targeted s ↔ ∀ u ∈ s.tails, ∀ t ∈ u.head?, t.isOperator = true →
      isRedirection t.text = true ∧ ∃ w ∈ u.tail.head?, w.isWord = true := by
  constructor
  · intro h u hu t ht
    cases u with
    | nil => cases ht
    | cons v after =>
      obtain rfl := Option.some.inj ht
      exact h v after ((List.mem_tails _ _).mp hu)
  · exact fun h t after hsuffix => h (t :: after) ((List.mem_tails _ _).mpr hsuffix) t rfl

instance (s : List Token) : Decidable (Targeted s) := decidable_of_iff' _ targeted_iff_tails

@[mk_iff]
structure Grammatical (ss : List (List Token)) : Prop where
  nonempty : ∀ s ∈ ss, s ≠ []
  command : ∀ s ∈ ss, commandWords false s ≠ []
  targeted : ∀ s ∈ ss, Targeted s
  inputOnce : ss.flatten.countP Token.isInput ≤ 1
  inputFirst : ∀ s ∈ ss.tail, ∀ t ∈ s, t.isInput = false
  outputOnce : ss.flatten.countP Token.isOutput ≤ 1
  outputLast : ∀ s ∈ ss.dropLast, ∀ t ∈ s, t.isOutput = false

instance (ss : List (List Token)) : Decidable (Grammatical ss) :=
  decidable_of_iff' _ (grammatical_iff ss)

theorem targeted_nil : Targeted [] := by
  intro t after h
  simp at h

theorem targeted_cons_word {t : Token} (ht : t.isWord = true) :
    Targeted (t :: s) ↔ Targeted s := by
  constructor
  · exact fun h u after hsuffix => h u after (hsuffix.trans (List.suffix_cons t s))
  · intro h u after hsuffix hu
    rcases List.suffix_cons_iff.mp hsuffix with heq | hsuffix
    · obtain ⟨rfl, rfl⟩ := List.cons.inj heq
      rw [Token.isOperator_eq, ht] at hu
      cases hu
    · exact h u after hsuffix hu

theorem targeted_cons_operator {t : Token} (ht : t.isWord = false) :
    Targeted (t :: s) ↔
      isRedirection t.text = true ∧ ∃ w s', s = w :: s' ∧ w.isWord = true ∧ Targeted s' := by
  have hop : t.isOperator = true := by rw [Token.isOperator_eq, ht]; rfl
  constructor
  · intro h
    obtain ⟨hredirection, w, hw, hword⟩ := h t s List.suffix_rfl hop
    obtain ⟨s', rfl⟩ : ∃ s', s = w :: s' := by
      cases s with
      | nil => cases hw
      | cons u s' => exact ⟨s', by rw [Option.some.inj hw]⟩
    have hrest : Targeted (w :: s') := fun u after hsuffix =>
      h u after (hsuffix.trans (List.suffix_cons t _))
    exact ⟨hredirection, w, s', rfl, hword, (targeted_cons_word hword).mp hrest⟩
  · rintro ⟨hredirection, w, s', rfl, hword, hrest⟩ u after hsuffix hu
    rcases List.suffix_cons_iff.mp hsuffix with heq | hsuffix
    · obtain ⟨rfl, rfl⟩ := List.cons.inj heq
      exact ⟨hredirection, w, rfl, hword⟩
    · exact (targeted_cons_word hword).mpr hrest u after hsuffix hu

theorem commandWords_cons_word {t : Token} (ht : t.isWord = true) :
    commandWords false (t :: s) = t.text :: commandWords false s := by
  simp [commandWords, ht]

theorem commandWords_cons_target {o t : Token} (ho : o.isWord = false) (ht : t.isWord = true) :
    commandWords false (o :: t :: s) = commandWords false s := by
  simp [commandWords, Token.isOperator_eq, ho, ht]

theorem redirections_cons_word {t : Token} (ht : t.isWord = true) :
    redirections (t :: s) = redirections s := by
  cases s with
  | nil => rfl
  | cons u s => simp [redirections, Token.isOperator_eq, ht]

theorem redirections_cons_target {o t : Token} (ho : o.isWord = false) (ht : t.isWord = true) :
    redirections (o :: t :: s) = (o.text, t.text) :: redirections s := by
  rw [redirections, redirections_cons_word ht]
  simp [Token.isOperator_eq, ho, ht]

theorem ne_nil_of_commandWords (h : commandWords false s ≠ []) : s ≠ [] := by
  rintro rfl
  exact h rfl

theorem map_fst_redirections : ∀ {s : List Token}, Targeted s →
    (redirections s).map Prod.fst = (s.filter Token.isOperator).map Token.text
  | [], _ => rfl
  | t :: s, h => by
    cases ht : t.isWord with
    | true =>
      have hrest := map_fst_redirections ((targeted_cons_word ht).mp h)
      rw [redirections_cons_word ht, hrest]
      simp [Token.isOperator_eq, ht]
    | false =>
      obtain ⟨-, w, s', rfl, hw, htargeted⟩ := (targeted_cons_operator ht).mp h
      have hrest := map_fst_redirections htargeted
      rw [redirections_cons_target ht hw, List.map_cons, hrest]
      simp [Token.isOperator_eq, ht, hw]

section
variable {α : Type} {f : String × String → Option α} {p : String → Bool}
  (hf : ∀ r, (f r).isSome = p r.1)
include hf

theorem length_filterMap_redirections (h : Targeted s) :
    ((redirections s).filterMap f).length = s.countP fun t => t.isOperator && p t.text := by
  calc ((redirections s).filterMap f).length
    _ = (redirections s).countP fun r => p r.1 := by
      simp only [List.length_filterMap_eq_countP, hf]
    _ = ((redirections s).map Prod.fst).countP p := List.countP_map.symm
    _ = ((s.filter Token.isOperator).map Token.text).countP p := by rw [map_fst_redirections h]
    _ = s.countP fun t => t.isOperator && p t.text := by
      rw [List.countP_map, List.countP_filter]
      simp only [Function.comp_apply, Bool.and_comm]

theorem filterMap_redirections_eq_nil_iff (h : Targeted s) :
    (redirections s).filterMap f = [] ↔ ∀ t ∈ s, (t.isOperator && p t.text) = false := by
  rw [← List.length_eq_zero_iff, length_filterMap_redirections hf h, List.countP_eq_zero]
  simp

theorem length_flatMap_redirections (h : ∀ s ∈ ss, Targeted s) :
    (ss.flatMap fun s => (redirections s).filterMap f).length =
      ss.flatten.countP fun t => t.isOperator && p t.text := by
  rw [List.length_flatMap, List.countP_flatten]
  congr 1
  exact List.map_congr_left fun s hs => length_filterMap_redirections hf (h s hs)

end

theorem isSome_inputOf (r : String × String) : (inputOf r).isSome = isInputSymbol r.1 := by
  rw [inputOf, isInputSymbol]
  split <;> simp_all

theorem isSome_outputOf (r : String × String) : (outputOf r).isSome = isOutputSymbol r.1 := by
  rw [outputOf, isOutputSymbol]
  split
  · simp_all
  split <;> simp_all

/-- The grammar in terms of what is read. -/
theorem grammatical_iff_read :
    Grammatical ss ↔ (∀ s ∈ ss, Targeted s) ∧ (∀ s ∈ ss, commandWords false s ≠ []) ∧
      ((ss.flatMap inputs).length ≤ 1 ∧ ∀ s ∈ ss.tail, inputs s = []) ∧
      ((ss.flatMap outputs).length ≤ 1 ∧ ∀ s ∈ ss.dropLast, outputs s = []) := by
  have hlengths (h : ∀ s ∈ ss, Targeted s) :
      (ss.flatMap inputs).length = ss.flatten.countP Token.isInput ∧
        (ss.flatMap outputs).length = ss.flatten.countP Token.isOutput :=
    ⟨length_flatMap_redirections isSome_inputOf h, length_flatMap_redirections isSome_outputOf h⟩
  have hnone {s : List Token} (h : Targeted s) :
      (inputs s = [] ↔ ∀ t ∈ s, t.isInput = false) ∧
        (outputs s = [] ↔ ∀ t ∈ s, t.isOutput = false) :=
    ⟨filterMap_redirections_eq_nil_iff isSome_inputOf h,
      filterMap_redirections_eq_nil_iff isSome_outputOf h⟩
  constructor
  · intro h
    refine ⟨h.targeted, h.command, ⟨?_, fun s hs => ?_⟩, ?_, fun s hs => ?_⟩
    · rw [(hlengths h.targeted).1]
      exact h.inputOnce
    · exact (hnone (h.targeted s (List.mem_of_mem_tail hs))).1.mpr (h.inputFirst s hs)
    · rw [(hlengths h.targeted).2]
      exact h.outputOnce
    · exact (hnone (h.targeted s (List.dropLast_subset ss hs))).2.mpr (h.outputLast s hs)
  · rintro ⟨htargeted, hcommand, ⟨hinput, hfirst⟩, houtput, hlast⟩
    rw [(hlengths htargeted).1] at hinput
    rw [(hlengths htargeted).2] at houtput
    exact {
      nonempty := fun s hs => ne_nil_of_commandWords (hcommand s hs)
      command := hcommand
      targeted := htargeted
      inputOnce := hinput
      inputFirst := fun s hs =>
        (hnone (htargeted s (List.mem_of_mem_tail hs))).1.mp (hfirst s hs)
      outputOnce := houtput
      outputLast := fun s hs =>
        (hnone (htargeted s (List.dropLast_subset ss hs))).2.mp (hlast s hs) }

end Pipeline
end MemShell
