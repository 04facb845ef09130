import Mathlib.Data.List.DropRight
import MemShell.Proofs.Faults
import MemShell.Proofs.Line.References
import MemShell.Proofs.Line.Sequences
set_option autoImplicit false

namespace MemShell

namespace Pipeline

theorem faultsAre_unexpected {α : Type} (text : String) :
    FaultsAre Fault.IsGrammar (unexpected text : Except Fault α) :=
  faultsAre_error (Fault.isGrammar_grammar _)

theorem faultsAre_redirect (isFirst isLast : Bool) (symbol path : String) (d : Draft) :
    FaultsAre Fault.IsGrammar (redirect isFirst isLast symbol path d) := by
  have hgrammar (g : GrammarFault) :
      FaultsAre Fault.IsGrammar (.error (.grammar g) : Except Fault Draft) :=
    faultsAre_error (Fault.isGrammar_grammar g)
  rw [redirect]
  split
  · split
    · exact hgrammar _
    split
    · exact hgrammar _
    · exact faultsAre_ok _
  · split
    · exact hgrammar _
    split
    · exact hgrammar _
    · exact faultsAre_ok _

theorem faultsAre_readStage (isFirst isLast : Bool) (d : Draft) (s : List Token) :
    FaultsAre Fault.IsGrammar (readStage isFirst isLast d s) := by
  fun_induction readStage isFirst isLast d s with
  | case1 => exact faultsAre_ok _
  | case2 => exact faultsAre_ok _
  | case3 d t s ht f hread ih => exact faultsAre_error (ih f hread)
  | case4 => exact faultsAre_unexpected _
  | case5 => exact faultsAre_unexpected _
  | case6 => exact faultsAre_unexpected _
  | case7 d t ht hop w s hw e hredirect ih => exact ih
  | case8 d t ht hop w s hw f hredirect =>
    exact faultsAre_error (faultsAre_redirect isFirst isLast _ _ d f hredirect)

theorem faultsAre_readStages (isFirst : Bool) (d : Draft) (ss : List (List Token)) :
    FaultsAre Fault.IsGrammar (readStages isFirst d ss) := by
  fun_induction readStages isFirst d ss with
  | case1 => exact faultsAre_ok _
  | case2 isFirst d s ss f hread =>
    exact faultsAre_error (faultsAre_readStage isFirst ss.isEmpty d s f hread)
  | case3 => exact faultsAre_error (Fault.isGrammar_grammar _)
  | case4 => exact faultsAre_ok _
  | case5 isFirst d s ss name args e hread f hrest ih => exact faultsAre_error (ih f hrest)

theorem faultsAre_ofTokens (ts : List Token) : FaultsAre Fault.IsGrammar (ofTokens ts) := by
  have hcheck : FaultsAre Fault.IsGrammar (checkStages (stages ts)) := by
    rw [checkStages]
    split
    · exact faultsAre_unexpected _
    · exact faultsAre_ok _
  exact hcheck.bind fun _ _ =>
    (faultsAre_readStages true {} (stages ts)).bind fun _ _ => faultsAre_ok _

def IsPipeline (g : List Token) : Prop := ∃ p, ofTokens g = .ok p

theorem not_isPipeline_nil : ¬ IsPipeline [] := by
  rintro ⟨p, hp⟩
  cases hp

end Pipeline

namespace SequenceItem
open Pipeline Line
variable {g pre post ts rest : List Token} {t : Token} {c : Connective}
  {previous : Option Connective}

theorem faultsAre_ofTokensFrom (group : List Token) (previous : Option Connective)
    (ts : List Token) : FaultsAre Fault.IsGrammar (ofTokensFrom group previous ts) := by
  fun_induction ofTokensFrom group previous ts with
  | case1 => exact faultsAre_ok _
  | case2 group previous hgroup f hread =>
    exact faultsAre_error (Pipeline.faultsAre_ofTokens group f hread)
  | case3 => exact faultsAre_unexpected _
  | case4 => exact faultsAre_ok _
  | case5 => assumption
  | case6 => assumption
  | case7 => exact faultsAre_unexpected _
  | case8 group previous t ts op hop hgroup f hread =>
    exact faultsAre_error (Pipeline.faultsAre_ofTokens group f hread)
  | case9 => exact faultsAre_ok _
  | case10 group previous t ts op hop hgroup p hread f hrest ih =>
    exact faultsAre_error (ih f hrest)

def isConnective (t : Token) : Bool := (connective? t).isSome

def operandBefore (pre : List Token) : List Token := pre.rtakeWhile (!isConnective ·)

def operandAfter (post : List Token) : List Token := post.takeWhile (!isConnective ·)

/-- Tokens of a sequence. Every operand that is there is a pipeline; it has to be there in front of
`&&`, `||` and `&`, and behind `&&` and `||`, unless these have a semicolon directly behind them. -/
structure Joined (ts : List Token) : Prop where
  operands : ∀ g ∈ ts.splitOnP isConnective, g ≠ [] → IsPipeline g
  before : ∀ pre t post c, ts = pre ++ t :: post → connective? t = some c → c ≠ .semicolon →
    IsPipeline (operandBefore pre)
  after : ∀ pre t post c, ts = pre ++ t :: post → connective? t = some c →
    c = .both ∨ c = .either →
      IsPipeline (operandAfter post) ∨ ∃ u ∈ post.head?, connective? u = some .semicolon

theorem isConnective_of_connective? (h : connective? t = some c) : isConnective t = true := by
  rw [isConnective, h]
  rfl

theorem connective?_eq_none (h : isConnective t = false) : connective? t = none := by
  simpa [isConnective] using h

theorem exists_first_connective (ts : List Token) :
    (∀ t ∈ ts, isConnective t = false) ∨ ∃ g t rest c, ts = g ++ t :: rest ∧
      (∀ u ∈ g, isConnective u = false) ∧ connective? t = some c := by
  have hsplit := List.takeWhile_append_dropWhile (p := (!isConnective ·)) (l := ts)
  have hfront : ∀ u ∈ ts.takeWhile (!isConnective ·), isConnective u = false := fun u hu => by
    simpa using List.mem_takeWhile_imp hu
  cases hrest : ts.dropWhile (!isConnective ·) with
  | nil =>
    rw [hrest, List.append_nil] at hsplit
    rw [hsplit] at hfront
    exact .inl hfront
  | cons t rest =>
    have hhead := List.head?_dropWhile_not (!isConnective ·) ts
    rw [hrest] at hsplit hhead
    have ht : isConnective t = true := by simpa using hhead
    obtain ⟨c, hc⟩ := Option.isSome_iff_exists.mp ht
    exact .inr ⟨_, t, rest, c, hsplit.symm, hfront, hc⟩

theorem head?_splitOnP (post : List Token) :
    (post.splitOnP isConnective).head? = some (operandAfter post) := by
  induction post with
  | nil => rfl
  | cons t post ih =>
    rw [List.splitOnP_cons_eq_if_modifyHead, operandAfter]
    cases ht : isConnective t with
    | true => simp [ht]
    | false => simp [ht, ih, operandAfter]

theorem operandAfter_mem (post : List Token) : operandAfter post ∈ post.splitOnP isConnective :=
  List.mem_of_mem_head? (head?_splitOnP post)

/-- Where an operator stands in a text whose first one is known. -/
theorem split_connective {u : Token} (hg : ∀ v ∈ g, isConnective v = false)
    (h : g ++ t :: rest = pre ++ u :: post) (hu : isConnective u = true) :
    (pre = g ∧ u = t ∧ post = rest) ∨
      ∃ between, pre = g ++ t :: between ∧ rest = between ++ u :: post := by
  rcases List.append_eq_append_iff.mp h with ⟨between, rfl, htail⟩ | ⟨between, rfl, htail⟩
  · cases between with
    | nil =>
      obtain ⟨rfl, rfl⟩ := List.cons.inj htail
      exact .inl ⟨by simp, rfl, rfl⟩
    | cons v between =>
      obtain ⟨rfl, rfl⟩ := List.cons.inj htail
      exact .inr ⟨between, rfl, rfl⟩
  · cases between with
    | nil =>
      obtain ⟨rfl, rfl⟩ := List.cons.inj htail
      exact .inl ⟨by simp, rfl, rfl⟩
    | cons v between =>
      obtain ⟨rfl, -⟩ := List.cons.inj htail
      rw [hg u (by simp)] at hu
      cases hu

theorem operandBefore_append_cons (ht : isConnective t = true) (g between : List Token) :
    operandBefore (g ++ t :: between) = operandBefore between := by
  have hreverse : (g ++ t :: between).reverse = between.reverse ++ t :: g.reverse := by simp
  rw [operandBefore, List.rtakeWhile, hreverse, takeWhile_append_cons (by simp [ht])]
  rfl

theorem operandBefore_of_none (hg : ∀ u ∈ g, isConnective u = false) : operandBefore g = g := by
  rw [operandBefore, List.rtakeWhile_eq_self_iff]
  intro u hu
  simp [hg u hu]

theorem joined_of_none (hg : ∀ u ∈ g, isConnective u = false) :
    Joined g ↔ (g ≠ [] → IsPipeline g) := by
  have hsplit : g.splitOnP isConnective = [g] := List.splitOnP_eq_singleton hg
  have hnot {pre post : List Token} {u : Token} (h : g = pre ++ u :: post) (c : Connective) :
      connective? u ≠ some c := by
    intro hu
    have := hg u (by simp [h])
    rw [isConnective_of_connective? hu] at this
    cases this
  constructor
  · exact fun h hne => h.operands g (by simp [hsplit]) hne
  · intro h
    refine ⟨fun g' hg' => ?_, fun _ _ _ c hsplit hu => absurd hu (hnot hsplit c),
      fun _ _ _ c hsplit hu => absurd hu (hnot hsplit c)⟩
    rw [hsplit, List.mem_singleton] at hg'
    rwa [hg']

/-- A sequence begins with a pipeline or a semicolon. -/
theorem Joined.operandAfter_or (h : Joined ts) (hne : ts ≠ []) :
    IsPipeline (operandAfter ts) ∨ ∃ u ∈ ts.head?, connective? u = some .semicolon := by
  by_cases hafter : operandAfter ts = []
  · right
    obtain ⟨u, more, rfl⟩ := List.exists_cons_of_ne_nil hne
    have hu : isConnective u = true := by simpa [operandAfter] using hafter
    obtain ⟨c, hc⟩ := Option.isSome_iff_exists.mp hu
    refine ⟨u, rfl, ?_⟩
    by_contra hsemicolon
    have hbefore := h.before [] u more c rfl hc (by rintro rfl; exact hsemicolon hc)
    exact not_isPipeline_nil hbefore
  · exact .inl (h.operands _ (operandAfter_mem ts) hafter)

theorem joined_append_cons (hg : ∀ u ∈ g, isConnective u = false) (ht : connective? t = some c) :
    Joined (g ++ t :: rest) ↔
      (c ≠ .semicolon → g ≠ []) ∧ (g ≠ [] → IsPipeline g) ∧
        (c = .both ∨ c = .either → rest ≠ []) ∧ Joined rest := by
  have hconnective := isConnective_of_connective? ht
  have hsplit : (g ++ t :: rest).splitOnP isConnective = g :: rest.splitOnP isConnective :=
    List.splitOnP_append_cons_of_forall_mem hg t hconnective rest
  constructor
  · intro h
    refine ⟨fun hc hnil => ?_, fun hne => h.operands g (by simp [hsplit]) hne,
      fun hc hnil => ?_, ?_⟩
    · have := h.before g t rest c rfl ht hc
      rw [operandBefore_of_none hg, hnil] at this
      exact not_isPipeline_nil this
    · rcases h.after g t rest c rfl ht hc with hafter | ⟨u, hu, -⟩
      · rw [hnil] at hafter
        exact not_isPipeline_nil hafter
      · rw [hnil] at hu
        cases hu
    · refine ⟨fun g' hg' => h.operands g' (by simp [hsplit, hg']), ?_, ?_⟩
      · intro pre u post c' hrest hu hc'
        have := h.before (g ++ t :: pre) u post c' (by rw [hrest]; simp) hu hc'
        rwa [operandBefore_append_cons hconnective] at this
      · intro pre u post c' hrest hu hc'
        exact h.after (g ++ t :: pre) u post c' (by rw [hrest]; simp) hu hc'
  · rintro ⟨hneeds, hpipeline, hends, hrest⟩
    refine ⟨fun g' hg' => ?_, ?_, ?_⟩
    · rw [hsplit, List.mem_cons] at hg'
      rcases hg' with rfl | hg'
      · exact hpipeline
      · exact hrest.operands g' hg'
    · intro pre u post c' heq hu hc'
      rcases split_connective hg heq (isConnective_of_connective? hu) with
        ⟨rfl, rfl, rfl⟩ | ⟨between, rfl, hbetween⟩
      · obtain rfl := Option.some.inj (ht.symm.trans hu)
        rw [operandBefore_of_none hg]
        exact hpipeline (hneeds hc')
      · rw [operandBefore_append_cons hconnective]
        exact hrest.before between u post c' hbetween hu hc'
    · intro pre u post c' heq hu hc'
      rcases split_connective hg heq (isConnective_of_connective? hu) with
        ⟨rfl, rfl, rfl⟩ | ⟨between, rfl, hbetween⟩
      · obtain rfl := Option.some.inj (ht.symm.trans hu)
        exact hrest.operandAfter_or (hends hc')
      · exact hrest.after between u post c' hbetween hu hc'

theorem accepts_of_none (hg : ∀ u ∈ g, isConnective u = false) :
    (∃ items, ofTokensFrom [] previous g = .ok items) ↔
      (g ≠ [] → IsPipeline g) ∧
        (g = [] → previous ≠ some .both ∧ previous ≠ some .either) := by
  have hread : ofTokensFrom [] previous g = ofTokensFrom g previous [] := by
    have h : ofTokensFrom [] previous (g ++ []) = ofTokensFrom ([] ++ g) previous [] :=
      ofTokensFrom_append (fun u hu => connective?_eq_none (hg u hu)) [] []
    rwa [List.append_nil] at h
  rw [hread, ofTokensFrom]
  cases g with
  | nil =>
    by_cases hprevious : previous = some .both ∨ previous = some .either
    · simp [hprevious, unexpected, ← not_or]
    · simp [hprevious, ← not_or]
  | cons u g =>
    cases hpipeline : Pipeline.ofTokens (u :: g) <;> simp [hpipeline, IsPipeline]

theorem accepts_append_cons (hg : ∀ u ∈ g, isConnective u = false) (ht : connective? t = some c) :
    (∃ items, ofTokensFrom [] previous (g ++ t :: rest) = .ok items) ↔
      (c ≠ .semicolon → g ≠ []) ∧ (g ≠ [] → IsPipeline g) ∧
        ∃ items, ofTokensFrom [] (some c) rest = .ok items := by
  rw [ofTokensFrom_append (fun u hu => connective?_eq_none (hg u hu)), List.nil_append,
    ofTokensFrom, ht]
  dsimp only
  cases g with
  | nil =>
    by_cases hc : c = .semicolon
    · simp [hc]
    · simp [hc, unexpected]
  | cons u g =>
    cases hpipeline : Pipeline.ofTokens (u :: g) with
    | error f => simp [IsPipeline, hpipeline]
    | ok p => cases ofTokensFrom [] (some c) rest <;> simp [IsPipeline, hpipeline]

theorem accepts_iff :
    (∃ items, ofTokensFrom [] previous ts = .ok items) ↔
      Joined ts ∧ (ts = [] → previous ≠ some .both ∧ previous ≠ some .either) := by
  -- The first operator cuts one operand off, and what is behind it is shorter.
  induction hn : ts.length using Nat.strongRecOn generalizing ts previous with
  | ind n ih =>
    subst hn
    rcases exists_first_connective ts with hnone | ⟨g, t, rest, c, rfl, hg, ht⟩
    · rw [accepts_of_none hnone, joined_of_none hnone]
    · have hshorter : rest.length < (g ++ t :: rest).length := by
        rw [List.length_append, List.length_cons]
        omega
      rw [accepts_append_cons hg ht, joined_append_cons hg ht, ih rest.length hshorter rfl]
      have hends : (rest = [] → some c ≠ some .both ∧ some c ≠ some .either) ↔
          (c = .both ∨ c = .either → rest ≠ []) := by
        simp only [ne_eq, Option.some.injEq, ← not_or]
        exact ⟨fun h hc hrest => h hrest hc, fun h hrest hc => h hc hrest⟩
      rw [hends, and_comm (b := _ → rest ≠ [])]
      simp

/-- What is behind an operator is read without regard to the operator, unless nothing is there. -/
theorem ofTokensFrom_congr {group : List Token} (h : group ≠ [] ∨ ts ≠ [])
    (previous previous' : Option Connective) :
    ofTokensFrom group previous ts = ofTokensFrom group previous' ts := by
  induction ts generalizing group with
  | nil =>
    have hgroup : group ≠ [] := h.resolve_right fun hnil => hnil rfl
    simp [ofTokensFrom, hgroup]
  | cons t ts ih =>
    rw [ofTokensFrom, ofTokensFrom]
    cases connective? t with
    | none => exact ih (.inl (by simp))
    | some c => rfl

/-- A semicolon behind an operator is left out, if anything follows. -/
theorem ofTokens_semicolon {semicolon : Token} (ht : connective? t = some c)
    (hsemicolon : connective? semicolon = some .semicolon) (hpost : post ≠ []) :
    ofTokens (pre ++ t :: semicolon :: post) = ofTokens (pre ++ t :: post) := by
  suffices h : ∀ group previous, ofTokensFrom group previous (pre ++ t :: semicolon :: post) =
      ofTokensFrom group previous (pre ++ t :: post) from h [] none
  induction pre with
  | nil =>
    intro group previous
    have hdrop : ofTokensFrom [] (some c) (semicolon :: post) = ofTokensFrom [] (some c) post := by
      rw [ofTokensFrom, hsemicolon]
      exact ofTokensFrom_congr (.inr hpost) _ _
    simp only [List.nil_append]
    rw [ofTokensFrom.eq_def _ _ (t :: semicolon :: post), ofTokensFrom.eq_def _ _ (t :: post)]
    simp only [ht, hdrop]
  | cons u pre ih =>
    intro group previous
    simp only [List.cons_append, ofTokensFrom, ih]

/-- Tokens are read as a sequence exactly where no operand is missing but for one that a semicolon
hides, and all others stop at a fault of the grammar. -/
theorem ofTokens_iff_joined (ts : List Token) :
    ((∃ items, ofTokens ts = .ok items) ↔ Joined ts) ∧
      (¬ Joined ts ↔ ∃ f, ofTokens ts = .error (.grammar f)) := by
  have haccepts : (∃ items, ofTokens ts = .ok items) ↔ Joined ts := by
    rw [ofTokens, accepts_iff]
    simp
  refine ⟨haccepts, ?_⟩
  rw [← haccepts]
  cases hread : ofTokens ts with
  | ok items => simp
  | error f =>
    obtain ⟨g, rfl⟩ := faultsAre_ofTokensFrom [] none ts f hread
    simp

-- Nothing but a semicolon stands behind the operator.
example :
    ofTokens [.word "echo", .operator "&&", .operator ";"] =
        .ok [⟨{ segments := [⟨"echo", []⟩] }, some .both⟩] ∧
      ofTokens [.word "echo", .operator "&&"] =
        .error (.grammar (.unexpectedToken "")) := by
  decide

end SequenceItem
end MemShell
