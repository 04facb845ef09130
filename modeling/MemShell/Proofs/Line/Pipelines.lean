import MemShell.Proofs.Line.Grammar
import MemShell.Proofs.Line.Sequences
set_option autoImplicit false

namespace MemShell.Pipeline
variable {isFirst isLast : Bool} {d d' : Draft} {s : List Token} {ss : List (List Token)}

/-- What redirections of one kind, where they are allowed at all, make of the one read before. An
optional value is a list of at most one, so that the equation leaves room for one redirection. -/
def Grows {α : Type} (allowed : Bool) (before : Option α) (xs : List α) (after : Option α) : Prop :=
  after.toList = before.toList ++ xs ∧ (xs ≠ [] → allowed = true)

section
variable {α : Type} {allowed allowed' : Bool} {before after : Option α} {xs ys : List α}

theorem toList_injective : Function.Injective (Option.toList (α := α)) := by
  intro o o' h
  cases o <;> cases o' <;> simp_all

theorem exists_toList_eq (h : xs.length ≤ 1) : ∃ o : Option α, o.toList = xs := by
  match xs, h with
  | [], _ => exact ⟨none, rfl⟩
  | [a], _ => exact ⟨some a, rfl⟩

theorem grows_nil : Grows allowed before [] after ↔ after = before := by
  simp [Grows, toList_injective.eq_iff]

theorem grows_singleton {a : α} :
    Grows allowed before [a] after ↔ allowed = true ∧ before = none ∧ after = some a := by
  cases before <;> cases after <;> simp [Grows, and_comm]

theorem grows_false : Grows false before xs after ↔ xs = [] ∧ after = before := by
  constructor
  · rintro ⟨hafter, hxs⟩
    obtain rfl : xs = [] := by simpa using hxs
    exact ⟨rfl, grows_nil.mp ⟨hafter, hxs⟩⟩
  · rintro ⟨rfl, rfl⟩
    exact grows_nil.mpr rfl

/-- Redirections are read in parts, which may be allowed in different places. -/
theorem exists_grows_iff :
    (∃ between, Grows allowed before xs between ∧ Grows allowed' between ys after) ↔
      after.toList = before.toList ++ (xs ++ ys) ∧ (xs ≠ [] → allowed = true) ∧
        (ys ≠ [] → allowed' = true) := by
  constructor
  · rintro ⟨between, ⟨hbetween, hxs⟩, hafter, hys⟩
    exact ⟨by rw [hafter, hbetween, List.append_assoc], hxs, hys⟩
  · rintro ⟨hafter, hxs, hys⟩
    have hlength : (before.toList ++ xs).length ≤ 1 := by
      have hle : after.toList.length ≤ 1 := Option.length_toList_le
      rw [hafter] at hle
      simp only [List.length_append] at hle ⊢
      omega
    obtain ⟨between, hbetween⟩ := exists_toList_eq hlength
    exact ⟨between, ⟨hbetween, hxs⟩, by rw [hafter, hbetween, List.append_assoc], hys⟩

theorem exists_grows_append :
    (∃ between, Grows allowed before xs between ∧ Grows allowed between ys after) ↔
      Grows allowed before (xs ++ ys) after := by
  rw [exists_grows_iff, Grows, ← or_imp, Ne, Ne, ← not_and_or, ← List.append_eq_nil_iff]

end

def Adds (isFirst isLast : Bool) (d : Draft) (rs : List (String × String)) (d' : Draft) : Prop :=
  Grows isFirst d.input (rs.filterMap inputOf) d'.input ∧
    Grows isLast d.output (rs.filterMap outputOf) d'.output

theorem adds_nil : Adds isFirst isLast d [] d' ↔ d' = d := by
  obtain ⟨input, output⟩ := d
  obtain ⟨input', output'⟩ := d'
  simp [Adds, grows_nil]

theorem adds_cons {r : String × String} {rs : List (String × String)} :
    (∃ e, Adds isFirst isLast d [r] e ∧ Adds isFirst isLast e rs d') ↔
      Adds isFirst isLast d (r :: rs) d' := by
  have hcons {α : Type} (f : String × String → Option α) :
      (r :: rs).filterMap f = [r].filterMap f ++ rs.filterMap f := List.filterMap_append (l := [r])
  rw [Adds, hcons, hcons, ← exists_grows_append, ← exists_grows_append]
  constructor
  · rintro ⟨e, ⟨hinput, houtput⟩, hinput', houtput'⟩
    exact ⟨⟨e.input, hinput, hinput'⟩, e.output, houtput, houtput'⟩
  · rintro ⟨⟨input, hinput, hinput'⟩, output, houtput, houtput'⟩
    exact ⟨⟨input, output⟩, ⟨hinput, houtput⟩, hinput', houtput'⟩

theorem redirect_eq_ok_iff {symbol path : String} (h : isRedirection symbol = true) :
    redirect isFirst isLast symbol path d = .ok d' ↔
      Adds isFirst isLast d [(symbol, path)] d' := by
  obtain ⟨input, output⟩ := d
  obtain ⟨input', output'⟩ := d'
  simp only [isRedirection, Bool.or_eq_true, decide_eq_true_eq] at h
  rcases h with (rfl | rfl) | rfl
  · cases isFirst <;> cases input <;>
      simp [redirect, Adds, inputOf, outputOf, grows_nil, grows_singleton, eq_comm]
  · cases isLast <;> cases output <;>
      simp [redirect, Adds, inputOf, outputOf, grows_nil, grows_singleton, eq_comm]
  · cases isLast <;> cases output <;>
      simp [redirect, Adds, inputOf, outputOf, grows_nil, grows_singleton, eq_comm]

theorem readStage_cons_word {t : Token} (ht : t.isWord = true) {words : List String} :
    readStage isFirst isLast d (t :: s) = .ok (words, d') ↔
      ∃ ws, readStage isFirst isLast d s = .ok (ws, d') ∧ words = t.text :: ws := by
  rw [readStage.eq_def _ _ _ (t :: s)]
  simp only [ht, if_true]
  cases readStage isFirst isLast d s with
  | error f => simp
  | ok r =>
    obtain ⟨ws, e⟩ := r
    simp [and_comm, eq_comm]

theorem readStage_cons_target {o t : Token} (ho : o.isWord = false)
    (hredirection : isRedirection o.text = true) (ht : t.isWord = true) {words : List String} :
    readStage isFirst isLast d (o :: t :: s) = .ok (words, d') ↔
      ∃ e, redirect isFirst isLast o.text t.text d = .ok e ∧
        readStage isFirst isLast e s = .ok (words, d') := by
  rw [readStage]
  cases redirect isFirst isLast o.text t.text d <;> simp [ho, hredirection, ht]

theorem readStage_cons_other {t : Token} (ht : t.isWord = false)
    (hredirection : isRedirection t.text = false) :
    readStage isFirst isLast d (t :: s) = unexpected t.text := by
  unfold readStage
  simp [ht, hredirection]

theorem readStage_eq_ok_iff {words : List String} :
    readStage isFirst isLast d s = .ok (words, d') ↔
      Targeted s ∧ words = commandWords false s ∧ Adds isFirst isLast d (redirections s) d' := by
  induction hn : s.length using Nat.strongRecOn generalizing s d words with
  | ind n ih =>
    subst hn
    cases s with
    | nil => simp [readStage, targeted_nil, commandWords, redirections, adds_nil, eq_comm]
    | cons t s =>
      cases ht : t.isWord with
      | true =>
        rw [readStage_cons_word ht, targeted_cons_word ht, commandWords_cons_word ht,
          redirections_cons_word ht]
        simp only [ih s.length (Nat.lt_succ_self _) rfl]
        constructor
        · rintro ⟨ws, ⟨htargeted, rfl, hadds⟩, rfl⟩
          exact ⟨htargeted, rfl, hadds⟩
        · rintro ⟨htargeted, rfl, hadds⟩
          exact ⟨_, ⟨htargeted, rfl, hadds⟩, rfl⟩
      | false =>
        rw [targeted_cons_operator ht]
        cases hredirection : isRedirection t.text with
        | false => simp [readStage_cons_other ht hredirection, unexpected]
        | true =>
          cases s with
          | nil => simp [readStage, ht, hredirection, unexpected]
          | cons w s =>
            cases hw : w.isWord with
            | false => simp [readStage, ht, hredirection, hw, unexpected]
            | true =>
              rw [readStage_cons_target ht hredirection hw, commandWords_cons_target ht hw,
                redirections_cons_target ht hw, ← adds_cons]
              have hshorter : s.length < (t :: w :: s).length := by
                rw [List.length_cons, List.length_cons]
                omega
              simp only [redirect_eq_ok_iff hredirection, ih s.length hshorter rfl]
              constructor
              · rintro ⟨e, hfirst, htargeted, hwords, hrest⟩
                exact ⟨⟨trivial, w, s, rfl, hw, htargeted⟩, hwords, e, hfirst, hrest⟩
              · rintro ⟨⟨-, u, s', heq, -, htargeted⟩, hwords, e, hfirst, hrest⟩
                obtain ⟨rfl, rfl⟩ := List.cons.inj heq
                exact ⟨e, hfirst, htargeted, hwords, hrest⟩

section
variable {α : Type} {f : List Token → List α} {before after : Option α}

def OnlyFirst (f : List Token → List α) (isFirst : Bool) (before : Option α)
    (ss : List (List Token)) (after : Option α) : Prop :=
  Grows isFirst before (ss.flatMap f) after ∧ ∀ s ∈ ss.tail, f s = []

def OnlyLast (f : List Token → List α) (before : Option α) (ss : List (List Token))
    (after : Option α) : Prop :=
  Grows true before (ss.flatMap f) after ∧ ∀ s ∈ ss.dropLast, f s = []

theorem onlyFirst_cons :
    (∃ between, Grows isFirst before (f s) between ∧ OnlyFirst f false between ss after) ↔
      OnlyFirst f isFirst before (s :: ss) after := by
  have hnone {between : Option α} : Grows false between (ss.flatMap f) after ↔
      after = between ∧ ∀ u ∈ ss, f u = [] := by
    rw [grows_false, List.flatMap_eq_nil_iff, and_comm]
  constructor
  · rintro ⟨between, hs, hrest, -⟩
    obtain ⟨rfl, hnil⟩ := hnone.mp hrest
    refine ⟨?_, hnil⟩
    rwa [List.flatMap_cons, List.flatMap_eq_nil_iff.mpr hnil, List.append_nil]
  · rintro ⟨hgrows, hnil⟩
    rw [List.tail_cons] at hnil
    rw [List.flatMap_cons, List.flatMap_eq_nil_iff.mpr hnil, List.append_nil] at hgrows
    exact ⟨after, hgrows, hnone.mpr ⟨rfl, hnil⟩, fun u hu => hnil u (List.mem_of_mem_tail hu)⟩

theorem onlyLast_cons :
    (∃ between, Grows ss.isEmpty before (f s) between ∧ OnlyLast f between ss after) ↔
      OnlyLast f before (s :: ss) after := by
  cases ss with
  | nil => simp [OnlyLast, grows_nil]
  | cons u us =>
    simp only [List.isEmpty_cons, grows_false]
    constructor
    · rintro ⟨between, ⟨hs, rfl⟩, hgrows, hnil⟩
      refine ⟨?_, ?_⟩
      · rwa [List.flatMap_cons, hs, List.nil_append]
      · rw [List.dropLast_cons_cons]
        exact List.forall_mem_cons.mpr ⟨hs, hnil⟩
    · rintro ⟨hgrows, hnil⟩
      rw [List.dropLast_cons_cons] at hnil
      obtain ⟨hs, hnil⟩ := List.forall_mem_cons.mp hnil
      rw [List.flatMap_cons, hs, List.nil_append] at hgrows
      exact ⟨before, ⟨hs, rfl⟩, hgrows, hnil⟩

end

theorem readStages_cons {segments : List Segment} :
    readStages isFirst d (s :: ss) = .ok (segments, d') ↔
      ∃ seg segs e, readStage isFirst ss.isEmpty d s = .ok (Segment.words seg, e) ∧
        readStages false e ss = .ok (segs, d') ∧ segments = seg :: segs := by
  constructor
  · intro h
    rw [readStages] at h
    split at h
    · cases h
    · cases h
    · next name args e hread =>
      split at h
      · next segs e' hrest =>
        obtain ⟨rfl, rfl⟩ := Prod.mk.inj (Except.ok.inj h)
        exact ⟨⟨name, args⟩, segs, e, hread, hrest, rfl⟩
      · cases h
  · rintro ⟨⟨name, args⟩, segs, e, hread, hrest, rfl⟩
    rw [readStages, hread]
    simp only [Segment.words, hrest]

theorem readStages_eq_ok_iff {segments : List Segment} :
    readStages isFirst d ss = .ok (segments, d') ↔
      (∀ s ∈ ss, Targeted s) ∧ segments.map Segment.words = ss.map (commandWords false) ∧
        OnlyFirst inputs isFirst d.input ss d'.input ∧
        OnlyLast outputs d.output ss d'.output := by
  induction ss generalizing isFirst d segments with
  | nil =>
    obtain ⟨input, output⟩ := d
    obtain ⟨input', output'⟩ := d'
    have hcomm : input = input' ∧ output = output' ↔ input' = input ∧ output' = output := by
      rw [eq_comm, eq_comm (a := output)]
    simp [readStages, OnlyFirst, OnlyLast, grows_nil, hcomm]
  | cons s ss ih =>
    rw [readStages_cons, ← onlyFirst_cons, ← onlyLast_cons]
    simp only [readStage_eq_ok_iff, ih]
    constructor
    · rintro ⟨seg, segs, e, ⟨htargeted, hseg, hinput, houtput⟩, ⟨hrest, hsegs, hinputs, houtputs⟩,
        rfl⟩
      refine ⟨List.forall_mem_cons.mpr ⟨htargeted, hrest⟩, ?_, ⟨e.input, hinput, hinputs⟩,
        e.output, houtput, houtputs⟩
      rw [List.map_cons, List.map_cons, hseg, hsegs]
    · rintro ⟨htargeted, hsegments, ⟨input, hinput, hinputs⟩, output, houtput, houtputs⟩
      obtain ⟨htargeted, hrest⟩ := List.forall_mem_cons.mp htargeted
      obtain ⟨seg, segs, rfl, hseg, hsegs⟩ := List.map_eq_cons_iff.mp hsegments
      exact ⟨seg, segs, ⟨input, output⟩, ⟨htargeted, hseg, hinput, houtput⟩,
        ⟨hrest, hsegs, hinputs, houtputs⟩, rfl⟩

theorem checkStages_eq_ok_iff : checkStages ss = .ok () ↔ ∀ s ∈ ss, s ≠ [] := by
  have hall : ss.any (·.isEmpty) = false ↔ ∀ s ∈ ss, s ≠ [] := by simp
  rw [checkStages, ← hall]
  cases ss.any (·.isEmpty) <;> simp [unexpected]

theorem commandWords_ne_nil {segments : List Segment}
    (h : segments.map Segment.words = ss.map (commandWords false)) :
    ∀ s ∈ ss, commandWords false s ≠ [] := by
  intro s hs
  have hmem : commandWords false s ∈ segments.map Segment.words := by
    rw [h]
    exact List.mem_map_of_mem hs
  obtain ⟨seg, -, hseg⟩ := List.mem_map.mp hmem
  rw [← hseg]
  exact List.cons_ne_nil _ _

theorem exists_segments (h : ∀ s ∈ ss, commandWords false s ≠ []) :
    ∃ segments : List Segment, segments.map Segment.words = ss.map (commandWords false) := by
  induction ss with
  | nil => exact ⟨[], rfl⟩
  | cons s ss ih =>
    obtain ⟨hs, hrest⟩ := List.forall_mem_cons.mp h
    obtain ⟨segments, hsegments⟩ := ih hrest
    obtain ⟨name, args, hwords⟩ := List.exists_cons_of_ne_nil hs
    refine ⟨⟨name, args⟩ :: segments, ?_⟩
    rw [List.map_cons, List.map_cons, hsegments, hwords]
    rfl

/-- Reading in terms of the stages. -/
theorem ofTokens_eq_ok_iff {ts : List Token} {p : Pipeline} :
    ofTokens ts = .ok p ↔
      (∀ s ∈ ts.splitOnP isPipe, Targeted s) ∧
        p.segments.map Segment.words = (ts.splitOnP isPipe).map (commandWords false) ∧
        OnlyFirst inputs true none (ts.splitOnP isPipe) p.input ∧
        OnlyLast outputs none (ts.splitOnP isPipe) p.output ∧ p.background = false := by
  have hread : ofTokens ts = .ok p ↔ checkStages (stages ts) = .ok () ∧
      readStages true {} (stages ts) = .ok (p.segments, ⟨p.input, p.output⟩) ∧
        p.background = false := by
    rw [ofTokens]
    cases checkStages (stages ts) with
    | error f => simp [bind, Except.bind]
    | ok u =>
      cases readStages true {} (stages ts) with
      | error f => simp [bind, Except.bind]
      | ok r =>
        obtain ⟨segments, input, output⟩ := r
        obtain ⟨segments', input', output', background⟩ := p
        simp [bind, Except.bind, pure, Except.pure, and_assoc]
  rw [hread, stages_eq_splitOnP, checkStages_eq_ok_iff, readStages_eq_ok_iff]
  generalize ts.splitOnP isPipe = ss
  constructor
  · rintro ⟨-, ⟨htargeted, hwords, hinput, houtput⟩, hbackground⟩
    exact ⟨htargeted, hwords, hinput, houtput, hbackground⟩
  · rintro ⟨htargeted, hwords, hinput, houtput, hbackground⟩
    exact ⟨fun s hs => ne_nil_of_commandWords (commandWords_ne_nil hwords s hs),
      ⟨htargeted, hwords, hinput, houtput⟩, hbackground⟩

structure Reads (ss : List (List Token)) (p : Pipeline) : Prop where
  segments : p.segments.map Segment.words = ss.map (commandWords false)
  input : p.input.toList = ss.flatMap inputs
  output : p.output.toList = ss.flatMap outputs
  background : p.background = false

/-- A pipeline is read exactly where the tokens follow the grammar, and each of its words and
targets is there, in its place. -/
theorem ofTokens_iff_grammatical (ts : List Token) :
    ((∃ p, ofTokens ts = .ok p) ↔ Grammatical (ts.splitOnP isPipe)) ∧
      ∀ p, ofTokens ts = .ok p → Reads (ts.splitOnP isPipe) p := by
  simp only [ofTokens_eq_ok_iff, grammatical_iff_read]
  generalize ts.splitOnP isPipe = ss
  refine ⟨⟨?_, ?_⟩, ?_⟩
  · rintro ⟨p, htargeted, hwords, ⟨⟨hinput, -⟩, hfirst⟩, ⟨⟨houtput, -⟩, hlast⟩, -⟩
    have hatMost {α : Type} {o : Option α} {xs : List α} (h : o.toList = [] ++ xs) :
        xs.length ≤ 1 := by
      rw [List.nil_append] at h
      rw [← h]
      exact Option.length_toList_le
    exact ⟨htargeted, commandWords_ne_nil hwords, ⟨hatMost hinput, hfirst⟩, hatMost houtput, hlast⟩
  · rintro ⟨htargeted, hcommand, ⟨hinput, hfirst⟩, houtput, hlast⟩
    obtain ⟨segments, hsegments⟩ := exists_segments hcommand
    obtain ⟨input, hin⟩ := exists_toList_eq hinput
    obtain ⟨output, hout⟩ := exists_toList_eq houtput
    exact ⟨⟨segments, input, output, false⟩, htargeted, hsegments,
      ⟨⟨hin, fun _ => rfl⟩, hfirst⟩, ⟨⟨hout, fun _ => rfl⟩, hlast⟩, rfl⟩
  · rintro p ⟨-, hwords, ⟨⟨hinput, -⟩, -⟩, ⟨⟨houtput, -⟩, -⟩, hbackground⟩
    exact ⟨hwords, hinput, houtput, hbackground⟩

/-- Redirections stand before, between and behind the words. -/
theorem ofTokens_iff_grammatical_scattered :
    let ts := [Token.operator "<", Token.word "in", Token.word "cat", Token.operator "|",
      Token.word "tee", Token.operator ">>", Token.word "out", Token.word "-a"]
    let p : Pipeline :=
      { segments := [⟨"cat", []⟩, ⟨"tee", ["-a"]⟩]
        input := some "in"
        output := some ⟨"out", true⟩ }
    Grammatical (ts.splitOnP isPipe) ∧ ofTokens ts = .ok p ∧ Reads (ts.splitOnP isPipe) p := by
  intro ts p
  have hread : ofTokens ts = .ok p := by decide
  exact ⟨by decide, hread, (ofTokens_iff_grammatical _).2 _ hread⟩

end MemShell.Pipeline
