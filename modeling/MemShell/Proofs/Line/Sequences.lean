import MemShell.Pipeline
import MemShell.Proofs.Line.Spelling
set_option autoImplicit false

namespace MemShell

def Segment.tokens (s : Segment) : List Token := s.words.map Token.ofWord

namespace Pipeline
variable {isFirst isLast : Bool} {d : Draft} {ts rest : List Token} {s : List Token}

def inputTokens : Option String → List Token
  | none => []
  | some path => [.operator "<", .ofWord path]

def outputTokens : Option Redirect → List Token
  | none => []
  | some r => [.operator (if r.append then ">>" else ">"), .ofWord r.path]

def stageTokens (input : Option String) (output : Option Redirect) : List Segment → List (List Token)
  | [] => []
  | [s] => [s.tokens ++ inputTokens input ++ outputTokens output]
  | s :: ss => (s.tokens ++ inputTokens input) :: stageTokens none output ss

def tokens (p : Pipeline) : List Token :=
  [Token.operator "|"].intercalate (stageTokens p.input p.output p.segments)

def StaysIn (t : Token) : Prop :=
  Token.Spelled t ∧ isPipe t = false ∧ SequenceItem.connective? t = none

theorem staysIn_ofWord (w : String) : StaysIn (.ofWord w) := ⟨.word w, rfl, rfl⟩

theorem staysIn_segment (s : Segment) : ∀ t ∈ s.tokens, StaysIn t := by
  intro t ht
  obtain ⟨w, -, rfl⟩ := List.mem_map.mp ht
  exact staysIn_ofWord w

theorem staysIn_input (input : Option String) : ∀ t ∈ inputTokens input, StaysIn t := by
  cases input with
  | none => simp [inputTokens]
  | some path =>
    have hsign : StaysIn (.operator "<") := ⟨.operator (by decide), by decide, by decide⟩
    simp [inputTokens, hsign, staysIn_ofWord]

theorem staysIn_output (output : Option Redirect) : ∀ t ∈ outputTokens output, StaysIn t := by
  cases output with
  | none => simp [outputTokens]
  | some r =>
    have hover : StaysIn (.operator ">") := ⟨.operator (by decide), by decide, by decide⟩
    have hbehind : StaysIn (.operator ">>") := ⟨.operator (by decide), by decide, by decide⟩
    cases h : r.append <;> simp [outputTokens, h, hover, hbehind, staysIn_ofWord]

theorem mem_stageTokens {input : Option String} {output : Option Redirect} {segments : List Segment}
    (hs : s ∈ stageTokens input output segments) : s ≠ [] ∧ ∀ t ∈ s, StaysIn t := by
  have hne (seg : Segment) (more : List Token) : seg.tokens ++ more ≠ [] := by
    simp [Segment.tokens, Segment.words]
  have hfirst (seg : Segment) (i : Option String) : ∀ t ∈ seg.tokens ++ inputTokens i, StaysIn t := by
    intro t ht
    rcases List.mem_append.mp ht with ht | ht
    · exact staysIn_segment seg t ht
    · exact staysIn_input i t ht
  fun_induction stageTokens input output segments with
  | case1 => cases hs
  | case2 input seg =>
    rw [List.mem_singleton.mp hs]
    refine ⟨by rw [List.append_assoc]; exact hne seg _, fun t ht => ?_⟩
    rcases List.mem_append.mp ht with ht | ht
    · exact hfirst seg input t ht
    · exact staysIn_output output t ht
  | case3 input seg ss hss ih =>
    rcases List.mem_cons.mp hs with rfl | hs
    · exact ⟨hne seg _, hfirst seg input⟩
    · exact ih hs

theorem stageTokens_ne_nil {input : Option String} {output : Option Redirect}
    {segments : List Segment} (h : segments ≠ []) : stageTokens input output segments ≠ [] := by
  fun_cases stageTokens input output segments with
  | case1 => exact absurd rfl h
  | case2 => simp
  | case3 => simp

theorem stages_eq_splitOnP (ts : List Token) : stages ts = ts.splitOnP isPipe := by
  induction ts with
  | nil => rfl
  | cons t ts ih =>
    rw [stages, List.splitOnP_cons_eq_if_modifyHead, ih]
    split
    · rfl
    · obtain ⟨s, ss, hss⟩ := List.exists_cons_of_ne_nil (List.splitOnP_ne_nil isPipe ts)
      rw [hss]
      rfl

theorem stages_of_not_isPipe (hs : ∀ t ∈ s, isPipe t = false) : stages s = [s] := by
  rw [stages_eq_splitOnP, List.splitOnP_eq_singleton hs]

theorem stages_append_pipe (hs : ∀ t ∈ s, StaysIn t) (rest : List Token) :
    stages (s ++ Token.operator "|" :: rest) = s :: stages rest := by
  have hnone : ∀ t ∈ s, isPipe t = false := fun t ht => (hs t ht).2.1
  rw [stages_eq_splitOnP, stages_eq_splitOnP, List.splitOnP_append_cons_of_forall_mem hnone _ rfl]

theorem stages_intercalate {ss : List (List Token)} (hne : ss ≠ [])
    (hss : ∀ s ∈ ss, ∀ t ∈ s, StaysIn t) : stages ([Token.operator "|"].intercalate ss) = ss := by
  induction ss with
  | nil => exact absurd rfl hne
  | cons s ss ih =>
    have hs : ∀ t ∈ s, StaysIn t := hss s (by simp)
    cases ss with
    | nil => simpa using stages_of_not_isPipe fun t ht => (hs t ht).2.1
    | cons u us =>
      have hrest := ih (by simp) fun v hv => hss v (by simp [hv])
      rw [List.intercalate_cons_cons]
      change stages (s ++ [Token.operator "|"] ++ _) = _
      rw [List.append_assoc, List.singleton_append, stages_append_pipe hs, hrest]

theorem readStage_isWord {words : List String} {d' : Draft} (hs : ∀ t ∈ s, t.isWord = true)
    (h : readStage isFirst isLast d ts = .ok (words, d')) :
    readStage isFirst isLast d (s ++ ts) = .ok (s.map (·.text) ++ words, d') := by
  induction s with
  | nil => exact h
  | cons t s ih =>
    have ht : t.isWord = true := hs t (by simp)
    have hrest := ih fun u hu => hs u (by simp [hu])
    rw [List.cons_append]
    unfold readStage
    rw [if_pos ht, hrest]
    rfl

theorem readStage_words (ws : List String) {words : List String} {d' : Draft}
    (h : readStage isFirst isLast d ts = .ok (words, d')) :
    readStage isFirst isLast d (ws.map Token.ofWord ++ ts) = .ok (ws ++ words, d') := by
  have hwords : ∀ t ∈ ws.map Token.ofWord, t.isWord = true := by
    intro t ht
    obtain ⟨w, -, rfl⟩ := List.mem_map.mp ht
    rfl
  have hread := readStage_isWord hwords h
  have htexts : (ws.map Token.ofWord).map (·.text) = ws := by
    rw [List.map_map]
    exact List.map_id ws
  rwa [htexts] at hread

theorem readStage_input {input : Option String}
    (hinput : input ≠ none → isFirst = true ∧ d.input = none) :
    readStage isFirst isLast d (inputTokens input ++ ts) =
      readStage isFirst isLast { d with input := input.or d.input } ts := by
  cases input with
  | none => rfl
  | some path =>
    obtain ⟨rfl, hnone⟩ := hinput (by simp)
    simp [inputTokens, readStage, Token.isWord, Token.operator, Token.ofWord, Token.word,
      isRedirection, redirect, hnone]

theorem readStage_output {output : Option Redirect}
    (houtput : output ≠ none → isLast = true ∧ d.output = none) :
    readStage isFirst isLast d (outputTokens output) =
      .ok ([], { d with output := output.or d.output }) := by
  cases output with
  | none => rfl
  | some r =>
    obtain ⟨rfl, hnone⟩ := houtput (by simp)
    obtain ⟨path, append⟩ := r
    cases append <;>
      simp [outputTokens, readStage, Token.isWord, Token.operator, Token.ofWord, Token.word,
        isRedirection, redirect, hnone]

theorem readStages_stageTokens {segments : List Segment} (hne : segments ≠ [])
    {input : Option String} (output : Option Redirect)
    (hinput : input ≠ none → isFirst = true ∧ d.input = none) (hd : d.output = none) :
    readStages isFirst d (stageTokens input output segments) =
      .ok (segments, ⟨input.or d.input, output⟩) := by
  induction segments generalizing isFirst d input with
  | nil => exact absurd rfl hne
  | cons seg ss ih =>
    obtain ⟨name, args⟩ := seg
    cases ss with
    | nil =>
      have hread : readStage isFirst true d
          ((Segment.mk name args).tokens ++ (inputTokens input ++ outputTokens output)) =
          .ok (name :: args, ⟨input.or d.input, output⟩) := by
        have hout : readStage isFirst true d (inputTokens input ++ outputTokens output) =
            .ok ([], ⟨input.or d.input, output⟩) := by
          have hend : readStage isFirst true { d with input := input.or d.input }
              (outputTokens output) = _ := readStage_output fun _ => ⟨rfl, hd⟩
          rw [readStage_input hinput, hend, hd, Option.or_none]
        have hwords := readStage_words (name :: args) hout
        rw [List.append_nil] at hwords
        exact hwords
      rw [stageTokens, List.append_assoc, readStages, List.isEmpty_nil, hread]
      rfl
    | cons next more =>
      have hread : readStage isFirst false d ((Segment.mk name args).tokens ++ inputTokens input) =
          .ok (name :: args, { d with input := input.or d.input }) := by
        have hin : readStage isFirst false d (inputTokens input ++ []) = _ := readStage_input hinput
        rw [List.append_nil, readStage] at hin
        have hwords := readStage_words (name :: args) hin
        rw [List.append_nil] at hwords
        exact hwords
      have hrest : readStages false { d with input := input.or d.input }
          (stageTokens none output (next :: more)) = _ := ih (by simp) (by simp) hd
      have hlast : (stageTokens none output (next :: more)).isEmpty = false := by
        rw [List.isEmpty_eq_false_iff]
        exact stageTokens_ne_nil (by simp)
      rw [stageTokens, readStages, hlast, hread]
      · dsimp only
        rw [hrest, Option.none_or]
      · simp

/-- A pipeline is read from its tokens; only the operator behind it tells that it runs in the
background. -/
theorem ofTokens_tokens {p : Pipeline} (hp : p.segments ≠ []) :
    ofTokens p.tokens = .ok { p with background := false } := by
  have hne : stageTokens p.input p.output p.segments ≠ [] := stageTokens_ne_nil hp
  have hstages : stages p.tokens = stageTokens p.input p.output p.segments :=
    stages_intercalate hne fun s hs => (mem_stageTokens hs).2
  have hcheck : checkStages (stageTokens p.input p.output p.segments) = .ok () := by
    have hnone : (stageTokens p.input p.output p.segments).any (·.isEmpty) = false := by
      rw [List.any_eq_false]
      intro s hs
      simpa using (mem_stageTokens hs).1
    rw [checkStages, hnone, if_neg Bool.false_ne_true]
  have hread : readStages true {} (stageTokens p.input p.output p.segments) =
      .ok (p.segments, ⟨p.input, p.output⟩) := by
    have h : readStages true {} (stageTokens p.input p.output p.segments) = _ :=
      readStages_stageTokens hp p.output (fun _ => ⟨rfl, rfl⟩) rfl
    rw [Option.or_none] at h
    exact h
  unfold ofTokens
  dsimp only
  rw [hstages, hcheck, hread]
  rfl

theorem mem_tokens {p : Pipeline} {t : Token} (ht : t ∈ p.tokens) :
    Token.Spelled t ∧ SequenceItem.connective? t = none := by
  have hpipe : Token.Spelled (.operator "|") ∧ SequenceItem.connective? (.operator "|") = none :=
    ⟨.operator (by decide), by decide⟩
  have hall (ss : List (List Token)) (hss : ∀ s ∈ ss, ∀ t ∈ s, StaysIn t) :
      ∀ t ∈ [Token.operator "|"].intercalate ss,
        Token.Spelled t ∧ SequenceItem.connective? t = none := by
    induction ss with
    | nil => simp
    | cons s ss ih =>
      have hs : ∀ t ∈ s, Token.Spelled t ∧ SequenceItem.connective? t = none := fun t ht =>
        ⟨(hss s (by simp) t ht).1, (hss s (by simp) t ht).2.2⟩
      cases ss with
      | nil => simpa using hs
      | cons u us =>
        have hrest := ih fun v hv => hss v (by simp [hv])
        rw [List.intercalate_cons_cons]
        intro t ht
        rcases List.mem_append.mp ht with ht | ht
        · rcases List.mem_append.mp ht with ht | ht
          · exact hs t ht
          · rw [List.mem_singleton.mp ht]
            exact hpipe
        · exact hrest t ht
  exact hall _ (fun s hs => (mem_stageTokens hs).2) t ht

theorem tokens_ne_nil {p : Pipeline} (hp : p.segments ≠ []) : p.tokens ≠ [] := by
  intro h
  have hread := ofTokens_tokens hp
  rw [h] at hread
  cases hread

end Pipeline

namespace SequenceItem
variable {i : SequenceItem} {items : List SequenceItem} {previous : Option Connective}

def tokens (i : SequenceItem) : List Token :=
  i.pipeline.tokens ++ (i.connective.map fun c => Token.operator c.symbol).toList

def line (items : List SequenceItem) : String := Token.line (items.flatMap tokens)

/-- Sequences that a line can stand for: every pipeline has a command, `&` stands behind the
pipelines of the background and behind no others, and no operator is missing or left over. -/
structure Writable (items : List SequenceItem) : Prop where
  segments : ∀ i ∈ items, i.pipeline.segments ≠ []
  background : ∀ i ∈ items, i.pipeline.background = decide (i.connective = some .background)
  inner : ∀ i ∈ items.dropLast, i.connective ≠ none
  last : ∀ i ∈ items.getLast?, i.connective ≠ some .both ∧ i.connective ≠ some .either

theorem Writable.tail (h : Writable (i :: items)) : Writable items := by
  refine ⟨fun j hj => h.segments j (by simp [hj]), fun j hj => h.background j (by simp [hj]), ?_, ?_⟩
  · cases items with
    | nil => simp
    | cons k more =>
      intro j hj
      exact h.inner j (by simp [hj])
  · cases items with
    | nil => simp
    | cons k more =>
      intro j hj
      exact h.last j (by simpa [List.getLast?_cons_cons] using hj)

theorem connective?_operator (c : Connective) : connective? (.operator c.symbol) = some c :=
  Connective.ofSymbol?_symbol c

theorem spelled_of_mem {t : Token} (ht : t ∈ items.flatMap tokens) : Token.Spelled t := by
  obtain ⟨i, -, ht⟩ := List.mem_flatMap.mp ht
  rcases List.mem_append.mp ht with ht | ht
  · exact (Pipeline.mem_tokens ht).1
  · cases hc : i.connective with
    | none => simp [hc] at ht
    | some c =>
      have hop : t = .operator c.symbol := by simpa [hc] using ht
      rw [hop]
      exact .operator (by cases c <;> decide)

/-- The tokens up to the next operator are collected. -/
theorem ofTokensFrom_append {ts : List Token} (hts : ∀ t ∈ ts, connective? t = none)
    (group rest : List Token) :
    ofTokensFrom group previous (ts ++ rest) = ofTokensFrom (group ++ ts) previous rest := by
  induction ts generalizing group with
  | nil => simp
  | cons t ts ih =>
    have ht : connective? t = none := hts t (by simp)
    rw [List.cons_append, ofTokensFrom, ht]
    dsimp only
    rw [ih fun u hu => hts u (by simp [hu]), List.append_assoc]
    rfl

theorem ofTokensFrom_item (i : SequenceItem) (rest : List Token) :
    ofTokensFrom [] previous (i.tokens ++ rest) =
      ofTokensFrom i.pipeline.tokens previous
        ((i.connective.map fun c => Token.operator c.symbol).toList ++ rest) := by
  have hnone : ∀ t ∈ i.pipeline.tokens, connective? t = none := fun t ht =>
    (Pipeline.mem_tokens ht).2
  rw [tokens, List.append_assoc, ofTokensFrom_append hnone, List.nil_append]

theorem ofTokensFrom_tokens (h : Writable items)
    (hprevious : items = [] → previous ≠ some .both ∧ previous ≠ some .either) :
    ofTokensFrom [] previous (items.flatMap tokens) = .ok items := by
  induction items generalizing previous with
  | nil =>
    obtain ⟨hboth, heither⟩ := hprevious rfl
    rw [List.flatMap_nil, ofTokensFrom]
    simp [hboth, heither]
  | cons i items ih =>
    have hsegments : i.pipeline.segments ≠ [] := h.segments i (by simp)
    have hgroup : i.pipeline.tokens.isEmpty = false := by
      rw [List.isEmpty_eq_false_iff]
      exact Pipeline.tokens_ne_nil hsegments
    have hread := Pipeline.ofTokens_tokens hsegments
    have hbackground := h.background i (by simp)
    obtain ⟨pipeline, connective⟩ := i
    rw [List.flatMap_cons, ofTokensFrom_item]
    cases connective with
    | none =>
      have hlast : items = [] := by
        by_contra hne
        obtain ⟨j, more, rfl⟩ := List.exists_cons_of_ne_nil hne
        exact h.inner ⟨pipeline, none⟩ (by simp) rfl
      subst hlast
      simp only [Option.map_none, Option.toList_none, List.nil_append, List.flatMap_nil,
        ofTokensFrom, hgroup, Bool.not_false, if_true, hread]
      have hfalse : pipeline.background = false := hbackground
      rw [← hfalse]
    | some c =>
      have hrest : ofTokensFrom [] (some c) (items.flatMap tokens) = .ok items := by
        refine ih h.tail fun hnil => ?_
        subst hnil
        have hlast := h.last ⟨pipeline, some c⟩ rfl
        exact hlast
      simp only [Option.map_some, Option.toList_some, List.singleton_append, ofTokensFrom,
        connective?_operator, hgroup, Bool.false_eq_true, if_false, hread, hrest]
      have hflag : pipeline.background = decide (c = .background) := by
        rw [hbackground]
        simp
      rw [← hflag]

/-- Words alone are one command in the foreground. -/
theorem ofTokens_of_isWord {ts : List Token} {name : String} {args : List String}
    (hts : ∀ t ∈ ts, t.isWord = true) (htexts : ts.map (·.text) = name :: args) :
    ofTokens ts = .ok [⟨{ segments := [⟨name, args⟩] }, none⟩] := by
  have hoperator : ∀ t ∈ ts, t.isOperator = false := by
    intro t ht
    have hword := hts t ht
    simp only [Token.isWord, decide_eq_true_eq] at hword
    simp [Token.isOperator, hword]
  have hempty : ts.isEmpty = false := by
    cases ts with
    | nil => cases htexts
    | cons t ts => rfl
  have hstages : Pipeline.stages ts = [ts] :=
    Pipeline.stages_of_not_isPipe fun t ht => by simp [Pipeline.isPipe, hoperator t ht]
  have hstage : Pipeline.readStage true true {} ts = .ok (name :: args, {}) := by
    have h : Pipeline.readStage true true {} (ts ++ []) = _ := Pipeline.readStage_isWord hts rfl
    rwa [List.append_nil, List.append_nil, htexts] at h
  have hread : Pipeline.ofTokens ts = .ok { segments := [⟨name, args⟩] } := by
    unfold Pipeline.ofTokens
    dsimp only
    rw [hstages]
    simp [Pipeline.checkStages, hempty, Pipeline.readStages, hstage]
    rfl
  have hnone : ∀ t ∈ ts, connective? t = none := fun t ht => by simp [connective?, hoperator t ht]
  have hfrom : ofTokensFrom [] none (ts ++ []) = _ := ofTokensFrom_append hnone [] []
  rw [List.append_nil, List.nil_append] at hfrom
  rw [ofTokens, hfrom, ofTokensFrom, hempty, hread]
  rfl

/-- Reading undoes writing. -/
theorem ofLine_line (h : Writable items) : ofLine (line items) = .ok items := by
  have htokens : Token.ofLine (line items) = .ok (items.flatMap tokens) :=
    Token.ofLine_of_spelled fun _ ht => spelled_of_mem ht
  unfold ofLine
  rw [htokens]
  exact ofTokensFrom_tokens h fun _ => ⟨by simp, by simp⟩

theorem ofLine_line_quotes :
    let item : SequenceItem :=
      { pipeline :=
          { segments := [⟨"", ["it's", "#"]⟩, ⟨"tee", []⟩]
            input := some "a b"
            output := some ⟨"out", true⟩
            background := true }
        connective := some .background }
    line [item] = "'' 'it'\"'\"'s' '#' < 'a b' | tee >> out &" ∧
      ofLine (line [item]) = .ok [item] := by
  refine ⟨by decide, ofLine_line ⟨?_, ?_, ?_, ?_⟩⟩
  · simp
  · simp
  · simp
  · simp

end SequenceItem
end MemShell
