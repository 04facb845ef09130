import MemShell.Proofs.Line.Quoting
import MemShell.Proofs.Shell.Discipline
set_option autoImplicit false

namespace MemShell
open Execute Line

namespace Written

def word (w : Written) : String := String.ofList w.text

def withArgs (args : Option (List String)) (w : Written) : Written :=
  match args with
  | some args => w.put divides_positionalPieces (positionalValue args)
  | none => w

def filled (args : Option (List String)) (value : String → String) (w : Written) : Written :=
  (w.withArgs args).put divides_variablePieces value

structure Whole (args : Option (List String)) (value : String → String) (w : Written) : Prop where
  ofArgs : ∀ a ∈ args, Unquoted positionalPieces (positionalValue a) w.text
  ofVariables : Unquoted variablePieces value (w.withArgs args).text

instance (args : Option (List String)) (value : String → String) (w : Written) :
    Decidable (w.Whole args value) :=
  decidable_of_iff ((∀ a ∈ args, Unquoted positionalPieces (positionalValue a) w.text) ∧
      Unquoted variablePieces value (w.withArgs args).text)
    ⟨fun h => ⟨h.1, h.2⟩, fun h => ⟨h.1, h.2⟩⟩

theorem substituteArgs_line {args : List String} {ws : List Written}
    (hws : ∀ w ∈ ws, Unquoted positionalPieces (positionalValue args) w.text) :
    substituteArgs args (String.ofList (line ws)) =
      String.ofList (line (ws.map (withArgs (some args)))) := by
  rw [substituteArgs, String.toList_ofList, render_line divides_positionalPieces hws]
  rfl

theorem expandVariables_line {value : String → String} {ws : List Written}
    (hws : ∀ w ∈ ws, Unquoted variablePieces value w.text) :
    expandVariables value (String.ofList (line ws)) =
      String.ofList (line (ws.map (put divides_variablePieces value))) := by
  rw [expandVariables, String.toList_ofList, render_line divides_variablePieces hws]

end Written

namespace Execute
open Written
variable {args : Option (List String)} {value : String → String} {aliases : Aliases}
  {word : String} {words : List String} {s : Shell} {c : Caller}

theorem preprocess_quoteWords (hwhole : ∀ w ∈ word :: words, (ofWord w).Whole args value)
    (halias : aliases.get? (leading ((ofWord word).filled args value).chars) = none) :
    preprocess (Text.quoteWords (word :: words)) args value aliases =
      .ok (String.ofList (line (((ofWord word).filled args value).squeezed ::
        words.map fun w => (ofWord w).filled args value))) := by
  have htext : Text.quoteWords (word :: words) = String.ofList (line ((word :: words).map ofWord)) := by
    rw [← toList_quoteWords, String.ofList_toList]
  have hempty : (Text.quoteWords (word :: words)).isEmpty = false := by
    have hne : line ((word :: words).map ofWord) ≠ [] := line_ne_nil (by simp)
    rw [htext]
    simpa using hne
  have hresolve : aliases.resolve
      (String.ofList (line ((word :: words).map fun w => (ofWord w).filled args value))) = _ :=
    resolve_of_get?_eq_none (solid_line _) (line_ne_nil (by simp))
      (by rwa [List.map_cons, leading_line])
  rw [List.map_cons, squeeze_line] at hresolve
  have hvariables : expandVariables value
      (String.ofList (line ((word :: words).map fun w => (ofWord w).withArgs args))) = _ :=
    expandVariables_line fun w hw => by
      obtain ⟨v, hv, rfl⟩ := List.mem_map.mp hw
      exact (hwhole v hv).ofVariables
  rw [List.map_map] at hvariables
  unfold preprocess
  dsimp only
  rw [stripComment_quoteWords, hempty, if_neg Bool.false_ne_true]
  cases args with
  | none =>
    rw [htext]
    exact (congrArg aliases.resolve hvariables).trans hresolve
  | some a =>
    have hargs : substituteArgs a (String.ofList (line ((word :: words).map ofWord))) = _ :=
      substituteArgs_line fun w hw => by
        obtain ⟨v, hv, rfl⟩ := List.mem_map.mp hw
        exact (hwhole v hv).ofArgs a rfl
    rw [List.map_map] at hargs
    rw [htext]
    dsimp only
    rw [hargs]
    exact (congrArg aliases.resolve hvariables).trans hresolve

def filled (s : Shell) (c : Caller) (word : String) : Written :=
  (ofWord word).filled (c.script.map (·.args)) (s.environmentOf c.job).get

def Whole (s : Shell) (c : Caller) (word : String) : Prop :=
  (ofWord word).Whole (c.script.map (·.args)) (s.environmentOf c.job).get

instance (s : Shell) (c : Caller) (word : String) : Decidable (Whole s c word) :=
  inferInstanceAs (Decidable (Written.Whole _ _ _))

def readAs (s : Shell) (c : Caller) (word : String) (words : List String) : SequenceItem where
  pipeline :=
    { segments := [⟨(filled s c word).squeezed.word, words.map fun w => (filled s c w).word⟩] }

theorem run_readLine {line : String} {text : String}
    (h : preprocess line (c.script.map (·.args)) (s.environmentOf c.job).get s.aliases = .ok text) :
    (readLine line c false).run s = (SequenceItem.ofLine text, s) := by
  simp only [readLine, Work.run_bind, Work.run_get, h, Work.run_lift, Bool.false_and,
    Bool.false_eq_true, if_false]

theorem run_readLine_quoteWords (hwhole : ∀ w ∈ word :: words, Whole s c w)
    (halias : s.aliases.get? (leading (filled s c word).chars) = none) :
    (readLine (Text.quoteWords (word :: words)) c false).run s =
      (.ok [readAs s c word words], s) := by
  have hitems : SequenceItem.ofLine (String.ofList (line ((filled s c word).squeezed ::
      words.map (filled s c)))) = _ := ofLine_words _ _
  rw [List.map_map] at hitems
  rw [run_readLine (preprocess_quoteWords hwhole halias)]
  exact congrArg (·, s) hitems

theorem run_readLine_orSession (hwhole : ∀ w ∈ word :: words, Whole s c w)
    (halias : s.aliases.get? (leading (filled s c word).chars) = none) :
    (readLine (Text.quoteWords (word :: words)) (c.orSession s) false).run s =
      (.ok [readAs s c word words], s) := by
  have hfilled : filled s (c.orSession s) = filled s c := by
    funext w
    rw [filled, c.script_orSession, c.job_orSession, filled]
  have hwhole' : ∀ w ∈ word :: words, Whole s (c.orSession s) w := by
    intro w hw
    rw [Whole, c.script_orSession, c.job_orSession]
    exact hwhole w hw
  rw [← hfilled] at halias
  rw [run_readLine_quoteWords hwhole' halias, readAs, hfilled, readAs]

theorem pipelinesOf_quoteWords (hwhole : ∀ w ∈ word :: words, Whole s c w)
    (halias : s.aliases.get? (leading (filled s c word).chars) = none) :
    pipelinesOf (Text.quoteWords (word :: words)) c false s = [(readAs s c word words).pipeline] := by
  rw [pipelinesOf, run_readLine_orSession hwhole halias]
  rfl

theorem runLine_of_read {inner : LineRunner} {text : String} {record : Bool}
    {items : List SequenceItem} {t : Shell}
    (h : (readLine text (c.orSession s) record).run s = (.ok items, t)) :
    runLine inner text c record s = runItems inner (c.orSession s) none {} items t := by
  unfold runLine
  rw [Run.get_bind, Run.outcome_effect_bind, h]

/-- A command that is built from an input is run as one command in the foreground, with a word of its
own for each word that it was built from, and with nothing else: the values that are put into the
words stay in them, unless they hold quotes. -/
theorem runLine_quoteWords (inner : LineRunner) (hwhole : ∀ w ∈ word :: words, Whole s c w)
    (halias : s.aliases.get? (leading (filled s c word).chars) = none) :
    runLine inner (Text.quoteWords (word :: words)) c false s =
      runItems inner (c.orSession s) none {} [readAs s c word words] s :=
  runLine_of_read (run_readLine_orSession hwhole halias)

/-- Operators, quotes and a comment in the words, in a variable and in an argument of the script. -/
theorem runLine_quoteWords_operators :
    let s := { Shell.bare Catalogue.texts with environment := ⟨[("X", "a | b")], []⟩ }
    let c : Caller := { user := rootUser, script := some { source := "/s", args := ["1; 2"] } }
    let line := Text.quoteWords ["echo", "it's; rm > $X #", "$1"]
    line = "echo 'it'\"'\"'s; rm > $X #' '$1'" ∧
      runLine Shell.execute line c false s = runItems Shell.execute c none {}
        [⟨{ segments := [⟨"echo", ["it's; rm > a | b #", "1; 2"]⟩] }, none⟩] s := by
  intro s c line
  have hwhole : ∀ w ∈ ["echo", "it's; rm > $X #", "$1"], Whole s c w := by decide +kernel
  have halias : s.aliases.get? (leading (filled s c "echo").chars) = none := rfl
  have hread : readAs s c "echo" ["it's; rm > $X #", "$1"] =
      ⟨{ segments := [⟨"echo", ["it's; rm > a | b #", "1; 2"]⟩] }, none⟩ := by decide +kernel
  have hrun := runLine_quoteWords Shell.execute hwhole halias
  rw [hread] at hrun
  exact ⟨by decide +kernel, hrun⟩

/-- A value that holds quotes gets out of those around it. -/
theorem expandVariables_quoteWords {value : String → String} {text : String}
    (h : value "X" = "'" ++ text ++ "'") :
    expandVariables value (Text.quoteWords ["echo", "$X"]) = "echo ''" ++ text ++ "''" := by
  have hline : Text.quoteWords ["echo", "$X"] = "echo '$X'" := by decide +kernel
  have hpieces : variablePieces "echo '$X'".toList =
      "echo '".toList.map .char ++ [.ref "X", .char '\''] := by decide +kernel
  refine String.toList_injective ?_
  rw [hline, expandVariables, hpieces]
  simp [render, h]

end Execute
end MemShell
