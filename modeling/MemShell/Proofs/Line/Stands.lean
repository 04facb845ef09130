import MemShell.Token
set_option autoImplicit false

/-!
# Reading character by character

The cutting of a line into tokens as an automaton: where the reading stands, which tokens a character
completes, and which ones the end of the text does. A text can then be divided anywhere, also inside
of a word.
-/
namespace MemShell.Token
open Text

inductive Stand where
  /-- Outside quotes, with the word at hand; `fresh` says that a comment may open here. -/
  | outside (word : Option Draft) (fresh : Bool)
  /-- Behind a backslash outside quotes. -/
  | escape (d : Draft)
  | quoted (q : Char) (d : Draft)
  /-- Behind a backslash in double quotes. -/
  | quotedEscape (d : Draft)
  /-- Behind the first character of an operator. -/
  | operator (c : Char)
  | comment
deriving DecidableEq

def Draft.append (d e : Draft) : Draft := ⟨d.text ++ e.text, d.quoted || e.quoted⟩

/-- Puts the beginning of a word in front of the first token. -/
def glue (d : Draft) : List Token → List Token
  | [] => []
  | t :: ts => ⟨t.kind, String.ofList d.text ++ t.text, d.quoted || t.quoted⟩ :: ts

namespace Stand

def start : Stand := outside none true

def stepOutside (word : Option Draft) (fresh : Bool) (c : Char) : List Token × Stand :=
  if isBlank c then (Draft.close word, outside none true)
  else if c = '#' && word.isNone && fresh then ([], comment)
  else if isQuote c then ([], quoted c (Draft.quote word))
  else if c = '\\' then ([], escape (word.getD {}))
  else if isOperatorChar c then (Draft.close word, operator c)
  else ([], outside (some (Draft.push word c)) false)

def step : Stand → Char → List Token × Stand
  | outside word fresh, c => stepOutside word fresh c
  | escape d, c => ([], outside (some (Draft.push (some (Draft.quote (some d))) c)) false)
  | quoted q d, c =>
    if c = q then ([], outside (some d) false)
    else if c = '\\' && q = '"' then ([], quotedEscape d)
    else ([], quoted q (Draft.push (some d) c))
  | quotedEscape d, c =>
    ([], quoted '"' (Draft.push (some (if isEscapable c then d else Draft.push (some d) '\\')) c))
  | operator o, c =>
    if isDouble o c then ([Token.operator (String.ofList [o, c])], outside none false)
    else (Token.operator o.toString :: (stepOutside none false c).1, (stepOutside none false c).2)
  | comment, _ => ([], comment)

def finish : Stand → Option (List Token)
  | outside word _ => some (Draft.close word)
  | escape d => some (Draft.close (some d))
  | quoted _ _ | quotedEscape _ => none
  | operator o => some [Token.operator o.toString]
  | comment => some []

def read : Stand → List Char → Option (List Token)
  | s, [] => s.finish
  | s, c :: cs => ((s.step c).2.read cs).map ((s.step c).1 ++ ·)

def run : Stand → List Char → List Token × Stand
  | s, [] => ([], s)
  | s, c :: cs => ((s.step c).1 ++ ((s.step c).2.run cs).1, ((s.step c).2.run cs).2)

theorem read_cons (s : Stand) (c : Char) (cs : List Char) :
    s.read (c :: cs) = ((s.step c).2.read cs).map ((s.step c).1 ++ ·) := rfl

theorem read_of_silent {s t : Stand} {c : Char} (h : s.step c = ([], t)) (cs : List Char) :
    s.read (c :: cs) = t.read cs := by
  rw [read_cons, h]
  simp

theorem read_append (s : Stand) (xs ys : List Char) :
    s.read (xs ++ ys) = ((s.run xs).2.read ys).map ((s.run xs).1 ++ ·) := by
  induction xs generalizing s with
  | nil => simp [run]
  | cons c xs ih =>
    rw [List.cons_append, read_cons, ih]
    simp [run, Option.map_map, Function.comp_def]

theorem read_comment (cs : List Char) : comment.read cs = some [] := by
  induction cs with
  | nil => rfl
  | cons c cs ih => rw [read_of_silent (t := comment) rfl, ih]

theorem read_operator {o c : Char} (h : isDouble o c = false) (cs : List Char) :
    (operator o).read (c :: cs) =
      ((outside none false).read (c :: cs)).map ([Token.operator o.toString] ++ ·) := by
  simp [read_cons, step, h, Function.comp_def]

def draft? : Stand → Option Draft
  | outside word _ => word
  | escape d | quoted _ d | quotedEscape d => some d
  | _ => none

def glue (d : Draft) : Stand → Stand
  | outside word fresh => outside (word.map d.append) fresh
  | escape e => escape (d.append e)
  | quoted q e => quoted q (d.append e)
  | quotedEscape e => quotedEscape (d.append e)
  | s => s

section
variable {s : Stand} {e : Draft} {cs : List Char} {ts : List Token}

theorem append_push (d e : Draft) (c : Char) :
    Draft.push (some (d.append e)) c = d.append (Draft.push (some e) c) := by
  simp [Draft.push, Draft.append]

theorem append_quote (d e : Draft) :
    Draft.quote (some (d.append e)) = d.append (Draft.quote (some e)) := by
  simp [Draft.quote, Draft.append]

theorem close_append (d e : Draft) :
    Draft.close (some (d.append e)) = Token.glue d (Draft.close (some e)) := by
  simp [Draft.close, Draft.append, Token.glue, word, String.ofList_append]

/-- A character goes into the word at hand, or closes it, whatever was read of it before. -/
theorem step_glue (h : s.draft? = some e) (d : Draft) (c : Char) :
    ((s.step c).1 = [] ∧ (∃ e', (s.step c).2.draft? = some e') ∧
        (s.glue d).step c = ([], (s.step c).2.glue d)) ∨
      (s.step c).1 = Draft.close (some e) ∧
        (s.glue d).step c = (Draft.close (some (d.append e)), (s.step c).2) := by
  cases s with
  | outside word fresh =>
    obtain rfl : word = some e := h
    simp only [glue, Option.map_some, step, stepOutside, Option.isNone_some, Bool.and_false,
      Bool.false_and, Bool.false_eq_true, if_false]
    split
    · exact .inr ⟨rfl, rfl⟩
    split
    · exact .inl ⟨rfl, ⟨_, rfl⟩, by simp [append_quote]⟩
    split
    · exact .inl ⟨rfl, ⟨_, rfl⟩, rfl⟩
    split
    · exact .inr ⟨rfl, rfl⟩
    · exact .inl ⟨rfl, ⟨_, rfl⟩, by simp [append_push]⟩
  | escape e' =>
    exact .inl ⟨rfl, ⟨_, rfl⟩, by simp [step, glue, append_push, append_quote]⟩
  | quoted q e' =>
    simp only [glue, step]
    split
    · exact .inl ⟨rfl, ⟨_, rfl⟩, rfl⟩
    split
    · exact .inl ⟨rfl, ⟨_, rfl⟩, rfl⟩
    · exact .inl ⟨rfl, ⟨_, rfl⟩, by simp [append_push]⟩
  | quotedEscape e' =>
    refine .inl ⟨rfl, ⟨_, rfl⟩, ?_⟩
    cases hescape : isEscapable c <;> simp [step, glue, append_push, hescape]
  | operator o => cases h
  | comment => cases h

/-- What was read of a word before goes in front of the first token. -/
theorem read_glue (h : s.draft? = some e) (d : Draft) (cs : List Char) :
    (s.glue d).read cs = (s.read cs).map (Token.glue d) := by
  induction cs generalizing s e with
  | nil =>
    cases s with
    | outside word fresh =>
      obtain rfl : word = some e := h
      exact congrArg some (close_append d e)
    | escape e' => exact congrArg some (close_append d e')
    | quoted q e' => rfl
    | quotedEscape e' => rfl
    | operator o => cases h
    | comment => cases h
  | cons c cs ih =>
    obtain ⟨hsilent, ⟨e', he'⟩, hglue⟩ | ⟨hclosed, hglue⟩ := step_glue h d c
    · have hread : s.read (c :: cs) = (s.step c).2.read cs :=
        read_of_silent (Prod.ext hsilent rfl) cs
      rw [hread, read_of_silent hglue, ih he']
    · rw [read_cons, read_cons, hglue, hclosed, close_append, Option.map_map]
      rfl

theorem read_ne_nil (h : s.draft? = some e) (cs : List Char) : s.read cs ≠ some [] := by
  induction cs generalizing s e with
  | nil =>
    cases s with
    | outside word fresh =>
      obtain rfl : word = some e := h
      simp [read, finish, Draft.close]
    | escape e' => simp [read, finish, Draft.close]
    | quoted q e' => simp [read, finish]
    | quotedEscape e' => simp [read, finish]
    | operator o => cases h
    | comment => cases h
  | cons c cs ih =>
    obtain ⟨hsilent, ⟨e', he'⟩, -⟩ | ⟨hclosed, -⟩ := step_glue h {} c
    · rw [read_cons, hsilent]
      simpa using ih he'
    · rw [read_cons, hclosed]
      simp [Draft.close]

theorem exists_glue (h : s.draft? = some e) :
    ∃ s' : Stand, s'.draft? = some {} ∧ s = s'.glue e := by
  have he : e.append {} = e := by simp [Draft.append]
  cases s with
  | outside word fresh =>
    obtain rfl : word = some e := h
    exact ⟨outside (some {}) fresh, rfl, by simp [glue, he]⟩
  | escape e' =>
    obtain rfl : e' = e := Option.some.inj h
    exact ⟨escape {}, rfl, by simp [glue, he]⟩
  | quoted q e' =>
    obtain rfl : e' = e := Option.some.inj h
    exact ⟨quoted q {}, rfl, by simp [glue, he]⟩
  | quotedEscape e' =>
    obtain rfl : e' = e := Option.some.inj h
    exact ⟨quotedEscape {}, rfl, by simp [glue, he]⟩
  | operator o => cases h
  | comment => cases h

theorem text_of_read (h : s.draft? = some e) (hread : s.read cs = some ts) :
    ∃ t us, ts = t :: us ∧ e.text <+: t.text.toList := by
  obtain ⟨s', hs', rfl⟩ := exists_glue h
  rw [read_glue hs'] at hread
  obtain ⟨us, hus, rfl⟩ := Option.map_eq_some_iff.mp hread
  cases us with
  | nil => exact absurd hus (read_ne_nil hs' cs)
  | cons t us => exact ⟨_, us, rfl, by simp⟩

end

end Stand

theorem toOption_prepend (ts : List Token) (r : Except Fault (List Token)) :
    (prepend ts r).toOption = r.toOption.map (ts ++ ·) := by
  cases r <;> rfl

def standOf (quote : Option (Char × Nat)) (word : Option Draft) (fresh : Bool) : Stand :=
  match quote with
  | some (q, _) => .quoted q (word.getD {})
  | none => .outside word fresh

/-- Texts that are not longer are read as the automaton reads them. -/
def Agree (n : Nat) : Prop :=
  ∀ (quote : Option (Char × Nat)) (word : Option Draft) (fresh : Bool) (column : Nat)
    (cs : List Char), cs.length ≤ n → (quote.isSome = true → word.isSome = true) →
      (scan quote word fresh column cs).toOption = (standOf quote word fresh).read cs

section
variable {n : Nat} {cs : List Char} (h : Agree n) (hcs : cs.length ≤ n)
include h hcs

theorem Agree.outside (word : Option Draft) (fresh : Bool) (column : Nat) :
    (scan none word fresh column cs).toOption = (Stand.outside word fresh).read cs :=
  h none word fresh column cs hcs (by simp)

theorem Agree.quoted (q : Char) (start : Nat) (d : Draft) (fresh : Bool) (column : Nat) :
    (scan (some (q, start)) (some d) fresh column cs).toOption = (Stand.quoted q d).read cs :=
  h (some (q, start)) (some d) fresh column cs hcs (by simp)

/-- A scan outside quotes looks at two characters where a backslash or an operator stands. -/
theorem Agree.scan_unquoted (word : Option Draft) (fresh : Bool) (column : Nat) (c : Char) :
    (scan none word fresh column (c :: cs)).toOption =
      (Stand.outside word fresh).read (c :: cs) := by
  rw [Token.scan_unquoted, Stand.read_cons]
  simp only [Stand.step, Stand.stepOutside]
  split
  · simp [toOption_prepend, h.outside hcs]
  split
  · simp [Stand.read_comment, Except.toOption]
  split
  · simp [h.quoted hcs]
  split
  · cases cs with
    | nil => rfl
    | cons x cs =>
      have hx : cs.length ≤ n := Nat.le_of_succ_le hcs
      simp [h.outside hx, Stand.read_cons, Stand.step, Draft.quote]
  split
  · cases cs with
    | nil => simp [Stand.read, Stand.finish, Except.toOption]
    | cons x cs =>
      have hx : cs.length ≤ n := Nat.le_of_succ_le hcs
      cases hdouble : isDouble c x with
      | true =>
        simp [hdouble, toOption_prepend, h.outside hx, Stand.read_cons, Stand.step,
          Function.comp_def]
      | false =>
        rw [Stand.read_operator hdouble]
        simp [hdouble, toOption_prepend, h.outside hcs, Function.comp_def]
  · simp [h.outside hcs]

theorem Agree.scan_quoted (q : Char) (start : Nat) (d : Draft) (fresh : Bool) (column : Nat)
    (c : Char) :
    (scan (some (q, start)) (some d) fresh column (c :: cs)).toOption =
      (Stand.quoted q d).read (c :: cs) := by
  rw [Token.scan_quoted, Stand.read_cons]
  simp only [Stand.step]
  split
  · simp [h.outside hcs]
  split
  · next hslash =>
    obtain ⟨rfl, rfl⟩ : c = '\\' ∧ q = '"' := by simpa using hslash
    cases cs with
    | nil => rfl
    | cons x cs =>
      have hx : cs.length ≤ n := Nat.le_of_succ_le hcs
      cases hescape : isEscapable x with
      | true => simp [hescape, h.quoted hx, Stand.read_cons, Stand.step]
      | false =>
        have hne : x ≠ '"' ∧ x ≠ '\\' := by
          simp only [isEscapable, Bool.or_eq_false_iff, decide_eq_false_iff_not] at hescape
          exact hescape.1
        simp [hescape, h.quoted hcs, Stand.read_cons, Stand.step, hne]
  · simp [h.quoted hcs]

end

theorem agree (n : Nat) : Agree n := by
  induction n with
  | zero =>
    intro quote word fresh column cs hcs _
    obtain rfl := List.length_eq_zero_iff.mp (Nat.le_zero.mp hcs)
    cases quote <;> rfl
  | succ n ih =>
    intro quote word fresh column cs hcs hword
    cases cs with
    | nil => cases quote <;> rfl
    | cons c cs =>
      replace hcs : cs.length ≤ n := Nat.le_of_succ_le_succ hcs
      rcases quote with _ | ⟨q, start⟩
      · exact ih.scan_unquoted hcs word fresh column c
      · obtain ⟨d, rfl⟩ := Option.isSome_iff_exists.mp (hword rfl)
        exact ih.scan_quoted hcs q start d fresh column c

/-- The tokens of a line, if it has any reading, are those that the automaton finds. -/
theorem toOption_ofLine (line : String) :
    (ofLine line).toOption = Stand.start.read line.toList :=
  (agree line.toList.length).outside (Nat.le_refl _) none true 0

end MemShell.Token
