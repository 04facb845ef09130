import Mathlib.Data.List.Basic
import MemShell.Token
import MemShell.Text.Quoted
set_option autoImplicit false

namespace MemShell

namespace Text

def isBareWord (w : List Char) : Bool := !w.isEmpty && w.all isBareChar

theorem toList_quoteWord (w : String) :
    (quoteWord w).toList =
      if isBareWord w.toList then w.toList else '\'' :: w.toList.flatMap quoteChar ++ ['\''] := by
  unfold quoteWord isBareWord
  dsimp only
  cases h : w.toList with
  | nil => simp
  | cons c cs =>
    simp only [List.isEmpty_cons, Bool.not_false, Bool.true_and, Bool.false_eq_true, if_false]
    split
    · exact h
    · exact String.toList_ofList

theorem toNat_of_isBareChar {c : Char} (h : isBareChar c = true) :
    33 ≤ c.toNat ∧ c.toNat ≤ 122 := by
  simp only [isBareChar, Bool.or_eq_true, Bool.and_eq_true, decide_eq_true_eq,
    List.contains_eq_mem, List.mem_cons, List.not_mem_nil, or_false] at h
  have hle (x y : Char) : x ≤ y ↔ x.toNat ≤ y.toNat := Iff.rfl
  have hletters : 'a'.toNat = 97 ∧ 'z'.toNat = 122 ∧ 'A'.toNat = 65 ∧ 'Z'.toNat = 90 ∧
      '0'.toNat = 48 ∧ '9'.toNat = 57 := by decide
  rcases h with ((h | h) | h) | h
  · rw [hle, hle] at h
    omega
  · rw [hle, hle] at h
    omega
  · rw [hle, hle] at h
    omega
  · rcases h with rfl | rfl | rfl | rfl | rfl | rfl | rfl | rfl | rfl | rfl <;> decide

theorem not_isBlank_of_isBareChar {c : Char} (h : isBareChar c = true) : isBlank c = false := by
  have hrange := toNat_of_isBareChar h
  simp only [isBlank, Bool.or_eq_false_iff, Bool.and_eq_false_iff, decide_eq_false_iff_not,
    beq_eq_false_iff_ne]
  omega

theorem ne_of_isBareChar {c d : Char} (h : isBareChar c = true) (hd : isBareChar d = false) :
    c ≠ d := by
  rintro rfl
  rw [h] at hd
  cases hd

end Text

namespace Token
open Text

/-- The word as it comes back from its spelling. -/
def ofWord (w : String) : Token := word w (!isBareWord w.toList)

def operators : List String := ["&&", "||", ">>", "|", ">", "<", ";", "&"]

def spelling (t : Token) : String := if t.isWord then quoteWord t.text else t.text

inductive Spelled : Token → Prop
  | word (w : String) : Spelled (ofWord w)
  | operator {op : String} (known : op ∈ operators) : Spelled (operator op)

def line (ts : List Token) : String := " ".intercalate (ts.map spelling)

variable {rest : List Char}

theorem scan_bareChar {c : Char} (hc : isBareChar c = true) (word : Option Draft) (fresh : Bool)
    (column : Nat) :
    scan none word fresh column (c :: rest) =
      scan none (some (Draft.push word c)) false (column + 1) rest := by
  have hhash : c ≠ '#' := ne_of_isBareChar hc (by decide)
  have hquotes : isQuote c = false := by
    simp [isQuote, ne_of_isBareChar hc (show isBareChar '\'' = false by decide),
      ne_of_isBareChar hc (show isBareChar '"' = false by decide)]
  have hslash : c ≠ '\\' := ne_of_isBareChar hc (by decide)
  have hoperator : isOperatorChar c = false := by
    simp [isOperatorChar, ne_of_isBareChar hc (show isBareChar '|' = false by decide),
      ne_of_isBareChar hc (show isBareChar '<' = false by decide),
      ne_of_isBareChar hc (show isBareChar '>' = false by decide),
      ne_of_isBareChar hc (show isBareChar ';' = false by decide),
      ne_of_isBareChar hc (show isBareChar '&' = false by decide)]
  rw [scan_unquoted]
  simp [not_isBlank_of_isBareChar hc, hhash, hquotes, hslash, hoperator]

theorem scan_bareRun (d : Draft) (rest : List Char) {w : List Char}
    (hw : ∀ c ∈ w, isBareChar c = true) (column : Nat) :
    ∃ column', scan none (some d) false column (w ++ rest) =
      scan none (some { d with text := d.text ++ w }) false column' rest := by
  induction w generalizing d column with
  | nil => exact ⟨column, by simp⟩
  | cons c w ih =>
    have hc : isBareChar c = true := hw c (by simp)
    obtain ⟨column', h⟩ := ih (Draft.push (some d) c) (fun x hx => hw x (by simp [hx]))
      (column + 1)
    refine ⟨column', ?_⟩
    rw [List.cons_append, scan_bareChar hc, h]
    simp [Draft.push]

theorem scan_quotedRun (d : Draft) (rest w : List Char) (hd : d.quoted = true) (start column : Nat) :
    ∃ column', scan (some ('\'', start)) (some d) false column
        (w.flatMap quoteChar ++ '\'' :: rest) =
      scan none (some { d with text := d.text ++ w }) false column' rest := by
  induction w generalizing d start column with
  | nil =>
    refine ⟨column + 1, ?_⟩
    rw [List.flatMap_nil, List.nil_append, scan_quoted]
    simp
  | cons c w ih =>
    have hpush : (Draft.push (some d) c).quoted = true := hd
    by_cases hc : c = '\''
    · subst hc
      -- The quote is left, `"'"` is read, and the quote is entered again.
      obtain ⟨column', h⟩ := ih _ hpush (column + 4) (column + 5)
      refine ⟨column', ?_⟩
      have hread : scan (some ('\'', start)) (some d) false column
          (List.flatMap quoteChar ('\'' :: w) ++ '\'' :: rest) =
          scan (some ('\'', column + 4)) (some (Draft.push (some d) '\'')) false (column + 5)
            (w.flatMap quoteChar ++ '\'' :: rest) := by
        have hquote (e : Draft) (he : e.quoted = true) : Draft.quote (some e) = e := by
          cases e
          cases he
          rfl
        simp [quoteChar, scan_quoted, scan_unquoted, isBlank, isQuote, hquote d hd, hquote _ hpush]
      rw [hread, h]
      simp [Draft.push]
    · obtain ⟨column', h⟩ := ih _ hpush start (column + 1)
      refine ⟨column', ?_⟩
      have hread : scan (some ('\'', start)) (some d) false column
          (List.flatMap quoteChar (c :: w) ++ '\'' :: rest) =
          scan (some ('\'', start)) (some (Draft.push (some d) c)) false (column + 1)
            (w.flatMap quoteChar ++ '\'' :: rest) := by
        simp [quoteChar, hc, scan_quoted]
      rw [hread, h]
      simp [Draft.push]

end Token

structure Written where
  text : List Char
  quoted : Bool
  bare : quoted = false → Text.isBareWord text = true

namespace Written
open Text
variable {w : Written}

def ofWord (w : String) : Written where
  text := w.toList
  quoted := !isBareWord w.toList
  bare h := by simpa using h

def chars (w : Written) : List Char :=
  if w.quoted then '\'' :: w.text.flatMap quoteChar ++ ['\''] else w.text

theorem chars_of_quoted (h : w.quoted = true) :
    w.chars = '\'' :: w.text.flatMap quoteChar ++ ['\''] := if_pos h

theorem chars_of_bare (h : w.quoted = false) : w.chars = w.text := by simp [chars, h]

theorem bareChars (h : w.quoted = false) :
    w.text ≠ [] ∧ ∀ c ∈ w.text, isBareChar c = true := by
  simpa [isBareWord] using w.bare h

theorem toList_quoteWord_eq (w : String) : (quoteWord w).toList = (ofWord w).chars := by
  rw [toList_quoteWord]
  cases h : isBareWord w.toList <;> simp [chars, ofWord, h]

theorem scan_chars (w : Written) (rest : List Char) (fresh : Bool) (column : Nat) :
    ∃ column', Token.scan none none fresh column (w.chars ++ rest) =
      Token.scan none (some ⟨w.text, w.quoted⟩) false column' rest := by
  cases h : w.quoted with
  | false =>
    obtain ⟨hne, hbare⟩ := bareChars h
    rw [chars_of_bare h]
    obtain ⟨c, cs, hw⟩ := List.exists_cons_of_ne_nil hne
    rw [hw] at hbare ⊢
    obtain ⟨column', hrun⟩ := Token.scan_bareRun (Token.Draft.push none c) rest
      (fun x hx => hbare x (List.mem_cons_of_mem c hx)) (column + 1)
    refine ⟨column', ?_⟩
    rw [List.cons_append, Token.scan_bareChar (hbare c List.mem_cons_self), hrun]
    rfl
  | true =>
    obtain ⟨column', hrun⟩ := Token.scan_quotedRun (Token.Draft.quote none) rest w.text rfl column
      (column + 1)
    refine ⟨column', ?_⟩
    have hopen : Token.scan none none fresh column
        ('\'' :: w.text.flatMap quoteChar ++ ['\''] ++ rest) =
        Token.scan (some ('\'', column)) (some (Token.Draft.quote none)) false (column + 1)
          (w.text.flatMap quoteChar ++ '\'' :: rest) := by
      simp [Token.scan_unquoted, isBlank, Token.isQuote]
    rw [chars_of_quoted h, hopen, hrun]
    simp [Token.Draft.quote]

end Written

namespace Token
open Text
variable {d : Draft} {rest : List Char}

def Apart (rest : List Char) : Prop := rest = [] ∨ ∃ more, rest = ' ' :: more

theorem prepend_nil (r : Except Fault (List Token)) : prepend [] r = r := by cases r <;> rfl

theorem scan_space (word : Option Draft) (fresh : Bool) (column : Nat) (more : List Char) :
    scan none word fresh column (' ' :: more) =
      prepend (Draft.close word) (scan none none true (column + 1) more) := by
  rw [scan_unquoted]
  simp [isBlank]

theorem scan_close (h : Apart rest) (column : Nat) :
    ∃ fresh column', scan none (some d) false column rest =
      prepend [word (String.ofList d.text) d.quoted] (scan none none fresh column' rest) := by
  rcases h with rfl | ⟨more, rfl⟩
  · exact ⟨true, column, rfl⟩
  · refine ⟨true, column, ?_⟩
    rw [scan_space, scan_space, Draft.close, prepend_nil]
    rfl

theorem scan_operator {op : String} (hop : op ∈ operators) (h : Apart rest) (fresh : Bool)
    (column : Nat) :
    ∃ fresh' column', scan none none fresh column (op.toList ++ rest) =
      prepend [operator op] (scan none none fresh' column' rest) := by
  simp only [operators, List.mem_cons, List.not_mem_nil, or_false] at hop
  rcases h with rfl | ⟨more, rfl⟩
  · refine ⟨true, column, ?_⟩
    rcases hop with rfl | rfl | rfl | rfl | rfl | rfl | rfl | rfl <;> rfl
  · refine ⟨false, column + op.toList.length, ?_⟩
    rcases hop with rfl | rfl | rfl | rfl | rfl | rfl | rfl | rfl
    all_goals simp [scan_unquoted, isBlank, isQuote, isOperatorChar, isDouble, Draft.close]

theorem Spelled.scan {t : Token} (ht : Spelled t) (rest : List Char) (h : Apart rest) (fresh : Bool)
    (column : Nat) :
    ∃ fresh' column', scan none none fresh column (t.spelling.toList ++ rest) =
      prepend [t] (Token.scan none none fresh' column' rest) := by
  cases ht with
  | word w =>
    obtain ⟨column', hword⟩ := (Written.ofWord w).scan_chars rest fresh column
    obtain ⟨fresh', column'', hclose⟩ :=
      scan_close (d := ⟨w.toList, !isBareWord w.toList⟩) h column'
    refine ⟨fresh', column'', ?_⟩
    change Token.scan none none fresh column ((quoteWord w).toList ++ rest) = _
    rw [Written.toList_quoteWord_eq, hword, Written.ofWord, hclose, String.ofList_toList]
    rfl
  | operator known => exact scan_operator known h fresh column

theorem toList_line_cons (t u : Token) (ts : List Token) :
    (line (t :: u :: ts)).toList = t.spelling.toList ++ ' ' :: (line (u :: ts)).toList := by
  simp [line, String.toList_intercalate]

theorem scan_line {ts : List Token} (hts : ∀ t ∈ ts, Spelled t) (fresh : Bool) (column : Nat) :
    scan none none fresh column (line ts).toList = .ok ts := by
  induction ts generalizing fresh column with
  | nil => rfl
  | cons t ts ih =>
    have ht : Spelled t := hts t (by simp)
    have hrest : ∀ u ∈ ts, Spelled u := fun u hu => hts u (by simp [hu])
    cases ts with
    | nil =>
      obtain ⟨fresh', column', h⟩ := ht.scan [] (.inl rfl) fresh column
      have hline : (line [t]).toList = t.spelling.toList ++ [] := by simp [line]
      rw [hline, h]
      rfl
    | cons u us =>
      obtain ⟨fresh', column', h⟩ := ht.scan (' ' :: (line (u :: us)).toList)
        (.inr ⟨_, rfl⟩) fresh column
      rw [toList_line_cons, h, scan_space, ih hrest]
      rfl

theorem ofLine_of_spelled {ts : List Token} (hts : ∀ t ∈ ts, Spelled t) : ofLine (line ts) = .ok ts :=
  scan_line hts true 0

end Token
end MemShell
