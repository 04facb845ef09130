import Mathlib.Data.List.TakeWhile
import MemShell.Line.Alias
import MemShell.Line.Comment
import MemShell.Proofs.Line.References
import MemShell.Proofs.Line.Sequences
set_option autoImplicit false

/-!
# Quoted words in lines

A line of words that are bare or between quotes, and what becomes of it on the way to a sequence: it
has no comment, references within quotes are replaced there, and without an alias only the first
blanks of the line change, which may be some of its first word.
-/
namespace MemShell
open Text Line

namespace Written
variable {ρ : Type} {w : Written} {ws : List Written} {s rest : List Char}

def line (ws : List Written) : List Char := [' '].intercalate (ws.map chars)

theorem toList_quoteWords (words : List String) :
    (quoteWords words).toList = line (words.map ofWord) := by
  simp [quoteWords, line, String.toList_intercalate, Function.comp_def, toList_quoteWord_eq]

theorem line_singleton (w : Written) : line [w] = w.chars := by simp [line]

theorem line_cons_cons (w u : Written) (ws : List Written) :
    line (w :: u :: ws) = w.chars ++ ' ' :: line (u :: ws) := by
  simp [line]

theorem flatMap_quoteChar (h : '\'' ∉ s) : s.flatMap quoteChar = s := by
  induction s with
  | nil => rfl
  | cons c s ih =>
    have hc : c ≠ '\'' := fun heq => h (by simp [heq])
    have hs := ih fun hmem => h (List.mem_cons_of_mem _ hmem)
    simp [quoteChar, hc, hs]

def Unquoted (cut : List Char → List (Piece ρ)) (value : ρ → String) (s : List Char) : Prop :=
  ∀ r, .ref r ∈ cut s → '\'' ∉ (value r).toList

instance (cut : List Char → List (Piece ρ)) (value : ρ → String) (s : List Char) :
    Decidable (Unquoted cut value s) :=
  decidable_of_iff (∀ p ∈ cut s, '\'' ∉ match p with
    | .char _ => []
    | .ref r => (value r).toList)
    ⟨fun h r hr => h (.ref r) hr, fun h p hp => match p with
      | .char _ => List.not_mem_nil
      | .ref r => h r hp⟩

section
variable {cut : List Char → List (Piece ρ)} (hcut : Divides cut) (value : ρ → String)

include hcut

theorem cut_nil : cut [] = [] := hcut.literal (by simp)

theorem cut_cons {c : Char} (hc : c = '\'' ∨ c = '"' ∨ c = ' ') (s : List Char) :
    cut (c :: s) = .char c :: cut s := by
  have h := hcut.apart hc [] s
  rwa [cut_nil hcut] at h

theorem render_flatMap (hs : Unquoted cut value s) :
    render value (cut (s.flatMap quoteChar)) = (render value (cut s)).flatMap quoteChar := by
  induction hn : s.length using Nat.strongRecOn generalizing s with
  | ind n ih =>
    by_cases hquote : '\'' ∈ s
    · obtain ⟨a, b, rfl⟩ := List.append_of_mem hquote
      have hsplit := hcut.apart (.inl rfl) a b
      have ha : Unquoted cut value a := fun r hr => hs r (by simp [hsplit, hr])
      have hb : Unquoted cut value b := fun r hr => hs r (by simp [hsplit, hr])
      have hlength : a.length + b.length < n := by simp [← hn]
      have hleft := ih a.length (by omega) ha rfl
      have hright := ih b.length (by omega) hb rfl
      have hquoted : (a ++ '\'' :: b).flatMap quoteChar = a.flatMap quoteChar ++
          '\'' :: '"' :: '\'' :: '"' :: '\'' :: b.flatMap quoteChar := by simp [quoteChar]
      rw [hquoted, hcut.apart (.inl rfl), cut_cons hcut (.inr (.inl rfl)),
        cut_cons hcut (.inl rfl), cut_cons hcut (.inr (.inl rfl)), cut_cons hcut (.inl rfl), hsplit]
      simp [render_append, render_char_cons, hleft, hright, quoteChar]
    · have hrender : '\'' ∉ render value (cut s) := by
        intro h
        obtain ⟨p, hp, hmem⟩ := List.mem_flatMap.mp h
        cases p with
        | char c =>
          obtain rfl := List.mem_singleton.mp hmem
          exact hquote (hcut.mem hp)
        | ref r => exact hs r hp hmem
      rw [flatMap_quoteChar hquote, flatMap_quoteChar hrender]

theorem render_bare (h : w.quoted = false) : render value (cut w.text) = w.text := by
  have hdollar : '$' ∉ w.text := fun hmem => absurd ((bareChars h).2 _ hmem) (by decide)
  rw [hcut.literal hdollar, render_map_char]

end

def put {cut : List Char → List (Piece ρ)} (hcut : Divides cut) (value : ρ → String) (w : Written) :
    Written where
  text := render value (cut w.text)
  quoted := w.quoted
  bare h := by
    rw [render_bare hcut value h]
    exact w.bare h

section
variable {cut : List Char → List (Piece ρ)} (hcut : Divides cut) {value : ρ → String}

theorem render_chars (hw : Unquoted cut value w.text) :
    render value (cut w.chars) = (w.put hcut value).chars := by
  cases h : w.quoted with
  | true =>
    rw [chars_of_quoted h, chars_of_quoted (w := w.put hcut value) h, List.cons_append,
      cut_cons hcut (.inl rfl), hcut.apart (.inl rfl), cut_nil hcut, render_char_cons, render_append,
      render_char_cons, render_flatMap hcut value hw]
    rfl
  | false =>
    rw [chars_of_bare h, chars_of_bare (w := w.put hcut value) h]
    rfl

theorem render_line (hws : ∀ w ∈ ws, Unquoted cut value w.text) :
    render value (cut (line ws)) = line (ws.map (put hcut value)) := by
  induction ws with
  | nil =>
    rw [line, List.map_nil, List.intercalate_nil, cut_nil hcut]
    rfl
  | cons w ws ih =>
    have hw := render_chars hcut (hws w List.mem_cons_self)
    have hrest := ih fun u hu => hws u (List.mem_cons_of_mem _ hu)
    cases ws with
    | nil => rw [List.map_singleton, line_singleton, line_singleton, hw]
    | cons u us =>
      rw [line_cons_cons, hcut.apart (.inr (.inr rfl)), render_append, render_char_cons, hw, hrest]
      rfl

end

theorem beforeComment_quoted (fresh : Bool) (s rest : List Char) :
    beforeComment (some '\'') fresh (s.flatMap quoteChar ++ '\'' :: rest) =
      s.flatMap quoteChar ++ '\'' :: beforeComment none false rest := by
  induction s generalizing fresh with
  | nil => simp [beforeComment, isBlank]
  | cons c s ih =>
    by_cases hc : c = '\''
    · simp [hc, quoteChar, beforeComment, ih]
    · simp [hc, quoteChar, beforeComment, ih]

theorem beforeComment_chars (w : Written) (fresh : Bool) (rest : List Char) :
    beforeComment none fresh (w.chars ++ rest) = w.chars ++ beforeComment none false rest := by
  cases h : w.quoted with
  | true =>
    have hopen := beforeComment_quoted false w.text rest
    rw [chars_of_quoted h]
    simp [beforeComment, hopen]
  | false =>
    obtain ⟨hne, hbare⟩ := bareChars h
    rw [chars_of_bare h]
    generalize w.text = s at hne hbare
    induction s generalizing fresh with
    | nil => exact absurd rfl hne
    | cons c s ih =>
      have hc : isBareChar c = true := hbare c List.mem_cons_self
      have hhash : c ≠ '#' := ne_of_isBareChar hc (by decide)
      have hsingle : c ≠ '\'' := ne_of_isBareChar hc (by decide)
      have hdouble : c ≠ '"' := ne_of_isBareChar hc (by decide)
      have hblank := not_isBlank_of_isBareChar hc
      have hcons : beforeComment none fresh (c :: s ++ rest) =
          c :: beforeComment none false (s ++ rest) := by
        simp [beforeComment, hhash, hsingle, hdouble, hblank]
      rw [hcons]
      cases s with
      | nil => rfl
      | cons d s =>
        rw [ih false (by simp) fun x hx => hbare x (List.mem_cons_of_mem _ hx)]
        rfl

theorem beforeComment_line (fresh : Bool) (ws : List Written) :
    beforeComment none fresh (line ws) = line ws := by
  induction ws generalizing fresh with
  | nil => rfl
  | cons w ws ih =>
    cases ws with
    | nil =>
      have h := beforeComment_chars w fresh []
      rwa [List.append_nil, beforeComment, List.append_nil, ← line_singleton] at h
    | cons u us =>
      have hspace : beforeComment none false (' ' :: line (u :: us)) = ' ' :: line (u :: us) := by
        rw [beforeComment]
        simp [ih]
      rw [line_cons_cons, beforeComment_chars, hspace]

structure Solid (s : List Char) : Prop where
  head : ∀ c ∈ s.head?, isBlank c = false
  last : ∀ c ∈ s.getLast?, isBlank c = false

theorem Solid.append {t : List Char} (hs : Solid s) (ht : Solid t) (hs' : s ≠ []) (ht' : t ≠ [])
    (between : List Char) : Solid (s ++ between ++ t) where
  head c hc := by
    obtain ⟨a, s, rfl⟩ := List.exists_cons_of_ne_nil hs'
    exact hs.head c hc
  last c hc := by
    rw [List.getLast?_append_of_ne_nil _ ht'] at hc
    exact ht.last c hc

theorem trimStart_of_head (h : ∀ c ∈ s.head?, isBlank c = false) : trimStart s = s := by
  cases s with
  | nil => rfl
  | cons c s => simp [trimStart, h c rfl]

theorem Solid.trim (h : Solid s) : trim s = s := by
  have hreverse : trimStart s.reverse = s.reverse := by
    refine trimStart_of_head fun c hc => h.last c ?_
    rwa [List.head?_reverse] at hc
  rw [Text.trim, trimStart_of_head h.head, trimEnd]
  rw [trimStart] at hreverse
  rw [hreverse, List.reverse_reverse]

theorem chars_ne_nil (w : Written) : w.chars ≠ [] := by
  cases h : w.quoted with
  | true => simp [chars_of_quoted h]
  | false =>
    rw [chars_of_bare h]
    exact (bareChars h).1

theorem solid_chars (w : Written) : Solid w.chars := by
  cases h : w.quoted with
  | true =>
    rw [chars_of_quoted h]
    refine ⟨fun c hc => ?_, fun c hc => ?_⟩
    · obtain rfl : '\'' = c := by simpa using hc
      decide
    · rw [List.getLast?_concat] at hc
      cases hc
      decide
  | false =>
    have hbare := (bareChars h).2
    rw [chars_of_bare h]
    exact ⟨fun c hc => not_isBlank_of_isBareChar (hbare c (List.mem_of_mem_head? hc)),
      fun c hc => not_isBlank_of_isBareChar (hbare c (List.mem_of_mem_getLast? hc))⟩

theorem line_ne_nil (hws : ws ≠ []) : line ws ≠ [] := by
  cases ws with
  | nil => exact absurd rfl hws
  | cons w ws =>
    cases ws with
    | nil => simpa [line_singleton] using w.chars_ne_nil
    | cons u us => simp [line_cons_cons]

theorem solid_line (ws : List Written) : Solid (line ws) := by
  induction ws with
  | nil => constructor <;> exact fun c hc => nomatch hc
  | cons w ws ih =>
    cases ws with
    | nil =>
      rw [line_singleton]
      exact w.solid_chars
    | cons u us =>
      have h := w.solid_chars.append ih w.chars_ne_nil (line_ne_nil (by simp)) [' ']
      rw [line_cons_cons]
      simpa using h

theorem stripComment_quoteWords (words : List String) :
    stripComment (quoteWords words) = quoteWords words := by
  have hline := beforeComment_line true (words.map ofWord)
  rw [← toList_quoteWords] at hline
  have hsolid := solid_line (words.map ofWord)
  rw [← toList_quoteWords] at hsolid
  rw [stripComment, hline, hsolid.trim, String.ofList_toList]

def squeeze : List Char → List Char
  | [] => []
  | c :: s => if isBlank c then ' ' :: trimStart s else c :: squeeze s

theorem squeeze_of_not_blank (h : ∀ c ∈ s, isBlank c = false) : squeeze s = s := by
  induction s with
  | nil => rfl
  | cons c s ih =>
    have hc : isBlank c = false := h c List.mem_cons_self
    rw [squeeze, hc, if_neg Bool.false_ne_true, ih fun d hd => h d (List.mem_cons_of_mem _ hd)]

theorem trimStart_flatMap (s rest : List Char) :
    trimStart (s.flatMap quoteChar ++ '\'' :: rest) =
      (trimStart s).flatMap quoteChar ++ '\'' :: rest := by
  induction s with
  | nil => simp [trimStart, isBlank]
  | cons c s ih =>
    by_cases hc : c = '\''
    · simp [hc, trimStart, quoteChar, isBlank]
    · have hquote : quoteChar c = [c] := by simp [quoteChar, hc]
      cases hblank : isBlank c with
      | true =>
        have hdrop (t : List Char) : trimStart (c :: t) = trimStart t := by simp [trimStart, hblank]
        rw [List.flatMap_cons, hquote, List.append_assoc, List.singleton_append, hdrop, hdrop, ih]
      | false => simp [trimStart, hblank, hquote]

theorem squeeze_flatMap (hrest : squeeze rest = rest) (s : List Char) :
    squeeze (s.flatMap quoteChar ++ '\'' :: rest) =
      (squeeze s).flatMap quoteChar ++ '\'' :: rest := by
  induction s with
  | nil => simp [squeeze, isBlank, hrest]
  | cons c s ih =>
    by_cases hc : c = '\''
    · simp [hc, squeeze, quoteChar, isBlank, ih]
    · have hquote : quoteChar c = [c] := by simp [quoteChar, hc]
      cases hblank : isBlank c with
      | true =>
        have hspace : quoteChar ' ' = [' '] := by decide
        simp [squeeze, hblank, hquote, hspace, trimStart_flatMap]
      | false => simp [squeeze, hblank, hquote, ih]

def squeezed (w : Written) : Written where
  text := squeeze w.text
  quoted := w.quoted
  bare h := by
    rw [squeeze_of_not_blank fun c hc => not_isBlank_of_isBareChar ((bareChars h).2 c hc)]
    exact w.bare h

theorem squeeze_chars (w : Written) (hrest : squeeze rest = rest) :
    squeeze (w.chars ++ rest) = w.squeezed.chars ++ rest := by
  cases h : w.quoted with
  | true =>
    have hinner := squeeze_flatMap hrest w.text
    rw [chars_of_quoted h, chars_of_quoted (w := w.squeezed) h]
    simp [squeeze, isBlank, hinner, squeezed]
  | false =>
    have hbare : ∀ c ∈ w.text, isBlank c = false := fun c hc =>
      not_isBlank_of_isBareChar ((bareChars h).2 c hc)
    have hsame : w.squeezed.text = w.text := squeeze_of_not_blank hbare
    rw [chars_of_bare h, chars_of_bare (w := w.squeezed) h, hsame]
    generalize w.text = s at hbare
    induction s with
    | nil => exact hrest
    | cons c s ih =>
      have hc : isBlank c = false := hbare c List.mem_cons_self
      rw [List.cons_append, squeeze, hc, if_neg Bool.false_ne_true,
        ih fun d hd => hbare d (List.mem_cons_of_mem _ hd)]

theorem squeeze_line (w : Written) (ws : List Written) :
    squeeze (line (w :: ws)) = line (w.squeezed :: ws) := by
  cases ws with
  | nil =>
    have h : squeeze (w.chars ++ []) = _ := squeeze_chars w rfl
    rwa [List.append_nil, List.append_nil, ← line_singleton, ← line_singleton] at h
  | cons u us =>
    have hrest : squeeze (' ' :: line (u :: us)) = ' ' :: line (u :: us) := by
      rw [squeeze, trimStart_of_head (solid_line _).head]
      rfl
    rw [line_cons_cons, squeeze_chars w hrest, line_cons_cons]

def leading (s : List Char) : String := String.ofList (s.takeWhile (!isBlank ·))

theorem leading_line (w : Written) (ws : List Written) : leading (line (w :: ws)) = leading w.chars := by
  cases ws with
  | nil => rw [line_singleton]
  | cons u us => rw [line_cons_cons, leading, takeWhile_append_cons rfl, leading]

theorem expand_of_get?_eq_none {a : Aliases} {command : String} (h : a.get? command = none)
    (n : Nat) (rest : String) : a.expand n (command, rest) = (command, rest) := by
  cases n with
  | zero => rfl
  | succ n => simp [Aliases.expand, h]

theorem squeeze_eq (h : ∀ c ∈ s.getLast?, isBlank c = false) :
    squeeze s = s.takeWhile (!isBlank ·) ++
      if (trimStart (s.dropWhile (!isBlank ·))).isEmpty then []
      else ' ' :: trimStart (s.dropWhile (!isBlank ·)) := by
  induction s with
  | nil => rfl
  | cons c s ih =>
    cases hc : isBlank c with
    | true =>
      have hrest : (trimStart s).isEmpty = false := by
        rw [List.isEmpty_eq_false_iff, trimStart, Ne, List.dropWhile_eq_nil_iff]
        intro hall
        have hlast := h _ (List.getLast?_eq_some_getLast (by simp : c :: s ≠ []))
        have hblank : isBlank ((c :: s).getLast (by simp)) = true := by
          rcases List.mem_cons.mp (List.getLast_mem (by simp : c :: s ≠ [])) with heq | hmem
          · rw [heq, hc]
          · exact hall _ hmem
        rw [hlast] at hblank
        cases hblank
      have hdrop : trimStart (c :: s) = trimStart s := by simp [trimStart, hc]
      simp [squeeze, hc, hdrop, hrest]
    | false =>
      have hs : ∀ d ∈ s.getLast?, isBlank d = false := by
        intro d hd
        refine h d ?_
        cases s with
        | nil => cases hd
        | cons e s => simpa [List.getLast?_cons_cons] using hd
      simp [squeeze, hc, ih hs]

theorem leading_eq_empty_iff (hs : Solid s) : leading s = "" ↔ s = [] := by
  cases s with
  | nil => simp [leading]
  | cons c s => simp [leading, hs.head c rfl, ← String.toList_inj]

/-- Where no alias applies, only the blanks around a line and its first blanks within change. -/
theorem resolve_of_solid {a : Aliases} {line : String} (htext : Text.trim line.toList = s)
    (hs : Solid s) (hne : s ≠ []) (h : a.get? (leading s) = none) :
    a.resolve line = .ok (String.ofList (squeeze s)) := by
  have hsplit : Aliases.splitFirst line =
      (leading s, String.ofList (trimStart (s.dropWhile (!isBlank ·)))) := by
    simp only [Aliases.splitFirst, htext, firstWord, trimStart_of_head hs.head, leading]
  have hempty : (leading s).isEmpty = false := by
    rw [String.isEmpty_eq_false_iff, Ne, leading_eq_empty_iff hs]
    exact hne
  have hjoin (x y : List Char) (hx : x.isEmpty = false) :
      Aliases.joinParts [String.ofList x, String.ofList y] =
        String.ofList (x ++ if y.isEmpty then [] else ' ' :: y) := by
    cases x with
    | nil => cases hx
    | cons c x =>
      refine String.toList_injective ?_
      cases y <;> simp [Aliases.joinParts]
  simp only [Aliases.resolve, hsplit, hempty, expand_of_get?_eq_none h, h, Option.isSome_none,
    Bool.false_eq_true, if_false]
  rw [leading, hjoin _ _ (by simpa [leading] using hempty), squeeze_eq hs.last]

theorem resolve_of_get?_eq_none {a : Aliases} (hs : Solid s) (hne : s ≠ [])
    (h : a.get? (leading s) = none) :
    a.resolve (String.ofList s) = .ok (String.ofList (squeeze s)) :=
  resolve_of_solid (by rw [String.toList_ofList, hs.trim]) hs hne h

def token (w : Written) : Token := .word (String.ofList w.text) w.quoted

theorem scan_line (ws : List Written) (fresh : Bool) (column : Nat) :
    Token.scan none none fresh column (line ws) = .ok (ws.map token) := by
  induction ws generalizing fresh column with
  | nil => rfl
  | cons w ws ih =>
    cases ws with
    | nil =>
      obtain ⟨column', h⟩ := w.scan_chars [] fresh column
      rw [List.append_nil] at h
      rw [line_singleton, h]
      rfl
    | cons u us =>
      obtain ⟨column', h⟩ := w.scan_chars (' ' :: line (u :: us)) fresh column
      rw [line_cons_cons, h, Token.scan_space, ih]
      rfl

theorem ofLine_words (w : Written) (ws : List Written) :
    SequenceItem.ofLine (String.ofList (line (w :: ws))) =
      .ok [⟨{ segments := [⟨String.ofList w.text, ws.map fun u => String.ofList u.text⟩] },
        none⟩] := by
  have htokens : Token.ofLine (String.ofList (line (w :: ws))) = .ok ((w :: ws).map token) := by
    rw [Token.ofLine, String.toList_ofList]
    exact scan_line _ true 0
  unfold SequenceItem.ofLine
  rw [htokens]
  refine SequenceItem.ofTokens_of_isWord (fun t ht => ?_) ?_
  · obtain ⟨u, -, rfl⟩ := List.mem_map.mp ht
    rfl
  · rw [List.map_map]
    rfl

end Written
end MemShell
