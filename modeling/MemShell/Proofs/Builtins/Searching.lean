import Mathlib.Data.List.Perm.Basic
import MemShell.Proofs.Builtins.Sources
import MemShell.Proofs.Number.Integers
import MemShell.Proofs.Shell.Discipline
import MemShell.Proofs.Text.Lines
set_option autoImplicit false

namespace MemShell.Builtins
open Text

/-- Whether lines were chosen out of those of a text by a predicate: in their order, with the numbers
that they have among all lines, from one on. -/
def ChosenFrom (p : String → Bool) (ls : List String) (chosen : List (String × Nat)) : Prop :=
  chosen.Pairwise (·.2 < ·.2) ∧
    ∀ line n, (line, n) ∈ chosen ↔ 0 < n ∧ ls[n - 1]? = some line ∧ p line = true

namespace Search
variable {s : Search} {text : String}

def chooses (s : Search) (line : String) : Bool := s.matching line != s.invert

def output (s : Search) (text : String) : String := joinLines (s.rows false ⟨none, text⟩)

theorem text_singleton (s : Search) (source : Source) : s.text [source] = s.output source.text := by
  rw [text, List.flatMap_singleton]
  rfl

theorem chosen_eq (s : Search) (text : String) :
    s.chosen text = ((lineBodies text).zipIdx 1).filter fun x => s.chooses x.1 := rfl

theorem chosenFrom_chosen (s : Search) (text : String) :
    ChosenFrom s.chooses (lineBodies text) (s.chosen text) := by
  constructor
  · have hnumbers : ((lineBodies text).zipIdx 1).Pairwise (·.2 < ·.2) := by
      rw [← List.pairwise_map, List.zipIdx_map_snd]
      exact List.pairwise_lt_range'
    exact hnumbers.sublist List.filter_sublist
  · intro line n
    rw [chosen_eq, List.mem_filter, List.mk_mem_zipIdx_iff_le_and_getElem?_sub]
    exact and_assoc

theorem map_fst_chosen (s : Search) (text : String) :
    (s.chosen text).map (·.1) = (lineBodies text).filter s.chooses := by
  have hcomp : (fun x : String × Nat => s.chooses x.1) = s.chooses ∘ Prod.fst := rfl
  rw [chosen_eq, hcomp, ← List.filter_map, List.zipIdx_map_fst]

def row (s : Search) (x : String × Nat) : String :=
  (if s.numbered then toString x.2 ++ ":" else "") ++ x.1

theorem rows_eq (h : s.counted = false) (text : String) :
    s.rows false ⟨none, text⟩ = (s.chosen text).map s.row := by
  unfold rows
  simp only [h, Bool.false_eq_true, if_false, String.empty_append]
  rfl

theorem rows_of_counted (h : s.counted = true) (text : String) :
    s.rows false ⟨none, text⟩ = [toString (s.chosen text).length] := by
  unfold rows
  simp only [h, if_true, Bool.false_eq_true, if_false, String.empty_append]

theorem unbroken_toString (n : Nat) : Unbroken (toString n) := by
  intro c hc
  rw [Json.toList_toString] at hc
  have hblank := Number.isBlank_of_isDigit (Number.isDigit_toDigits n c hc)
  exact Bool.eq_false_iff.mpr fun hbreak => by
    rw [isBlank_of_isLineBreak c hbreak] at hblank
    cases hblank

theorem unbroken_row (s : Search) {x : String × Nat} (hx : x ∈ s.chosen text) :
    Unbroken (s.row x) := by
  have hline : x.1 ∈ (lineBodies text).filter s.chooses := by
    rw [← map_fst_chosen]
    exact List.mem_map_of_mem hx
  have hbody := unbroken_of_mem_lineBodies (List.mem_of_mem_filter hline)
  rw [row, unbroken_append]
  refine ⟨?_, hbody⟩
  split
  · rw [unbroken_append]
    exact ⟨unbroken_toString x.2, unbroken_of_all rfl⟩
  · exact unbroken_of_all rfl

theorem lineBodies_output (s : Search) (text : String) :
    lineBodies (s.output text) = s.rows false ⟨none, text⟩ := by
  refine lineBodies_join_feed fun shown hshown => ?_
  cases h : s.counted with
  | true =>
    rw [rows_of_counted h, List.mem_singleton] at hshown
    exact hshown ▸ unbroken_toString _
  | false =>
    rw [rows_eq h] at hshown
    obtain ⟨x, hx, rfl⟩ := List.mem_map.mp hshown
    exact s.unbroken_row hx

theorem output_eq (s : Search) (text : String) :
    s.output text = joinLines (lineBodies (s.output text)) := by
  rw [lineBodies_output, output]

theorem output_counted (s : Search) (text : String) :
    { s with counted := true }.output text =
      toString (lineBodies ({ s with counted := false }.output text)).length ++ "\n" := by
  rw [output, rows_of_counted rfl, lineBodies_output, rows_eq rfl, List.length_map]
  rfl

section
variable (hplain : s.counted = false ∧ s.numbered = false)
include hplain

theorem lineBodies_output_plain (text : String) :
    lineBodies (s.output text) = (lineBodies text).filter s.chooses := by
  have hrow : s.row = Prod.fst := by
    funext x
    rw [row, hplain.2, if_neg (by decide), String.empty_append]
  rw [lineBodies_output, rows_eq hplain.1, hrow, map_fst_chosen]

/-- What was shown is shown again: its lines are those that were chosen, and all of them are. -/
theorem output_output (text : String) : s.output (s.output text) = s.output text := by
  have hagain : ((lineBodies text).filter s.chooses).filter s.chooses =
      (lineBodies text).filter s.chooses := by
    rw [List.filter_filter]
    simp only [Bool.and_self]
  have hlines : lineBodies (s.output (s.output text)) = lineBodies (s.output text) := by
    rw [lineBodies_output_plain hplain, lineBodies_output_plain hplain, hagain]
  rw [output_eq s (s.output text), hlines, ← output_eq]

end

def ofFlags (c : Context) (matching : String → Bool) : Search :=
  ⟨matching, c.hasFlag "invert", c.hasFlag "line_number", c.hasFlag "count"⟩

end Search

theorem run_grep {c : Context} {shell : Shell} {pattern text : String} {files : List String}
    {p : Pattern} (hargs : c.args = pattern :: files)
    (hpattern : Pattern.read (c.hasFlag "ignore_case") pattern = .ok p)
    (hread : ReadsNamed c shell files [text]) :
    (Builtin.grep.run c).run shell =
      (.ok (.text ((Search.ofFlags c p.occursIn).output text)), shell) := by
  obtain ⟨sources, hrun, htexts⟩ := run_namedSources hread
  obtain ⟨source, rfl, rfl⟩ := exists_source htexts
  change (grep c).run shell = _
  unfold grep
  rw [hargs]
  simp only [List.headD_cons, List.tail_cons, hpattern]
  rw [Work.run_bind, hrun, ← Search.text_singleton]
  rfl

/-- Searching one text, whatever decides on a line, shows the lines that match in their order, and the
other lines if it is inverted, so that each line is shown just once by one of both. Numbers are those
among all lines, counting gives the number of the lines that are shown without it, and searching what
was shown shows it again. -/
theorem search_divides (text : String) :
    (∀ (c : Context) (shell : Shell) (pattern : String) (files : List String) (p : Pattern),
      c.args = pattern :: files → Pattern.read (c.hasFlag "ignore_case") pattern = .ok p →
      ReadsNamed c shell files [text] →
      (Builtin.grep.run c).run shell =
        (.ok (.text ((Search.ofFlags c p.occursIn).output text)), shell)) ∧
    ∀ matching : String → Bool,
      lineBodies (Search.output { matching } text) = (lineBodies text).filter matching ∧
      lineBodies (Search.output { matching, invert := true } text) =
        (lineBodies text).filter (!matching ·) ∧
      (lineBodies (Search.output { matching } text) ++
        lineBodies (Search.output { matching, invert := true } text)).Perm (lineBodies text) ∧
      ∀ invert,
        (∀ numbered, Search.output { matching, invert, numbered, counted := true } text =
          toString (lineBodies (Search.output { matching, invert, numbered } text)).length ++ "\n") ∧
        (∃ chosen, ChosenFrom (matching · != invert) (lineBodies text) chosen ∧
          chosen.map (·.1) = lineBodies (Search.output { matching, invert } text) ∧
          lineBodies (Search.output { matching, invert, numbered := true } text) =
            chosen.map fun x => toString x.2 ++ ":" ++ x.1) ∧
        Search.output { matching, invert } (Search.output { matching, invert } text) =
          Search.output { matching, invert } text ∧
        ∀ numbered counted,
          let shown := Search.output { matching, invert, numbered, counted } text
          shown = joinLines (lineBodies shown) := by
  refine ⟨fun c shell pattern files p => run_grep, fun matching => ?_⟩
  have hshown (invert : Bool) : lineBodies (Search.output { matching, invert } text) =
      (lineBodies text).filter (matching · != invert) :=
    Search.lineBodies_output_plain ⟨rfl, rfl⟩ text
  have hmatching : (fun line => matching line != false) = matching :=
    funext fun line => Bool.xor_false _
  have hothers : (fun line => matching line != true) = (!matching ·) :=
    funext fun line => Bool.xor_true _
  have hkept := hshown false
  have hleft := hshown true
  rw [hmatching] at hkept
  rw [hothers] at hleft
  refine ⟨hkept, hleft, ?_, fun invert => ⟨fun numbered => ?_, ?_, ?_, ?_⟩⟩
  · rw [hkept, hleft]
    exact List.filter_append_perm matching (lineBodies text)
  · exact Search.output_counted { matching, invert, numbered } text
  · refine ⟨_, Search.chosenFrom_chosen { matching, invert } text, ?_, ?_⟩
    · rw [Search.map_fst_chosen, hshown]
      rfl
    · rw [Search.lineBodies_output, Search.rows_eq rfl]
      rfl
  · exact Search.output_output ⟨rfl, rfl⟩ text
  · exact fun numbered counted => Search.output_eq _ text

def ragged : Shell := (Shell.bare []).withFile "/t" "a\u2028b\r\n\nab"

def searchRagged (flags : Flags) : Context := { Context.ofRoot "grep" ["a", "/t"] with flags }

/-- The lines with an a and those without one, and the number of the latter. -/
theorem search_divides_ragged : ∃ shown others,
    (Builtin.grep.run (searchRagged [])).run ragged = (.ok (.text shown), ragged) ∧
    (Builtin.grep.run (searchRagged [("invert", .switch true)])).run ragged =
      (.ok (.text others), ragged) ∧
    (lineBodies shown ++ lineBodies others).Perm ["a", "b", "", "ab"] ∧
    (Builtin.grep.run (searchRagged [("invert", .switch true), ("count", .switch true)])).run ragged =
      (.ok (.text (toString (lineBodies others).length ++ "\n")), ragged) := by
  obtain ⟨p, hpattern⟩ : ∃ p, Pattern.read false "a" = .ok p := ⟨_, rfl⟩
  have hread (flags : Flags) :
      ReadsNamed (searchRagged flags) ragged ["/t"] ["a\u2028b\r\n\nab"] := by
    have hfile : ragged.files.readText (ragged.actor rootUser) "/t" = .ok "a\u2028b\r\n\nab" := by
      decide +kernel
    exact .cons hfile .nil
  obtain ⟨hrun, hsearch⟩ := search_divides "a\u2028b\r\n\nab"
  obtain ⟨-, -, hperm, hshown⟩ := hsearch p.occursIn
  have hlines : lineBodies "a\u2028b\r\n\nab" = ["a", "b", "", "ab"] := by decide +kernel
  rw [hlines] at hperm
  refine ⟨_, _, hrun _ _ "a" ["/t"] p rfl hpattern (hread _),
    hrun _ _ "a" ["/t"] p rfl hpattern (hread _), hperm, ?_⟩
  have hcount := hrun (searchRagged [("invert", .switch true), ("count", .switch true)]) ragged
    "a" ["/t"] p rfl hpattern (hread _)
  rw [hcount]
  exact congrArg (fun text => (Except.ok (Result.text text), ragged)) ((hshown true).1 false)

end MemShell.Builtins
