import MemShell.Proofs.Line.Composition
import MemShell.Proofs.Line.Quoting
set_option autoImplicit false

/-!
# The first blanks of a line

Where no alias applies, a line loses its outer blanks and has one space in the place of its first
blanks. It is read as before if and only if none of these was part of a word: the first blanks may
stand in a quote, and a backslash may take one of them or the first one at the end.
-/
namespace MemShell
open Text Line

namespace Token
namespace Stand
variable {s : Stand} {d : Draft} {c g : Char} {cs gap rest after : List Char} {q : Char}

theorem read_quoted_blanks (hq : isQuote q = true) (hgap : ∀ g ∈ gap, isBlank g = true)
    (more : List Char) :
    (quoted q d).read (gap ++ more) =
      ((quoted q {}).read more).map (Token.glue ⟨d.text ++ gap, d.quoted⟩) := by
  rw [← read_glue rfl]
  have hglue : (quoted q {}).glue ⟨d.text ++ gap, d.quoted⟩ =
      quoted q ⟨d.text ++ gap, d.quoted⟩ := by
    simp [glue, Draft.append]
  rw [hglue]
  clear hglue
  induction gap generalizing d with
  | nil => simp
  | cons g gap ih =>
    have hg : isBlank g = true := hgap g (by simp)
    have hslash : g ≠ '\\' := by
      rintro rfl
      cases hg
    have hstep : (quoted q d).step g = ([], quoted q ⟨d.text ++ [g], d.quoted⟩) := by
      simp [step, ne_of_isBlank_of_isQuote hg hq, hslash, Draft.push]
    rw [List.cons_append, read_of_silent hstep, ih fun x hx => hgap x (by simp [hx])]
    simp

theorem read_blanks_of_quote? (hquote : s.quote? = some q) (hq : isQuote q = true) :
    ∃ d : Draft, ∀ gap more, gap ≠ [] → (∀ g ∈ gap, isBlank g = true) →
      s.read (gap ++ more) =
        ((quoted q {}).read more).map (Token.glue ⟨d.text ++ gap, d.quoted⟩) := by
  cases s with
  | quoted q' d =>
    obtain rfl : q' = q := Option.some.inj hquote
    exact ⟨d, fun gap more _ hgap => read_quoted_blanks hq hgap more⟩
  | quotedEscape d =>
    obtain rfl : '"' = q := Option.some.inj hquote
    refine ⟨Draft.push (some d) '\\', fun gap more hne hgap => ?_⟩
    rw [← read_quoted_blanks hq hgap more]
    obtain ⟨g, gap, rfl⟩ := List.exists_cons_of_ne_nil hne
    have hg : isBlank g = true := hgap g (by simp)
    have hplain : isEscapable g = false := by
      by_contra h
      simp only [isEscapable, Bool.not_eq_false, Bool.or_eq_true, decide_eq_true_eq] at h
      rcases h with (rfl | rfl) | rfl <;> cases hg
    have hne : g ≠ '"' ∧ g ≠ '\\' := by
      constructor <;> rintro rfl <;> cases hg
    have hstep : (quotedEscape d).step g = (quoted '"' (Draft.push (some d) '\\')).step g := by
      simp [step, hplain, hne]
    rw [List.cons_append, read_cons, read_cons, hstep]
  | outside word fresh => cases hquote
  | escape d => cases hquote
  | operator o => cases hquote
  | comment => cases hquote

theorem read_escape_blank (d : Draft) (g : Char) (more : List Char) :
    (escape d).read (g :: more) =
      ((outside (some {}) false).read more).map (Token.glue ⟨d.text ++ [g], true⟩) := by
  have hstep : (escape d).step g =
      ([], (outside (some {}) false).glue ⟨d.text ++ [g], true⟩) := by
    simp [step, glue, Draft.push, Draft.quote, Draft.append]
  rw [read_of_silent hstep, read_glue rfl]

/-- Whether one space can stand for the blanks of a gap. -/
@[mk_iff]
structure KeepsGap (s : Stand) (gap rest : List Char) : Prop where
  quoted : s.quote?.isSome = true → gap = [' ']
  escaped : s.isEscape = true →
    gap = [' '] ∨ gap.head? = some ' ' ∧ rest.head?.any isOperatorChar = true

instance (s : Stand) (gap rest : List Char) : Decidable (KeepsGap s gap rest) :=
  decidable_of_iff _ (keepsGap_iff s gap rest).symm

theorem keepsGap_of_quote? (h : s.quote? = some q) : KeepsGap s gap rest ↔ gap = [' '] :=
  ⟨fun hkeeps => hkeeps.quoted (by simp [h]),
    fun hgap => ⟨fun _ => hgap, fun hescape => by simp [isEscape_of_quote? h] at hescape⟩⟩

end Stand

def size : List Token → Nat
  | [] => 0
  | t :: ts => t.text.toList.length + size ts

theorem size_append (ts us : List Token) : size (ts ++ us) = size ts + size us := by
  induction ts with
  | nil => simp [size]
  | cons t ts ih => rw [List.cons_append, size, size, ih, Nat.add_assoc]

theorem size_glue {ts : List Token} (hne : ts ≠ []) (d : Draft) :
    size (glue d ts) = d.text.length + size ts := by
  obtain ⟨t, ts, rfl⟩ := List.exists_cons_of_ne_nil hne
  simp [size, glue, Nat.add_assoc]

theorem size_le_of_map {read : Option (List Token)} {f f' : List Token → List Token}
    {ts us : List Token} (h : ∀ vs, read = some vs → size (f' vs) ≤ size (f vs))
    (hts : read.map f = some ts) (hus : read.map f' = some us) : size us ≤ size ts := by
  obtain ⟨vs, hvs, rfl⟩ := Option.map_eq_some_iff.mp hts
  obtain ⟨ws, hws, rfl⟩ := Option.map_eq_some_iff.mp hus
  obtain rfl : vs = ws := Option.some.inj (hvs.symm.trans hws)
  exact h vs hvs

theorem length_glue (d : Draft) (ts : List Token) : (glue d ts).length = ts.length := by
  cases ts <;> rfl

theorem map_glue_eq_iff {read : Option (List Token)} (hread : read ≠ some []) {s x y : List Char}
    {quoted : Bool} :
    read.map (glue ⟨s ++ x, quoted⟩) = read.map (glue ⟨s ++ y, quoted⟩) ↔
      read.map (glue ⟨s ++ x, quoted⟩) = none ∨ x = y := by
  match read, hread with
  | none, _ => simp
  | some (t :: ts), _ =>
    simp [glue, ← String.toList_inj]

namespace Stand
variable {s : Stand} {d : Draft} {c g : Char} {cs gap rest after : List Char} {q : Char}

theorem read_append_eq_none_iff : s.read (cs ++ rest) = none ↔ (s.run cs).2.read rest = none := by
  rw [read_append, Option.map_eq_none_iff]

theorem run_comment (cs : List Char) : (comment.run cs).2 = comment := by
  induction cs with
  | nil => rfl
  | cons c cs ih => exact ih

theorem read_escape_blanks (d : Draft) (g : Char) (hne : gap ≠ [])
    (hgap : ∀ g ∈ gap, isBlank g = true) (more : List Char) :
    (escape d).read (g :: (gap ++ more)) =
      (start.read more).map (word (String.ofList (d.text ++ [g])) true :: ·) := by
  have hstep : (escape d).step g = ([], outside (some ⟨d.text ++ [g], true⟩) false) := rfl
  rw [read_of_silent hstep, read_blanks_of_finish rfl (by simp) rfl hne hgap]
  rfl

/-- A character that opens neither a comment nor an operator is read in a word as before it. -/
theorem step_begun (hblank : isBlank c = false) (hcomment : c ≠ '#')
    (hoperator : isOperatorChar c = false) :
    ∃ t e, start.step c = ([], t) ∧ (outside (some {}) false).step c = ([], t) ∧
      t.draft? = some e := by
  by_cases hquote : isQuote c = true
  · refine ⟨quoted c (Draft.quote none), _, ?_, ?_, rfl⟩ <;>
      simp [start, step, stepOutside, hblank, hcomment, hquote, Draft.quote]
  by_cases hslash : c = '\\'
  · subst hslash
    exact ⟨escape {}, _, rfl, rfl, rfl⟩
  · refine ⟨outside (some (Draft.push none c)) false, _, ?_, ?_, rfl⟩ <;>
      simp [start, step, stepOutside, hblank, hcomment, hquote, hslash, hoperator, Draft.push]

theorem read_begun_operator (hoperator : isOperatorChar c = true) (cs : List Char) :
    (outside (some {}) false).read (c :: cs) = (start.read (c :: cs)).map (word "" :: ·) := by
  have hblank := isBlank_of_isOperatorChar hoperator
  have hquote := isQuote_of_isOperatorChar hoperator
  have hne : c ≠ '#' ∧ c ≠ '\\' := by
    constructor <;> rintro rfl <;> cases hoperator
  have hstep : start.step c = ([], operator c) := by
    simp [start, step, stepOutside, hblank, hquote, hne, hoperator, Draft.close]
  have hbegun : (outside (some {}) false).step c = ([word ""], operator c) := by
    simp [step, stepOutside, hblank, hquote, hne, hoperator, Draft.close]
  rw [read_of_silent hstep, read_cons, hbegun]
  rfl

structure Shortened (s : Stand) (gap rest : List Char) : Prop where
  eq_iff : s.read (gap ++ rest) = s.read (' ' :: rest) ↔
    s.read (gap ++ rest) = none ∨ KeepsGap s gap rest
  /-- What a gap loses is not made up for by a blank that is lost at the end. -/
  size_le : (s.run (gap ++ rest)).2.isEscape = true → ∀ ts us, s.read (gap ++ rest) = some ts →
    s.read (' ' :: rest) = some us → size us ≤ size ts

theorem shortened_of_glue {read : Option (List Token)} (hread : read ≠ some []) {x : List Char}
    {quoted : Bool} (hne : gap ≠ []) (hkeeps : KeepsGap s gap rest ↔ gap = [' '])
    (hgap : s.read (gap ++ rest) = read.map (Token.glue ⟨x ++ gap, quoted⟩))
    (hspace : s.read (' ' :: rest) = read.map (Token.glue ⟨x ++ [' '], quoted⟩)) :
    Shortened s gap rest := by
  refine ⟨by rw [hgap, hspace, hkeeps, map_glue_eq_iff hread], fun _ ts us hts hus => ?_⟩
  rw [hgap] at hts
  rw [hspace] at hus
  refine size_le_of_map (fun vs hvs => ?_) hts hus
  have hvsne : vs ≠ [] := by
    rintro rfl
    exact hread hvs
  have hlength : 0 < gap.length := List.length_pos_of_ne_nil hne
  simp only [size_glue hvsne, List.length_append, List.length_singleton]
  omega

theorem shortened_of_quote? (hquote : s.quote? = some q) (hq : isQuote q = true) (hne : gap ≠ [])
    (hgap : ∀ g ∈ gap, isBlank g = true) : Shortened s gap rest := by
  obtain ⟨d, hread⟩ := read_blanks_of_quote? hquote hq
  exact shortened_of_glue (read_ne_nil (s := quoted q {}) rfl rest) hne (keepsGap_of_quote? hquote)
    (hread gap rest hne hgap) (hread [' '] rest (by simp) (by simp [isBlank]))

theorem shortened_of_closed (hquote : s.quote? = none) (hescape : s.isEscape = false)
    (hne : gap ≠ []) (hgap : ∀ g ∈ gap, isBlank g = true) : Shortened s gap rest := by
  have hsame : s.read (gap ++ rest) = s.read (' ' :: rest) := by
    by_cases hcomment : s = .comment
    · rw [hcomment, read_comment, read_comment]
    · obtain ⟨ts, hfinish⟩ := exists_finish hquote
      have hspace : s.read ([' '] ++ rest) = (start.read rest).map (ts ++ ·) :=
        read_blanks_of_finish hfinish hcomment hescape (by simp) (by simp [isBlank])
      exact (read_blanks_of_finish hfinish hcomment hescape hne hgap).trans hspace.symm
  have hkeeps : KeepsGap s gap rest := ⟨by simp [hquote], by simp [hescape]⟩
  refine ⟨by simp [hsame, hkeeps], fun _ ts us hts hus => ?_⟩
  rw [hsame, hus] at hts
  exact (congrArg size (Option.some.inj hts)).le

/-- A backslash takes the first blank, and the others end the word, which goes on behind one space
only. -/
theorem keepsGap_escape (d : Draft) (g : Char) (hne : gap ≠ []) :
    KeepsGap (escape d) (g :: gap) (c :: cs) ↔ g = ' ' ∧ isOperatorChar c = true := by
  constructor
  · intro h
    simpa [hne] using h.escaped rfl
  · rintro ⟨rfl, hoperator⟩
    exact ⟨nofun, fun _ => .inr ⟨rfl, hoperator⟩⟩

theorem shortened_of_operator (d : Draft) (g : Char) (hne : gap ≠ [])
    (hgap : ∀ g ∈ gap, isBlank g = true) (hoperator : isOperatorChar c = true) :
    Shortened (escape d) (g :: gap) (c :: cs) := by
  have hread := read_escape_blanks d g hne hgap (c :: cs)
  have hspace := read_escape_blank d ' ' (c :: cs)
  rw [read_begun_operator hoperator, Option.map_map] at hspace
  refine ⟨?_, fun _ ts us hts hus => ?_⟩
  · rw [List.cons_append, hread, hspace, keepsGap_escape d g hne]
    cases start.read (c :: cs) <;> simp [hoperator, Token.glue, word, ← String.toList_inj]
  · rw [List.cons_append, hread] at hts
    rw [hspace] at hus
    refine size_le_of_map (fun vs _ => ?_) hts hus
    simp [Token.glue, size, word]

theorem shortened_of_hash (d : Draft) (g : Char) (hne : gap ≠ [])
    (hgap : ∀ g ∈ gap, isBlank g = true) : Shortened (escape d) (g :: gap) ('#' :: cs) := by
  have hread := read_escape_blanks d g hne hgap ('#' :: cs)
  have hstart : start.step '#' = ([], comment) := rfl
  rw [read_of_silent hstart, read_comment] at hread
  refine ⟨?_, fun hescape => ?_⟩
  · rw [List.cons_append, hread, keepsGap_escape d g hne]
    refine iff_of_false (fun hsame => ?_) (by simp [isOperatorChar])
    have hspace : (escape d).step ' ' = ([], outside (some ⟨d.text ++ [' '], true⟩) false) := rfl
    have hhash : (outside (some ⟨d.text ++ [' '], true⟩) false).step '#' =
        ([], outside (some ⟨d.text ++ [' '] ++ ['#'], true⟩) false) := rfl
    rw [read_of_silent hspace, read_of_silent hhash] at hsame
    obtain ⟨t, us, hts, htext⟩ := text_of_read rfl hsame.symm
    obtain rfl : word (String.ofList (d.text ++ [g])) true = t := (List.cons.inj hts).1
    have hlength := htext.length_le
    simp [word] at hlength
  · have hrun : ((escape d).run (g :: gap)).2 = start := by
      obtain ⟨g', gap, rfl⟩ := List.exists_cons_of_ne_nil hne
      have hescaped : (escape d).step g = ([], outside (some ⟨d.text ++ [g], true⟩) false) := rfl
      rw [run, run, hescaped, step_outside_blank _ _ (hgap g' (by simp)),
        run_blanks fun x hx => hgap x (List.mem_cons_of_mem _ hx)]
    rw [run_append_snd, hrun, run, hstart, run_comment] at hescape
    cases hescape

theorem shortened_of_begun (d : Draft) (g : Char) (hne : gap ≠ [])
    (hgap : ∀ g ∈ gap, isBlank g = true) (hblank : isBlank c = false) (hcomment : c ≠ '#')
    (hoperator : isOperatorChar c = false) : Shortened (escape d) (g :: gap) (c :: cs) := by
  have hread := read_escape_blanks d g hne hgap (c :: cs)
  have hspace := read_escape_blank d ' ' (c :: cs)
  obtain ⟨t, e, hstart, hbegun, he⟩ := step_begun hblank hcomment hoperator
  rw [read_of_silent hbegun, ← read_of_silent hstart] at hspace
  refine ⟨?_, fun _ ts us hts hus => ?_⟩
  · rw [List.cons_append, hread, hspace, keepsGap_escape d g hne]
    cases start.read (c :: cs) with
    | none => simp
    | some vs =>
      refine iff_of_false (fun hsame => ?_) (by simp [hoperator])
      have hlength := congrArg List.length (Option.some.inj hsame)
      rw [length_glue, List.length_cons] at hlength
      omega
  · rw [List.cons_append, hread] at hts
    rw [hspace] at hus
    refine size_le_of_map (fun vs hvs => ?_) hts hus
    have hvsne : vs ≠ [] := by
      rintro rfl
      rw [read_of_silent hstart] at hvs
      exact read_ne_nil he cs hvs
    simp [size_glue hvsne, size, word]

theorem shortened_of_escape (d : Draft) (hne : gap ≠ []) (hgap : ∀ g ∈ gap, isBlank g = true)
    (hc : isBlank c = false) : Shortened (escape d) gap (c :: cs) := by
  obtain ⟨g, gap, rfl⟩ := List.exists_cons_of_ne_nil hne
  replace hgap : ∀ g ∈ gap, isBlank g = true := fun x hx => hgap x (by simp [hx])
  by_cases hmore : gap = []
  · subst hmore
    have hkeeps : KeepsGap (escape d) [g] (c :: cs) ↔ [g] = [' '] :=
      ⟨fun h => (h.escaped rfl).elim id fun ⟨hhead, _⟩ => by simpa using hhead,
        fun h => ⟨nofun, fun _ => .inl h⟩⟩
    exact shortened_of_glue (read_ne_nil (s := outside (some {}) false) rfl (c :: cs)) hne hkeeps
      (read_escape_blank d g (c :: cs)) (read_escape_blank d ' ' (c :: cs))
  cases hoperator : isOperatorChar c with
  | true => exact shortened_of_operator d g hmore hgap hoperator
  | false =>
    by_cases hcomment : c = '#'
    · subst hcomment
      exact shortened_of_hash d g hmore hgap
    · exact shortened_of_begun d g hmore hgap hc hcomment hoperator

theorem shortened (hisQuote : ∀ q, s.quote? = some q → isQuote q = true) (hne : gap ≠ [])
    (hgap : ∀ g ∈ gap, isBlank g = true) (hc : isBlank c = false) :
    Shortened s gap (c :: cs) := by
  cases hquote : s.quote? with
  | some q => exact shortened_of_quote? hquote (hisQuote q hquote) hne hgap
  | none =>
    cases hescape : s.isEscape with
    | true =>
      obtain ⟨d, rfl⟩ := exists_escape hescape
      exact shortened_of_escape d hne hgap hc
    | false => exact shortened_of_closed hquote hescape hne hgap

theorem read_append_blanks (hisQuote : ∀ q, s.quote? = some q → isQuote q = true)
    (hafter : ∀ c ∈ after, isBlank c = true)
    (hends : (s.run cs).2.isEscape = true → after = []) : s.read (cs ++ after) = s.read cs := by
  cases hquote : (s.run cs).2.quote? with
  | none =>
    have hcut := read_eq_finish_iff hquote hafter (.inl (rfl : [] = []))
    rw [List.append_nil] at hcut
    exact (read_append_eq_read_iff s cs after).mpr (hcut.mpr hends)
  | some q =>
    have hq := isQuote_of_quote?_run hisQuote cs q hquote
    have hopen : (s.run (cs ++ after)).2.quote? = some q := by
      rw [run_append_snd]
      exact quote?_run_blanks hquote hq hafter
    rw [read_eq_none_of_quote? hopen, read_eq_none_of_quote? hquote]

theorem size_read_append_blanks (hescape : (s.run cs).2.isEscape = true) (hne : after ≠ [])
    (hafter : ∀ c ∈ after, isBlank c = true) :
    ∃ ts us, s.read cs = some ts ∧ s.read (cs ++ after) = some us ∧ size ts < size us := by
  obtain ⟨d, hd⟩ := exists_escape hescape
  obtain ⟨g, after, rfl⟩ := List.exists_cons_of_ne_nil hne
  have hlonger : (escape d).read (g :: after) =
      some (Draft.close (some ⟨d.text ++ [g], true⟩)) := by
    have hstep : (escape d).step g = ([], outside (some ⟨d.text ++ [g], true⟩) false) := rfl
    have hrest : (outside (some ⟨d.text ++ [g], true⟩) false).read ([] ++ after) =
        (outside (some ⟨d.text ++ [g], true⟩) false).read [] :=
      read_append_blanks nofun (fun c hc => hafter c (by simp [hc])) nofun
    rw [read_of_silent hstep]
    exact hrest
  have hread : s.read cs = some ((s.run cs).1 ++ Draft.close (some d)) := by
    rw [read_eq_run, hd]
    rfl
  have hread' : s.read (cs ++ g :: after) =
      some ((s.run cs).1 ++ Draft.close (some ⟨d.text ++ [g], true⟩)) := by
    rw [read_append, hd, hlonger]
    rfl
  exact ⟨_, _, hread, hread', by simp [size_append, size, Draft.close, word]⟩

/-- One space for a gap and nothing for the blanks at the end. -/
theorem read_eq_shortened_iff (hisQuote : ∀ q, s.quote? = some q → isQuote q = true)
    (hne : gap ≠ []) (hgap : ∀ g ∈ gap, isBlank g = true) (hc : isBlank c = false)
    (hafter : ∀ c ∈ after, isBlank c = true) :
    s.read (gap ++ c :: cs ++ after) = s.read (' ' :: c :: cs) ↔
      s.read (gap ++ c :: cs ++ after) = none ∨ KeepsGap s gap (c :: cs) ∧
        ((s.run (gap ++ c :: cs)).2.isEscape = true → after = []) := by
  have hshort : Shortened s gap (c :: cs) := shortened hisQuote hne hgap hc
  by_cases hends : (s.run (gap ++ c :: cs)).2.isEscape = true → after = []
  · rw [read_append_blanks hisQuote hafter hends, hshort.eq_iff, and_iff_left hends]
  · obtain ⟨hescape, hafterne⟩ := Classical.not_imp.mp hends
    obtain ⟨ts, us, hts, hus, hlonger⟩ := size_read_append_blanks hescape hafterne hafter
    rw [hus, iff_false_right (by simp [hends])]
    intro hsame
    have hle := hshort.size_le hescape ts us hts hsame.symm
    omega

theorem read_eq_trimmed_iff (hisQuote : ∀ q, s.quote? = some q → isQuote q = true)
    (hafter : ∀ c ∈ after, isBlank c = true) :
    s.read (cs ++ after) = s.read cs ↔
      s.read (cs ++ after) = none ∨ ((s.run cs).2.isEscape = true → after = []) := by
  by_cases hends : (s.run cs).2.isEscape = true → after = []
  · exact iff_of_true (read_append_blanks hisQuote hafter hends) (.inr hends)
  · obtain ⟨hescape, hafterne⟩ := Classical.not_imp.mp hends
    obtain ⟨ts, us, hts, hus, hlonger⟩ := size_read_append_blanks hescape hafterne hafter
    rw [hus, hts, iff_false_right (by simp [hends])]
    intro hsame
    rw [Option.some.inj hsame] at hlonger
    exact Nat.lt_irrefl _ hlonger

end Stand

def firstGap (s : List Char) : List Char := (s.dropWhile (!isBlank ·)).takeWhile isBlank

def behindGap (s : List Char) : List Char := trimStart (s.dropWhile (!isBlank ·))

/-- The blanks that resolving a line changes are between its words. -/
@[mk_iff]
structure KeepsWords (line : String) : Prop where
  gap : firstGap (trim line.toList) ≠ [] →
    Stand.KeepsGap (Stand.start.run ((trim line.toList).takeWhile (!isBlank ·))).2
      (firstGap (trim line.toList)) (behindGap (trim line.toList))
  ended : (Stand.start.run (trim line.toList)).2.isEscape = true →
    trimStart line.toList = trim line.toList

instance (line : String) : Decidable (KeepsWords line) :=
  decidable_of_iff _ (keepsWords_iff line).symm

def ReadAlike (a b : String) : Prop :=
  (∃ ts, ofLine a = .ok ts ∧ ofLine b = .ok ts) ∨
    (∃ f, ofLine a = .error (.grammar f)) ∧ ∃ f, ofLine b = .error (.grammar f)

theorem readAlike_iff {a b : String} :
    ReadAlike a b ↔ Stand.start.read b.toList = Stand.start.read a.toList := by
  simp only [ReadAlike, ofLine_eq_ok_iff, ofLine_eq_error_iff]
  cases Stand.start.read a.toList <;> cases Stand.start.read b.toList <;> simp [eq_comm]

section
variable (s : List Char)

theorem cut_at_firstGap : s.takeWhile (!isBlank ·) ++ (firstGap s ++ behindGap s) = s := by
  rw [firstGap, behindGap, trimStart, List.takeWhile_append_dropWhile,
    List.takeWhile_append_dropWhile]

variable {s}

theorem isBlank_of_mem_firstGap {c : Char} (h : c ∈ firstGap s) : isBlank c = true :=
  List.mem_takeWhile_imp h

theorem not_isBlank_of_mem_takeWhile {c : Char} (h : c ∈ s.takeWhile (!isBlank ·)) :
    isBlank c = false := by
  simpa using List.mem_takeWhile_imp h

theorem not_isBlank_of_firstGap_eq_nil (h : firstGap s = []) : ∀ c ∈ s, isBlank c = false := by
  have hdrop : s.dropWhile (!isBlank ·) = [] := by
    have hhead := List.head?_dropWhile_not (!isBlank ·) s
    rw [firstGap] at h
    cases hrest : s.dropWhile (!isBlank ·) with
    | nil => rfl
    | cons c rest =>
      rw [hrest] at h hhead
      have hc : isBlank c = true := by simpa using hhead
      rw [List.takeWhile_cons_of_pos hc] at h
      cases h
  simpa using List.dropWhile_eq_nil_iff.mp hdrop

theorem exists_behindGap (h : Written.Solid s) (hgap : firstGap s ≠ []) :
    ∃ c cs, behindGap s = c :: cs ∧ isBlank c = false := by
  have hcut := cut_at_firstGap s
  have hhead := List.head?_dropWhile_not isBlank (s.dropWhile (!isBlank ·))
  rw [← trimStart, ← behindGap] at hhead
  cases hbehind : behindGap s with
  | nil =>
    rw [hbehind, List.append_nil] at hcut
    have hlast : s.getLast? = some ((firstGap s).getLast hgap) := by
      have hend := List.getLast?_append_of_ne_nil (s.takeWhile (!isBlank ·)) hgap
      rwa [hcut, List.getLast?_eq_some_getLast hgap] at hend
    have hblank := isBlank_of_mem_firstGap (List.getLast_mem hgap)
    rw [h.last _ hlast] at hblank
    cases hblank
  | cons c cs =>
    rw [hbehind] at hhead
    exact ⟨c, cs, rfl, by simpa using hhead⟩

end

theorem trim_split (s : List Char) :
    ∃ before after, s = before ++ (trim s ++ after) ∧ (∀ c ∈ before, isBlank c = true) ∧
      (∀ c ∈ after, isBlank c = true) ∧ trimStart s = trim s ++ after ∧ Written.Solid (trim s) := by
  obtain ⟨before, hbefore, hblanks, hhead⟩ := trimStart_split s
  obtain ⟨after, hafter, hblanks', hlast⟩ := trimEnd_split (trimStart s)
  rw [← trim] at hafter hlast
  refine ⟨before, after, by rw [← hafter, ← hbefore], hblanks, hblanks', hafter, ?_, hlast⟩
  intro c hc
  refine hhead c ?_
  rw [hafter, List.head?_append, hc]
  rfl

theorem squeeze_append {first gap cs : List Char} {c : Char}
    (hfirst : ∀ x ∈ first, isBlank x = false) (hne : gap ≠ []) (hgap : ∀ x ∈ gap, isBlank x = true) (hc : isBlank c = false) :
    Written.squeeze (first ++ (gap ++ c :: cs)) = first ++ ' ' :: c :: cs := by
  induction first with
  | nil =>
    obtain ⟨g, gap, rfl⟩ := List.exists_cons_of_ne_nil hne
    have hg : isBlank g = true := hgap g (by simp)
    have htrim : trimStart (gap ++ c :: cs) = c :: cs :=
      trimStart_append (fun x hx => hgap x (List.mem_cons_of_mem g hx)) (by rintro x ⟨⟩; exact hc)
    simp [Written.squeeze, hg, htrim]
  | cons x first ih =>
    have hx : isBlank x = false := hfirst x (by simp)
    rw [List.cons_append, Written.squeeze, if_neg (by simp [hx]),
      ih fun y hy => hfirst y (by simp [hy])]
    rfl

theorem readAlike_squeeze_iff (line : String) :
    ReadAlike (String.ofList (Written.squeeze (trim line.toList))) line ↔
      (∃ f, ofLine line = .error (.grammar f)) ∨ KeepsWords line := by
  obtain ⟨before, after, hline, hbefore, hafter, htrim, hsolid⟩ := trim_split line.toList
  have hstart : ∀ q, Stand.start.quote? = some q → isQuote q = true := fun _ h => nomatch h
  rw [readAlike_iff, ofLine_eq_error_iff, String.toList_ofList, keepsWords_iff, htrim,
    List.append_right_eq_self, hline, Stand.read_blanks hbefore, ← hline]
  generalize trim line.toList = text at hsolid
  by_cases hgap : firstGap text = []
  · rw [Written.squeeze_of_not_blank (not_isBlank_of_firstGap_eq_nil hgap),
      Stand.read_eq_trimmed_iff hstart hafter]
    simp [hgap]
  · obtain ⟨c, cs, hbehind, hc⟩ := exists_behindGap hsolid hgap
    have hcut := cut_at_firstGap text
    have hfirst : ∀ x ∈ text.takeWhile (!isBlank ·), isBlank x = false :=
      fun x => not_isBlank_of_mem_takeWhile
    have hblanks : ∀ x ∈ firstGap text, isBlank x = true := fun x => isBlank_of_mem_firstGap
    rw [hbehind] at hcut ⊢
    generalize text.takeWhile (!isBlank ·) = first at hcut hfirst ⊢
    generalize firstGap text = gap at hcut hgap hblanks ⊢
    subst hcut
    rw [squeeze_append hfirst hgap hblanks hc, List.append_assoc, Stand.read_append_inj,
      Stand.read_append_eq_none_iff, Stand.run_append_snd,
      Stand.read_eq_shortened_iff (Stand.isQuote_of_quote?_run hstart first) hgap hblanks hc hafter]
    simp [hgap]

end Token

namespace Aliases

/-- A line whose first piece is no alias is resolved without a fault. It is read as before if it had
no tokens at all or the blanks that change are between its words, and only then. -/
theorem readAlike_resolve_iff (a : Aliases) (line : String)
    (h : (splitFirst line).1 ≠ "" → a.get? (splitFirst line).1 = none) :
    ∃ resolved, a.resolve line = .ok resolved ∧
      (Token.ReadAlike resolved line ↔
        (∃ f, Token.ofLine line = .error (.grammar f)) ∨ Token.KeepsWords line) := by
  obtain ⟨-, -, -, -, -, -, hsolid⟩ := Token.trim_split line.toList
  have hfirst : (splitFirst line).1 = Written.leading (trim line.toList) := by
    simp [splitFirst, firstWord, Written.trimStart_of_head hsolid.head, Written.leading]
  rw [hfirst] at h
  by_cases hblank : trim line.toList = []
  · have hresolve : a.resolve line = .ok line := by simp [resolve, hfirst, hblank, Written.leading]
    have hkeeps : Token.KeepsWords line := by
      simp [Token.keepsWords_iff, hblank, Token.firstGap, Token.Stand.run, Token.Stand.start,
        Token.Stand.isEscape]
    exact ⟨line, hresolve, iff_of_true (Token.readAlike_iff.mpr rfl) (.inr hkeeps)⟩
  · have hne : Written.leading (trim line.toList) ≠ "" := by
      rwa [Ne, Written.leading_eq_empty_iff hsolid]
    exact ⟨_, Written.resolve_of_solid rfl hsolid hblank (h hne), Token.readAlike_squeeze_iff line⟩

theorem readAlike_resolve_iff_glued :
    ((splitFirst "  e'c'\\>o \t \"x  y\"|x\\ y ").1 ≠ "" →
        Aliases.get? { entries := [("x", "rm"), ("echo", "ls")] }
          (splitFirst "  e'c'\\>o \t \"x  y\"|x\\ y ").1 = none) ∧
      ∃ resolved, Aliases.resolve { entries := [("x", "rm"), ("echo", "ls")] }
          "  e'c'\\>o \t \"x  y\"|x\\ y " = .ok resolved ∧
        (Token.ReadAlike resolved "  e'c'\\>o \t \"x  y\"|x\\ y " ↔
          (∃ f, Token.ofLine "  e'c'\\>o \t \"x  y\"|x\\ y " = .error (.grammar f)) ∨
            Token.KeepsWords "  e'c'\\>o \t \"x  y\"|x\\ y ") :=
  ⟨fun _ => by decide +kernel, readAlike_resolve_iff _ _ fun _ => by decide +kernel⟩

-- Two blanks in the first quote of a line, and a blank that a backslash takes at its end.
example :
    Token.KeepsWords "  e'c'\\>o \t \"x  y\"|x\\ y " ∧ ¬ Token.KeepsWords ">\"a  b\" echo hi" ∧
      ¬ Token.KeepsWords "echo a\\ " := by
  decide +kernel

end Aliases
end MemShell
