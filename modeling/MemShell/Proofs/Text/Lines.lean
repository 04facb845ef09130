import MemShell.Text.Blank
set_option autoImplicit false

namespace MemShell.Text

def Unbroken (s : String) : Prop := ∀ c ∈ s.toList, isLineBreak c = false

theorem unbroken_of_all {s : String} (h : s.toList.all (!isLineBreak ·) = true) : Unbroken s :=
  fun c hc => by simpa using List.all_eq_true.mp h c hc

theorem unbroken_append {s t : String} : Unbroken (s ++ t) ↔ Unbroken s ∧ Unbroken t := by
  simp [Unbroken, or_imp, forall_and]

section
variable {body rest : List Char}

/-- A character that breaks no line joins the first line of what follows. -/
theorem lines_cons {c : Char} (hc : isLineBreak c = false) (rest : List Char) :
    lines (c :: rest) = match lines rest with
      | [] => [⟨[c], []⟩]
      | l :: ls => ⟨c :: l.body, l.ending⟩ :: ls := by
  have hreturn : c ≠ '\r' := fun h => by
    rw [h] at hc
    cases hc
  have hbroken : ¬ isLineBreak c = true := Bool.eq_false_iff.mp hc
  refine ((lines.eq_3 c rest fun _ h _ => hreturn h).trans (if_neg hbroken)).trans ?_
  cases lines rest <;> rfl

/-- A line break ends a line, unless a line feed follows and makes it a longer one. -/
theorem lines_break {c : Char} (hc : isLineBreak c = true) (h : c = '\r' → rest.head? ≠ some '\n') :
    lines (c :: rest) = ⟨[], [c]⟩ :: lines rest := by
  rw [lines.eq_3 c rest fun more hcr hrest => h hcr (by rw [hrest]; rfl), if_pos hc]

theorem lines_feed (rest : List Char) : lines ('\n' :: rest) = ⟨[], ['\n']⟩ :: lines rest :=
  lines_break (by decide) fun h => absurd h (by decide)

theorem lines_append_feed (h : ∀ c ∈ body, isLineBreak c = false) (rest : List Char) :
    lines (body ++ '\n' :: rest) = ⟨body, ['\n']⟩ :: lines rest := by
  induction body with
  | nil => exact lines_feed rest
  | cons c cs ih =>
    have hrest := ih fun d hd => h d (List.mem_cons_of_mem c hd)
    rw [List.cons_append, lines_cons (h c List.mem_cons_self), hrest]

theorem lines_of_unbroken (h : ∀ c ∈ body, isLineBreak c = false) (hne : body ≠ []) :
    lines body = [⟨body, []⟩] := by
  induction body with
  | nil => exact absurd rfl hne
  | cons c cs ih =>
    rw [lines_cons (h c List.mem_cons_self)]
    cases cs with
    | nil => rfl
    | cons d ds => rw [ih (fun e he => h e (List.mem_cons_of_mem c he)) (List.cons_ne_nil d ds)]

theorem lines_flatMap_feed {bodies : List (List Char)}
    (h : ∀ body ∈ bodies, ∀ c ∈ body, isLineBreak c = false) (rest : List Char) :
    lines (bodies.flatMap (· ++ ['\n']) ++ rest) = bodies.map (⟨·, ['\n']⟩) ++ lines rest := by
  induction bodies with
  | nil => rfl
  | cons body more ih =>
    have hrest := ih fun b hb => h b (List.mem_cons_of_mem body hb)
    rw [List.flatMap_cons, List.append_assoc, List.append_assoc, List.singleton_append,
      lines_append_feed (h body List.mem_cons_self), hrest]
    rfl

theorem lines_intercalate {bodies : List (List Char)}
    (h : ∀ body ∈ bodies, ∀ c ∈ body, isLineBreak c = false) (hne : ∀ body ∈ bodies, body ≠ []) :
    (lines (['\n'].intercalate bodies)).map Line.body = bodies := by
  induction bodies with
  | nil => rfl
  | cons body more ih =>
    have hbody := h body List.mem_cons_self
    have hrest := ih (fun b hb => h b (List.mem_cons_of_mem body hb))
      fun b hb => hne b (List.mem_cons_of_mem body hb)
    cases more with
    | nil =>
      rw [List.intercalate_singleton, lines_of_unbroken hbody (hne body List.mem_cons_self)]
      rfl
    | cons next more =>
      rw [List.intercalate_cons_cons, List.append_assoc, List.singleton_append,
        lines_append_feed hbody, List.map_cons, hrest]

/-- No line break is left in the body of a line. -/
theorem isLineBreak_of_mem_lines {s : List Char} {l : Line} (hl : l ∈ lines s) :
    ∀ c ∈ l.body, isLineBreak c = false := by
  fun_induction lines s generalizing l with
  | case1 => cases hl
  | case2 rest ih =>
    rcases List.mem_cons.mp hl with rfl | hl
    · exact fun c hc => absurd hc List.not_mem_nil
    · exact ih hl
  | case3 c rest _ hc ih =>
    rcases List.mem_cons.mp hl with rfl | hl
    · exact fun c hc => absurd hc List.not_mem_nil
    · exact ih hl
  | case4 c rest _ hc hrest ih =>
    obtain rfl := List.mem_singleton.mp hl
    exact fun d hd => List.mem_singleton.mp hd ▸ Bool.eq_false_iff.mpr hc
  | case5 c rest _ hc first more hrest ih =>
    rw [hrest] at ih
    rcases List.mem_cons.mp hl with rfl | hl
    · exact List.forall_mem_cons.mpr ⟨Bool.eq_false_iff.mpr hc, ih List.mem_cons_self⟩
    · exact ih (List.mem_cons_of_mem first hl)

end

theorem head?_flatMap_take {s : List Char} {n : Nat} {c : Char}
    (h : (((lines s).take n).flatMap Line.text).head? = some c) : s.head? = some c := by
  have hsplit : ((lines s).take n).flatMap Line.text ++ ((lines s).drop n).flatMap Line.text = s := by
    rw [← List.flatMap_append, List.take_append_drop, flatMap_text_lines]
  rw [← hsplit, List.head?_append, h]
  rfl

theorem lines_take (s : List Char) (n : Nat) :
    lines (((lines s).take n).flatMap Line.text) = (lines s).take n := by
  fun_induction lines s generalizing n with
  | case1 => rw [List.take_nil]; rfl
  | case2 rest ih =>
    cases n with
    | zero => rfl
    | succ n => exact congrArg (List.cons _) (ih n)
  | case3 c rest hreturn hc ih =>
    cases n with
    | zero => rfl
    | succ n =>
      -- A carriage return stands alone also where the rest is cut: the rest keeps its first character.
      have hhead (hcr : c = '\r') :
          (((lines rest).take n).flatMap Line.text).head? ≠ some '\n' := by
        intro hfeed
        obtain ⟨more, hmore⟩ := List.head?_eq_some_iff.mp (head?_flatMap_take hfeed)
        exact hreturn more hcr hmore
      exact (lines_break hc hhead).trans (congrArg (List.cons _) (ih n))
  | case4 c rest hreturn hc hrest ih =>
    cases n with
    | zero => rfl
    | succ n =>
      rw [List.take_succ_cons, List.take_nil]
      exact lines_of_unbroken (List.forall_mem_singleton.mpr (Bool.eq_false_iff.mpr hc))
        (List.cons_ne_nil c [])
  | case5 c rest hreturn hc first more hrest ih =>
    cases n with
    | zero => rfl
    | succ n =>
      have hfront := ih (n + 1)
      rw [hrest, List.take_succ_cons] at hfront
      have hchars : ((⟨c :: first.body, first.ending⟩ : Line) :: more.take n).flatMap Line.text =
        c :: (first :: more.take n).flatMap Line.text := rfl
      rw [List.take_succ_cons, hchars, lines_cons (Bool.eq_false_iff.mpr hc), hfront]

theorem lines_drop (s : List Char) (n : Nat) :
    lines (((lines s).drop n).flatMap Line.text) = (lines s).drop n := by
  -- What is left are the lines of some text, and every text is made of its lines.
  obtain ⟨t, ht⟩ : ∃ t, (lines s).drop n = lines t := by
    induction s using lines.induct generalizing n with
    | case1 => exact ⟨[], List.drop_nil⟩
    | case2 rest ih =>
      cases n with
      | zero => exact ⟨_, rfl⟩
      | succ n => exact ih n
    | case3 c rest hreturn hc ih =>
      cases n with
      | zero => exact ⟨_, rfl⟩
      | succ n =>
        rw [lines.eq_3 c rest hreturn, if_pos hc]
        exact ih n
    | case4 c rest hreturn hc hrest ih =>
      cases n with
      | zero => exact ⟨_, rfl⟩
      | succ n =>
        rw [lines_cons (Bool.eq_false_iff.mpr hc), hrest]
        exact ⟨[], List.drop_nil⟩
    | case5 c rest hreturn hc first more hrest ih =>
      cases n with
      | zero => exact ⟨_, rfl⟩
      | succ n =>
        obtain ⟨t, ht⟩ := ih (n + 1)
        rw [hrest, List.drop_succ_cons] at ht
        rw [lines_cons (Bool.eq_false_iff.mpr hc), hrest, List.drop_succ_cons, ht]
        exact ⟨t, rfl⟩
  rw [ht, flatMap_text_lines]

def Line.isFed (l : Line) : Bool := l.ending.getLast? = some '\n'

theorem count_feed (s : List Char) : s.count '\n' = (lines s).countP Line.isFed := by
  fun_induction lines s with
  | case1 => rfl
  | case2 rest ih =>
    have hfed : Line.isFed ⟨[], ['\r', '\n']⟩ = true := rfl
    rw [List.count_cons_of_ne (by decide), List.count_cons_self, List.countP_cons_of_pos hfed, ih]
  | case3 c rest hreturn hc ih =>
    by_cases hfeed : c = '\n'
    · subst hfeed
      have hfed : Line.isFed ⟨[], ['\n']⟩ = true := rfl
      rw [List.count_cons_self, List.countP_cons_of_pos hfed, ih]
    · have hfed : ¬ Line.isFed ⟨[], [c]⟩ = true := by simpa [Line.isFed] using hfeed
      rw [List.count_cons_of_ne hfeed, List.countP_cons_of_neg hfed, ih]
  | case4 c rest hreturn hc hrest ih =>
    have hfeed : c ≠ '\n' := fun h => hc (by rw [h]; rfl)
    rw [List.count_cons_of_ne hfeed, ih, hrest]
    rfl
  | case5 c rest hreturn hc first more hrest ih =>
    have hfeed : c ≠ '\n' := fun h => hc (by rw [h]; rfl)
    rw [List.count_cons_of_ne hfeed, ih, hrest, List.countP_cons, List.countP_cons]
    rfl
theorem dropFinalNewline_cases (s : List Char) :
    (∃ front, s = front ++ ['\n'] ∧ dropFinalNewline s = front) ∨
      s.getLast? ≠ some '\n' ∧ dropFinalNewline s = s := by
  unfold dropFinalNewline
  by_cases hlast : s.getLast? = some '\n'
  · obtain ⟨front, rfl⟩ := List.getLast?_eq_some_iff.mp hlast
    exact .inl ⟨front, rfl, by rw [if_pos hlast, List.dropLast_concat]⟩
  · exact .inr ⟨hlast, if_neg hlast⟩

theorem unbroken_of_mem_lineBodies {s body : String} (h : body ∈ lineBodies s) : Unbroken body := by
  obtain ⟨l, hl, rfl⟩ := List.mem_map.mp h
  rw [Unbroken, String.toList_ofList]
  exact isLineBreak_of_mem_lines hl

theorem lineBodies_join_feed {ls : List String} (h : ∀ l ∈ ls, Unbroken l) :
    lineBodies (String.join (ls.map (· ++ "\n"))) = ls := by
  have hchars : (String.join (ls.map (· ++ "\n"))).toList =
      (ls.map String.toList).flatMap (· ++ ['\n']) := by
    rw [String.toList_join, List.flatMap_map, List.flatMap_map]
    exact congrArg (ls.flatMap ·) (funext fun l => String.toList_append)
  have hlines := lines_flatMap_feed (List.forall_mem_map.mpr h) []
  rw [lineBodies, hchars, ← List.append_nil (List.flatMap _ _), hlines]
  simp [lines, Function.comp_def]

theorem lineBodies_intercalate {ls : List String} (h : ∀ l ∈ ls, Unbroken l)
    (hne : ∀ l ∈ ls, l ≠ "") : lineBodies ("\n".intercalate ls) = ls := by
  have hlines := lines_intercalate (List.forall_mem_map.mpr h)
    (List.forall_mem_map.mpr fun l hl => mt String.toList_eq_nil_iff.mp (hne l hl))
  have hfeed : "\n".toList = ['\n'] := rfl
  rw [lineBodies, String.toList_intercalate, hfeed]
  simpa [Function.comp_def] using congrArg (List.map String.ofList) hlines

end MemShell.Text
