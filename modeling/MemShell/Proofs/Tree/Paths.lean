import MemShell.Path
set_option autoImplicit false

namespace MemShell

def PlainName (name : String) : Prop :=
  name ≠ "" ∧ name ≠ "." ∧ name ≠ ".." ∧ '/' ∉ name.toList

def Place.Plain (p : Place) : Prop := ∀ name ∈ p, PlainName name

theorem isValidName_iff (name : String) :
    isValidName name = true ↔ PlainName name ∧ Char.ofNat 0 ∉ name.toList := by
  simp only [isValidName, PlainName, Bool.and_eq_true, Bool.not_eq_true', decide_eq_true_eq,
    List.all_eq_true, String.isEmpty_eq_false_iff, ne_eq]
  constructor
  · rintro ⟨⟨⟨hne, hdot⟩, hdots⟩, hchars⟩
    exact ⟨⟨hne, hdot, hdots, fun h => (hchars _ h).1 rfl⟩, fun h => (hchars _ h).2 rfl⟩
  · rintro ⟨⟨hne, hdot, hdots, hslash⟩, hnul⟩
    exact ⟨⟨⟨hne, hdot⟩, hdots⟩, fun c hc => ⟨fun h => hslash (h ▸ hc), fun h => hnul (h ▸ hc)⟩⟩

theorem plainName_of_isValidName {name : String} (h : isValidName name = true) : PlainName name :=
  ((isValidName_iff name).mp h).1

namespace Path

theorem splitSlashes_eq_splitOn (s : List Char) : splitSlashes s = s.splitOn '/' := by
  induction s with
  | nil => rfl
  | cons c rest ih =>
    rw [splitSlashes, List.splitOn_cons_eq_if_modifyHead, ih]
    by_cases hc : c = '/'
    · simp [hc]
    · simp only [hc, if_false, beq_iff_eq]
      cases h : rest.splitOn '/' with
      | nil => exact absurd h (List.splitOn_ne_nil _ _)
      | cons p ps => rfl

theorem splitSlashes_append (s t : List Char) :
    splitSlashes (s ++ '/' :: t) = splitSlashes s ++ splitSlashes t := by
  induction s with
  | nil => rfl
  | cons c rest ih =>
    by_cases hc : c = '/'
    · simp [splitSlashes, hc, ih]
    · rw [List.cons_append, splitSlashes, splitSlashes, if_neg hc, if_neg hc, ih]
      cases hrest : splitSlashes rest with
      | nil =>
        rw [splitSlashes_eq_splitOn] at hrest
        exact absurd hrest (List.splitOn_ne_nil _ _)
      | cons p ps => rfl

theorem namesOf_append (s t : List Char) : namesOf (s ++ '/' :: t) = namesOf s ++ namesOf t := by
  rw [namesOf, splitSlashes_append, List.map_append, List.filter_append]
  rfl

theorem slash_not_mem_splitSlashes (s : List Char) : ∀ part ∈ splitSlashes s, '/' ∉ part := by
  induction s with
  | nil => simp [splitSlashes]
  | cons c rest ih =>
    rw [splitSlashes]
    by_cases hc : c = '/'
    · simpa [hc] using ih
    · simp only [hc, if_false]
      cases h : splitSlashes rest with
      | nil => simpa using fun h => hc h.symm
      | cons p ps =>
        rw [h] at ih
        intro part hpart
        rcases List.mem_cons.mp hpart with rfl | hpart
        · have hp := ih p (by simp)
          simp [hp, Ne.symm hc]
        · exact ih part (by simp [hpart])

/-- What a text names can stand in a path, except for the double dots that lead up. -/
theorem namesOf_spec {s : List Char} {name : String} (h : name ∈ namesOf s) :
    name ≠ "" ∧ name ≠ "." ∧ '/' ∉ name.toList := by
  simp only [namesOf, List.mem_filter, List.mem_map, Bool.and_eq_true, Bool.not_eq_true',
    decide_eq_true_eq, String.isEmpty_eq_false_iff, ne_eq] at h
  obtain ⟨⟨part, hpart, rfl⟩, hne, hdot⟩ := h
  refine ⟨hne, hdot, ?_⟩
  rw [String.toList_ofList]
  exact slash_not_mem_splitSlashes s part hpart

end Path

namespace Place

theorem plain_nil : Plain [] := by simp [Plain]

theorem plain_append {p q : Place} : Plain (p ++ q) ↔ Plain p ∧ Plain q := by
  simp [Plain, or_imp, forall_and]

theorem plain_singleton {name : String} : Plain [name] ↔ PlainName name := by simp [Plain]

theorem Plain.parent {p : Place} (hp : p.Plain) : p.parent.Plain :=
  fun name h => hp name (List.dropLast_subset p h)

def chars (p : Place) : List Char := '/' :: ['/'].intercalate (p.map String.toList)

theorem toList_slash_intercalate (p : Place) : ("/" ++ "/".intercalate p).toList = p.chars := by
  simp [chars, String.toList_append, String.toList_intercalate]

theorem chars_append {p q : Place} (hp : p ≠ []) (hq : q ≠ []) :
    chars (p ++ q) = chars p ++ chars q := by
  induction p with
  | nil => exact absurd rfl hp
  | cons name rest ih =>
    cases rest with
    | nil =>
      cases q with
      | nil => exact absurd rfl hq
      | cons next more => simp [chars, List.intercalate_cons_cons]
    | cons next more =>
      have hrest := ih (List.cons_ne_nil next more)
      simp only [chars, List.cons_append, List.map_cons, List.intercalate_cons_cons,
        List.cons.injEq, true_and] at hrest ⊢
      rw [hrest, ← List.append_assoc]

theorem anchorOf_chars {p : Place} (hp : p.Plain) : Path.anchorOf p.chars = .root := by
  cases p with
  | nil => rfl
  | cons name rest =>
    obtain ⟨hne, -, -, hslash⟩ := hp name (by simp)
    cases hl : name.toList with
    | nil => exact absurd (String.toList_eq_nil_iff.mp hl) hne
    | cons c cs =>
      have hc : c ≠ '/' := fun h => hslash (by simp [hl, h])
      have hhead : ∃ more, chars (name :: rest) = '/' :: c :: more := by
        cases rest with
        | nil => exact ⟨cs, by simp [chars, hl]⟩
        | cons next rest =>
          exact ⟨_, by simp [chars, hl, List.intercalate_cons_cons]; rfl⟩
      obtain ⟨more, hmore⟩ := hhead
      rw [hmore]
      unfold Path.anchorOf
      split <;> simp_all

theorem namesOf_chars {p : Place} (hp : p.Plain) : Path.namesOf p.chars = p := by
  have hkeep : p.filter (fun n => !n.isEmpty && decide (n ≠ ".")) = p := by
    refine List.filter_eq_self.mpr fun name hname => ?_
    obtain ⟨hne, hdot, -, -⟩ := hp name hname
    simp [hne, hdot]
  cases p with
  | nil => rfl
  | cons name rest =>
    have hsplit : Path.splitSlashes (chars (name :: rest)) =
        [] :: (name :: rest).map String.toList := by
      rw [chars, Path.splitSlashes, if_pos rfl, Path.splitSlashes_eq_splitOn,
        List.splitOn_intercalate '/' _ (by simp)]
      intro part hpart
      obtain ⟨n, hn, rfl⟩ := List.mem_map.mp hpart
      exact (hp n hn).2.2.2
    rw [Path.namesOf, hsplit, List.map_cons, List.map_map]
    have hback : (String.ofList ∘ String.toList) = id := by
      funext s
      exact String.ofList_toList
    rw [hback, List.map_id, List.filter_cons_of_neg (by simp)]
    exact hkeep

theorem path_eq {p : Place} (hp : p.Plain) : p.path = ⟨.root, p⟩ := by
  rw [path, Path.ofText, toList_slash_intercalate, anchorOf_chars hp, namesOf_chars hp]

theorem text_eq {p : Place} (hp : p.Plain) : p.text = "/" ++ "/".intercalate p := by
  rw [text, path_eq hp]
  rfl

theorem toList_text {p : Place} (hp : p.Plain) : p.text.toList = p.chars := by
  rw [text_eq hp, toList_slash_intercalate]

/-- The path of a place below another begins with the path of the other and a slash. -/
theorem text_slash_isPrefixOf {p q : Place} (hp : p ≠ []) (hq : q ≠ []) (h : (p ++ q).Plain) :
    (p.text ++ "/").toList.isPrefixOf (Place.text (p ++ q)).toList = true := by
  obtain ⟨hpPlain, -⟩ := plain_append.mp h
  rw [toList_text h, chars_append hp hq, String.toList_append, toList_text hpPlain,
    List.isPrefixOf_iff_prefix]
  exact ⟨_, by rw [List.append_assoc]; rfl⟩

/-- A plain place whose path begins with the path of another and a slash is below it. -/
theorem isPrefix_of_text_slash {p q : Place} (hp : p.Plain) (hq : q.Plain)
    (h : (p.text ++ "/").toList.isPrefixOf q.text.toList = true) : p <+: q := by
  rw [List.isPrefixOf_iff_prefix, String.toList_append, toList_text hp, toList_text hq] at h
  obtain ⟨rest, hrest⟩ := h
  have hnames := congrArg Path.namesOf hrest
  rw [List.append_assoc, namesOf_chars hq] at hnames
  refine ⟨Path.namesOf rest, ?_⟩
  rw [← hnames]
  exact (congrArg (· ++ Path.namesOf rest) (namesOf_chars hp)).symm.trans
    (Path.namesOf_append p.chars rest).symm

theorem step_of_plainName {p : Place} {name : String} (h : PlainName name) :
    p.step name = p ++ [name] := by
  simp [step, h.2.1, h.2.2.1]

theorem walk_of_plain (p : Place) {q : Place} (hq : q.Plain) : p.walk q = p ++ q := by
  induction q generalizing p with
  | nil => simp [walk]
  | cons name rest ih =>
    have hname := hq name (by simp)
    have hrest : Plain rest := fun n hn => hq n (by simp [hn])
    change walk (p.step name) rest = p ++ name :: rest
    rw [step_of_plainName hname, ih _ hrest, List.append_assoc]
    rfl

theorem plain_walk {p : Place} (hp : p.Plain) {names : List String}
    (hn : ∀ name ∈ names, name ≠ "" ∧ name ≠ "." ∧ '/' ∉ name.toList) : (p.walk names).Plain := by
  induction names generalizing p with
  | nil => exact hp
  | cons name rest ih =>
    refine ih (p := p.step name) ?_ fun n h => hn n (by simp [h])
    obtain ⟨hne, hdot, hslash⟩ := hn name (by simp)
    unfold step
    by_cases hdots : name = ".."
    · rw [if_pos hdots]
      exact hp.parent
    · rw [if_neg hdots, if_neg hdot]
      exact plain_append.mpr ⟨hp, plain_singleton.mpr ⟨hne, hdot, hdots, hslash⟩⟩

theorem plain_ofPath (cwd : Place) (s : String) : (ofPath cwd s).Plain := by
  dsimp only [ofPath]
  split
  · exact plain_walk plain_nil fun name h => Path.namesOf_spec h
  · refine plain_walk plain_nil fun name h => ?_
    rcases List.mem_append.mp h with h | h <;> exact Path.namesOf_spec h

theorem ofPath_text {p : Place} (hp : p.Plain) (cwd : Place) : ofPath cwd p.text = p := by
  have hread : Path.ofText p.text = ⟨.root, p⟩ := by
    rw [Path.ofText, toList_text hp, anchorOf_chars hp, namesOf_chars hp]
  simp only [ofPath, hread]
  exact walk_of_plain [] hp

/-- A place is read back from its path just if its names are plain. -/
theorem ofPath_text_eq_iff (cwd p : Place) : ofPath cwd p.text = p ↔ p.Plain :=
  ⟨fun h => h ▸ plain_ofPath cwd p.text, fun h => ofPath_text h cwd⟩

theorem text_injective {p q : Place} (hp : p.Plain) (hq : q.Plain) (h : p.text = q.text) :
    p = q := by
  rw [← ofPath_text hp [], h, ofPath_text hq]

end Place
end MemShell
