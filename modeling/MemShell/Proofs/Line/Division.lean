import Mathlib.Tactic.IntervalCases
import MemShell.Proofs.Line.Variables
set_option autoImplicit false

namespace MemShell.Line

section
variable {ρ : Type} {Spells : ρ → List Char → Prop} {s w w' rest : List Char} {r r' : ρ}
  {pieces others : List (Piece ρ)}

structure Begins (Spells : ρ → List Char → Prop) (s : List Char) (r : ρ) (w : List Char) : Prop where
  spells : Spells r w
  isPrefix : w <+: s
  longest : ∀ r' w', Spells r' w' → w' <+: s → w'.length ≤ w.length

inductive Division (Spells : ρ → List Char → Prop) : List Char → List (Piece ρ) → Prop where
  | nil : Division Spells [] []
  | char {c : Char} {rest : List Char} {pieces : List (Piece ρ)}
      (literal : ∀ r w, Spells r w → ¬ w <+: c :: rest) (tail : Division Spells rest pieces) :
      Division Spells (c :: rest) (.char c :: pieces)
  | ref {r : ρ} {w rest : List Char} {pieces : List (Piece ρ)}
      (begins : Begins Spells (w ++ rest) r w) (tail : Division Spells rest pieces) :
      Division Spells (w ++ rest) (.ref r :: pieces)

/-- A spelling tells which reference it is of, and is not empty. -/
structure Legible (Spells : ρ → List Char → Prop) : Prop where
  ne_nil {r : ρ} {w : List Char} : Spells r w → w ≠ []
  eq {r r' : ρ} {w : List Char} : Spells r w → Spells r' w → r = r'

theorem Begins.eq (h : Begins Spells s r w) (h' : Begins Spells s r' w') : w = w' :=
  (List.prefix_of_prefix_length_le h.isPrefix h'.isPrefix
    (h'.longest r w h.spells h.isPrefix)).eq_of_length_le (h.longest r' w' h'.spells h'.isPrefix)

theorem Division.eq (hlegible : Legible Spells) (h : Division Spells s pieces)
    (h' : Division Spells s others) : pieces = others := by
  induction h generalizing others with
  | nil =>
    -- The text of a division is no constructor where a reference is in front, so that of the other
    -- division is a variable before its cases are told apart.
    generalize hs : ([] : List Char) = s at h'
    cases h' with
    | nil => rfl
    | char => cases hs
    | ref begins => exact absurd (List.append_eq_nil_iff.mp hs.symm).1 (hlegible.ne_nil begins.spells)
  | @char c rest pieces literal _ ih =>
    generalize hs : c :: rest = s at h'
    cases h' with
    | nil => cases hs
    | char _ tail =>
      cases hs
      rw [ih tail]
    | ref begins => exact absurd (hs ▸ begins.isPrefix) (literal _ _ begins.spells)
  | @ref r w rest pieces begins _ ih =>
    generalize hs : w ++ rest = s at h'
    cases h' with
    | nil => exact absurd (List.append_eq_nil_iff.mp hs).1 (hlegible.ne_nil begins.spells)
    | char literal => exact absurd (hs ▸ begins.isPrefix) (literal _ _ begins.spells)
    | ref begins' tail =>
      rw [← hs] at begins'
      obtain rfl := begins.eq begins'
      obtain rfl := List.append_cancel_left hs
      rw [hlegible.eq begins.spells begins'.spells, ih tail]

theorem division_iff_eq (hlegible : Legible Spells) (h : Division Spells s pieces) :
    Division Spells s others ↔ others = pieces :=
  ⟨fun h' => (h.eq hlegible h').symm, fun h' => h' ▸ h⟩

end

inductive Positional.Spells : Positional → List Char → Prop where
  | all : Spells .all ['$', '@']
  | count : Spells .count ['$', '#']
  | nth {n : Nat} (h : 1 ≤ n ∧ n ≤ 9) : Spells (.nth n) ['$', Nat.digitChar n]

theorem positional?_digitChar {n : Nat} (h : 1 ≤ n ∧ n ≤ 9) :
    positional? (Nat.digitChar n) = some (.nth n) := by
  obtain ⟨hlower, hupper⟩ := h
  interval_cases n <;> decide

theorem digitChar_of_digit {c : Char} (h : '1' ≤ c ∧ c ≤ '9') :
    (1 ≤ c.toNat - 48 ∧ c.toNat - 48 ≤ 9) ∧ Nat.digitChar (c.toNat - 48) = c := by
  have hlower : 49 ≤ c.toNat := h.1
  have hupper : c.toNat ≤ 57 := h.2
  refine ⟨by omega, Char.toNat_inj.mp ?_⟩
  rw [Nat.toNat_digitChar_of_lt_ten (by omega)]
  omega

/-- The character behind the dollar sign is all there is of a reference to the arguments. -/
theorem spells_positional_iff {p : Positional} {w : List Char} :
    p.Spells w ↔ ∃ c, w = ['$', c] ∧ positional? c = some p := by
  constructor
  · rintro (_ | _ | ⟨h⟩)
    · exact ⟨'@', rfl, by decide⟩
    · exact ⟨'#', rfl, by decide⟩
    · exact ⟨_, rfl, positional?_digitChar h⟩
  · rintro ⟨c, rfl, h⟩
    unfold positional? at h
    split at h
    · next hc =>
      cases h
      exact hc ▸ .all
    · split at h
      · next hc =>
        cases h
        exact hc ▸ .count
      · split at h
        · next hc =>
          cases h
          obtain ⟨hbounds, hdigit⟩ := digitChar_of_digit hc
          have hspelled := Positional.Spells.nth hbounds
          rwa [hdigit] at hspelled
        · cases h

theorem legible_positional : Legible Positional.Spells where
  ne_nil h := by
    obtain ⟨c, rfl, -⟩ := spells_positional_iff.mp h
    exact List.cons_ne_nil _ _
  eq h h' := by
    obtain ⟨c, rfl, hc⟩ := spells_positional_iff.mp h
    obtain ⟨d, hd, hc'⟩ := spells_positional_iff.mp h'
    cases hd
    exact Option.some.inj (hc.symm.trans hc')

theorem division_positionalPieces (s : List Char) :
    Division Positional.Spells s (positionalPieces s) := by
  fun_induction positionalPieces s with
  | case1 => exact .nil
  | case2 c rest p hp ih =>
    refine .ref (w := ['$', c]) ⟨spells_positional_iff.mpr ⟨c, rfl, hp⟩, List.prefix_append _ _, ?_⟩ ih
    intro p' w' h _
    obtain ⟨d, rfl, -⟩ := spells_positional_iff.mp h
    exact le_rfl
  | case3 c rest hnone ih =>
    refine .char (fun p w h hstart => ?_) ih
    obtain ⟨d, rfl, hd⟩ := spells_positional_iff.mp h
    obtain ⟨-, hstart⟩ := List.cons_prefix_cons.mp hstart
    obtain ⟨rfl, -⟩ := List.cons_prefix_cons.mp hstart
    rw [hnone] at hd
    cases hd
  | case4 c rest hrest ih =>
    refine .char (fun p w h hstart => ?_) ih
    obtain ⟨d, rfl, -⟩ := spells_positional_iff.mp h
    obtain ⟨rfl, more, hmore⟩ := List.cons_prefix_cons.mp hstart
    exact hrest d more rfl hmore.symm

inductive SpellsVariable : String → List Char → Prop where
  | bare {name : String} (h : isName name.toList = true) : SpellsVariable name ('$' :: name.toList)
  | braced {name : String} (h : isName name.toList = true) :
      SpellsVariable name ('$' :: '\x7b' :: (name.toList ++ ['\x7d']))

theorem legible_variable : Legible SpellsVariable where
  ne_nil h := by
    cases h with
    | bare => exact List.cons_ne_nil _ _
    | braced => exact List.cons_ne_nil _ _
  eq {name other w} h h' := by
    generalize hw : w = v at h'
    cases h with
    | bare hname =>
      cases h' with
      | bare => exact String.toList_inj.mp (List.cons.inj hw).2
      | braced =>
        rw [(List.cons.inj hw).2] at hname
        cases (isName_cons.mp hname).1
    | braced =>
      cases h' with
      | bare hname =>
        rw [← (List.cons.inj hw).2] at hname
        cases (isName_cons.mp hname).1
      | braced =>
        have hnames := (List.cons.inj (List.cons.inj hw).2).2
        exact String.toList_inj.mp (List.append_cancel_right hnames)

/-- Where a reference is spelled out, one is found that is at least as long. -/
theorem exists_reference?_of_spells {name : String} {w s : List Char} (h : SpellsVariable name w)
    (hstart : w <+: '$' :: s) :
    ∃ found after, reference? s = some (found, after) ∧ w.length + after.length ≤ s.length + 1 := by
  cases h with
  | bare hname =>
    obtain ⟨-, rest, rfl⟩ := List.cons_prefix_cons.mp hstart
    -- What follows may go on with the name, and then the name that is found is longer.
    have hafter := (List.dropWhile_sublist isNameChar (l := rest)).length_le
    refine ⟨_, _, reference?_append_of_isName hname rest, ?_⟩
    rw [List.length_cons, List.length_append]
    omega
  | braced hname =>
    obtain ⟨-, rest, rfl⟩ := List.cons_prefix_cons.mp hstart
    have hfound := reference?_braced_of_isName hname rest
    refine ⟨name, rest, ?_, ?_⟩
    · rw [String.ofList_toList] at hfound
      simpa using hfound
    · simp
      omega

theorem begins_of_reference? {s after : List Char} {name : String}
    (h : reference? s = some (name, after)) :
    ∃ w, '$' :: s = w ++ after ∧ Begins SpellsVariable (w ++ after) name w := by
  obtain ⟨w, hs, hspelled⟩ : ∃ w, '$' :: s = w ++ after ∧ SpellsVariable name w := by
    obtain ⟨hname, rfl | rfl⟩ := reference?_eq_some h
    · exact ⟨_, rfl, .bare hname⟩
    · exact ⟨_, by simp, .braced hname⟩
  refine ⟨w, hs, hspelled, List.prefix_append _ _, fun other v hv hstart => ?_⟩
  rw [← hs] at hstart
  obtain ⟨found, rest, hfound, hlength⟩ := exists_reference?_of_spells hv hstart
  rw [h] at hfound
  cases hfound
  have hwhole := congrArg List.length hs
  rw [List.length_cons, List.length_append] at hwhole
  omega

theorem division_variablePieces (s : List Char) : Division SpellsVariable s (variablePieces s) := by
  fun_induction variablePieces s with
  | case1 => exact .nil
  | case2 rest name after hr ih =>
    obtain ⟨w, hs, hbegins⟩ := begins_of_reference? hr
    rw [hs]
    exact .ref hbegins ih
  | case3 rest hr ih =>
    refine .char (fun name w h hstart => ?_) ih
    obtain ⟨found, after, hfound, -⟩ := exists_reference?_of_spells h hstart
    rw [hr] at hfound
    cases hfound
  | case4 c rest hc ih =>
    refine .char (fun name w h hstart => hc ?_) ih
    cases h with
    | bare => exact (List.cons_prefix_cons.mp hstart).1.symm
    | braced => exact (List.cons_prefix_cons.mp hstart).1.symm

theorem positionalValue_of_missing {args : List String} {n : Nat} (h : args.length < n) :
    positionalValue args (.nth n) = "" := by
  rw [positionalValue, List.getElem?_eq_none (by omega), Option.getD_none]

theorem get_of_missing {e : Environment} {name : String} (h : e.top.get? name = none) :
    e.get name = "" := by
  rw [Environment.get, h, Option.getD_none]

/-- A line has one division, whatever the arguments or the variables are, and what comes out of it is
this division with the values in the places of the references. -/
theorem values_fill_division (line : String) :
    (∃ pieces, (∀ others, Division Positional.Spells line.toList others ↔ others = pieces) ∧
      ∀ args, substituteArgs args line = String.ofList (render (positionalValue args) pieces) ∧
        ∀ n, args.length < n → positionalValue args (.nth n) = "") ∧
    ∃ pieces, (∀ others, Division SpellsVariable line.toList others ↔ others = pieces) ∧
      (∀ e : Environment, expandVariables e.get line = String.ofList (render e.get pieces) ∧
        ∀ name, e.top.get? name = none → e.get name = "") ∧
      ∀ e e' : Environment, (∀ name, .ref name ∈ pieces → e.get name = e'.get name) →
        expandVariables e.get line = expandVariables e'.get line := by
  refine ⟨⟨positionalPieces line.toList, fun others => ?_, fun args => ⟨rfl, fun n => ?_⟩⟩,
    ⟨variablePieces line.toList, fun others => ?_, fun e => ⟨rfl, fun name => ?_⟩,
      fun e e' h => ?_⟩⟩
  · exact division_iff_eq legible_positional (division_positionalPieces line.toList)
  · exact positionalValue_of_missing
  · exact division_iff_eq legible_variable (division_variablePieces line.toList)
  · exact get_of_missing
  · exact congrArg String.ofList (render_congr e.get e'.get _ h)

/-- Values that look like references, a brace that is not closed, a number of two digits, an argument
and a variable that are missing. -/
theorem values_fill_division_nested :
    let line := "$$A$\x7bA$10$2"
    let e : Environment := .ofFrame [("A", "$B"), ("B", "x")]
    let e' : Environment := .ofFrame [("A", "$B")]
    let pieces : List (Piece String) := [.char '$', .ref "A", .char '$', .char '\x7b', .char 'A',
      .char '$', .char '1', .char '0', .char '$', .char '2']
    (substituteArgs ["$2"] line = "$$A$\x7bA$20" ∧
      ["$2"].length < 2 ∧ positionalValue ["$2"] (.nth 2) = "") ∧
    (Division SpellsVariable line.toList pieces ∧ expandVariables e.get line = "$$B$\x7bA$10$2") ∧
    (e'.top.get? "B" = none ∧ e'.get "B" = "") ∧
    (∀ name, .ref name ∈ pieces → e.get name = e'.get name) ∧
    expandVariables e.get line = expandVariables e'.get line := by
  intro line e e' pieces
  obtain ⟨⟨args, hargs, hpositional⟩, ⟨others, hothers, hvalues, hsame⟩⟩ := values_fill_division line
  have hpieces : variablePieces line.toList = pieces := by decide +kernel
  have hdivision : Division SpellsVariable line.toList pieces :=
    hpieces ▸ division_variablePieces line.toList
  obtain rfl := (hargs _).mp (division_positionalPieces line.toList)
  obtain rfl := (hothers _).mp hdivision
  have hagree : ∀ name, .ref name ∈ pieces → e.get name = e'.get name := by
    intro name hname
    obtain rfl : name = "A" := by simpa [pieces] using hname
    rfl
  have hfirst : substituteArgs ["$2"] line = "$$A$\x7bA$20" := by
    rw [(hpositional ["$2"]).1]
    decide +kernel
  have hsecond : expandVariables e.get line = "$$B$\x7bA$10$2" := by
    rw [(hvalues e).1]
    decide +kernel
  exact ⟨⟨hfirst, by decide, (hpositional ["$2"]).2 2 (by decide)⟩, ⟨hdivision, hsecond⟩,
    ⟨rfl, (hvalues e').2 "B" rfl⟩, hagree, hsame e e' hagree⟩

end MemShell.Line
