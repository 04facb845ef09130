import MemShell.Line.Substitution
import MemShell.Text.Quoted
set_option autoImplicit false

namespace MemShell.Line
open Text

variable {ρ : Type}

section
variable (value : ρ → String)

theorem render_append (xs ys : List (Piece ρ)) :
    render value (xs ++ ys) = render value xs ++ render value ys := List.flatMap_append

theorem render_char_cons (c : Char) (xs : List (Piece ρ)) :
    render value (.char c :: xs) = c :: render value xs := rfl

theorem render_map_char (s : List Char) : render value (s.map .char) = s := by
  induction s with
  | nil => rfl
  | cons c s ih => rw [List.map_cons, render_char_cons, ih]

end

/-- What a division into pieces does with the characters around the references. -/
structure Divides (cut : List Char → List (Piece ρ)) : Prop where
  mem {c : Char} {s : List Char} : .char c ∈ cut s → c ∈ s
  literal {s : List Char} : '$' ∉ s → cut s = s.map .char
  apart {c : Char} : c = '\'' ∨ c = '"' ∨ c = ' ' → ∀ s t,
    cut (s ++ c :: t) = cut s ++ .char c :: cut t

theorem positionalPieces_cons {c : Char} (hc : c ≠ '$') (rest : List Char) :
    positionalPieces (c :: rest) = .char c :: positionalPieces rest := by
  cases rest with
  | nil => simp [positionalPieces]
  | cons d rest => simp [positionalPieces, hc]

theorem positionalPieces_dollar (c : Char) (rest : List Char) :
    positionalPieces ('$' :: c :: rest) =
      match positional? c with
      | some p => .ref p :: positionalPieces rest
      | none => .char '$' :: positionalPieces (c :: rest) := by
  cases h : positional? c with
  | none => simp only [positionalPieces, h]
  | some p => simp only [positionalPieces, h]

theorem positionalPieces_append {c : Char} (hc : c ≠ '$') (hnone : positional? c = none)
    (s t : List Char) :
    positionalPieces (s ++ c :: t) = positionalPieces s ++ .char c :: positionalPieces t := by
  fun_induction positionalPieces s with
  | case1 => exact positionalPieces_cons hc t
  | case2 d rest p hp ih =>
    rw [List.cons_append, List.cons_append, positionalPieces_dollar, hp]
    simp only [ih, List.cons_append]
  | case3 d rest hd ih =>
    rw [List.cons_append, List.cons_append, positionalPieces_dollar, hd]
    simp only [← List.cons_append, ih]
  | case4 d rest hrest ih =>
    by_cases hd : d = '$'
    · subst hd
      have hnil : rest = [] := by
        cases rest with
        | nil => rfl
        | cons e more => exact absurd rfl (hrest e more rfl)
      subst hnil
      rw [List.cons_append, List.nil_append, positionalPieces_dollar, hnone]
      simp [positionalPieces, positionalPieces_cons hc]
    · rw [List.cons_append, positionalPieces_cons hd, ih, List.cons_append]

theorem divides_positionalPieces : Divides positionalPieces where
  mem {c s} h := by
    fun_induction positionalPieces s with
    | case1 => cases h
    | case2 d rest p hp ih => simp at h; simp [ih h]
    | case3 d rest hd ih =>
      rcases List.mem_cons.mp h with h | h
      · cases h; simp
      · exact List.mem_cons_of_mem _ (ih h)
    | case4 d rest hrest ih =>
      rcases List.mem_cons.mp h with h | h
      · cases h; simp
      · exact List.mem_cons_of_mem _ (ih h)
  literal {s} h := by
    induction s with
    | nil => rfl
    | cons c rest ih =>
      have hc : c ≠ '$' := fun heq => h (by simp [heq])
      rw [positionalPieces_cons hc, ih fun hmem => h (List.mem_cons_of_mem _ hmem)]
      rfl
  apart := by
    rintro c (rfl | rfl | rfl)
    · exact positionalPieces_append (by decide) (by decide)
    · exact positionalPieces_append (by decide) (by decide)
    · exact positionalPieces_append (by decide) (by decide)

theorem variablePieces_cons {c : Char} (hc : c ≠ '$') (rest : List Char) :
    variablePieces (c :: rest) = .char c :: variablePieces rest := by
  rw [variablePieces, if_neg hc]

theorem variablePieces_dollar (rest : List Char) :
    variablePieces ('$' :: rest) =
      match reference? rest with
      | some (name, after) => .ref name :: variablePieces after
      | none => .char '$' :: variablePieces rest := by
  rw [variablePieces, if_pos rfl]
  split
  · next h => rw [h]
  · next h => rw [h]

theorem isName_cons {c : Char} {cs : List Char} :
    isName (c :: cs) = true ↔ isNameStart c = true ∧ ∀ d ∈ cs, isNameChar d = true := by
  rw [isName, Bool.and_eq_true, List.all_eq_true]

theorem isName_of_spanName {s : List Char} (h : (spanName s).1 ≠ []) :
    isName (spanName s).1 = true := by
  cases s with
  | nil => exact absurd rfl h
  | cons c rest =>
    by_cases hc : isNameStart c = true
    · rw [spanName, if_pos hc, isName_cons]
      exact ⟨hc, List.all_eq_true.mp List.all_takeWhile⟩
    · rw [spanName, if_neg hc] at h
      exact absurd rfl h

theorem spanName_split (s : List Char) : (spanName s).1 ++ (spanName s).2 = s := by
  cases s with
  | nil => rfl
  | cons c rest =>
    by_cases hc : isNameStart c = true
    · rw [spanName, if_pos hc, List.cons_append, List.takeWhile_append_dropWhile]
    · rw [spanName, if_neg hc, List.nil_append]

theorem reference?_eq_some {s after : List Char} {name : String}
    (h : reference? s = some (name, after)) : isName name.toList = true ∧
      (s = name.toList ++ after ∨ s = '\x7b' :: (name.toList ++ '\x7d' :: after)) := by
  unfold reference? at h
  split at h
  · next t =>
    have hname := isName_of_spanName (s := t)
    have hsplit := spanName_split t
    split at h
    · cases h
    · next hne hspan =>
      rw [hspan] at hname hsplit
      cases h
      rw [String.toList_ofList]
      exact ⟨hname hne, .inr (by rw [← hsplit])⟩
    · cases h
  · have hname := isName_of_spanName (s := s)
    have hsplit := spanName_split s
    split at h
    · cases h
    · next hne hspan =>
      rw [hspan] at hname hsplit
      cases h
      rw [String.toList_ofList]
      exact ⟨hname hne, .inl hsplit.symm⟩

def endsName (c : Char) : Bool := !isNameChar c && c ≠ '$' && c ≠ '\x7b' && c ≠ '\x7d'

theorem takeWhile_append_cons {α : Type} {p : α → Bool} {c : α} (hc : p c = false) (s t : List α) :
    (s ++ c :: t).takeWhile p = s.takeWhile p := by
  induction s with
  | nil => simp [hc]
  | cons d s ih => simp [List.takeWhile_cons, ih]

theorem dropWhile_append_cons {α : Type} {p : α → Bool} {c : α} (hc : p c = false) (s t : List α) :
    (s ++ c :: t).dropWhile p = s.dropWhile p ++ c :: t := by
  induction s with
  | nil => simp [hc]
  | cons d s ih =>
    simp only [List.cons_append, List.dropWhile_cons]
    split
    · exact ih
    · rfl

theorem spanName_append {c : Char} (hc : isNameChar c = false) (s t : List Char) :
    spanName (s ++ c :: t) = ((spanName s).1, (spanName s).2 ++ c :: t) := by
  cases s with
  | nil =>
    have hstart : isNameStart c = false := by
      simp only [isNameChar, isNameStart, Char.isAlphanum, Bool.or_eq_false_iff] at hc ⊢
      exact ⟨hc.1.1, hc.2⟩
    simp [spanName, hstart]
  | cons d rest =>
    simp only [spanName, List.cons_append]
    split
    · rw [takeWhile_append_cons hc, dropWhile_append_cons hc]
    · rfl

theorem reference?_bare {s : List Char} (hs : ∀ t, s ≠ '\x7b' :: t) : reference? s =
    if (spanName s).1 = [] then none else some (String.ofList (spanName s).1, (spanName s).2) := by
  unfold reference?
  split
  · next t => exact absurd rfl (hs t)
  · obtain ⟨name, after⟩ := spanName s
    cases name <;> rfl

theorem reference?_append {c : Char} (hc : endsName c = true) (s t : List Char) :
    reference? (s ++ c :: t) = (reference? s).map fun r => (r.1, r.2 ++ c :: t) := by
  obtain ⟨⟨⟨hname, -⟩, hopen⟩, hclose⟩ : ((isNameChar c = false ∧ c ≠ '$') ∧ c ≠ '\x7b') ∧
      c ≠ '\x7d' := by simpa [endsName] using hc
  have hspan := spanName_append hname
  by_cases hs : ∃ u, s = '\x7b' :: u
  · obtain ⟨u, rfl⟩ := hs
    simp only [List.cons_append, reference?, hspan]
    obtain ⟨name, after⟩ := spanName u
    cases name with
    | nil => rfl
    | cons n ns =>
      cases after with
      | nil => simp [hclose]
      | cons d after =>
        by_cases hd : d = '\x7d'
        · simp [hd]
        · simp [hd]
  · rw [reference?_bare fun v hv => hs ⟨v, hv⟩, reference?_bare, hspan]
    · split <;> rfl
    · intro v hv
      cases s with
      | nil => exact hopen (List.cons.inj hv).1
      | cons d s => exact hs ⟨s, by rw [(List.cons.inj hv).1]⟩

theorem variablePieces_append {c : Char} (hc : endsName c = true) (s t : List Char) :
    variablePieces (s ++ c :: t) = variablePieces s ++ .char c :: variablePieces t := by
  have hdollar : c ≠ '$' := by
    rintro rfl
    cases hc
  induction hn : s.length using Nat.strongRecOn generalizing s with
  | ind n ih =>
    cases s with
    | nil => simp [variablePieces_cons hdollar, variablePieces]
    | cons d rest =>
      have hlength : rest.length < n := by simp [← hn]
      by_cases hd : d = '$'
      · subst hd
        rw [List.cons_append, variablePieces_dollar, variablePieces_dollar, reference?_append hc]
        cases hr : reference? rest with
        | none => simp [ih _ hlength rest rfl]
        | some r =>
          obtain ⟨name, after⟩ := r
          have hafter := length_reference? hr
          simp [ih _ (by omega) after rfl]
      · rw [List.cons_append, variablePieces_cons hd, variablePieces_cons hd,
          ih _ hlength rest rfl, List.cons_append]

theorem mem_of_reference? {s after : List Char} {name : String} {c : Char}
    (h : reference? s = some (name, after)) (hc : c ∈ after) : c ∈ s := by
  obtain ⟨-, rfl | rfl⟩ := reference?_eq_some h
  · exact List.mem_append_right _ hc
  · exact List.mem_cons_of_mem _ (List.mem_append_right _ (List.mem_cons_of_mem _ hc))

theorem divides_variablePieces : Divides variablePieces where
  mem {c s} h := by
    induction hn : s.length using Nat.strongRecOn generalizing s with
    | ind n ih =>
      cases s with
      | nil => simp [variablePieces] at h
      | cons d rest =>
        have hlength : rest.length < n := by simp [← hn]
        by_cases hd : d = '$'
        · subst hd
          rw [variablePieces_dollar] at h
          cases hr : reference? rest with
          | none =>
            rw [hr] at h
            rcases List.mem_cons.mp h with h | h
            · cases h; simp
            · exact List.mem_cons_of_mem _ (ih _ hlength h rfl)
          | some r =>
            obtain ⟨name, after⟩ := r
            have hafter := length_reference? hr
            rw [hr] at h
            have hmem : .char c ∈ variablePieces after := by simpa using h
            exact List.mem_cons_of_mem _ (mem_of_reference? hr (ih _ (by omega) hmem rfl))
        · rw [variablePieces_cons hd] at h
          rcases List.mem_cons.mp h with h | h
          · cases h; simp
          · exact List.mem_cons_of_mem _ (ih _ hlength h rfl)
  literal {s} h := by
    induction s with
    | nil => simp [variablePieces]
    | cons c rest ih =>
      have hc : c ≠ '$' := fun heq => h (by simp [heq])
      rw [variablePieces_cons hc, ih fun hmem => h (List.mem_cons_of_mem _ hmem)]
      rfl
  apart := by
    rintro c (rfl | rfl | rfl)
    · exact variablePieces_append (by decide)
    · exact variablePieces_append (by decide)
    · exact variablePieces_append (by decide)

end MemShell.Line
