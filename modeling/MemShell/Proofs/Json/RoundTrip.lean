import MemShell.Proofs.Json.Keys
import MemShell.Proofs.Json.Scalars
set_option autoImplicit false

namespace MemShell.Json
variable {step depth fuel : Nat} {s rest : List Char}

theorem skipBlanks_append {bs : List Char} (h : ∀ c ∈ bs, isJsonBlank c = true) (s : List Char) :
    skipBlanks (bs ++ s) = skipBlanks s := List.dropWhile_append_of_pos h

theorem skipBlanks_cons {c : Char} (h : isJsonBlank c = false) (s : List Char) :
    skipBlanks (c :: s) = c :: s := by
  simp [skipBlanks, h]

theorem skipBlanks_of_begins (h : Begins s) (rest : List Char) :
    skipBlanks (s ++ rest) = s ++ rest := by
  obtain ⟨c, t, rfl, hblank, -⟩ := h
  exact skipBlanks_cons hblank (t ++ rest)

theorem readValue_append {bs : List Char} (h : ∀ c ∈ bs, isJsonBlank c = true) (fuel : Nat)
    (s : List Char) : readValue fuel (bs ++ s) = readValue fuel s := by
  cases fuel with
  | zero => rw [readValue, readValue]
  | succ fuel => rw [readValue, readValue, skipBlanks_append h]

theorem readItems_append {bs : List Char} (h : ∀ c ∈ bs, isJsonBlank c = true) (fuel : Nat)
    (s : List Char) : readItems fuel (bs ++ s) = readItems fuel s := by
  cases fuel with
  | zero => rw [readItems, readItems]
  | succ fuel => rw [readItems, readItems, readValue_append h]

theorem readMembers_append {bs : List Char} (h : ∀ c ∈ bs, isJsonBlank c = true) (fuel : Nat)
    (s : List Char) : readMembers fuel (bs ++ s) = readMembers fuel s := by
  cases fuel with
  | zero => rw [readMembers, readMembers]
  | succ fuel => rw [readMembers, readMembers, skipBlanks_append h]

theorem toList_newline (k : Nat) : ("\n" ++ String.ofList (List.replicate k ' ')).toList =
    '\n' :: List.replicate k ' ' := by simp

theorem isJsonBlank_newline (k : Nat) :
    ∀ c ∈ '\n' :: List.replicate k ' ', isJsonBlank c = true := by
  intro c hc
  rcases List.mem_cons.mp hc with rfl | hc
  · rfl
  · rw [List.eq_of_mem_replicate hc]
    rfl

theorem isJsonBlank_opening (step depth : Nat) :
    ∀ c ∈ ((Layout.indented step).opening depth).toList, isJsonBlank c = true := by
  rw [Layout.opening, toList_newline]
  exact isJsonBlank_newline _

theorem toList_closing (step depth : Nat) : ((Layout.indented step).closing depth).toList =
    '\n' :: List.replicate (step * depth) ' ' := toList_newline _

theorem toList_between (step depth : Nat) : ((Layout.indented step).between depth).toList =
    ',' :: ((Layout.indented step).opening depth).toList := by
  simp [Layout.between]

def itemsText (step depth : Nat) : List Json → List Char
  | [] => []
  | v :: vs =>
    (write (.indented step) (depth + 1) v).toList ++ (writeItems (.indented step) depth vs).toList

def membersText (step depth : Nat) : List (String × Json) → List Char
  | [] => []
  | (k, v) :: ms =>
    (quote k).toList ++ ':' :: ' ' :: ((write (.indented step) (depth + 1) v).toList ++
      (writeMembers (.indented step) depth ms).toList)

theorem toList_writeItems (step depth : Nat) (v : Json) (vs : List Json) :
    (writeItems (.indented step) depth (v :: vs)).toList =
      ',' :: (((Layout.indented step).opening depth).toList ++ itemsText step depth (v :: vs)) := by
  simp [writeItems, itemsText, toList_between]

theorem toList_writeMembers (step depth : Nat) (m : String × Json) (ms : List (String × Json)) :
    (writeMembers (.indented step) depth (m :: ms)).toList =
      ',' :: (((Layout.indented step).opening depth).toList ++ membersText step depth (m :: ms)) := by
  simp [writeMembers, membersText, toList_between, Layout.colon]

theorem toList_write_arr_nil (step depth : Nat) :
    (write (.indented step) depth (.arr [])).toList = ['[', ']'] := by
  simp [write]

theorem toList_write_obj_nil (step depth : Nat) :
    (write (.indented step) depth (.obj [])).toList = ['{', '}'] := by
  simp [write]

theorem toList_write_arr (step depth : Nat) {items : List Json} (h : items ≠ []) :
    (write (.indented step) depth (.arr items)).toList =
      '[' :: (((Layout.indented step).opening depth).toList ++ (itemsText step depth items ++
        (((Layout.indented step).closing depth).toList ++ [']']))) := by
  cases items with
  | nil => exact absurd rfl h
  | cons v vs => simp [write, itemsText]

theorem toList_write_obj (step depth : Nat) {members : List (String × Json)} (h : members ≠ []) :
    (write (.indented step) depth (.obj members)).toList =
      '{' :: (((Layout.indented step).opening depth).toList ++ (membersText step depth members ++
        (((Layout.indented step).closing depth).toList ++ ['}']))) := by
  cases members with
  | nil => exact absurd rfl h
  | cons m ms => simp [write, membersText, Layout.colon]

theorem begins_write (step depth : Nat) {v : Json} (h : v.isShowable = true) :
    ∃ c t, (write (.indented step) depth v).toList = c :: t ∧ isJsonBlank c = false ∧ c ≠ ']' := by
  have hscalar {w : Json} {text : List Char} (hread : ReadsBack w text) :
      ∃ c t, text = c :: t ∧ isJsonBlank c = false ∧ c ≠ ']' := by
    obtain ⟨c, t, htext, hblank, -, -, hclose⟩ := hread.begins
    exact ⟨c, t, htext, hblank, hclose⟩
  cases v with
  | null => exact hscalar readsBack_null
  | bool b => exact hscalar (readsBack_bool b)
  | int n => exact hscalar (readsBack_int (by simpa [isShowable] using h))
  | real x => exact hscalar (readsBack_real x)
  | str s => exact hscalar (readsBack_str s)
  | arr items =>
    cases items with
    | nil => exact ⟨'[', [']'], toList_write_arr_nil step depth, by decide⟩
    | cons v vs => exact ⟨'[', _, toList_write_arr step depth (List.cons_ne_nil v vs), by decide⟩
  | obj members =>
    cases members with
    | nil => exact ⟨'{', ['}'], toList_write_obj_nil step depth, by decide⟩
    | cons m ms => exact ⟨'{', _, toList_write_obj step depth (List.cons_ne_nil m ms), by decide⟩

theorem delimited_cons {c : Char} {s : List Char}
    (h : isAsciiDigit c = false ∧ c ≠ '.' ∧ c ≠ 'e' ∧ c ≠ 'E') : Delimited (c :: s) := by
  intro d hd
  rw [← Option.some.inj hd]
  exact h

theorem delimited_closing (step depth : Nat) (s : List Char) :
    Delimited (((Layout.indented step).closing depth).toList ++ s) := by
  rw [toList_closing]
  exact delimited_cons (by decide)

theorem skipBlanks_closing (step depth : Nat) {c : Char} (h : isJsonBlank c = false)
    (s : List Char) :
    skipBlanks (((Layout.indented step).closing depth).toList ++ c :: s) = c :: s := by
  rw [toList_closing, skipBlanks_append (isJsonBlank_newline _), skipBlanks_cons h]

mutual
def weight : Json → Nat
  | .arr items => 1 + weights items
  | .obj members => 1 + memberWeights members
  | _ => 1

def weights : List Json → Nat
  | [] => 0
  | v :: vs => 1 + weight v + weights vs

def memberWeights : List (String × Json) → Nat
  | [] => 0
  | (_, v) :: ms => 1 + weight v + memberWeights ms
end

theorem readValue_scalar {v : Json} {text : List Char} (h : ReadsBack v text)
    (hfuel : 1 ≤ fuel) (hrest : Delimited rest) : readValue fuel (text ++ rest) = .ok (v, rest) := by
  obtain ⟨fuel, rfl⟩ := Nat.exists_eq_add_of_le' hfuel
  have hread := h.reads rest hrest
  obtain ⟨c, t, rfl, hblank, hbracket, hbrace, -⟩ := h.begins
  rw [readValue, skipBlanks_of_begins h.begins]
  split
  · next heq => exact absurd (List.cons.inj heq).1 hbracket
  · next heq => exact absurd (List.cons.inj heq).1 hbrace
  · exact hread

theorem readValue_arr {items : List Json} (hfuel : 1 ≤ fuel) {bs : List Char}
    (hbs : ∀ c ∈ bs, isJsonBlank c = true) {c : Char} (hblank : isJsonBlank c = false) (hc : c ≠ ']')
    (hitems : readItems (fuel - 1) (c :: s) = .ok (items, rest)) :
    readValue fuel ('[' :: (bs ++ c :: s)) = .ok (.arr items, rest) := by
  obtain ⟨fuel, rfl⟩ := Nat.exists_eq_add_of_le' hfuel
  rw [Nat.add_sub_cancel] at hitems
  rw [readValue, skipBlanks_cons (by decide)]
  split
  · next heq =>
    obtain ⟨-, rfl⟩ := List.cons.inj heq
    rw [skipBlanks_append hbs, skipBlanks_cons hblank]
    split
    · next heq => exact absurd (List.cons.inj heq).1 hc
    · rw [hitems]
      rfl
  · next heq => exact absurd (List.cons.inj heq).1 (by decide)
  · next hnot _ => exact absurd rfl (hnot _)

theorem readValue_obj {members : List (String × Json)} (hfuel : 1 ≤ fuel) {bs : List Char}
    (hbs : ∀ c ∈ bs, isJsonBlank c = true) {c : Char} (hblank : isJsonBlank c = false) (hc : c ≠ '}')
    (hmembers : readMembers (fuel - 1) (c :: s) = .ok (members, rest)) :
    readValue fuel ('{' :: (bs ++ c :: s)) = .ok (.obj (Table.ofList members), rest) := by
  obtain ⟨fuel, rfl⟩ := Nat.exists_eq_add_of_le' hfuel
  rw [Nat.add_sub_cancel] at hmembers
  rw [readValue, skipBlanks_cons (by decide)]
  split
  · next heq => exact absurd (List.cons.inj heq).1 (by decide)
  · next heq =>
    obtain ⟨-, rfl⟩ := List.cons.inj heq
    rw [skipBlanks_append hbs, skipBlanks_cons hblank]
    split
    · next heq => exact absurd (List.cons.inj heq).1 hc
    · rw [hmembers]
      rfl
  · next hnot => exact absurd rfl (hnot _)

theorem readItems_cons {v : Json} {vs : List Json} {t : List Char} (hfuel : 1 ≤ fuel)
    (hv : readValue (fuel - 1) s = .ok (v, t))
    (hvs : vs = [] ∧ skipBlanks t = ']' :: rest ∨
      ∃ more, skipBlanks t = ',' :: more ∧ readItems (fuel - 1) more = .ok (vs, rest)) :
    readItems fuel s = .ok (v :: vs, rest) := by
  obtain ⟨fuel, rfl⟩ := Nat.exists_eq_add_of_le' hfuel
  rw [Nat.add_sub_cancel] at hv hvs
  rw [readItems]
  refine Eq.trans (congrArg (· >>= _) hv) ?_
  dsimp only [bind, Except.bind]
  rcases hvs with ⟨rfl, hclose⟩ | ⟨more, hcomma, hmore⟩
  · rw [hclose]
    rfl
  · rw [hcomma]
    change (readItems fuel more >>= fun p => pure (v :: p.1, p.2)) = _
    rw [hmore]
    rfl

theorem readMembers_cons {name : String} {v : Json} {ms : List (String × Json)} {t : List Char}
    (hfuel : 1 ≤ fuel) (hv : readValue (fuel - 1) s = .ok (v, t))
    (hms : ms = [] ∧ skipBlanks t = '}' :: rest ∨
      ∃ more, skipBlanks t = ',' :: more ∧ readMembers (fuel - 1) more = .ok (ms, rest)) :
    readMembers fuel ((quote name).toList ++ ':' :: s) = .ok ((name, v) :: ms, rest) := by
  obtain ⟨fuel, rfl⟩ := Nat.exists_eq_add_of_le' hfuel
  rw [Nat.add_sub_cancel] at hv hms
  have hname := readChars_quoted name.toList (':' :: s)
  have hquote : (quote name).toList ++ ':' :: s =
      '"' :: (name.toList.flatMap escapeChar ++ '"' :: ':' :: s) := by simp [toList_quote]
  rw [readMembers, hquote, skipBlanks_cons (by decide)]
  refine Eq.trans (congrArg (· >>= _) hname) ?_
  dsimp only [bind, Except.bind]
  rw [skipBlanks_cons (by decide), String.ofList_toList]
  split
  · next heq =>
    obtain ⟨-, rfl⟩ := List.cons.inj heq
    rw [hv]
    dsimp only
    rcases hms with ⟨rfl, hclose⟩ | ⟨more, hcomma, hmore⟩
    · rw [hclose]
      rfl
    · rw [hcomma]
      change (readMembers fuel more >>= fun p => pure ((name, v) :: p.1, p.2)) = _
      rw [hmore]
      rfl
  · next hnot => exact absurd rfl (hnot _)

-- By induction on the value; what is written of a list is read item by item, each followed by a comma
-- or by what closes the list.
mutual
theorem readValue_write (v : Json) (hd : v.Distinct) (hs : v.isShowable = true)
    (step depth : Nat) {fuel : Nat} (hfuel : weight v ≤ fuel) {rest : List Char}
    (hrest : Delimited rest) :
    readValue fuel ((write (.indented step) depth v).toList ++ rest) = .ok (v, rest) := by
  cases v with
  | null => exact readValue_scalar readsBack_null hfuel hrest
  | bool b => exact readValue_scalar (readsBack_bool b) hfuel hrest
  | int n => exact readValue_scalar (readsBack_int (by simpa [isShowable] using hs)) hfuel hrest
  | real x => exact readValue_scalar (readsBack_real x) hfuel hrest
  | str s => exact readValue_scalar (readsBack_str s) hfuel hrest
  | arr items =>
    rw [weight] at hfuel
    have hpos : 1 ≤ fuel := Nat.le_of_add_right_le hfuel
    cases items with
    | nil =>
      obtain ⟨fuel, rfl⟩ := Nat.exists_eq_add_of_le' hpos
      rw [toList_write_arr_nil, readValue]
      rfl
    | cons v vs =>
      have hitems := readItems_write (v :: vs) (List.cons_ne_nil _ _) hd hs step depth
        (Nat.le_sub_of_add_le' hfuel) rest
      rw [isShowable, areShowable, Bool.and_eq_true] at hs
      obtain ⟨c, t, hhead, hblank, hclose⟩ := begins_write step (depth + 1) hs.1
      rw [toList_write_arr step depth (List.cons_ne_nil _ _)]
      simp only [itemsText, hhead, List.cons_append, List.append_assoc, List.nil_append] at hitems ⊢
      exact readValue_arr hpos (isJsonBlank_opening step depth) hblank hclose hitems
  | obj members =>
    rw [weight] at hfuel
    have hpos : 1 ≤ fuel := Nat.le_of_add_right_le hfuel
    cases members with
    | nil =>
      obtain ⟨fuel, rfl⟩ := Nat.exists_eq_add_of_le' hpos
      rw [toList_write_obj_nil, readValue]
      rfl
    | cons m ms =>
      have hmembers := readMembers_write (m :: ms) (List.cons_ne_nil _ _) hd.2 hs step depth
        (Nat.le_sub_of_add_le' hfuel) rest
      rw [toList_write_obj step depth (List.cons_ne_nil _ _)]
      simp only [membersText, toList_quote, List.cons_append, List.append_assoc, List.nil_append]
        at hmembers ⊢
      have hread := readValue_obj hpos (isJsonBlank_opening step depth) (by decide) (by decide)
        hmembers
      rw [Table.ofList_eq hd.1] at hread
      exact hread

theorem readItems_write (items : List Json) (hne : items ≠ []) (hd : AllDistinct items)
    (hs : areShowable items = true) (step depth : Nat) {fuel : Nat} (hfuel : weights items ≤ fuel)
    (rest : List Char) :
    readItems fuel (itemsText step depth items ++
      (((Layout.indented step).closing depth).toList ++ ']' :: rest)) = .ok (items, rest) := by
  cases items with
  | nil => exact absurd rfl hne
  | cons v vs =>
    rw [weights] at hfuel
    rw [areShowable, Bool.and_eq_true] at hs
    rw [itemsText, List.append_assoc]
    have hpos : 1 ≤ fuel := by omega
    have hweight : weight v ≤ fuel - 1 := by omega
    have hv {t : List Char} (ht : Delimited t) :=
      readValue_write v hd.1 hs.1 step (depth + 1) hweight ht
    cases vs with
    | nil =>
      rw [writeItems]
      refine readItems_cons hpos (hv (delimited_closing step depth _)) (.inl ⟨rfl, ?_⟩)
      exact skipBlanks_closing step depth (by decide) rest
    | cons w ws =>
      have hrest : weights (w :: ws) ≤ fuel - 1 := by omega
      have hvs := readItems_write (w :: ws) (List.cons_ne_nil _ _) hd.2 hs.2 step depth hrest rest
      rw [toList_writeItems, List.cons_append, List.append_assoc]
      refine readItems_cons hpos (hv (delimited_cons (by decide)))
        (.inr ⟨_, skipBlanks_cons (by decide) _, ?_⟩)
      rw [readItems_append (isJsonBlank_opening step depth)]
      exact hvs

theorem readMembers_write (members : List (String × Json)) (hne : members ≠ [])
    (hd : EachDistinct members) (hs : haveShowable members = true) (step depth : Nat) {fuel : Nat}
    (hfuel : memberWeights members ≤ fuel) (rest : List Char) :
    readMembers fuel (membersText step depth members ++
      (((Layout.indented step).closing depth).toList ++ '}' :: rest)) = .ok (members, rest) := by
  cases members with
  | nil => exact absurd rfl hne
  | cons m ms =>
    obtain ⟨k, v⟩ := m
    rw [memberWeights] at hfuel
    rw [haveShowable, Bool.and_eq_true] at hs
    have hpos : 1 ≤ fuel := by omega
    have hweight : weight v ≤ fuel - 1 := by omega
    have hv {t : List Char} (ht : Delimited t) :=
      readValue_write v hd.1 hs.1 step (depth + 1) hweight ht
    have hspace : ∀ c ∈ [' '], isJsonBlank c = true := by simp [isJsonBlank]
    have hblank (t : List Char) : readValue (fuel - 1) (' ' :: t) = readValue (fuel - 1) t :=
      readValue_append hspace _ t
    rw [membersText, List.append_assoc, List.cons_append, List.cons_append, List.append_assoc]
    cases ms with
    | nil =>
      rw [writeMembers]
      refine readMembers_cons hpos ((hblank _).trans (hv (delimited_closing step depth _)))
        (.inl ⟨rfl, ?_⟩)
      exact skipBlanks_closing step depth (by decide) rest
    | cons m ms =>
      have hrest : memberWeights (m :: ms) ≤ fuel - 1 := by omega
      have hms := readMembers_write (m :: ms) (List.cons_ne_nil _ _) hd.2 hs.2 step depth hrest rest
      rw [toList_writeMembers, List.cons_append, List.append_assoc]
      refine readMembers_cons hpos ((hblank _).trans (hv (delimited_cons (by decide))))
        (.inr ⟨_, skipBlanks_cons (by decide) _, ?_⟩)
      rw [readMembers_append (isJsonBlank_opening step depth)]
      exact hms
end

-- The text of a value is long enough for its nesting: each part takes at least what separates it.
mutual
theorem weight_le (v : Json) (step depth : Nat) :
    weight v ≤ 2 * (write (.indented step) depth v).toList.length + 1 := by
  cases v with
  | arr items =>
    rw [weight]
    cases items with
    | nil =>
      rw [weights]
      omega
    | cons v vs =>
      have hitems := weights_le (v :: vs) step depth
      rw [toList_write_arr step depth (List.cons_ne_nil _ _)]
      simp only [List.length_cons, List.length_append] at hitems ⊢
      omega
  | obj members =>
    rw [weight]
    cases members with
    | nil =>
      rw [memberWeights]
      omega
    | cons m ms =>
      have hmembers := memberWeights_le (m :: ms) step depth
      rw [toList_write_obj step depth (List.cons_ne_nil _ _)]
      simp only [List.length_cons, List.length_append] at hmembers ⊢
      omega
  | _ =>
    rw [weight]
    · omega
    all_goals rintro _ ⟨⟩

theorem weights_le (items : List Json) (step depth : Nat) :
    weights items ≤ 2 * (itemsText step depth items).length + 2 := by
  cases items with
  | nil => exact Nat.zero_le _
  | cons v vs =>
    have hv := weight_le v step (depth + 1)
    have hvs := weights_le vs step depth
    rw [weights, itemsText]
    cases vs with
    | nil =>
      rw [weights, List.length_append]
      omega
    | cons w ws =>
      rw [toList_writeItems]
      simp only [List.length_cons, List.length_append] at hvs ⊢
      omega

theorem memberWeights_le (members : List (String × Json)) (step depth : Nat) :
    memberWeights members ≤ 2 * (membersText step depth members).length + 2 := by
  cases members with
  | nil => exact Nat.zero_le _
  | cons m ms =>
    obtain ⟨k, v⟩ := m
    have hv := weight_le v step (depth + 1)
    have hms := memberWeights_le ms step depth
    rw [memberWeights, membersText]
    cases ms with
    | nil =>
      simp only [memberWeights, List.length_cons, List.length_append]
      omega
    | cons m ms =>
      rw [toList_writeMembers]
      simp only [List.length_cons, List.length_append] at hms ⊢
      omega
end

theorem read_pretty {v : Json} (hd : v.Distinct) (hs : v.isShowable = true) :
    read v.pretty = .ok v := by
  have hweight := weight_le v 2 0
  have hnone : Delimited [] := fun c hc => by cases hc
  have hread := readValue_write v hd hs 2 0 (Nat.le_succ_of_le hweight) hnone
  rw [List.append_nil] at hread
  unfold read pretty
  dsimp only
  rw [hread]
  rfl

end MemShell.Json
