set_option autoImplicit false

namespace MemShell

abbrev Table (κ α : Type) := List (κ × α)

namespace Table
variable {κ α : Type} [DecidableEq κ]

def get? : Table κ α → κ → Option α
  | [], _ => none
  | (k, v) :: t, key => if k = key then some v else get? t key

def contains (t : Table κ α) (key : κ) : Bool := (t.get? key).isSome

def put : Table κ α → κ → α → Table κ α
  | [], key, value => [(key, value)]
  | (k, v) :: t, key, value => if k = key then (k, value) :: t else (k, v) :: put t key value

def erase : Table κ α → κ → Table κ α
  | [], _ => []
  | (k, v) :: t, key => if k = key then erase t key else (k, v) :: erase t key

def keys (t : Table κ α) : List κ := t.map (·.1)

def update (f : α → α) : Table κ α → κ → Table κ α
  | [], _ => []
  | (k, v) :: t, key => if k = key then (k, f v) :: t else (k, v) :: update f t key

def ofList (entries : List (κ × α)) : Table κ α := entries.foldl (fun t e => t.put e.1 e.2) []

@[simp] theorem get?_put (t : Table κ α) (key other : κ) (value : α) :
    (t.put key value).get? other = if key = other then some value else t.get? other := by
  induction t with
  | nil => simp [put, get?]
  | cons e t ih =>
    obtain ⟨k, v⟩ := e
    by_cases h : k = key
    · subst h
      by_cases ho : k = other <;> simp [put, get?, ho]
    · by_cases ho : k = other
      · subst ho
        simp [put, get?, h, Ne.symm h]
      · simp [put, get?, h, ho, ih]

@[simp] theorem get?_erase (t : Table κ α) (key other : κ) :
    (t.erase key).get? other = if key = other then none else t.get? other := by
  induction t with
  | nil => simp [erase, get?]
  | cons e t ih =>
    obtain ⟨k, v⟩ := e
    by_cases h : k = key
    · subst h
      by_cases ho : k = other
      · subst ho
        simpa [erase] using ih
      · simp [erase, get?, ho, ih]
    · by_cases ho : k = other
      · subst ho
        simp [erase, get?, h, Ne.symm h]
      · simp [erase, get?, h, ho, ih]

@[simp] theorem get?_update (f : α → α) (t : Table κ α) (key other : κ) :
    (t.update f key).get? other =
      if key = other then (t.get? other).map f else t.get? other := by
  induction t with
  | nil => simp [update, get?]
  | cons e t ih =>
    obtain ⟨k, v⟩ := e
    by_cases h : k = key
    · subst h
      by_cases ho : k = other <;> simp [update, get?, ho]
    · by_cases ho : k = other
      · subst ho
        simp [update, get?, h, Ne.symm h]
      · simp [update, get?, h, ho, ih]

theorem keys_put (t : Table κ α) (key : κ) (value : α) :
    (t.put key value).keys = if key ∈ t.keys then t.keys else t.keys ++ [key] := by
  induction t with
  | nil => simp [put, keys]
  | cons e t ih =>
    obtain ⟨k, v⟩ := e
    unfold keys at ih ⊢
    by_cases h : k = key
    · simp [put, h]
    · simp only [put, h, if_false, List.map_cons, ih, List.mem_cons, Ne.symm h, false_or]
      split <;> simp

theorem keys_update (f : α → α) (t : Table κ α) (key : κ) : (t.update f key).keys = t.keys := by
  induction t with
  | nil => rfl
  | cons e t ih =>
    obtain ⟨k, v⟩ := e
    unfold keys at ih ⊢
    by_cases h : k = key <;> simp [update, h, ih]

theorem keys_erase (t : Table κ α) (key : κ) :
    (t.erase key).keys = t.keys.filter fun k => decide (k ≠ key) := by
  induction t with
  | nil => rfl
  | cons e t ih =>
    obtain ⟨k, v⟩ := e
    unfold keys at ih ⊢
    by_cases h : k = key <;> simp [erase, h, ih]

theorem mem_of_get? {t : Table κ α} {key : κ} {value : α} (h : t.get? key = some value) :
    (key, value) ∈ t := by
  induction t with
  | nil => simp [get?] at h
  | cons e t ih =>
    obtain ⟨k, v⟩ := e
    by_cases hk : k = key
    · simp only [get?, hk, if_true, Option.some.injEq] at h
      simp [hk, h]
    · simp only [get?, hk, if_false] at h
      exact List.mem_cons_of_mem _ (ih h)

theorem get?_of_mem {t : Table κ α} (ht : t.keys.Nodup) {key : κ} {value : α}
    (h : (key, value) ∈ t) : t.get? key = some value := by
  induction t with
  | nil => simp at h
  | cons e t ih =>
    obtain ⟨k, v⟩ := e
    simp only [keys, List.map_cons, List.nodup_cons] at ht
    rcases List.mem_cons.mp h with h | h
    · obtain ⟨rfl, rfl⟩ := h
      simp [get?]
    · have hk : k ≠ key := fun hk => ht.1 (List.mem_map.mpr ⟨_, h, hk.symm⟩)
      simp only [get?, hk, if_false]
      exact ih ht.2 h

theorem contains_iff (t : Table κ α) (key : κ) : t.contains key = true ↔ key ∈ t.keys := by
  induction t with
  | nil => simp [contains, get?, keys]
  | cons e t ih =>
    obtain ⟨k, v⟩ := e
    unfold contains keys at ih ⊢
    by_cases h : k = key
    · simp [get?, h]
    · simp only [get?, h, if_false, List.map_cons, List.mem_cons, Ne.symm h, false_or]
      exact ih

theorem get?_eq_none_iff {t : Table κ α} {key : κ} : t.get? key = none ↔ key ∉ t.keys := by
  rw [← contains_iff, contains, Bool.not_eq_true, Option.isSome_eq_false_iff, Option.isNone_iff_eq_none]

theorem put_of_not_mem {t : Table κ α} {key : κ} (h : key ∉ t.keys) (value : α) :
    t.put key value = t ++ [(key, value)] := by
  induction t with
  | nil => rfl
  | cons e t ih =>
    obtain ⟨k, v⟩ := e
    have hk : k ≠ key := fun hk => h (by simp [keys, hk])
    have ht : key ∉ keys t := fun ht => h (List.mem_cons_of_mem _ ht)
    rw [put, if_neg hk, ih ht, List.cons_append]

theorem erase_of_not_mem {t : Table κ α} {key : κ} (h : key ∉ t.keys) : t.erase key = t := by
  induction t with
  | nil => rfl
  | cons e t ih =>
    obtain ⟨k, v⟩ := e
    have hk : k ≠ key := fun heq => h (heq ▸ List.mem_cons_self)
    have ht : key ∉ keys t := fun hmem => h (List.mem_cons_of_mem _ hmem)
    rw [erase, if_neg hk, ih ht]

theorem update_put (f : α → α) (t : Table κ α) (key : κ) (value : α) :
    (t.put key value).update f key = t.put key (f value) := by
  induction t with
  | nil => simp [put, update]
  | cons e t ih =>
    obtain ⟨k, v⟩ := e
    by_cases h : k = key <;> simp [put, update, h, ih]

theorem update_update (f g : α → α) (t : Table κ α) (key : κ) :
    (t.update g key).update f key = t.update (f ∘ g) key := by
  induction t with
  | nil => rfl
  | cons e t ih =>
    obtain ⟨k, v⟩ := e
    by_cases h : k = key <;> simp [update, h, ih]

theorem update_congr {f g : α → α} {t : Table κ α} {key : κ}
    (h : ∀ value, t.get? key = some value → f value = g value) : t.update f key = t.update g key := by
  induction t with
  | nil => rfl
  | cons e t ih =>
    obtain ⟨k, v⟩ := e
    by_cases hk : k = key
    · have hv : f v = g v := h v (by simp [get?, hk])
      simp [update, hk, hv]
    · have hrest := ih fun value hvalue => h value (by simpa [get?, hk] using hvalue)
      simp [update, hk, hrest]

/-- A function of the whole table does not see a change of one value that it does not see at the head. -/
theorem apply_update {β : Type} {F : Table κ α → β} {key : κ} {v w : α}
    (head : ∀ t, F ((key, w) :: t) = F ((key, v) :: t))
    (tail : ∀ k u t t', F t' = F t → F ((k, u) :: t') = F ((k, u) :: t)) {t : Table κ α}
    (h : t.get? key = some v) : F (t.update (fun _ => w) key) = F t := by
  induction t with
  | nil => rfl
  | cons e t ih =>
    obtain ⟨k, u⟩ := e
    by_cases hk : k = key
    · subst hk
      have hu : u = v := by simpa [get?] using h
      rw [update, if_pos rfl, hu]
      exact head t
    · rw [update, if_neg hk]
      exact tail k u _ _ (ih (by simpa [get?, hk] using h))

theorem update_comm (f g : α → α) {key other : κ} (h : key ≠ other) (t : Table κ α) :
    (t.update f key).update g other = (t.update g other).update f key := by
  induction t with
  | nil => rfl
  | cons e t ih =>
    obtain ⟨k, v⟩ := e
    by_cases hk : k = key
    · subst hk
      simp [update, h]
    · by_cases ho : k = other
      · subst ho
        simp [update, hk]
      · simp [update, hk, ho, ih]

theorem put_update_of_ne (f : α → α) {key other : κ} (h : key ≠ other) (value : α) (t : Table κ α) :
    (t.update f key).put other value = (t.put other value).update f key := by
  induction t with
  | nil => simp [update, put, Ne.symm h]
  | cons e t ih =>
    obtain ⟨k, v⟩ := e
    by_cases hk : k = key
    · subst hk
      simp [update, put, h]
    · by_cases ho : k = other
      · subst ho
        simp [update, put, hk]
      · simp [update, put, hk, ho, ih]

theorem erase_update_of_ne (f : α → α) {key other : κ} (h : key ≠ other) (t : Table κ α) :
    (t.update f key).erase other = (t.erase other).update f key := by
  induction t with
  | nil => rfl
  | cons e t ih =>
    obtain ⟨k, v⟩ := e
    by_cases hk : k = key
    · subst hk
      simp [update, erase, h]
    · by_cases ho : k = other
      · subst ho
        simpa [update, erase, hk] using ih
      · simp [update, erase, hk, ho, ih]

theorem erase_update_self (f : α → α) (t : Table κ α) (key : κ) :
    (t.update f key).erase key = t.erase key := by
  induction t with
  | nil => rfl
  | cons e t ih =>
    obtain ⟨k, v⟩ := e
    by_cases hk : k = key <;> simp [update, erase, hk, ih]

end Table

def sortByKey {α : Type} (key : α → String) (xs : List α) : List α :=
  xs.mergeSort fun a b => decide (¬ key b < key a)

theorem map_sortByKey {α β : Type} {key : α → String} {key' : β → String} {f : α → β}
    (h : ∀ x, key' (f x) = key x) (xs : List α) :
    (sortByKey key xs).map f = sortByKey key' (xs.map f) := by
  refine List.map_mergeSort fun x _ y _ => ?_
  rw [h, h]

def sortTexts (xs : List String) : List String := sortByKey id xs

end MemShell
