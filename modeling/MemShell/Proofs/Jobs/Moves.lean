import MemShell.Jobs.Table
set_option autoImplicit false

namespace MemShell

theorem Mailboxes.keys_register (b : Mailboxes) (id : JobId) :
    (b.register id).keys = if id ∈ b.keys then b.keys else b.keys ++ [id] := by
  have hcontains := Table.contains_iff b id
  unfold register
  split
  · next h => rw [if_pos (hcontains.mp h)]
  · exact Table.keys_put b id []

namespace JobTable
variable {t t' : JobTable} {id : JobId}

theorem kill_eq_ok (h : t.kill id = .ok t') : id ∈ t.active.keys ∧ t' = t.cancel id := by
  unfold kill at h
  split at h
  · next hid => exact ⟨(Table.contains_iff _ _).mp hid, (Except.ok.inj h).symm⟩
  · cases h

theorem next_kill (h : t.kill id = .ok t') : t'.next = t.next := by
  obtain ⟨-, rfl⟩ := kill_eq_ok h
  rfl

theorem kill_of_mem (h : id ∈ t.active.keys) : t.kill id = .ok (t.cancel id) :=
  if_pos ((Table.contains_iff _ _).mpr h)

def pending (t : JobTable) (id : JobId) : List String := (t.boxes.get? id).getD []

theorem post_of_mem (h : id ∈ t.boxes.keys) (message : String) :
    t.post id message = .ok { t with boxes := t.boxes.put id (t.pending id ++ [message]) } := by
  obtain ⟨messages, hbox⟩ := Option.isSome_iff_exists.mp ((Table.contains_iff _ _).mpr h)
  simp [post, Mailboxes.post, pending, hbox, Except.map]

theorem post_of_not_mem (h : id ∉ t.boxes.keys) (message : String) :
    t.post id message = .error (.unknownJob id) := by
  simp [post, Mailboxes.post, Table.get?_eq_none_iff.mpr h, Except.map]

theorem post_eq_ok {message : String} (h : t.post id message = .ok t') :
    id ∈ t.boxes.keys ∧ t' = { t with boxes := t.boxes.put id (t.pending id ++ [message]) } := by
  by_cases hid : id ∈ t.boxes.keys
  · rw [post_of_mem hid] at h
    exact ⟨hid, (Except.ok.inj h).symm⟩
  · rw [post_of_not_mem hid] at h
    cases h

theorem next_post {message : String} (h : t.post id message = .ok t') : t'.next = t.next := by
  obtain ⟨-, rfl⟩ := post_eq_ok h
  rfl

theorem drain_of_mem (h : id ∈ t.boxes.keys) :
    t.drain id = (t.pending id, { t with boxes := t.boxes.put id [] }) := by
  obtain ⟨messages, hbox⟩ := Option.isSome_iff_exists.mp ((Table.contains_iff _ _).mpr h)
  simp [drain, Mailboxes.drain, pending, hbox]

theorem drain_of_not_mem (h : id ∉ t.boxes.keys) : t.drain id = ([], t) := by
  simp [drain, Mailboxes.drain, Table.get?_eq_none_iff.mpr h]

theorem forget_of_not_mem (hkeys : t.boxes.keys = t.active.keys) (h : id ∉ t.active.keys) :
    t.forget id = t := by
  have hboxes : id ∉ t.boxes.keys := by
    rw [hkeys]
    exact h
  rw [forget, Mailboxes.unregister, Table.erase_of_not_mem h, Table.erase_of_not_mem hboxes]

theorem pending_of_not_mem (h : id ∉ t.boxes.keys) : t.pending id = [] := by
  rw [pending, Table.get?_eq_none_iff.mpr h, Option.getD_none]

theorem pending_spawn (t : JobTable) (text : String) (id : JobId) :
    (t.spawn text).2.pending id = t.pending id := by
  show ((t.boxes.register t.next).get? id).getD [] = _
  unfold Mailboxes.register
  split
  · rfl
  · next h =>
    rw [Table.get?_put]
    split
    · next heq =>
      rw [← heq, pending_of_not_mem fun hmem => h ((Table.contains_iff _ _).mpr hmem)]
      rfl
    · rfl

theorem pending_forget (t : JobTable) (other id : JobId) :
    (t.forget other).pending id = if other = id then [] else t.pending id := by
  rw [pending, forget, Mailboxes.unregister, Table.get?_erase]
  split <;> rfl

theorem pending_post {other : JobId} {message : String} (h : t.post other message = .ok t')
    (id : JobId) : t'.pending id = t.pending id ++ if other = id then [message] else [] := by
  obtain ⟨-, rfl⟩ := post_eq_ok h
  rw [pending, Table.get?_put]
  split
  · next heq => rw [heq, Option.getD_some]
  · exact (List.append_nil _).symm

theorem pending_drain (t : JobTable) (other id : JobId) :
    (t.drain other).2.pending id = if other = id then [] else t.pending id := by
  by_cases hmem : other ∈ t.boxes.keys
  · rw [drain_of_mem hmem, pending, Table.get?_put]
    split <;> rfl
  · rw [drain_of_not_mem hmem]
    split
    · next heq => exact pending_of_not_mem (heq ▸ hmem)
    · rfl

theorem fst_drain (t : JobTable) (id : JobId) : (t.drain id).1 = t.pending id := by
  by_cases hmem : id ∈ t.boxes.keys
  · rw [drain_of_mem hmem]
  · rw [drain_of_not_mem hmem, pending_of_not_mem hmem]

theorem foldl_cancel (ids : List JobId) (t : JobTable) :
    (ids.foldl cancel t).next = t.next ∧
    (ids.foldl cancel t).active.keys = t.active.keys.filter (· ∉ ids) ∧
    ∀ id, id ∈ (ids.foldl cancel t).cancelled ↔ id ∈ ids ∨ id ∈ t.cancelled := by
  induction ids generalizing t with
  | nil =>
    have hall (keys : List JobId) : keys = keys.filter (· ∉ []) :=
      (List.filter_eq_self.mpr fun _ _ => by simp).symm
    exact ⟨rfl, hall _, fun _ => by simp⟩
  | cons other rest ih =>
    obtain ⟨hnext, hactive, hcancelled⟩ := ih (t.cancel other)
    have hsplit (keys : List JobId) :
        (keys.filter (· ≠ other)).filter (· ∉ rest) = keys.filter (· ∉ other :: rest) := by
      rw [List.filter_filter]
      exact List.filter_congr fun id _ => by simp [Bool.and_comm]
    refine ⟨hnext, hactive.trans ?_, fun id => (hcancelled id).trans ?_⟩
    · rw [← hsplit]
      exact congrArg _ (Table.keys_erase t.active other)
    · rw [show (t.cancel other).cancelled = other :: t.cancelled from rfl, List.mem_cons,
        List.mem_cons, or_left_comm, or_assoc]

@[simp] theorem next_cancelAll (t : JobTable) : t.cancelAll.next = t.next :=
  (foldl_cancel t.active.keys t).1

@[simp] theorem keys_active_cancelAll (t : JobTable) : t.cancelAll.active.keys = [] := by
  refine (foldl_cancel t.active.keys t).2.1.trans ?_
  exact List.filter_eq_nil_iff.mpr fun id hid => by simp [hid]

theorem isCancelled_cancelAll (t : JobTable) (id : JobId) :
    t.cancelAll.isCancelled id = true ↔ id ∈ t.active.keys ∨ t.isCancelled id = true := by
  simp only [isCancelled, List.contains_iff_mem]
  exact (foldl_cancel t.active.keys t).2.2 id

inductive Move : JobTable → JobTable → Prop
  | spawn (text : String) (t : JobTable) : Move t (t.spawn text).2
  | forget (id : JobId) (t : JobTable) : Move t (t.forget id)
  | kill {id : JobId} {t t' : JobTable} (h : t.kill id = .ok t') : Move t t'
  | post {id : JobId} {message : String} {t t' : JobTable} (h : t.post id message = .ok t') :
    Move t t'
  | drain (id : JobId) (t : JobTable) : Move t (t.drain id).2

namespace Move

theorem next_le (h : Move t t') : t.next ≤ t'.next := by
  cases h with
  | spawn text => exact Int.le_of_lt (Int.lt_succ t.next)
  | forget id => exact Int.le_refl _
  | kill h => exact Int.le_of_eq (next_kill h).symm
  | post h => exact Int.le_of_eq (next_post h).symm
  | drain id => exact Int.le_refl _

theorem isCancelled (h : Move t t') (hid : t.isCancelled id = true) : t'.isCancelled id = true := by
  cases h with
  | spawn text => exact hid
  | forget id => exact hid
  | kill h =>
    obtain ⟨-, rfl⟩ := kill_eq_ok h
    simp only [JobTable.isCancelled, List.contains_eq_mem, decide_eq_true_eq] at hid ⊢
    exact List.mem_cons_of_mem _ hid
  | post h =>
    obtain ⟨-, rfl⟩ := post_eq_ok h
    exact hid
  | drain id => exact hid

theorem keys_boxes (h : Move t t') (hkeys : t.boxes.keys = t.active.keys) :
    t'.boxes.keys = t'.active.keys := by
  have hforget (id : JobId) : (t.forget id).boxes.keys = (t.forget id).active.keys := by
    rw [JobTable.forget, Mailboxes.unregister, Table.keys_erase, Table.keys_erase, hkeys]
  have hput {id : JobId} (hid : id ∈ t.boxes.keys) (messages : List String) :
      (t.boxes.put id messages).keys = t.active.keys := by
    rw [Table.keys_put, if_pos hid, hkeys]
  cases h with
  | spawn text =>
    have hboxes := Mailboxes.keys_register t.boxes t.next
    have hactive := Table.keys_put t.active t.next text
    rw [hkeys] at hboxes
    exact hboxes.trans hactive.symm
  | forget id => exact hforget id
  | kill h =>
    obtain ⟨-, rfl⟩ := kill_eq_ok h
    exact hforget _
  | post h =>
    obtain ⟨hid, rfl⟩ := post_eq_ok h
    exact hput hid _
  | drain id =>
    by_cases hid : id ∈ t.boxes.keys
    · rw [drain_of_mem hid]
      exact hput hid []
    · rw [drain_of_not_mem hid]
      exact hkeys

/-- Only a number that was not given out before can come into the table. -/
theorem mem_keys (h : Move t t') (hid : id ∈ t'.active.keys) :
    id ∈ t.active.keys ∨ id = t.next ∧ t'.next = t.next + 1 := by
  have hforget {other : JobId} (hid : id ∈ (t.forget other).active.keys) : id ∈ t.active.keys := by
    rw [JobTable.forget, Table.keys_erase] at hid
    exact (List.mem_filter.mp hid).1
  cases h with
  | spawn text =>
    have hkeys : id ∈ (t.active.put t.next text).keys := hid
    rw [Table.keys_put] at hkeys
    split at hkeys
    · exact .inl hkeys
    · rcases List.mem_append.mp hkeys with hkeys | hkeys
      · exact .inl hkeys
      · exact .inr ⟨List.mem_singleton.mp hkeys, rfl⟩
  | forget other => exact .inl (hforget hid)
  | kill h =>
    obtain ⟨-, rfl⟩ := kill_eq_ok h
    exact .inl (hforget hid)
  | post h =>
    obtain ⟨-, rfl⟩ := post_eq_ok h
    exact .inl hid
  | drain other => exact .inl hid

end Move
end JobTable
end MemShell
