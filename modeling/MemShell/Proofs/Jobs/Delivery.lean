import MemShell.Proofs.Jobs.Ledger
set_option autoImplicit false

namespace MemShell
namespace JobLedger
variable {ρ : Type} {l l' : JobLedger ρ} {a : JobAct ρ} {id : JobId}

def postedTo (id : JobId) : JobEvent ρ → List String
  | .posted other message => if other = id then [message] else []
  | _ => []

def readFrom (id : JobId) : JobEvent ρ → List String
  | .drained other messages => if other = id then messages else []
  | _ => []

def posted (l : JobLedger ρ) (id : JobId) : List String := l.events.flatMap (postedTo id)

def received (l : JobLedger ρ) (id : JobId) : List String := l.events.flatMap (readFrom id)

def Ahead (t : JobTable) (id : JobId) : Prop := id ∈ t.active.keys ∨ t.next ≤ id

/-- What was posted is what was read and what waits. A number that has not been given out counts
too: nothing was posted to it. -/
def Balanced (l : JobLedger ρ) : Prop :=
  ∀ id, Ahead l.table id → l.received id ++ l.table.pending id = l.posted id

theorem Does.ahead (hdoes : l.Does a l') (h : Ahead l'.table id) : Ahead l.table id := by
  rcases hdoes.move with hmove | hmove
  · rw [hmove] at h
    exact h
  · rcases h with hmem | hnext
    · rcases hmove.mem_keys hmem with hold | ⟨hnew, -⟩
      · exact .inl hold
      · exact .inr (Int.le_of_eq hnew.symm)
    · exact .inr (Int.le_trans hmove.next_le hnext)

theorem Sound.not_mem_boxes (h : l.Sound) (hid : l.table.next ≤ id) : id ∉ l.table.boxes.keys := by
  intro hmem
  rw [h.boxes] at hmem
  exact Int.not_lt.mpr hid (h.active hmem)

/-- A job that leaves takes only its own mailbox along. -/
theorem pending_forget_of_ahead (h : l.Sound) {other : JobId}
    (hid : Ahead (l.table.forget other) id) :
    (l.table.forget other).pending id = l.table.pending id := by
  rw [JobTable.pending_forget]
  split
  · next heq =>
    subst heq
    rcases hid with hmem | hnext
    · rw [JobTable.forget, Table.keys_erase] at hmem
      simp at hmem
    · exact (JobTable.pending_of_not_mem (h.not_mem_boxes hnext)).symm
  · rfl

/-- What is written down, and what happens to the mailbox of a job that does not leave. -/
theorem Balanced.of_record (record : List (JobEvent ρ))
    (h : l.received id ++ l.table.pending id = l.posted id)
    (hevents : l'.events = l.events ++ record)
    (hstep : record.flatMap (readFrom id) ++ l'.table.pending id =
      l.table.pending id ++ record.flatMap (postedTo id)) :
    l'.received id ++ l'.table.pending id = l'.posted id := by
  have hreceived : l'.received id = l.received id ++ record.flatMap (readFrom id) := by
    rw [received, hevents, List.flatMap_append, received]
  have hposted : l'.posted id = l.posted id ++ record.flatMap (postedTo id) := by
    rw [posted, hevents, List.flatMap_append, posted]
  rw [hreceived, hposted, List.append_assoc, hstep, ← List.append_assoc, h]

theorem Does.balanced (hdoes : l.Does a l') (hs : l.Sound) (h : l.Balanced) : l'.Balanced := by
  intro id hid
  have hbefore := h id (hdoes.ahead hid)
  cases hdoes with
  | refused => exact hbefore
  | spawn text watched =>
    refine Balanced.of_record [.spawned ⟨l.table.next, watched⟩] hbefore rfl ?_
    exact (JobTable.pending_spawn l.table text id).trans (List.append_nil _).symm
  | @finish _ task htask r =>
    have hread : (endOf task r).flatMap (readFrom id) = [] := by
      unfold endOf
      split <;> rfl
    have hposted : (endOf task r).flatMap (postedTo id) = [] := by
      unfold endOf
      split <;> rfl
    refine Balanced.of_record (endOf task r) hbefore rfl ?_
    rw [hread, hposted, List.nil_append, List.append_nil]
    exact pending_forget_of_ahead hs hid
  | kill hkill =>
    obtain ⟨-, rfl⟩ := JobTable.kill_eq_ok hkill
    have hpending := pending_forget_of_ahead hs hid
    exact (congrArg (l.received id ++ ·) hpending).trans hbefore
  | @post other message _ hpost =>
    refine Balanced.of_record [.posted other message] hbefore rfl ?_
    simpa [readFrom, postedTo] using JobTable.pending_post hpost id
  | drain other =>
    refine Balanced.of_record [.drained other (l.table.drain other).1] hbefore rfl ?_
    have hpending := JobTable.pending_drain l.table other id
    simp only [List.flatMap_singleton, readFrom, postedTo, List.append_nil, hpending]
    split
    · next heq => rw [List.append_nil, JobTable.fst_drain, heq]
    · rfl

theorem balanced_run (acts : List (JobAct ρ)) : (run acts).Balanced := by
  induction acts using List.reverseRecOn with
  | nil => exact fun id _ => rfl
  | append_singleton acts a ih =>
    rw [run, after_concat]
    exact (does_act _ a).balanced (sound_run acts) ih

structure Delivers (l : JobLedger ρ) : Prop where
  whole : ∀ id ∈ l.table.active.keys, l.received id ++ l.table.pending id = l.posted id
  accepted : ∀ id ∈ l.table.active.keys, ∀ message,
    (∃ table, l.table.post id message = .ok table) ∧
      (l.act (.post id message)).posted id = l.posted id ++ [message]
  refused : ∀ id, id ∉ l.table.active.keys → ∀ message,
    l.table.post id message = .error (.unknownJob id) ∧ l.act (.post id message) = l
  /-- Who reads a mailbox gets all that waits in it, and leaves it empty. -/
  drained : ∀ id, (l.act (.drain id)).received id = l.received id ++ l.table.pending id ∧
    (l.act (.drain id)).table.pending id = []
  /-- Whatever is done, a mailbox keeps what it holds, is emptied, or gets what is posted to it. -/
  own : ∀ a id, (l.act a).table.pending id = l.table.pending id ∨
    (l.act a).table.pending id = [] ∨
      ∃ message, a = .post id message ∧
        (l.act a).table.pending id = l.table.pending id ++ [message]

theorem Does.pending (hdoes : l.Does a l') (id : JobId) :
    l'.table.pending id = l.table.pending id ∨ l'.table.pending id = [] ∨
      ∃ message, a = .post id message ∧
        l'.table.pending id = l.table.pending id ++ [message] := by
  have hforget (other : JobId) : (l.table.forget other).pending id = l.table.pending id ∨
      (l.table.forget other).pending id = [] := by
    rw [JobTable.pending_forget]
    split
    · exact .inr rfl
    · exact .inl rfl
  cases hdoes with
  | refused => exact .inl rfl
  | spawn text => exact .inl (JobTable.pending_spawn l.table text id)
  | @finish _ task => exact (hforget task.id).imp_right .inl
  | @kill other _ hkill =>
    obtain ⟨-, rfl⟩ := JobTable.kill_eq_ok hkill
    exact (hforget other).imp_right .inl
  | @post other message _ hpost =>
    have hpending := JobTable.pending_post hpost id
    by_cases heq : other = id
    · rw [if_pos heq] at hpending
      exact .inr (.inr ⟨message, by rw [heq], hpending⟩)
    · rw [if_neg heq, List.append_nil] at hpending
      exact .inl hpending
  | drain other =>
    have hpending := JobTable.pending_drain l.table other id
    by_cases heq : other = id
    · rw [if_pos heq] at hpending
      exact .inr (.inl hpending)
    · rw [if_neg heq] at hpending
      exact .inl hpending

theorem delivers_run (acts : List (JobAct ρ)) : (run acts).Delivers where
  whole id hid := balanced_run acts id (.inl hid)
  accepted id hid message := by
    rw [← (sound_run acts).boxes] at hid
    have hpost := JobTable.post_of_mem hid message
    refine ⟨⟨_, hpost⟩, ?_⟩
    simp [act, hpost, posted, postedTo]
  refused id hid message := by
    have hbox : id ∉ (run acts).table.boxes.keys := by
      rw [(sound_run acts).boxes]
      exact hid
    have hpost := JobTable.post_of_not_mem hbox message
    exact ⟨hpost, act_post_error hpost⟩
  drained id := by
    constructor
    · simp [act, received, readFrom, JobTable.fst_drain]
    · exact (JobTable.pending_drain _ id id).trans (if_pos rfl)
  own a id := (does_act (run acts) a).pending id

end JobLedger
end MemShell
