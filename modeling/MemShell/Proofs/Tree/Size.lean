import MemShell.Proofs.Tree.Navigation
set_option autoImplicit false

namespace MemShell.Node
variable {n m c : Node} {name : String} {cs : List (String × Node)}

theorem countAll_append (cs cs' : List (String × Node)) :
    countAll (cs ++ cs') = countAll cs + countAll cs' := by
  induction cs with
  | nil => simp [countAll]
  | cons e rest ih =>
    obtain ⟨k, v⟩ := e
    rw [List.cons_append, countAll, countAll, ih, Nat.add_assoc]

theorem countAll_update {f : Node → Node} (h : Table.get? cs name = some c) :
    countAll (Table.update f cs name) + c.count = countAll cs + (f c).count := by
  induction cs with
  | nil => cases h
  | cons e rest ih =>
    obtain ⟨k, v⟩ := e
    by_cases hk : k = name
    · have hv : v = c := by simpa [Table.get?, hk] using h
      rw [Table.update, if_pos hk, countAll, countAll, hv]
      omega
    · have hrest := ih (by simpa [Table.get?, hk] using h)
      rw [Table.update, if_neg hk, countAll, countAll]
      omega

theorem countAll_erase (hnodup : (Table.keys cs).Nodup) (h : Table.get? cs name = some c) :
    countAll (Table.erase cs name) + c.count = countAll cs := by
  induction cs with
  | nil => cases h
  | cons e rest ih =>
    obtain ⟨k, v⟩ := e
    obtain ⟨hnew, hrest⟩ := List.nodup_cons.mp hnodup
    by_cases hk : k = name
    · subst hk
      have hv : v = c := by simpa [Table.get?] using h
      rw [Table.erase, if_pos rfl, Table.erase_of_not_mem hnew, countAll, hv, Nat.add_comm]
    · have hall := ih hrest (by simpa [Table.get?, hk] using h)
      rw [Table.erase, if_neg hk, countAll, countAll]
      omega

theorem count_touched (now : Time) (n : Node) : (n.touched now).count = n.count := by
  cases n <;> rfl

theorem count_withChild (hdir : n.isDir = true) (hfree : n.child? name = none) (now : Time)
    (c : Node) : (withChild now name c n).count = n.count + c.count := by
  cases n with
  | file attrs text => cases hdir
  | dir attrs cs =>
    have hput : Table.put cs name c = cs ++ [(name, c)] :=
      Table.put_of_not_mem (Table.get?_eq_none_iff.mp hfree) c
    change 1 + countAll (Table.put cs name c) = 1 + countAll cs + c.count
    rw [hput, countAll_append, countAll, countAll]
    omega

theorem count_without (hnodup : (Table.keys n.children).Nodup) (h : n.child? name = some c)
    (now : Time) : (n.without now name).count + c.count = n.count := by
  cases n with
  | file attrs text => cases h
  | dir attrs cs =>
    have hall := countAll_erase hnodup h
    change 1 + countAll (Table.erase cs name) + c.count = 1 + countAll cs
    rw [Nat.add_assoc]
    exact congrArg (1 + ·) hall

theorem count_modify {f : Node → Node} {p : Place} (h : n.at? p = some m) :
    (modify f p n).count + m.count = n.count + (f m).count := by
  induction p generalizing n with
  | nil =>
    obtain rfl : n = m := Option.some.inj h
    exact Nat.add_comm _ _
  | cons name rest ih =>
    rw [at?_cons] at h
    obtain ⟨c, hc, hm⟩ := Option.bind_eq_some_iff.mp h
    cases n with
    | file attrs text => cases hc
    | dir attrs cs =>
      have hbelow := ih hm
      have hall := countAll_update (f := modify f rest) hc
      change 1 + countAll (Table.update (modify f rest) cs name) + m.count =
        1 + countAll cs + (f m).count
      change countAll (Table.update (modify f rest) cs name) + c.count = countAll cs + _ at hall
      omega

end MemShell.Node
