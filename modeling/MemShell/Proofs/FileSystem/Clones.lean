import MemShell.FileSystem.Relocate
import MemShell.Proofs.FileSystem.Creation
set_option autoImplicit false

namespace MemShell.FileSystem
variable {a : Actor} {above p : Place} {name : String} {n c m m' : Node}

structure Cloned (a : Actor) (m m' : Node) : Prop where
  readable : a.may m .read = true
  attrs : m'.attrs = a.attributes m.attrs.mode
  isDir : m'.isDir = m.isDir
  content : m'.content = m.content
  names : Table.keys m'.children = Table.keys m.children

theorem cloneAll_eq_ok {cs cs' : List (String × Node)} (h : cloneAll a above cs = .ok cs') :
    Table.keys cs' = Table.keys cs ∧ ∀ name, Option.Rel
      (fun c c' => clone a (above ++ [name]) c = .ok c') (Table.get? cs name) (Table.get? cs' name) := by
  induction cs generalizing cs' with
  | nil =>
    cases h
    exact ⟨rfl, fun _ => .none⟩
  | cons entry rest ih =>
    obtain ⟨first, n⟩ := entry
    rw [cloneAll] at h
    obtain ⟨c, hc, h⟩ := bind_eq_ok_iff.mp h
    obtain ⟨rest', hrest, h⟩ := bind_eq_ok_iff.mp h
    cases h
    obtain ⟨hkeys, hfound⟩ := ih hrest
    refine ⟨congrArg (first :: ·) hkeys, fun name => ?_⟩
    rw [Table.get?, Table.get?]
    by_cases hname : first = name
    · subst hname
      rw [if_pos rfl, if_pos rfl]
      exact .some hc
    · rw [if_neg hname, if_neg hname]
      exact hfound name

theorem cloned_of_clone (h : clone a above n = .ok c) : Cloned a n c := by
  cases n with
  | file attrs content =>
    rw [clone] at h
    obtain ⟨_, hread, h⟩ := bind_eq_ok_iff.mp h
    cases h
    exact ⟨require_eq_ok_iff.mp hread, rfl, rfl, rfl, rfl⟩
  | dir attrs cs =>
    rw [clone] at h
    obtain ⟨_, hread, h⟩ := bind_eq_ok_iff.mp h
    obtain ⟨cs', hcs, h⟩ := bind_eq_ok_iff.mp h
    cases h
    exact ⟨require_eq_ok_iff.mp hread, rfl, rfl, rfl, (cloneAll_eq_ok hcs).1⟩

theorem child?_clone (h : clone a above n = .ok c) (name : String) :
    Option.Rel (fun m m' => clone a (above ++ [name]) m = .ok m') (n.child? name)
      (c.child? name) := by
  cases n with
  | file attrs content =>
    rw [clone] at h
    obtain ⟨_, -, h⟩ := bind_eq_ok_iff.mp h
    cases h
    exact .none
  | dir attrs cs =>
    rw [clone] at h
    obtain ⟨_, -, h⟩ := bind_eq_ok_iff.mp h
    obtain ⟨cs', hcs, h⟩ := bind_eq_ok_iff.mp h
    cases h
    exact (cloneAll_eq_ok hcs).2 name

theorem cloned_at? (h : clone a above n = .ok c) (p : Place) :
    Option.Rel (Cloned a) (n.at? p) (c.at? p) := by
  induction p generalizing n c above with
  | nil => exact .some (cloned_of_clone h)
  | cons name rest ih =>
    have hchild := child?_clone h name
    rw [Node.at?_cons, Node.at?_cons]
    generalize n.child? name = x at hchild
    generalize c.child? name = y at hchild
    cases hchild with
    | none => exact .none
    | some hclone => exact ih hclone

theorem at?_clone (h : clone a above n = .ok c) (hm : c.at? p = some m') :
    ∃ m, n.at? p = some m ∧ Cloned a m m' := by
  have hrel := cloned_at? h p
  rw [hm] at hrel
  generalize n.at? p = x at hrel
  cases hrel with
  | some hcloned => exact ⟨_, rfl, hcloned⟩

/-- What holds of a node with the attributes of a new one holds of all nodes of a copy. -/
theorem everywhere_clone {P : Node → Prop} (hP : ∀ m mode, m.attrs = a.attributes mode → P m)
    (h : clone a above n = .ok c) : (c.touched a.now).Everywhere P := by
  have hclone : c.Everywhere P := by
    intro p m' hm'
    obtain ⟨m, -, hcloned⟩ := at?_clone h hm'
    exact hP m' _ hcloned.attrs
  refine hclone.of_children (hP _ n.attrs.mode ?_) (Node.children_touched a.now c)
  rw [Node.touched, Node.attrs_mapAttrs, (cloned_of_clone h).attrs]
  rfl

theorem checkAllRemovable_eq_ok_iff {cs : List (String × Node)} :
    checkAllRemovable a above cs = .ok () ↔
      ∀ name c, (name, c) ∈ cs → checkRemovable a (above ++ [name]) c = .ok () := by
  induction cs with
  | nil => exact iff_of_true rfl fun _ _ h => nomatch h
  | cons entry rest ih =>
    obtain ⟨first, n⟩ := entry
    constructor
    · intro h name c hc
      rw [checkAllRemovable] at h
      obtain ⟨_, hfirst, hrest⟩ := bind_eq_ok_iff.mp h
      rcases List.mem_cons.mp hc with hc | hc
      · cases hc
        exact hfirst
      · exact ih.mp hrest name c hc
    · intro h
      have hrest := ih.mpr fun name c hc => h name c (List.mem_cons_of_mem _ hc)
      exact bind_eq_ok_iff.mpr ⟨(), h first n List.mem_cons_self, hrest⟩

theorem may_write_of_checkRemovable (h : checkRemovable a above n = .ok ()) (hm : n.at? p = some m)
    (hdir : m.isDir = true) : a.may m .write = true := by
  induction p generalizing n above with
  | nil =>
    cases hm
    cases m with
    | file attrs content => cases hdir
    | dir attrs cs =>
      rw [checkRemovable] at h
      obtain ⟨_, hwrite, -⟩ := bind_eq_ok_iff.mp h
      exact require_eq_ok_iff.mp hwrite
  | cons name rest ih =>
    rw [Node.at?_cons] at hm
    obtain ⟨child, hchild, hbelow⟩ := Option.bind_eq_some_iff.mp hm
    cases n with
    | file attrs content => cases hchild
    | dir attrs cs =>
      rw [checkRemovable] at h
      obtain ⟨_, -, hall⟩ := bind_eq_ok_iff.mp h
      exact ih (checkAllRemovable_eq_ok_iff.mp hall name child (Table.mem_of_get? hchild)) hbelow

end MemShell.FileSystem
