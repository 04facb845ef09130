import MemShell.FileSystem.Snapshot
set_option autoImplicit false

namespace MemShell.FileSystem
variable {name : String} {v : Json} {members : List (String × Json)} {n : Node}

/-- The children stand under their own key, wherever that stands among the members. -/
theorem readChildren_eq (name : String) (members : List (String × Json)) :
    readChildren name members =
      match Table.get? members "children" with
      | none => .ok []
      | some v => readEntries name v := by
  induction members with
  | nil => rfl
  | cons m rest ih =>
    obtain ⟨key, v⟩ := m
    rw [readChildren, Table.get?]
    by_cases hkey : key = "children"
    · rw [if_pos hkey, if_pos hkey]
    · rw [if_neg hkey, if_neg hkey]
      exact ih

inductive Reads (name : String) (members : List (String × Json)) : Node → Prop
  | dir {attrs : Attributes} {cs : List (String × Node)}
      (attributes : readAttributes name members = .ok (true, attrs))
      (noText : Table.get? members "content" = none)
      (children : readChildren name members = .ok cs) : Reads name members (.dir attrs cs)
  | file {attrs : Attributes} {text : String}
      (attributes : readAttributes name members = .ok (false, attrs))
      (noChildren : Table.get? members "children" = none)
      (content : readContent members = .ok text) : Reads name members (.file attrs text)

theorem readNode_eq_ok_iff :
    readNode name v = .ok n ↔ ∃ members, v = .obj members ∧ Reads name members n := by
  constructor
  · intro h
    cases v with
    | obj members =>
      refine ⟨members, rfl, ?_⟩
      rw [readNode] at h
      obtain ⟨⟨isDir, attrs⟩, hattrs, h⟩ := bind_eq_ok_iff.mp h
      cases isDir with
      | true =>
        dsimp only at h
        rw [if_pos rfl] at h
        split at h
        · cases h
        · next hno =>
          obtain ⟨cs, hcs, h⟩ := bind_eq_ok_iff.mp h
          cases h
          exact .dir hattrs (by simpa using hno) hcs
      | false =>
        dsimp only at h
        rw [if_neg Bool.false_ne_true] at h
        split at h
        · cases h
        · next hno =>
          obtain ⟨text, htext, h⟩ := bind_eq_ok_iff.mp h
          cases h
          exact .file hattrs (by simpa using hno) htext
    | _ =>
      rw [readNode] at h
      · cases h
      · rintro members ⟨⟩
  · rintro ⟨members, rfl, hreads⟩
    rw [readNode]
    cases hreads with
    | dir hattrs hno hcs =>
      refine bind_eq_ok_iff.mpr ⟨_, hattrs, ?_⟩
      dsimp only
      rw [if_pos rfl, hno]
      exact bind_eq_ok_iff.mpr ⟨_, hcs, rfl⟩
    | file hattrs hno htext =>
      refine bind_eq_ok_iff.mpr ⟨_, hattrs, ?_⟩
      dsimp only
      rw [if_neg Bool.false_ne_true, hno]
      exact bind_eq_ok_iff.mpr ⟨_, htext, rfl⟩

/-- Entries are read one after the other, and no name a second time. -/
theorem readAll_cons_eq_ok_iff {taken : List String} {rest : List (String × Json)}
    {cs : List (String × Node)} :
    readAll taken ((name, v) :: rest) = .ok cs ↔
      ∃ n cs', readNode name v = .ok n ∧ name ∉ taken ∧ readAll (name :: taken) rest = .ok cs' ∧
        cs = (name, n) :: cs' := by
  rw [readAll]
  constructor
  · intro h
    obtain ⟨n, hn, h⟩ := bind_eq_ok_iff.mp h
    split at h
    · cases h
    · next hnew =>
      obtain ⟨cs', hcs', h⟩ := bind_eq_ok_iff.mp h
      cases h
      exact ⟨n, cs', hn, by simpa using hnew, hcs', rfl⟩
  · rintro ⟨n, cs', hn, hnew, hcs', rfl⟩
    refine bind_eq_ok_iff.mpr ⟨n, hn, ?_⟩
    rw [if_neg (by simpa using hnew)]
    exact bind_eq_ok_iff.mpr ⟨cs', hcs', rfl⟩

end MemShell.FileSystem
