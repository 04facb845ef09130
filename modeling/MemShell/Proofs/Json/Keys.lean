import MemShell.Json.Display
import MemShell.Proofs.Sorting
set_option autoImplicit false

namespace MemShell

namespace Table
variable {α : Type}

theorem ofList_eq {entries : List (String × α)} (h : (keys entries).Nodup) :
    ofList entries = entries := by
  have hfold (t : Table String α) (hnodup : (keys (t ++ entries)).Nodup) :
      entries.foldl (fun t e => t.put e.1 e.2) t = t ++ entries := by
    induction entries generalizing t with
    | nil => simp
    | cons e rest ih =>
      have hnew : e.1 ∉ keys t := by
        rw [keys, List.map_append, List.nodup_append] at hnodup
        exact fun hmem => hnodup.2.2 _ hmem _ (by simp) rfl
      rw [List.foldl_cons, put_of_not_mem hnew]
      have hrest := ih (List.nodup_cons.mp h).2 (t ++ [e]) (by simpa using hnodup)
      simpa using hrest
  exact hfold [] h

theorem get?_eq_some_iff {t : Table String α} (h : (keys t).Nodup) {key : String} {value : α} :
    t.get? key = some value ↔ (key, value) ∈ t :=
  ⟨mem_of_get?, get?_of_mem h⟩

theorem get?_perm {t t' : Table String α} (hperm : t'.Perm t) (h : (keys t).Nodup) (key : String) :
    t'.get? key = t.get? key := by
  have h' : (keys t').Nodup := (hperm.map _).nodup_iff.mpr h
  refine Option.ext fun value => ?_
  rw [get?_eq_some_iff h', get?_eq_some_iff h, hperm.mem_iff]

end Table

namespace Json

mutual
def Distinct : Json → Prop
  | .arr items => AllDistinct items
  | .obj members => (Table.keys members).Nodup ∧ EachDistinct members
  | _ => True

def AllDistinct : List Json → Prop
  | [] => True
  | v :: vs => Distinct v ∧ AllDistinct vs

def EachDistinct : List (String × Json) → Prop
  | [] => True
  | (_, v) :: ms => Distinct v ∧ EachDistinct ms
end

theorem eachDistinct_iff {members : List (String × Json)} :
    EachDistinct members ↔ ∀ name v, (name, v) ∈ members → Distinct v := by
  induction members with
  | nil => simp [EachDistinct]
  | cons m rest ih =>
    obtain ⟨key, v⟩ := m
    rw [EachDistinct, ih]
    constructor
    · rintro ⟨hv, hrest⟩ name w hw
      rcases List.mem_cons.mp hw with hw | hw
      · cases hw
        exact hv
      · exact hrest name w hw
    · intro h
      exact ⟨h key v (by simp), fun name w hw => h name w (by simp [hw])⟩

theorem sortedMembers_eq (members : List (String × Json)) :
    sortedMembers members = members.map fun m => (m.1, m.2.sorted) := by
  induction members with
  | nil => rfl
  | cons m rest ih =>
    obtain ⟨name, v⟩ := m
    rw [sortedMembers, ih, List.map_cons]

theorem keys_sortedMembers (members : List (String × Json)) :
    Table.keys (sortedMembers members) = Table.keys members := by
  rw [sortedMembers_eq, Table.keys, List.map_map]
  rfl

theorem get?_sortedMembers (members : List (String × Json)) (key : String) :
    Table.get? (sortedMembers members) key = (Table.get? members key).map sorted := by
  induction members with
  | nil => rfl
  | cons m rest ih =>
    obtain ⟨name, v⟩ := m
    rw [sortedMembers, Table.get?, Table.get?, ih]
    split <;> rfl

theorem get?_sorted {members : List (String × Json)} (h : (Table.keys members).Nodup) (key : String) :
    Table.get? (sortByKey (·.1) (sortedMembers members)) key = (Table.get? members key).map sorted := by
  rw [Table.get?_perm (sortByKey_perm _ _) (by rw [keys_sortedMembers]; exact h), get?_sortedMembers]

theorem haveShowable_iff {members : List (String × Json)} :
    haveShowable members = true ↔ ∀ name v, (name, v) ∈ members → v.isShowable = true := by
  induction members with
  | nil => simp [haveShowable]
  | cons m rest ih =>
    obtain ⟨key, v⟩ := m
    rw [haveShowable, Bool.and_eq_true, ih]
    constructor
    · rintro ⟨hv, hrest⟩ name w hw
      rcases List.mem_cons.mp hw with hw | hw
      · cases hw
        exact hv
      · exact hrest name w hw
    · intro h
      exact ⟨h key v (by simp), fun name w hw => h name w (by simp [hw])⟩

mutual
theorem distinct_sorted (v : Json) (h : v.Distinct) : v.sorted.Distinct := by
  cases v with
  | arr items => exact allDistinct_sorted items h
  | obj members =>
    have hperm := sortByKey_perm (·.1) (sortedMembers members)
    refine ⟨?_, eachDistinct_iff.mpr fun name w hw => ?_⟩
    · have hkeys : (Table.keys (sortedMembers members)).Nodup := by
        rw [keys_sortedMembers]
        exact h.1
      exact (hperm.map _).nodup_iff.mpr hkeys
    · exact eachDistinct_iff.mp (eachDistinct_sorted members h.2) name w (hperm.mem_iff.mp hw)
  | _ => trivial

theorem allDistinct_sorted (items : List Json) (h : AllDistinct items) :
    AllDistinct (sortedItems items) := by
  cases items with
  | nil => trivial
  | cons v vs => exact ⟨distinct_sorted v h.1, allDistinct_sorted vs h.2⟩

theorem eachDistinct_sorted (members : List (String × Json)) (h : EachDistinct members) :
    EachDistinct (sortedMembers members) := by
  cases members with
  | nil => trivial
  | cons m ms =>
    obtain ⟨name, v⟩ := m
    exact ⟨distinct_sorted v h.1, eachDistinct_sorted ms h.2⟩
end

mutual
theorem isShowable_sorted (v : Json) (h : v.isShowable = true) : v.sorted.isShowable = true := by
  cases v with
  | arr items => exact areShowable_sorted items h
  | obj members =>
    have hperm := sortByKey_perm (·.1) (sortedMembers members)
    refine haveShowable_iff.mpr fun name w hw => ?_
    exact haveShowable_iff.mp (haveShowable_sorted members h) name w (hperm.mem_iff.mp hw)
  | _ => exact h

theorem areShowable_sorted (items : List Json) (h : areShowable items = true) :
    areShowable (sortedItems items) = true := by
  cases items with
  | nil => rfl
  | cons v vs =>
    rw [areShowable, Bool.and_eq_true] at h
    rw [sortedItems, areShowable, isShowable_sorted v h.1, areShowable_sorted vs h.2, Bool.and_self]

theorem haveShowable_sorted (members : List (String × Json)) (h : haveShowable members = true) :
    haveShowable (sortedMembers members) = true := by
  cases members with
  | nil => rfl
  | cons m ms =>
    obtain ⟨name, v⟩ := m
    rw [haveShowable, Bool.and_eq_true] at h
    rw [sortedMembers, haveShowable, isShowable_sorted v h.1, haveShowable_sorted ms h.2,
      Bool.and_self]
end

end Json
end MemShell
