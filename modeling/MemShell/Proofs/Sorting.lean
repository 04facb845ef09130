import MemShell.Table
set_option autoImplicit false

namespace MemShell
variable {α β : Type}

theorem sortByKey_perm (key : α → String) (xs : List α) : (sortByKey key xs).Perm xs :=
  List.mergeSort_perm _ _

theorem pairwise_sortByKey (key : α → String) (xs : List α) :
    (sortByKey key xs).Pairwise fun a b => key a ≤ key b := by
  have hsorted : (sortByKey key xs).Pairwise fun a b => decide (¬ key b < key a) = true := by
    refine List.pairwise_mergeSort ?_ ?_ xs
    · intro a b c hab hbc
      rw [decide_eq_true_eq, String.not_lt] at hab hbc ⊢
      exact String.le_trans hab hbc
    · intro a b
      rw [Bool.or_eq_true, decide_eq_true_eq, decide_eq_true_eq, String.not_lt, String.not_lt]
      exact String.le_total _ _
  exact hsorted.imp fun h => String.not_lt.mp (of_decide_eq_true h)

theorem pairwise_sortByKey_lt {key : α → String} {xs : List α} (h : (xs.map key).Nodup) :
    (sortByKey key xs).Pairwise fun a b => key a < key b := by
  have hnodup : ((sortByKey key xs).map key).Nodup :=
    ((sortByKey_perm key xs).map key).nodup_iff.mpr h
  have hne := List.pairwise_map.mp hnodup
  refine ((pairwise_sortByKey key xs).and hne).imp fun hab => ?_
  exact String.not_le.mp fun hba => hab.2 (String.le_antisymm hab.1 hba)

theorem sortByKey_sortByKey (key : α → String) (xs : List α) :
    sortByKey key (sortByKey key xs) = sortByKey key xs :=
  List.mergeSort_of_pairwise <| (pairwise_sortByKey key xs).imp fun h =>
    decide_eq_true (String.not_lt.mpr h)

theorem sortByKey_map (f : String × α → β) (xs : List (String × α)) :
    sortByKey (·.1) (xs.map fun e => (e.1, f e)) =
      (sortByKey (·.1) xs).map fun e => (e.1, f e) :=
  (map_sortByKey (fun _ => rfl) xs).symm

end MemShell
