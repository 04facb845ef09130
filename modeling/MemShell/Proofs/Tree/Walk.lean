import Mathlib.Data.List.Nodup
import MemShell.FileSystem.Listing
import MemShell.Proofs.FileSystem.WellFormed
import MemShell.Proofs.Sorting
set_option autoImplicit false

namespace MemShell

namespace Place

/-- The order of a walk: a place comes before those below it, and where two ways part the one with the
smaller name comes first. -/
inductive Before : Place → Place → Prop
  | above (p : Place) (name : String) (rest : Place) : Before p (p ++ name :: rest)
  | apart (p : Place) {name other : String} (h : name < other) (x y : Place) :
      Before (p ++ name :: x) (p ++ other :: y)

theorem Before.ne {p q : Place} (h : p.Before q) : p ≠ q := by
  intro heq
  cases h with
  | above _ name rest =>
    have hrest : [] = name :: rest := List.append_cancel_left ((List.append_nil p).trans heq)
    cases hrest
  | @apart r name other h x y =>
    have hcons := List.append_cancel_left heq
    rw [(List.cons.inj hcons).1] at h
    exact String.lt_irrefl _ h

end Place

namespace FileSystem
variable {p q : Place} {n m : Node}

theorem belowAll_eq (p : Place) (cs : List (String × Node)) :
    belowAll p cs = cs.map fun e => (e.1, below (p ++ [e.1]) e.2) := by
  induction cs with
  | nil => rfl
  | cons e rest ih =>
    obtain ⟨name, n⟩ := e
    rw [belowAll, ih, List.map_cons]

/-- A walk lists a directory, and then what is below each child, in ascending order of their names. -/
theorem below_dir (p : Place) (a : Attributes) (cs : List (String × Node)) :
    below p (.dir a cs) =
      (p, .dir a cs) :: (sortByKey (·.1) cs).flatMap fun e => below (p ++ [e.1]) e.2 := by
  rw [below, belowAll_eq, sortByKey_map fun e : String × Node => below (p ++ [e.1]) e.2, List.map_map,
    List.flatMap]
  rfl

theorem below_dir_perm (p : Place) (a : Attributes) (cs : List (String × Node)) :
    (below p (.dir a cs)).Perm
      ((p, .dir a cs) :: cs.flatMap fun e => below (p ++ [e.1]) e.2) := by
  rw [below_dir]
  have hperm : (sortByKey Prod.fst cs).Perm cs := sortByKey_perm Prod.fst cs
  exact (hperm.flatMap_right fun e => below (p ++ [e.1]) e.2).cons (p, .dir a cs)

theorem mem_below (h : n.Everywhere Node.Sound) :
    (q, m) ∈ below p n ↔ ∃ r, q = p ++ r ∧ n.at? r = some m := by
  induction n using Node.ind generalizing p q with
  | file a c =>
    rw [below, List.mem_singleton, Prod.mk.injEq]
    constructor
    · rintro ⟨rfl, rfl⟩
      exact ⟨[], (List.append_nil _).symm, rfl⟩
    · rintro ⟨r, rfl, hr⟩
      cases r with
      | nil => exact ⟨List.append_nil p, (Option.some.inj hr).symm⟩
      | cons name rest => cases hr
  | dir a cs ih =>
    rw [(below_dir_perm p a cs).mem_iff, List.mem_cons, List.mem_flatMap, Prod.mk.injEq]
    constructor
    · rintro (⟨rfl, rfl⟩ | ⟨⟨name, c⟩, hc, hm⟩)
      · exact ⟨[], (List.append_nil _).symm, rfl⟩
      · obtain ⟨r, rfl, hr⟩ := (ih name c hc (Node.sound_of_mem h hc)).mp hm
        refine ⟨name :: r, by simp, ?_⟩
        have hget : Node.child? (.dir a cs) name = some c := Table.get?_of_mem h.self.nodup hc
        rw [Node.at?_cons, hget]
        exact hr
    · rintro ⟨r, rfl, hr⟩
      cases r with
      | nil => exact .inl ⟨List.append_nil p, (Option.some.inj hr).symm⟩
      | cons name rest =>
        rw [Node.at?_cons] at hr
        obtain ⟨c, hget, hr⟩ := Option.bind_eq_some_iff.mp hr
        have hc : (name, c) ∈ cs := Table.mem_of_get? hget
        have hbelow := ih name c hc (p := p ++ [name]) (q := p ++ name :: rest)
          (Node.sound_of_mem h hc)
        exact .inr ⟨(name, c), hc, hbelow.mpr ⟨rest, by simp, hr⟩⟩

theorem pairwise_below (h : n.Everywhere Node.Sound) :
    (below p n).Pairwise fun x y => x.1.Before y.1 := by
  induction n using Node.ind generalizing p with
  | file a c =>
    rw [below]
    exact List.pairwise_singleton _ _
  | dir a cs ih =>
    have hperm : (sortByKey Prod.fst cs).Perm cs := sortByKey_perm Prod.fst cs
    have hsound (e : String × Node) (he : e ∈ sortByKey Prod.fst cs) : e.2.Everywhere Node.Sound :=
      Node.sound_of_mem h (hperm.mem_iff.mp he)
    have hplace (e : String × Node) (he : e ∈ sortByKey Prod.fst cs) (x : Place × Node)
        (hx : x ∈ below (p ++ [e.1]) e.2) : ∃ r, x.1 = p ++ e.1 :: r := by
      obtain ⟨r, hr, -⟩ := (mem_below (hsound e he)).mp hx
      exact ⟨r, by simpa using hr⟩
    rw [below_dir, List.pairwise_cons, List.pairwise_flatMap]
    refine ⟨fun x hx => ?_, fun e he => ih e.1 e.2 (hperm.mem_iff.mp he) (hsound e he), ?_⟩
    · obtain ⟨e, he, hx⟩ := List.mem_flatMap.mp hx
      obtain ⟨r, hr⟩ := hplace e he x hx
      rw [hr]
      exact .above p e.1 r
    · refine (pairwise_sortByKey_lt h.self.nodup).imp_of_mem fun {e f} he hf hlt x hx y hy => ?_
      obtain ⟨r, hr⟩ := hplace e he x hx
      obtain ⟨t, ht⟩ := hplace f hf y hy
      rw [hr, ht]
      exact .apart p hlt r t

theorem nodup_below (h : n.Everywhere Node.Sound) : ((below p n).map Prod.fst).Nodup :=
  List.pairwise_map.mpr ((pairwise_below h).imp Place.Before.ne)

mutual
theorem length_below (p : Place) (n : Node) : (below p n).length = n.count := by
  cases n with
  | file a c => rfl
  | dir a cs =>
    rw [(below_dir_perm p a cs).length_eq, List.length_cons, length_flatMap_below p cs, Node.count,
      Nat.add_comm]

theorem length_flatMap_below (p : Place) (cs : List (String × Node)) :
    (cs.flatMap fun e => below (p ++ [e.1]) e.2).length = Node.countAll cs := by
  cases cs with
  | nil => rfl
  | cons e rest =>
    obtain ⟨name, n⟩ := e
    rw [List.flatMap_cons, List.length_append, length_below (p ++ [name]) n,
      length_flatMap_below p rest, Node.countAll]
end

end FileSystem
end MemShell
