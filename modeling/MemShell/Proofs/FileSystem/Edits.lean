import MemShell.FileSystem.Create
import MemShell.Proofs.Endings
import MemShell.Proofs.Tree.Navigation
set_option autoImplicit false

namespace MemShell

namespace Actor

/-- New directories one inside the other around a node. -/
def chain (a : Actor) : List String → Node → Node
  | [], leaf => leaf
  | name :: rest, leaf => .dir (a.attributes Mode.ofDirectory) [(name, chain a rest leaf)]

theorem chain_append (a : Actor) (p q : List String) (leaf : Node) :
    a.chain (p ++ q) leaf = a.chain p (a.chain q leaf) := by
  induction p with
  | nil => rfl
  | cons name rest ih => rw [List.cons_append, chain, ih, chain]

theorem modify_chain (a : Actor) (p : List String) (leaf : Node) (f : Node → Node) :
    Node.modify f p (a.chain p leaf) = a.chain p (f leaf) := by
  induction p with
  | nil => rfl
  | cons name rest ih =>
    rw [chain, Node.modify_cons, Node.mapChildren, Table.update, if_pos rfl, ih]
    rfl

theorem at?_chain (a : Actor) (p : List String) (leaf : Node) :
    (a.chain p leaf).at? p = some leaf := by
  induction p with
  | nil => rfl
  | cons name rest ih =>
    rw [chain, Node.at?_cons, Node.child?, Node.children, Table.get?, if_pos rfl]
    exact ih

theorem withChild_newDirectory (a : Actor) (name : String) (c : Node) :
    Node.withChild a.now name c a.newDirectory = a.chain [name] c := rfl

theorem touched_newDirectory (a : Actor) : a.newDirectory.touched a.now = a.newDirectory := rfl

theorem may_write_newDirectory (a : Actor) : a.may a.newDirectory .write = true := by
  simp [may, newDirectory, attributes, Node.attrs, Mode.grants, Mode.applicable, Mode.ofDirectory,
    Permission.bit]

end Actor

namespace FileSystem
variable {fs : FileSystem} {a : Actor} {now : Time} {p q : Place} {name : String} {d n c : Node}

theorem node_eq_ok_iff : fs.node p = .ok n ↔ fs.at? p = some n :=
  Node.resolve_eq_ok_iff [] fs.root n p

theorem at?_of_node_error {f : Fault} (h : fs.node p = .error f) : fs.at? p = none := by
  cases hat : fs.at? p with
  | none => rfl
  | some n =>
    rw [node_eq_ok_iff.mpr hat] at h
    cases h

theorem directory_eq_ok_iff : fs.directory p = .ok n ↔ fs.at? p = some n ∧ n.isDir = true := by
  unfold directory
  constructor
  · intro h
    obtain ⟨m, hm, h⟩ := bind_eq_ok_iff.mp h
    split at h
    · next hdir =>
      cases h
      exact ⟨node_eq_ok_iff.mp hm, hdir⟩
    · cases h
  · rintro ⟨hn, hdir⟩
    refine bind_eq_ok_iff.mpr ⟨n, node_eq_ok_iff.mpr hn, ?_⟩
    rw [if_pos hdir]
    rfl

theorem at?_append (hn : fs.at? p = some n) (q : Place) : fs.at? (p ++ q) = n.at? q := by
  rw [at?, Node.at?_append, show fs.root.at? p = some n from hn, Option.bind_some]

theorem at?_append_eq_none (hp : fs.at? p = none) (q : Place) : fs.at? (p ++ q) = none := by
  rw [at?, Node.at?_append, show fs.root.at? p = none from hp, Option.bind_none]

/-- Going on below a node that was inserted changes the node before it is inserted. -/
theorem modify_insert (fs : FileSystem) (now : Time) (p rest : Place) (name : String) (c : Node)
    (f : Node → Node) :
    (fs.insert now p name c).modify (p ++ name :: rest) f =
      fs.insert now p name (Node.modify f rest c) := by
  have hput (d : Node) : Node.modify f (name :: rest) (Node.withChild now name c d) =
      Node.withChild now name (Node.modify f rest c) d := by
    cases d with
    | file attrs text => rfl
    | dir attrs cs =>
      change Node.dir _ (Table.update (Node.modify f rest) (Table.put cs name c) name) = Node.dir _ _
      rw [Table.update_put]
  unfold insert modify
  rw [Node.modify_append, Node.modify_modify]
  congr 2
  funext d
  exact hput d

theorem at?_insert (hd : fs.at? p = some d) (hdir : d.isDir = true) (rest : Place) :
    (fs.insert now p name c).at? (p ++ name :: rest) = c.at? rest := by
  change (Node.modify _ p fs.root).at? _ = _
  rw [Node.at?_modify_append, show fs.root.at? p = some d from hd, Option.bind_some, Node.at?_cons,
    Node.child?_withChild hdir, if_pos rfl, Option.bind_some]

def kind? (fs : FileSystem) (p : Place) : Option Bool := fs.root.kind? p

theorem kind?_of_at? (hn : fs.at? p = some n) : fs.kind? p = some n.isDir := by
  rw [kind?, Node.kind?, show fs.root.at? p = some n from hn, Option.map_some]

theorem isSome_kind? (fs : FileSystem) (p : Place) : (fs.kind? p).isSome = (fs.at? p).isSome :=
  Option.isSome_map

theorem at?_below_free (hd : fs.at? p = some d) (hfree : d.child? name = none) (r : Place) :
    fs.at? (p ++ name :: r) = none := by
  rw [at?_append hd, Node.at?_cons, hfree, Option.bind_none]

theorem not_below_free (hd : fs.at? p = some d) (hfree : d.child? name = none)
    (hq : fs.at? q = some n) : ¬ p ++ [name] <+: q := by
  rintro ⟨r, rfl⟩
  rw [List.append_assoc, List.singleton_append, at?_below_free hd hfree] at hq
  cases hq

/-- Where the way to a place goes through a name, a place on it ends before that name or goes through
it too. -/
theorem prefix_cases {rest : Place} (h : q <+: p ++ name :: rest) :
    q <+: p ∨ ∃ r, r <+: rest ∧ q = p ++ name :: r := by
  rcases List.prefix_or_prefix_of_prefix h (List.prefix_append p _) with habove | ⟨r, rfl⟩
  · exact .inl habove
  · rw [List.prefix_append_right_inj] at h
    rcases List.prefix_cons_iff.mp h with rfl | ⟨t, rfl, ht⟩
    · exact .inl (by simp)
    · exact .inr ⟨t, ht, rfl⟩

theorem not_singleton_prefix {r : Place} (hq : ¬ p ++ [name] <+: p ++ r) : ¬ [name] <+: r := by
  rintro ⟨t, rfl⟩
  exact hq ⟨t, by simp⟩

theorem kind?_insert (hq : ¬ p ++ [name] <+: q) : (fs.insert now p name c).kind? q = fs.kind? q := by
  refine Node.kind?_modify fun m r _ hr => Node.kind?_withChild now ?_
  rw [hr] at hq
  exact not_singleton_prefix hq

theorem kind?_detach (hq : ¬ p ++ [name] <+: q) : (fs.detach now p name).kind? q = fs.kind? q := by
  refine Node.kind?_modify fun m r _ hr => Node.kind?_without now ?_
  rw [hr] at hq
  exact not_singleton_prefix hq

theorem at?_detach_child (fs : FileSystem) (now : Time) (p : Place) (name : String) :
    (fs.detach now p name).at? (p ++ [name]) = none := by
  change (Node.modify _ p fs.root).at? _ = _
  rw [Node.at?_modify_append]
  cases fs.root.at? p with
  | none => rfl
  | some d => rw [Option.bind_some, Node.at?_singleton, Node.child?_without, if_pos rfl]

theorem at?_detach_of_none (hq : fs.at? q = none) (now : Time) (p : Place) (name : String) :
    (fs.detach now p name).at? q = none := by
  by_cases hbelow : p ++ [name] <+: q
  · obtain ⟨r, rfl⟩ := hbelow
    exact at?_append_eq_none (at?_detach_child fs now p name) r
  · have hsame : (fs.detach now p name).kind? q = fs.kind? q := kind?_detach hbelow
    exact Node.kind?_eq_none_iff.mp (hsame.trans (Node.kind?_eq_none_iff.mpr hq))

theorem kind?_modify_of_children {f : Node → Node} (hdir : ∀ m, (f m).isDir = m.isDir)
    (hf : ∀ m, (f m).children = m.children) (q : Place) : (fs.modify p f).kind? q = fs.kind? q :=
  Node.kind?_modify_of_children hdir hf p q fs.root

theorem kind?_stamp (q : Place) : (fs.stamp now p).kind? q = fs.kind? q := by
  unfold stamp
  dsimp only
  split
  · exact kind?_modify_of_children (Node.isDir_touched now) (Node.children_touched now) q
  · rw [kind?_modify_of_children (Node.isDir_touched now) (Node.children_touched now)]
    exact kind?_modify_of_children (Node.isDir_touched now) (Node.children_touched now) q

theorem run_attach (hd : fs.at? p = some d) (hfree : d.child? name = none) :
    (attach now p name n).run fs = (.ok (), fs.insert now p name (n.touched now)) := by
  unfold attach
  rw [Work.run_bind, Work.run_ask, node_eq_ok_iff.mpr hd]
  simp only [hfree, Work.run_change]

theorem run_takeOut (hd : fs.at? p = some d) (hc : d.child? name = some c) :
    (takeOut now p name).run fs = (.ok (), fs.detach now p name) := by
  unfold takeOut
  rw [Work.run_bind, Work.run_ask, node_eq_ok_iff.mpr hd]
  simp only [hc, Work.run_change]

/-- Directories made one inside the other are one insertion into the directory that stands. -/
theorem run_attachChain (hd : fs.at? p = some d) (hdir : d.isDir = true)
    (hfree : d.child? name = none) (rest : List String) :
    (attachChain a p (name :: rest)).run fs =
      (.ok (), fs.insert a.now p name (a.chain rest a.newDirectory)) := by
  -- Each directory is made inside the one before it, so that the first insertion takes in the others.
  induction rest generalizing fs p name d with
  | nil =>
    rw [attachChain, Work.run_bind, run_attach hd hfree]
    rfl
  | cons next rest ih =>
    have hnew : (fs.insert a.now p name a.newDirectory).at? (p ++ [name]) = some a.newDirectory :=
      at?_insert hd hdir []
    rw [attachChain, Work.run_bind, run_attach hd hfree, Actor.touched_newDirectory]
    change (attachChain a (p ++ [name]) (next :: rest)).run _ = _
    rw [ih hnew rfl rfl]
    congr 1
    exact modify_insert fs a.now p [] name a.newDirectory _

end FileSystem
end MemShell
