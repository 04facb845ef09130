import MemShell.Proofs.FileSystem.Edits
set_option autoImplicit false

/-!
# What creation does

A successful creation is one insertion, of the new node with the missing directories around it, into a
directory that the actor may write on. After the first directory was made nothing fails any more.
-/
namespace MemShell.FileSystem
variable {fs fs' s : FileSystem} {a : Actor} {p : Place} {name path : String} {leaf d n : Node}
  {parents : Bool}

theorem checkName_eq_ok_iff : checkName name = .ok () ↔ isValidName name = true := by
  rw [checkName]
  split <;> simp_all

theorem forM_checkName_eq_ok_iff {names : List String} :
    names.forM checkName = .ok () ↔ ∀ name ∈ names, isValidName name = true := by
  induction names with
  | nil => exact iff_of_true rfl fun _ h => nomatch h
  | cons name rest ih =>
    rw [List.forall_mem_cons, ← ih, ← checkName_eq_ok_iff]
    exact bind_eq_ok_iff.trans
      ⟨fun ⟨_, hname, hrest⟩ => ⟨hname, hrest⟩, fun ⟨hname, hrest⟩ => ⟨(), hname, hrest⟩⟩

theorem require_eq_ok_iff {perm : Permission} :
    a.require p n perm = .ok () ↔ a.may n perm = true := by
  rw [Actor.require]
  split <;> simp_all

theorem splitParent_eq_ok_iff {parent : Place} :
    splitParent p = .ok (parent, name) ↔ p ≠ [] ∧ parent = p.parent ∧ name = p.name := by
  cases p with
  | nil => simp [splitParent]
  | cons first rest =>
    simp only [splitParent, List.isEmpty_cons, Bool.false_eq_true, if_false, Except.ok.injEq,
      Prod.mk.injEq, ne_eq, reduceCtorEq, not_false_eq_true, true_and]
    exact ⟨fun h => ⟨h.1.symm, h.2.symm⟩, fun h => ⟨h.1.symm, h.2.symm⟩⟩

theorem parent_append_name (hp : p ≠ []) : p.parent ++ [p.name] = p := by
  rw [Place.parent, Place.name, List.getLast?_eq_some_getLast hp, Option.getD_some]
  exact List.dropLast_concat_getLast hp

theorem parent_concat (p : Place) (name : String) : Place.parent (p ++ [name]) = p :=
  List.dropLast_concat

theorem name_concat (p : Place) (name : String) : Place.name (p ++ [name]) = name := by
  rw [Place.name, List.getLast?_concat, Option.getD_some]

theorem append_eq_parent_append (hp : p ≠ []) (r : Place) : p ++ r = p.parent ++ p.name :: r := by
  rw [← List.singleton_append, ← List.append_assoc, parent_append_name hp]

structure Site (a : Actor) (fs : FileSystem) (p : Place) (name : String) (d : Node) : Prop where
  found : fs.at? p = some d
  isDir : d.isDir = true
  writable : a.may d .write = true
  free : d.child? name = none

/-- The state with a new node at a place, and with the directories above it that were missing. -/
inductive Grafted (a : Actor) (fs : FileSystem) : Place → Node → FileSystem → Prop
  | intro {above : Place} {name : String} {rest : List String} {d leaf : Node}
      (site : Site a fs above name d) (valid : ∀ n ∈ name :: rest, isValidName n = true) :
      Grafted a fs (above ++ name :: rest) leaf (fs.insert a.now above name (a.chain rest leaf))

theorem Grafted.at? (h : Grafted a fs p leaf fs') : fs'.at? p = some leaf := by
  cases h with
  | intro site valid =>
    rw [at?_insert site.found site.isDir]
    exact a.at?_chain _ leaf

theorem Grafted.modify (h : Grafted a fs p leaf fs') (f : Node → Node) :
    Grafted a fs p (f leaf) (fs'.modify p f) := by
  cases h with
  | intro site valid =>
    rw [modify_insert, a.modify_chain]
    exact .intro site valid

theorem Grafted.snoc (h : Grafted a fs p a.newDirectory fs') (hname : isValidName name = true)
    (leaf : Node) : Grafted a fs (p ++ [name]) leaf (fs'.insert a.now p name leaf) := by
  cases h with
  | @intro above first rest d _ site valid =>
    have hplace : above ++ first :: rest ++ [name] = above ++ first :: (rest ++ [name]) := by simp
    have hstate : (fs.insert a.now above first (a.chain rest a.newDirectory)).insert a.now
        (above ++ first :: rest) name leaf =
          fs.insert a.now above first (a.chain (rest ++ [name]) leaf) := by
      change (fs.insert a.now above first _).modify _ _ = _
      rw [modify_insert, a.modify_chain, a.withChild_newDirectory, a.chain_append]
    rw [hplace, hstate]
    refine .intro site fun n hn => ?_
    rw [← List.cons_append] at hn
    rcases List.mem_append.mp hn with hn | hn
    · exact valid n hn
    · rw [List.mem_singleton.mp hn]
      exact hname

theorem Grafted.at?_eq_none (h : Grafted a fs p leaf fs') : fs.at? p = none := by
  cases h with
  | @intro above name rest d _ site valid => exact at?_below_free site.found site.free rest

theorem Grafted.ne (h : Grafted a fs p leaf fs') : fs' ≠ fs := by
  rintro rfl
  have hnone := h.at?_eq_none
  rw [h.at?] at hnone
  cases hnone

theorem Grafted.site (h : Grafted a fs p a.newDirectory fs') (name : String) :
    Site a fs' p name a.newDirectory := ⟨h.at?, rfl, a.may_write_newDirectory, rfl⟩

theorem nearest_append {above q : Place} (hd : n.at? p = some d) (hdir : d.isDir = true) :
    nearest above n (p ++ q) = nearest (above ++ p) d q := by
  induction p generalizing above n with
  | nil =>
    obtain rfl : n = d := Option.some.inj hd
    rw [List.nil_append, List.append_nil]
  | cons name rest ih =>
    rw [Node.at?_cons] at hd
    obtain ⟨c, hc, hd⟩ := Option.bind_eq_some_iff.mp hd
    have hcdir : c.isDir = true := by
      cases rest with
      | nil =>
        obtain rfl : c = d := Option.some.inj hd
        exact hdir
      | cons next rest => exact Node.isDir_of_at?_append (p := []) hd rfl (List.cons_ne_nil _ _)
    simp only [List.cons_append, nearest, hc, hcdir, if_true]
    rw [ih hd, List.append_assoc, List.singleton_append]

theorem nearest_ok {above e q : Place} {missing : List String} (hdir : n.isDir = true)
    (h : nearest above n q = .ok (e, missing)) :
    ∃ r d, q = r ++ missing ∧ e = above ++ r ∧ n.at? r = some d ∧ d.isDir = true ∧
      ∀ name rest, missing = name :: rest → d.child? name = none := by
  induction q generalizing above n with
  | nil =>
    cases h
    exact ⟨[], n, rfl, (List.append_nil _).symm, rfl, hdir, fun _ _ h => by cases h⟩
  | cons name q ih =>
    rw [nearest] at h
    cases hc : n.child? name with
    | none =>
      rw [hc] at h
      cases h
      refine ⟨[], n, rfl, (List.append_nil _).symm, rfl, hdir, fun first rest hm => ?_⟩
      cases hm
      exact hc
    | some c =>
      simp only [hc] at h
      split at h
      · next hcdir =>
        obtain ⟨r, d, rfl, rfl, hd, hddir, hfree⟩ := ih hcdir h
        refine ⟨name :: r, d, rfl, by simp, ?_, hddir, hfree⟩
        rw [Node.at?_cons, hc]
        exact hd
      · cases h

/-- The state with a directory at a place: the old one, or one in which it was made. -/
def Ensured (a : Actor) (fs : FileSystem) (p : Place) (fs' : FileSystem) : Prop :=
  (fs' = fs ∧ ∃ d, fs.at? p = some d ∧ d.isDir = true) ∨ Grafted a fs p a.newDirectory fs'

theorem ends_ensure (hroot : fs.root.isDir = true) (p : Place) (parents : Bool) :
    (ensure a p parents).Ends fs (· = fs) fun _ fs' => Ensured a fs p fs' := by
  unfold ensure
  refine Work.ends_ask_bind rfl ?_
  rintro ⟨above, missing⟩ hnear
  obtain ⟨_, d, rfl, rfl, hd, hdir, hfree⟩ := nearest_ok hroot hnear
  cases missing with
  | nil =>
    refine Work.ends_pure (.inl ⟨rfl, d, ?_, hdir⟩)
    rw [List.append_nil]
    exact hd
  | cons name rest =>
    dsimp only [List.isEmpty_cons]
    rw [if_neg Bool.false_ne_true]
    split
    · exact Work.ends_throw rfl
    · refine Work.ends_lift_bind rfl fun _ hvalid => ?_
      refine Work.ends_ask_bind rfl fun d' hd' => ?_
      have hd : fs.at? above = some d := hd
      rw [node_eq_ok_iff, hd] at hd'
      cases hd'
      refine Work.ends_lift_bind rfl fun _ hwrite => ?_
      have hrun := run_attachChain (a := a) hd hdir (hfree name rest rfl) rest
      exact Work.ends_of_run hrun (.inr (.intro ⟨hd, hdir, require_eq_ok_iff.mp hwrite,
        hfree name rest rfl⟩ (forM_checkName_eq_ok_iff.mp hvalid)))

theorem ends_ensure_of_missing (hroot : fs.root.isDir = true) (hmissing : fs.at? p = none) :
    (ensure a p false).Ends fs (fun _ => True) fun _ _ => False := by
  unfold ensure
  refine Work.ends_ask_bind trivial ?_
  rintro ⟨above, missing⟩ hnear
  obtain ⟨_, d, rfl, rfl, hd, -, -⟩ := nearest_ok hroot hnear
  cases missing with
  | nil =>
    rw [List.append_nil, show fs.at? _ = some d from hd] at hmissing
    cases hmissing
  | cons name rest => exact Work.ends_throw trivial

theorem ends_ensureDirectory (hroot : fs.root.isDir = true) (path : String) :
    (ensureDirectory a path).Ends fs (· = fs) fun p fs' => p = fs.place path ∧ Ensured a fs p fs' :=
  Work.ends_get_bind ((ends_ensure hroot _ true).bind fun _ _ hens => Work.ends_pure ⟨rfl, hens⟩)

theorem Grafted.run_ensure (h : Grafted a fs p a.newDirectory fs') :
    (ensure a p true).run fs = (.ok (), fs') := by
  cases h with
  | @intro above name rest d _ site valid =>
    have hnear : nearest [] fs.root (above ++ name :: rest) = .ok (above, name :: rest) := by
      rw [nearest_append site.found site.isDir, List.nil_append, nearest, site.free]
    have hcheck : (name :: rest).forM checkName = .ok () := forM_checkName_eq_ok_iff.mpr valid
    have hnode : fs.node above = .ok d := node_eq_ok_iff.mpr site.found
    have hwrite : a.require above d .write = .ok () := require_eq_ok_iff.mpr site.writable
    simp only [ensure, Work.run_bind, Work.run_ask, Work.run_lift, hnear, List.isEmpty_cons,
      Bool.not_true, Bool.false_eq_true, if_false, hcheck, hnode, hwrite]
    exact run_attachChain site.found site.isDir site.free rest

theorem Grafted.run_ensureDirectory (h : Grafted a fs (fs.place path) a.newDirectory fs') :
    (ensureDirectory a path).run fs = (.ok (fs.place path), fs') := by
  simp only [ensureDirectory, Work.run_bind, Work.run_get, h.run_ensure, Work.run_pure]

theorem run_ensure_of_isDir (hd : fs.at? p = some d) (hdir : d.isDir = true) (parents : Bool) :
    (ensure a p parents).run fs = (.ok (), fs) := by
  have hnear : nearest [] fs.root p = .ok (p, []) := by
    have happend : nearest [] fs.root (p ++ []) = nearest ([] ++ p) d [] := nearest_append hd hdir
    rwa [List.append_nil, List.nil_append, nearest] at happend
  simp [ensure, Work.run_bind, hnear]

/-- The last steps of a creation. A directory that was made on the way is empty and belongs to the
actor, so that neither of them fails there. -/
theorem ends_putInto {α : Type} {E : FileSystem → Prop} {Q : α → FileSystem → Prop}
    {taken : Node → Update α} {made : Update α} (hens : Ensured a fs p fs')
    (htaken : ∀ d c, fs.at? p = some d → d.child? name = some c → (taken c).Ends fs E Q)
    (hdenied : ∀ d, fs.at? p = some d → a.may d .write = false → E fs)
    (hname : isValidName name = true)
    (hleaf : leaf.touched a.now = leaf)
    (hmade : ∀ t, Grafted a fs (p ++ [name]) leaf t → made.Ends t E Q) :
    (do
      let d ← Work.ask (·.node p)
      match d.child? name with
      | some c => taken c
      | none =>
        Work.lift (a.require p d .write)
        attach a.now p name leaf
        made : Update α).Ends fs' E Q := by
  rcases hens with ⟨rfl, d, hd, hdir⟩ | hgraft
  · refine Work.ends_bind_of_run (b := d) (t := fs') ?_ ?_
    · rw [Work.run_ask, node_eq_ok_iff.mpr hd]
    · cases hc : d.child? name with
      | some c => exact htaken d c hd hc
      | none =>
        cases hwrite : a.may d .write with
        | false =>
          refine Work.ends_lift_bind (hdenied d hd hwrite) fun _ hmay => ?_
          rw [require_eq_ok_iff, hwrite] at hmay
          cases hmay
        | true =>
          refine Work.ends_lift_bind_of_ok (require_eq_ok_iff.mpr hwrite) ?_
          refine Work.ends_bind_of_run (run_attach hd hc) ?_
          rw [hleaf]
          have hgraft : Grafted a fs' (p ++ [name]) leaf (fs'.insert a.now p name leaf) := by
            refine .intro ⟨hd, hdir, hwrite, hc⟩ fun n hn => ?_
            rw [List.mem_singleton.mp hn]
            exact hname
          exact hmade _ hgraft
  · -- The directory is one of those that were just made.
    have hnew : fs'.at? p = some a.newDirectory := hgraft.at?
    refine Work.ends_bind_of_run (b := a.newDirectory) (t := fs') ?_ ?_
    · rw [Work.run_ask, node_eq_ok_iff.mpr hnew]
    · have hfree : a.newDirectory.child? name = none := rfl
      rw [hfree]
      refine Work.ends_bind_of_run (b := ()) (t := fs') ?_ ?_
      · rw [Work.run_lift, require_eq_ok_iff.mpr a.may_write_newDirectory]
      · refine Work.ends_bind_of_run (run_attach hnew hfree) ?_
        rw [hleaf]
        exact hmade _ (hgraft.snoc hname leaf)

theorem splitParent_append (p : Place) (name : String) :
    splitParent (p ++ [name]) = .ok (p, name) := by
  rw [splitParent_eq_ok_iff, parent_concat, name_concat]
  exact ⟨List.concat_ne_nil _ _, rfl, rfl⟩

/-- What is to be made where nothing stands: an empty directory, or a file with a text. -/
inductive Making where
  | directory
  | file (content : String)

namespace Making

def run (a : Actor) (path : String) (parents : Bool) : Making → Update Place
  | .directory => makeDirectory a path parents
  | .file content => makeFile a path content parents

def node (a : Actor) : Making → Node
  | .directory => a.newDirectory
  | .file content => a.newFile content

def taken (p : Place) : Making → Fault
  | .directory => .node (.directoryExists (Place.text p))
  | .file _ => .node (.exists (Place.text p))

theorem touched_node (a : Actor) (k : Making) : (k.node a).touched a.now = k.node a := by
  cases k <;> rfl

theorem children_node (a : Actor) (k : Making) : (k.node a).children = [] := by cases k <;> rfl

theorem run_eq (a : Actor) (path : String) (parents : Bool) (k : Making) :
    k.run a path parents = (do
      let p := (← get).place path
      let (parent, name) ← Work.lift (splitParent p)
      Work.lift (checkName name)
      ensure a parent parents
      let d ← Work.ask (·.node parent)
      match d.child? name with
      | some _ => throw (k.taken p)
      | none =>
        Work.lift (a.require parent d .write)
        attach a.now parent name (k.node a)
        pure p) := by
  cases k with
  | directory =>
    simp only [run, makeDirectory, Bool.and_false, Bool.false_eq_true, if_false]
    rfl
  | file content => rfl

/-- In a directory that stands, or that has just been made, the last step succeeds. -/
theorem run_of_ensured (k : Making) (hplace : fs.place path = p ++ [name])
    (hname : isValidName name = true) (hens : (ensure a p parents).run fs = (.ok (), s))
    (site : Site a s p name d) : (k.run a path parents).run fs =
      (.ok (p ++ [name]), s.insert a.now p name (k.node a)) := by
  have hnode : s.node p = .ok d := node_eq_ok_iff.mpr site.found
  have hwrite : a.require p d .write = .ok () := require_eq_ok_iff.mpr site.writable
  simp only [run_eq, Work.run_bind, Work.run_get, Work.run_lift, Work.run_ask, Work.run_pure,
    hplace, splitParent_append, checkName_eq_ok_iff.mpr hname, hens, hnode, site.free, hwrite,
    run_attach site.found site.free, touched_node]

end Making

theorem Site.run_makeFile (site : Site a fs p name d) (hplace : fs.place path = p ++ [name])
    (hname : isValidName name = true) (content : String) (parents : Bool) :
    (makeFile a path content parents).run fs =
      (.ok (p ++ [name]), fs.insert a.now p name (a.newFile content)) :=
  (Making.file content).run_of_ensured hplace hname
    (run_ensure_of_isDir site.found site.isDir parents) site

/-- A name that cannot be given is refused before anything else is looked at. -/
theorem run_makeFile_of_invalid (hplace : fs.place path = p ++ [name])
    (hname : isValidName name = false) (content : String) (parents : Bool) :
    (makeFile a path content parents).run fs = (.error (.node (.invalidName name)), fs) := by
  simp [makeFile, Work.run_bind, hplace, splitParent_append, checkName, hname]

theorem Making.ends (k : Making) (hroot : fs.root.isDir = true) (path : String) (parents : Bool) :
    (k.run a path parents).Ends fs (· = fs) fun p fs' =>
      p = fs.place path ∧ Grafted a fs p (k.node a) fs' := by
  rw [run_eq]
  refine Work.ends_get_bind ?_
  refine Work.ends_lift_bind rfl ?_
  rintro ⟨parent, name⟩ hsplit
  obtain ⟨hp, rfl, rfl⟩ := splitParent_eq_ok_iff.mp hsplit
  refine Work.ends_lift_bind rfl fun _ hname => ?_
  refine (ends_ensure hroot _ parents).bind fun _ fs' hens => ?_
  refine ends_putInto hens ?_ (fun _ _ _ => rfl) (checkName_eq_ok_iff.mp hname)
    (k.touched_node a) ?_
  · intro d c _ _
    exact Work.ends_throw rfl
  · intro t hgraft
    rw [parent_append_name hp] at hgraft
    exact Work.ends_pure ⟨rfl, hgraft⟩

theorem ends_makeDirectory (hroot : fs.root.isDir = true) (path : String) (parents existOk : Bool) :
    (makeDirectory a path parents existOk).Ends fs (· = fs) fun p fs' =>
      p = fs.place path ∧ Ensured a fs p fs' := by
  unfold makeDirectory
  refine Work.ends_get_bind ?_
  refine Work.ends_lift_bind rfl ?_
  rintro ⟨parent, name⟩ hsplit
  obtain ⟨hp, rfl, rfl⟩ := splitParent_eq_ok_iff.mp hsplit
  refine Work.ends_lift_bind rfl fun _ hname => ?_
  refine (ends_ensure hroot _ parents).bind fun _ fs' hens => ?_
  refine ends_putInto hens ?_ (fun _ _ _ => rfl) (checkName_eq_ok_iff.mp hname)
    a.touched_newDirectory ?_
  · intro d c hd hc
    have hfound : fs.at? (fs.place path) = some c := by
      rw [← parent_append_name hp]
      exact (Node.at?_snoc hd _).trans hc
    split
    · next hok =>
      exact Work.ends_pure ⟨rfl, .inl ⟨rfl, c, hfound, (Bool.and_eq_true_iff.mp hok).1⟩⟩
    · exact Work.ends_throw rfl
  · intro t hgraft
    rw [parent_append_name hp] at hgraft
    exact Work.ends_pure ⟨rfl, .inr hgraft⟩

def Obstructed (fs : FileSystem) (p : Place) : Prop := ∃ q, q <+: p ∧ fs.kind? q = some false

theorem kind?_ne_some_false (hd : fs.at? p = some d) (hdir : d.isDir = true) {q : Place}
    (hq : q <+: p) : fs.kind? q ≠ some false := by
  intro hfile
  obtain ⟨rest, rfl⟩ := hq
  obtain ⟨m, hm, hmd⟩ := Node.at?_left_of_append hd
  have hmdir : m.isDir = true := by
    cases rest with
    | nil =>
      obtain rfl : m = d := Option.some.inj hmd
      exact hdir
    | cons name rest => exact Node.isDir_of_at?_append hd hm (List.cons_ne_nil _ _)
  rw [kind?_of_at? hm, hmdir] at hfile
  cases hfile

theorem Ensured.not_obstructed (h : Ensured a fs p fs') : ¬ Obstructed fs p := by
  rintro ⟨q, hq, hfile⟩
  rcases h with ⟨-, d, hd, hdir⟩ | hgraft
  · exact kind?_ne_some_false hd hdir hq hfile
  · cases hgraft with
    | @intro above name rest d _ site valid =>
      rcases prefix_cases hq with habove | ⟨r, -, rfl⟩
      · exact kind?_ne_some_false site.found site.isDir habove hfile
      · obtain ⟨m, hm, -⟩ := Node.kind?_eq_some_iff.mp hfile
        exact not_below_free site.found site.free hm ⟨r, by simp⟩

theorem exists_nearest (hclear : ∀ q, q <+: p → n.kind? q ≠ some false) (above : Place) :
    ∃ existing missing, nearest above n p = .ok (existing, missing) := by
  induction p generalizing above n with
  | nil => exact ⟨above, [], rfl⟩
  | cons name rest ih =>
    rw [nearest]
    cases hc : n.child? name with
    | none => exact ⟨above, name :: rest, rfl⟩
    | some c =>
      have hkind (q : Place) : n.kind? (name :: q) = c.kind? q := by
        rw [Node.kind?_cons, hc, Option.bind_some]
      have hcdir : c.isDir = true := by
        have hfirst := hclear [name] ⟨rest, rfl⟩
        rw [hkind, Node.kind?_nil] at hfirst
        simpa using hfirst
      dsimp only
      rw [if_pos hcdir]
      apply ih
      intro q hq
      rw [← hkind]
      exact hclear (name :: q) (List.cons_prefix_cons.mpr ⟨rfl, hq⟩)

theorem may_of_root (ha : a.user = rootUser) (n : Node) (perm : Permission) :
    a.may n perm = true := by simp [Actor.may, ha]

theorem ends_ensure_of_root (hroot : fs.root.isDir = true) (ha : a.user = rootUser)
    (hvalid : ∀ name ∈ p, isValidName name = true) (hclear : ¬ Obstructed fs p) :
    (ensure a p true).Ends fs (fun _ => False) fun _ fs' => Ensured a fs p fs' := by
  obtain ⟨existing, missing, hnear⟩ :=
    exists_nearest (n := fs.root) (fun q hq hfile => hclear ⟨q, hq, hfile⟩) []
  obtain ⟨_, d, rfl, rfl, hd, hdir, hfree⟩ := nearest_ok hroot hnear
  cases missing with
  | nil =>
    rw [List.append_nil]
    exact Work.ends_of_run (run_ensure_of_isDir hd hdir true) (.inl ⟨rfl, d, hd, hdir⟩)
  | cons name rest =>
    have hsite : Site a fs _ name d := ⟨hd, hdir, may_of_root ha d .write, hfree name rest rfl⟩
    have hgraft : Grafted a fs _ a.newDirectory _ :=
      .intro hsite fun n hn => hvalid n (List.mem_append_right _ hn)
    exact Work.ends_of_run hgraft.run_ensure (.inr hgraft)

theorem ends_makeDirectory_of_root (hroot : fs.root.isDir = true)
    (ha : a.user = rootUser) (hne : fs.place path ≠ [])
    (hvalid : ∀ name ∈ fs.place path, isValidName name = true)
    (hclear : ¬ Obstructed fs (fs.place path)) :
    (makeDirectory a path true true).Ends fs (fun _ => False) fun _ _ => True := by
  have hlast := parent_append_name hne
  unfold makeDirectory
  refine Work.ends_get_bind ?_
  generalize fs.place path = p at *
  have hsplit : splitParent p = .ok (p.parent, p.name) := splitParent_eq_ok_iff.mpr ⟨hne, rfl, rfl⟩
  have hmem : p.name ∈ p.parent ++ [p.name] := List.mem_append_right _ List.mem_cons_self
  have hname : isValidName p.name = true := hvalid p.name (by rwa [hlast] at hmem)
  refine Work.ends_lift_bind_of_ok hsplit ?_
  refine Work.ends_lift_bind_of_ok (checkName_eq_ok_iff.mpr hname) ?_
  have hensured := ends_ensure_of_root (p := p.parent) hroot ha
    (fun name hmem => hvalid name (List.dropLast_subset p hmem))
    (fun ⟨q, hq, hfile⟩ => hclear ⟨q, hq.trans (List.dropLast_prefix p), hfile⟩)
  refine hensured.bind fun _ fs' hens => ?_
  refine ends_putInto hens ?_ ?_ hname a.touched_newDirectory fun t _ => Work.ends_pure trivial
  · intro d c hd hc
    have hfound : fs.at? p = some c := by
      rw [← hlast]
      exact (Node.at?_snoc hd _).trans hc
    cases hdir : c.isDir with
    | false => exact absurd ⟨p, List.prefix_refl p, by rw [kind?_of_at? hfound, hdir]⟩ hclear
    | true => exact Work.ends_pure trivial
  · intro d _ hdenied
    rw [may_of_root ha] at hdenied
    cases hdenied

inductive New (a : Actor) : Node → Prop
  | directory : New a a.newDirectory
  | file (content : String) : New a (a.newFile content)

theorem New.children (h : New a n) : n.children = [] := by cases h <;> rfl

/-- What holds of a node with the attributes of a new one holds of all nodes that are made. -/
theorem New.everywhere {P : Node → Prop} (hP : ∀ m mode, m.attrs = a.attributes mode → P m)
    (h : New a n) : n.Everywhere P := by
  refine Node.everywhere_of_no_children ?_ h.children
  cases h with
  | directory => exact hP _ Mode.ofDirectory rfl
  | file content => exact hP _ Mode.ofFile rfl

theorem everywhere_chain {P : Node → Prop} (hP : ∀ m mode, m.attrs = a.attributes mode → P m)
    (hleaf : leaf.Everywhere P) (names : List String) : (a.chain names leaf).Everywhere P := by
  induction names with
  | nil => exact hleaf
  | cons name rest ih =>
    refine (Node.everywhere_iff _).mpr ⟨hP _ Mode.ofDirectory rfl, fun other c hc => ?_⟩
    rw [Actor.chain, Node.child?, Node.children, Table.get?] at hc
    split at hc
    · cases hc
      exact ih
    · cases hc

theorem ends_create (hroot : fs.root.isDir = true) (path : String) (c : Creation) :
    (create a path c).Ends fs (· = fs) fun p fs' =>
      p = fs.place path ∧
        ∃ leaf t, Grafted a fs p leaf t ∧ New a leaf ∧ fs' = t.modify p (Node.mapAttrs c.assign) := by
  unfold create
  dsimp only
  split
  · refine (Making.directory.ends hroot path c.parents).bind fun p t h => ?_
    exact Work.ends_change_bind (Work.ends_pure ⟨h.1, _, t, h.2, .directory, rfl⟩)
  · refine ((Making.file c.content).ends hroot path c.parents).bind fun p t h => ?_
    exact Work.ends_change_bind (Work.ends_pure ⟨h.1, _, t, h.2, .file c.content, rfl⟩)

end MemShell.FileSystem
