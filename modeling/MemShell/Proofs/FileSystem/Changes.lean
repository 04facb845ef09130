import MemShell.FileSystem.Content
import MemShell.FileSystem.Ownership
import MemShell.FileSystem.Relocate
import MemShell.Proofs.FileSystem.Creation
import MemShell.Proofs.Modes
set_option autoImplicit false

/-!
# What an operation can do

Every operation either stops at a fault and leaves the file system as it was, or makes one of a few
changes. Each change comes with what the operation had made sure of before.
-/
namespace MemShell.FileSystem
variable {fs fs' : FileSystem} {a : Actor} {p src dst : Place} {name : String} {d n c : Node}

inductive Assignment (a : Actor) (n : Node) : (Attributes → Attributes) → Prop
  | owner (owner : String) (isRoot : a.user = rootUser) (known : a.accounts.hasUser owner = true) :
      Assignment a n fun at' => { at' with owner }
  | group (group : String) (owns : a.owns n = true) (known : a.accounts.hasGroup group = true) :
      Assignment a n fun at' => { at' with group }
  | mode (mode : Nat) (owns : a.owns n = true) (small : mode ≤ 0o777) :
      Assignment a n fun at' => { at' with mode }

def relocated (fs : FileSystem) (now : Time) (src : Place) (n : Node) (parent : Place)
    (name : String) : FileSystem :=
  { (fs.detach now src.parent src.name).insert now parent name (n.touched now) with
    cwd := cwdAfterMove fs.cwd src (parent ++ [name]) }

/-- A change of the tree by an actor. `carry` tells where it takes what stands at a place: a move takes
a subtree along, and nothing else takes a node anywhere. -/
inductive Edit (a : Actor) (fs : FileSystem) : (Place → Place) → FileSystem → Prop
  | same : Edit a fs id fs
  | entered {p : Place} {d : Node} (found : fs.at? p = some d) (isDir : d.isDir = true)
      (allowed : a.may d .execute = true) : Edit a fs id { fs with cwd := p }
  | made {p : Place} {leaf : Node} {fs' : FileSystem} (graft : Grafted a fs p leaf fs')
      (new : New a leaf) : Edit a fs id fs'
  | written {p : Place} {attrs : Attributes} {old : String} (text : String)
      (found : fs.at? p = some (.file attrs old))
      (allowed : a.may (.file attrs old) .write = true) :
      Edit a fs id ((fs.modify p (Node.setContent text)).stamp a.now p)
  | stamped {p : Place} {n : Node} (found : fs.at? p = some n) (allowed : a.may n .write = true) :
      Edit a fs id (fs.stamp a.now p)
  | assigned {p : Place} {n : Node} {f : Attributes → Attributes} (found : fs.at? p = some n)
      (allowed : Assignment a n f) : Edit a fs id (fs.setAttrs a.now p f)
  | removed {p : Place} {n d : Node} (recursive : Bool) (notRoot : p ≠ [])
      (found : fs.at? p = some n) (above : fs.at? p.parent = some d)
      (writable : a.may d .write = true) (removable : checkContents a p n recursive = .ok ()) :
      Edit a fs id
        ({ fs with cwd := cwdAfterRemoval fs.cwd p }.detach a.now p.parent p.name)
  | moved {src parent : Place} {name : String} {n d e : Node} (notRoot : src ≠ [])
      (found : fs.at? src = some n) (above : fs.at? src.parent = some d)
      (writable : a.may d .write = true) (site : Site a fs parent name e)
      (valid : isValidName name = true ∨ name = src.name)
      (outside : n.isDir = true → parent.within src = false) :
      Edit a fs (cwdAfterMove · src (parent ++ [name])) (fs.relocated a.now src n parent name)
  | copied {src parent : Place} {name : String} {n c e : Node} (found : fs.at? src = some n)
      (site : Site a fs parent name e)
      (valid : isValidName name = true ∨ name = src.name ∧ src ≠ [])
      (cloned : clone a src n = .ok c) :
      Edit a fs id (fs.insert a.now parent name (c.touched a.now))

inductive Mild (a : Actor) (fs : FileSystem) : FileSystem → Prop
  | same : Mild a fs fs
  | entered {p : Place} {d : Node} (found : fs.at? p = some d) (isDir : d.isDir = true)
      (allowed : a.may d .execute = true) : Mild a fs { fs with cwd := p }
  | made {p : Place} {leaf : Node} {fs' : FileSystem} (graft : Grafted a fs p leaf fs')
      (new : New a leaf) : Mild a fs fs'
  | stamped {p : Place} {n : Node} (found : fs.at? p = some n) (allowed : a.may n .write = true) :
      Mild a fs (fs.stamp a.now p)
  | assigned {p : Place} {n : Node} {f : Attributes → Attributes} (found : fs.at? p = some n)
      (allowed : Assignment a n f) : Mild a fs (fs.setAttrs a.now p f)

theorem Mild.edit (h : Mild a fs fs') : Edit a fs id fs' := by
  cases h with
  | same => exact .same
  | entered found isDir allowed => exact .entered found isDir allowed
  | made graft new => exact .made graft new
  | stamped found allowed => exact .stamped found allowed
  | assigned found allowed => exact .assigned found allowed

theorem Ensured.mild (h : Ensured a fs p fs') : Mild a fs fs' := by
  rcases h with ⟨rfl, -⟩ | hgraft
  · exact .same
  · exact .made hgraft .directory

/-- What an operation leaves behind: an edit, or a new node that was given to whom the operation
named. -/
inductive Change (a : Actor) (fs : FileSystem) : FileSystem → Prop
  | edit {carry : Place → Place} {fs' : FileSystem} (h : Edit a fs carry fs') : Change a fs fs'
  | created {p : Place} {leaf : Node} {fs' : FileSystem} (graft : Grafted a fs p leaf fs')
      (new : New a leaf) (c : Creation) : Change a fs (fs'.modify p (Node.mapAttrs c.assign))

/-- Work that stops at a fault with nothing changed, or makes one edit. -/
def Atomic {α : Type} (a : Actor) (fs : FileSystem) (carry : Place → Place) (x : Update α) : Prop :=
  x.Ends fs (· = fs) fun _ fs' => Edit a fs carry fs'

def Gentle {α : Type} (a : Actor) (fs : FileSystem) (x : Update α) : Prop :=
  x.Ends fs (· = fs) fun _ fs' => Mild a fs fs'

theorem Gentle.atomic {α : Type} {x : Update α} (h : Gentle a fs x) : Atomic a fs id x :=
  h.mono fun _ _ hmild => hmild.edit

/-! ## Navigation and creation -/

inductive Entered (a : Actor) (fs : FileSystem) (p : Place) : FileSystem → Prop
  | intro {d : Node} (found : fs.at? p = some d) (isDir : d.isDir = true)
      (allowed : a.may d .execute = true) : Entered a fs p { fs with cwd := p }

theorem ends_enter (path : String) :
    (enter a path).Ends fs (· = fs) fun _ fs' => Entered a fs (fs.place path) fs' := by
  unfold enter
  refine Work.ends_get_bind ?_
  refine Work.ends_ask_bind rfl fun d hd => ?_
  obtain ⟨hfound, hdir⟩ := directory_eq_ok_iff.mp hd
  refine Work.ends_lift_bind rfl fun _ hmay => ?_
  exact Work.ends_change (.intro hfound hdir (require_eq_ok_iff.mp hmay))

theorem Entered.mild (h : Entered a fs p fs') : Mild a fs fs' := by
  cases h with
  | intro found isDir allowed => exact .entered found isDir allowed

theorem gentle_enter (path : String) : Gentle a fs (enter a path) :=
  (ends_enter path).mono fun _ _ h => h.mild

theorem gentle_ensureDirectory (hroot : fs.root.isDir = true) (path : String) :
    Gentle a fs (ensureDirectory a path) :=
  (ends_ensureDirectory hroot path).mono fun _ _ h => h.2.mild

theorem gentle_makeDirectory (hroot : fs.root.isDir = true) (path : String)
    (parents existOk : Bool) :
    Gentle a fs (makeDirectory a path parents existOk) :=
  (ends_makeDirectory hroot path parents existOk).mono fun _ _ h => h.2.mild

theorem gentle_makeFile (hroot : fs.root.isDir = true) (path content : String) (parents : Bool) :
    Gentle a fs (makeFile a path content parents) :=
  ((Making.file content).ends hroot path parents).mono fun _ _ h => .made h.2 (.file content)

/-! ## Contents and attributes -/

inductive Wrote (a : Actor) (fs : FileSystem) (p : Place) (text : String) (append : Bool) :
    FileSystem → Prop
  | new {fs' : FileSystem} (graft : Grafted a fs p (a.newFile text) fs') : Wrote a fs p text append fs'
  | onto {attrs : Attributes} {old : String} (found : fs.at? p = some (.file attrs old))
      (writable : a.may (.file attrs old) .write = true) :
      Wrote a fs p text append
        ((fs.modify p (Node.setContent (if append then old ++ text else text))).stamp a.now p)

theorem ends_write (hroot : fs.root.isDir = true) (path text : String) (append parents : Bool) :
    (writeText a path text append parents).Ends fs (· = fs) fun target fs' =>
      target = fs.place path ∧ Wrote a fs (fs.place path) text append fs' := by
  unfold writeText
  refine Work.ends_get_bind ?_
  dsimp only
  cases hn : fs.node (fs.place path) with
  | error f =>
    dsimp only
    split
    · refine ((Making.file text).ends hroot path parents).mono fun _ _ h => ?_
      obtain ⟨rfl, hgraft⟩ := h
      exact ⟨rfl, .new hgraft⟩
    · exact Work.ends_throw rfl
  | ok n =>
    cases n with
    | dir attrs cs => exact Work.ends_throw rfl
    | file attrs old =>
      refine Work.ends_lift_bind rfl fun _ hmay => ?_
      refine Work.ends_change_bind (Work.ends_pure ?_)
      exact ⟨rfl, .onto (node_eq_ok_iff.mp hn) (require_eq_ok_iff.mp hmay)⟩

theorem Wrote.edit {text : String} {append : Bool} (h : Wrote a fs p text append fs') :
    Edit a fs id fs' := by
  cases h with
  | new graft => exact .made graft (.file text)
  | onto found writable => exact .written _ found writable

theorem atomic_writeText (hroot : fs.root.isDir = true) (path text : String)
    (append parents : Bool) :
    Atomic a fs id (writeText a path text append parents) :=
  (ends_write hroot path text append parents).mono fun _ _ h => h.2.edit

/-- Where nothing stands, a write makes a file. -/
theorem Site.run_writeText {path : String} (site : Site a fs p name d)
    (hplace : fs.place path = p ++ [name]) (text : String) (append : Bool) :
    (writeText a path text append true).run fs = (makeFile a path text true).run fs := by
  have hnode : fs.node (p ++ [name]) = .error (.node (.notFound (Place.text (p ++ [name])))) := by
    rw [FileSystem.node, Node.resolve_append site.found, List.nil_append, Node.resolve,
      if_pos site.isDir, site.free]
  simp only [writeText, Work.run_bind, Work.run_get, hplace, hnode]
  rfl

inductive Touched (a : Actor) (fs : FileSystem) (p : Place) : FileSystem → Prop
  | new {fs' : FileSystem} (graft : Grafted a fs p (a.newFile "") fs') : Touched a fs p fs'
  | stood {n : Node} (found : fs.at? p = some n) (allowed : a.may n .write = true) :
      Touched a fs p (fs.stamp a.now p)

theorem ends_touch (hroot : fs.root.isDir = true) (path : String) :
    (touch a path).Ends fs (· = fs) fun target fs' =>
      target = fs.place path ∧ Touched a fs (fs.place path) fs' := by
  unfold touch
  refine Work.ends_get_bind ?_
  dsimp only
  cases hn : fs.node (fs.place path) with
  | error f =>
    dsimp only
    split
    · refine ((Making.file "").ends hroot path false).mono fun _ _ h => ?_
      obtain ⟨rfl, hgraft⟩ := h
      exact ⟨rfl, .new hgraft⟩
    · exact Work.ends_throw rfl
  | ok n =>
    refine Work.ends_lift_bind rfl fun _ hmay => ?_
    refine Work.ends_change_bind (Work.ends_pure ?_)
    exact ⟨rfl, .stood (node_eq_ok_iff.mp hn) (require_eq_ok_iff.mp hmay)⟩

theorem Touched.mild (h : Touched a fs p fs') : Mild a fs fs' := by
  cases h with
  | new graft => exact .made graft (.file "")
  | stood found allowed => exact .stamped found allowed

theorem gentle_touch (hroot : fs.root.isDir = true) (path : String) :
    Gentle a fs (touch a path) :=
  (ends_touch hroot path).mono fun _ _ h => h.2.mild

inductive Assigned (a : Actor) (fs : FileSystem) (p : Place) : FileSystem → Prop
  | intro {n : Node} {f : Attributes → Attributes} (found : fs.at? p = some n)
      (allowed : Assignment a n f) : Assigned a fs p (fs.setAttrs a.now p f)

theorem Assigned.mild (h : Assigned a fs p fs') : Mild a fs fs' := by
  cases h with
  | intro found allowed => exact .assigned found allowed

theorem requireOwner_eq_ok_iff {action : String} :
    a.requireOwner p n action = .ok () ↔ a.owns n = true := by
  rw [Actor.requireOwner]
  split <;> simp_all

theorem ends_changeOwner (path owner : String) :
    (changeOwner a path owner).Ends fs (· = fs) fun target fs' =>
      target = fs.place path ∧ Assigned a fs (fs.place path) fs' := by
  unfold changeOwner
  refine Work.ends_get_bind ?_
  refine Work.ends_ask_bind rfl fun n hn => ?_
  split
  · exact Work.ends_throw rfl
  · next hroot =>
    split
    · exact Work.ends_throw rfl
    · next hknown =>
      have hallowed : Assignment a n fun at' => { at' with owner } :=
        .owner owner (Decidable.not_not.mp hroot) (by simpa using hknown)
      exact Work.ends_change_bind (Work.ends_pure ⟨rfl, .intro (node_eq_ok_iff.mp hn) hallowed⟩)

theorem ends_changeGroup (path group : String) :
    (changeGroup a path group).Ends fs (· = fs) fun target fs' =>
      target = fs.place path ∧ Assigned a fs (fs.place path) fs' := by
  unfold changeGroup
  refine Work.ends_get_bind ?_
  refine Work.ends_ask_bind rfl fun n hn => ?_
  refine Work.ends_lift_bind rfl fun _ howns => ?_
  split
  · exact Work.ends_throw rfl
  · next hknown =>
    have hallowed : Assignment a n fun at' => { at' with group } :=
      .group group (requireOwner_eq_ok_iff.mp howns) (by simpa using hknown)
    exact Work.ends_change_bind (Work.ends_pure ⟨rfl, .intro (node_eq_ok_iff.mp hn) hallowed⟩)

theorem ends_changeMode (path : String) (mode : ModeSpec) :
    (changeMode a path mode).Ends fs (· = fs) fun target fs' =>
      target = fs.place path ∧ Assigned a fs (fs.place path) fs' := by
  unfold changeMode
  refine Work.ends_get_bind ?_
  refine Work.ends_ask_bind rfl fun n hn => ?_
  refine Work.ends_lift_bind rfl fun _ howns => ?_
  refine Work.ends_lift_bind rfl fun m hm => ?_
  have hallowed : Assignment a n fun at' => { at' with mode := m } :=
    .mode m (requireOwner_eq_ok_iff.mp howns) (ModeSpec.value_le hm)
  exact Work.ends_change_bind (Work.ends_pure ⟨rfl, .intro (node_eq_ok_iff.mp hn) hallowed⟩)

theorem gentle_changeOwner (path owner : String) : Gentle a fs (changeOwner a path owner) :=
  (ends_changeOwner path owner).mono fun _ _ h => h.2.mild

theorem gentle_changeGroup (path group : String) : Gentle a fs (changeGroup a path group) :=
  (ends_changeGroup path group).mono fun _ _ h => h.2.mild

theorem gentle_changeMode (path : String) (mode : ModeSpec) :
    Gentle a fs (changeMode a path mode) :=
  (ends_changeMode path mode).mono fun _ _ h => h.2.mild

/-! ## Removal -/

theorem at?_of_parent (hp : p ≠ []) (hd : fs.at? p.parent = some d) :
    fs.at? p = d.child? p.name := by
  have hsnoc : fs.root.at? (p.parent ++ [p.name]) = d.child? p.name := Node.at?_snoc hd p.name
  rw [parent_append_name hp] at hsnoc
  exact hsnoc

theorem at?_detach_self (hp : p ≠ []) (now : Time) :
    (fs.detach now p.parent p.name).at? p = none := by
  have hchild := at?_detach_child fs now p.parent p.name
  rwa [parent_append_name hp] at hchild

/-- What a removal makes sure of, and what it leaves. The working directory moves before the node
leaves, but the node does leave. -/
inductive Removed (a : Actor) (fs : FileSystem) (p : Place) (recursive : Bool) : FileSystem → Prop
  | intro {n d : Node} (notRoot : p ≠ []) (found : fs.at? p = some n)
      (above : fs.at? p.parent = some d) (writable : a.may d .write = true)
      (removable : checkContents a p n recursive = .ok ()) :
      Removed a fs p recursive
        ({ fs with cwd := cwdAfterRemoval fs.cwd p }.detach a.now p.parent p.name)

theorem ends_remove (path : String) (recursive : Bool) :
    (remove a path recursive).Ends fs (· = fs) fun _ fs' =>
      Removed a fs (fs.place path) recursive fs' := by
  unfold remove
  refine Work.ends_get_bind ?_
  dsimp only
  split
  · exact Work.ends_throw rfl
  · next hne =>
    have hp : fs.place path ≠ [] := fun h => hne (List.isEmpty_iff.mpr h)
    refine Work.ends_ask_bind rfl fun n hn => ?_
    refine Work.ends_ask_bind rfl fun d hd => ?_
    refine Work.ends_lift_bind rfl fun _ hmay => ?_
    refine Work.ends_lift_bind rfl fun _ hcontents => ?_
    have hn := node_eq_ok_iff.mp hn
    have hd := node_eq_ok_iff.mp hd
    have hchild : d.child? (fs.place path).name = some n := by rw [← at?_of_parent hp hd, hn]
    refine Work.ends_change_bind ?_
    exact Work.ends_of_run (run_takeOut hd hchild)
      (.intro hp hn hd (require_eq_ok_iff.mp hmay) hcontents)

theorem atomic_remove (path : String) (recursive : Bool) :
    Atomic a fs id (remove a path recursive) := by
  refine (ends_remove path recursive).mono fun _ fs' h => ?_
  cases h with
  | intro notRoot found above writable removable =>
    exact .removed recursive notRoot found above writable removable

/-! ## Moving -/

theorem checkFree_eq_ok {parent : Place} (hd : fs.at? parent = some d)
    (h : fs.checkFree parent name = .ok ()) : d.child? name = none := by
  unfold checkFree at h
  obtain ⟨d', hd', h⟩ := bind_eq_ok_iff.mp h
  rw [node_eq_ok_iff, hd] at hd'
  cases hd'
  cases hc : d.child? name with
  | none => rfl
  | some c =>
    rw [hc] at h
    cases h

theorem target_cases {t : Target} (h : fs.target dst = .ok t) :
    (∃ n, t = .taken n ∧ fs.at? dst = some n ∧ n.isDir = false) ∨
    (∃ d, t = .into dst ∧ fs.at? dst = some d ∧ d.isDir = true) ∨
    (∃ d, dst ≠ [] ∧ t = .free dst.parent dst.name ∧ isValidName dst.name = true ∧
      fs.at? dst.parent = some d ∧ d.isDir = true ∧ d.child? dst.name = none) := by
  unfold target at h
  cases hn : fs.node dst with
  | ok n =>
    rw [hn] at h
    cases h
    have hn := node_eq_ok_iff.mp hn
    by_cases hdir : n.isDir = true
    · rw [if_pos hdir]
      exact .inr (.inl ⟨n, rfl, hn, hdir⟩)
    · rw [if_neg hdir]
      exact .inl ⟨n, rfl, hn, by simpa using hdir⟩
  | error f =>
    have hmissing : fs.at? dst = none := at?_of_node_error hn
    have hdst : dst ≠ [] := by
      rintro rfl
      cases hmissing
    rw [hn] at h
    dsimp only at h
    split at h
    · obtain ⟨d, hd, h⟩ := bind_eq_ok_iff.mp h
      obtain ⟨_, hname, h⟩ := bind_eq_ok_iff.mp h
      cases h
      obtain ⟨hfound, hdir⟩ := directory_eq_ok_iff.mp hd
      refine .inr (.inr ⟨d, hdst, rfl, checkName_eq_ok_iff.mp hname, hfound, hdir, ?_⟩)
      rw [← at?_of_parent hdst hfound]
      exact hmissing
    · cases h

def landing (fs : FileSystem) (src dst : Place) : Place :=
  if (fs.at? dst).isSome then dst ++ [src.name] else dst

theorem landing_of_found (hn : fs.at? dst = some n) : fs.landing src dst = dst ++ [src.name] := by
  rw [landing, hn, Option.isSome_some, if_pos rfl]

theorem landing_of_free (hdst : dst ≠ []) (hd : fs.at? dst.parent = some d)
    (hfree : d.child? dst.name = none) : fs.landing src dst = dst.parent ++ [dst.name] := by
  have hnone : fs.at? dst = none := (at?_of_parent hdst hd).trans hfree
  rw [landing, hnone, parent_append_name hdst]
  rfl

theorem destination_eq_ok {parent : Place} (h : fs.destination src dst = .ok (parent, name)) :
    (isValidName name = true ∨ name = src.name) ∧ fs.landing src dst = parent ++ [name] ∧
      ∃ d, fs.at? parent = some d ∧ d.isDir = true ∧ d.child? name = none := by
  unfold destination at h
  obtain ⟨t, ht, h⟩ := bind_eq_ok_iff.mp h
  rcases target_cases ht with ⟨n, rfl, -, -⟩ | ⟨d, rfl, hd, hdir⟩ |
    ⟨d, hdst, rfl, hname, hd, hdir, hfree⟩
  · cases h
  · obtain ⟨_, hcheck, h⟩ := bind_eq_ok_iff.mp h
    cases h
    exact ⟨.inr rfl, landing_of_found hd, d, hd, hdir, checkFree_eq_ok hd hcheck⟩
  · cases h
    exact ⟨.inl hname, landing_of_free hdst hd hfree, d, hd, hdir, hfree⟩

/-- A directory that is not moved into itself, and a file in any case, has the new directory outside. -/
theorem not_below_source {parent : Place} {e : Node} (hn : fs.at? src = some n)
    (he : fs.at? parent = some e) (hdir : e.isDir = true)
    (hout : n.isDir = true → parent.within src = false) : ¬ src <+: parent := by
  intro hbelow
  cases hndir : n.isDir with
  | true =>
    have hwithin := hout hndir
    rw [Place.within, List.isPrefixOf_iff_prefix.mpr hbelow] at hwithin
    cases hwithin
  | false =>
    obtain ⟨r, rfl⟩ := hbelow
    have hne : n ≠ e := by
      rintro rfl
      rw [hdir] at hndir
      cases hndir
    cases r with
    | nil =>
      rw [List.append_nil, hn] at he
      exact hne (Option.some.inj he)
    | cons next rest =>
      have hndir' := Node.isDir_of_at?_append he hn (List.cons_ne_nil next rest)
      rw [hndir'] at hndir
      cases hndir

/-- Once the node has left its directory, its new one still stands and still has no child of the new
name. -/
theorem detached_parent {parent : Place} {e : Node} (hsrc : src ≠ []) (hout : ¬ src <+: parent)
    (he : fs.at? parent = some e) (hdir : e.isDir = true) (hfree : e.child? name = none)
    (now : Time) :
    ∃ e', (fs.detach now src.parent src.name).at? parent = some e' ∧ e'.isDir = true ∧
      e'.child? name = none := by
  have hkind : (fs.detach now src.parent src.name).kind? parent = some true := by
    rw [kind?_detach (by rwa [parent_append_name hsrc]), kind?_of_at? he, hdir]
  obtain ⟨e', he', hdir'⟩ := Node.kind?_eq_some_iff.mp hkind
  have hmissing : fs.at? (parent ++ [name]) = none := (Node.at?_snoc he name).trans hfree
  refine ⟨e', he', hdir', ?_⟩
  rw [← Node.at?_snoc he' name]
  exact at?_detach_of_none hmissing now src.parent src.name

theorem cwdAfterMove_self (p : Place) : (cwdAfterMove · p p) = id := by
  funext q
  unfold cwdAfterMove
  split
  · next hwithin =>
    obtain ⟨r, rfl⟩ := List.isPrefixOf_iff_prefix.mp hwithin
    rw [List.drop_left]
    rfl
  · rfl

theorem cwdAfterMove_below (src dest r : Place) : cwdAfterMove (src ++ r) src dest = dest ++ r := by
  have hwithin : (src ++ r).within src = true := List.isPrefixOf_iff_prefix.mpr ⟨r, rfl⟩
  rw [cwdAfterMove, hwithin, if_pos rfl, List.drop_left]

theorem cwdAfterMove_beside {src : Place} (hp : ¬ src <+: p) (dest : Place) :
    cwdAfterMove p src dest = p := by
  have hwithin : ¬ p.within src = true := fun h => hp (List.isPrefixOf_iff_prefix.mp h)
  rw [cwdAfterMove, if_neg hwithin]

inductive Moved (a : Actor) (fs : FileSystem) (src dst : Place) : Place → FileSystem → Prop
  | intro {parent : Place} {name : String} {n d e : Node} (notRoot : src ≠ [])
      (found : fs.at? src = some n) (above : fs.at? src.parent = some d)
      (writable : a.may d .write = true) (goal : fs.landing src dst = parent ++ [name])
      (site : Site a fs parent name e) (valid : isValidName name = true ∨ name = src.name)
      (outside : n.isDir = true → parent.within src = false) :
      Moved a fs src dst (parent ++ [name]) (fs.relocated a.now src n parent name)

theorem ends_move (source dest : String) :
    (move a source dest).Ends fs (· = fs) fun target fs' =>
      Moved a fs (fs.place source) (fs.place dest) target fs' := by
  unfold move
  refine Work.ends_get_bind ?_
  dsimp only
  split
  · exact Work.ends_throw rfl
  · next hne =>
    have hsrc : fs.place source ≠ [] := fun h => hne (List.isEmpty_iff.mpr h)
    refine Work.ends_ask_bind rfl fun n hn => ?_
    refine Work.ends_ask_bind rfl fun d hd => ?_
    refine Work.ends_lift_bind rfl fun _ hmay => ?_
    refine Work.ends_get_bind ?_
    refine Work.ends_ask_bind rfl ?_
    rintro ⟨parent, name⟩ hdest
    refine Work.ends_ask_bind rfl fun e he => ?_
    refine Work.ends_lift_bind rfl fun _ hmay' => ?_
    have hn := node_eq_ok_iff.mp hn
    have hd := node_eq_ok_iff.mp hd
    have hchild : d.child? (fs.place source).name = some n := by
      rw [← at?_of_parent hsrc hd, hn]
    obtain ⟨hvalid, hgoal, e', he', hdir, hfree⟩ := destination_eq_ok hdest
    rw [node_eq_ok_iff, he'] at he
    cases he
    split
    · exact Work.ends_throw rfl
    · next hinside =>
      split
      · -- Where the node stands already nothing is free.
        next hstays =>
        obtain ⟨rfl, rfl⟩ : parent = (fs.place source).parent ∧ name = (fs.place source).name := by
          simpa using hstays
        rw [hd] at he'
        cases he'
        rw [hchild] at hfree
        cases hfree
      · have houtside : n.isDir = true → parent.within (fs.place source) = false := by
          intro hndir
          simpa [hndir] using hinside
        have hout := not_below_source hn he' hdir houtside
        refine Work.ends_bind_of_run (run_takeOut hd hchild) ?_
        obtain ⟨e', he'', -, hfree'⟩ := detached_parent hsrc hout he' hdir hfree a.now
        refine Work.ends_bind_of_run (run_attach he'' hfree') ?_
        refine Work.ends_change_bind (Work.ends_pure ?_)
        exact .intro hsrc hn hd (require_eq_ok_iff.mp hmay) hgoal
          ⟨he', hdir, require_eq_ok_iff.mp hmay', hfree⟩ hvalid houtside

theorem Moved.edit {target : Place} (h : Moved a fs src dst target fs') :
    Edit a fs (cwdAfterMove · src target) fs' := by
  cases h with
  | intro notRoot found above writable _ site valid outside =>
    exact .moved notRoot found above writable site valid outside

def placeAfterMove (a : Actor) (fs : FileSystem) (source dest : String) (p : Place) : Place :=
  match ((move a source dest).run fs).1 with
  | .ok target => cwdAfterMove p (fs.place source) target
  | .error _ => p

theorem placeAfterMove_of_run {source dest : String} {target : Place}
    (h : (move a source dest).run fs = (.ok target, fs')) :
    placeAfterMove a fs source dest = (cwdAfterMove · (fs.place source) target) := by
  funext p
  rw [placeAfterMove, h]

theorem atomic_move (source dest : String) :
    Atomic a fs (placeAfterMove a fs source dest) (move a source dest) := by
  refine (ends_move source dest).and_run.mono fun target fs' ⟨hrun, hmoved⟩ => ?_
  rw [placeAfterMove_of_run hrun]
  exact hmoved.edit

/-! ## Copying -/

inductive Copied (a : Actor) (fs : FileSystem) (src dst : Place) : Place → FileSystem → Prop
  | onto {attrs attrs' : Attributes} {text old : String} (found : fs.at? src = some (.file attrs text))
      (readable : a.may (.file attrs text) .read = true)
      (taken : fs.at? dst = some (.file attrs' old))
      (writable : a.may (.file attrs' old) .write = true) :
      Copied a fs src dst dst ((fs.modify dst (Node.setContent text)).stamp a.now dst)
  | into {parent : Place} {name : String} {n c e : Node} (notRoot : src ≠ [])
      (found : fs.at? src = some n) (goal : fs.landing src dst = parent ++ [name])
      (site : Site a fs parent name e) (valid : isValidName name = true ∨ name = src.name)
      (outside : n.isDir = true → ¬ src <+: parent ++ [name]) (cloned : clone a src n = .ok c) :
      Copied a fs src dst (parent ++ [name]) (fs.insert a.now parent name (c.touched a.now))

theorem ends_copyInto (hroot : fs.root.isDir = true) {parent : Place} {e : Node}
    (hn : fs.at? src = some n) (he : fs.at? parent = some e) (hdir : e.isDir = true)
    (hgoal : fs.landing src dst = parent ++ [name])
    (hvalid : isValidName name = true ∨ name = src.name) :
    (copyInto a src n parent name).Ends fs (· = fs) fun target fs' =>
      Copied a fs src dst target fs' := by
  unfold copyInto
  refine Work.ends_ask_bind rfl fun e' he' => ?_
  rw [node_eq_ok_iff, he] at he'
  cases he'
  refine Work.ends_lift_bind rfl fun _ hmay => ?_
  refine Work.ends_ask_bind rfl fun _ hcheck => ?_
  have hfree := checkFree_eq_ok he hcheck
  split
  · exact Work.ends_throw rfl
  · next hinside =>
    have houtside : n.isDir = true → ¬ src <+: parent ++ [name] := by
      intro hndir hbelow
      rw [hndir, Place.within, List.isPrefixOf_iff_prefix.mpr hbelow] at hinside
      exact hinside rfl
    have hsrc : src ≠ [] := by
      -- The root does not fit into any directory.
      rintro rfl
      obtain rfl : fs.root = n := Option.some.inj hn
      exact houtside hroot List.nil_prefix
    refine Work.ends_lift_bind rfl fun c hc => ?_
    refine Work.ends_bind_of_run (run_attach he hfree) (Work.ends_pure ?_)
    exact .into hsrc hn hgoal ⟨he, hdir, require_eq_ok_iff.mp hmay, hfree⟩ hvalid houtside hc

theorem ends_copyOver {old : Node} (hn : fs.at? src = some n) (hold : fs.at? dst = some old)
    (hfile : old.isDir = false) :
    (copyOver a src n dst old).Ends fs (· = fs) fun target fs' =>
      Copied a fs src dst target fs' := by
  unfold copyOver
  split
  · exact Work.ends_throw rfl
  · next hnfile =>
    refine Work.ends_lift_bind rfl fun _ hread => ?_
    refine Work.ends_lift_bind rfl fun _ hmay => ?_
    refine Work.ends_change_bind (Work.ends_pure ?_)
    cases n with
    | dir attrs cs => exact absurd rfl hnfile
    | file attrs text =>
      cases old with
      | dir attrs' cs => cases hfile
      | file attrs' old =>
        exact .onto hn (require_eq_ok_iff.mp hread) hold (require_eq_ok_iff.mp hmay)

theorem ends_copy (hroot : fs.root.isDir = true) (source dest : String) (recursive : Bool) :
    (copy a source dest recursive).Ends fs (· = fs) fun target fs' =>
      Copied a fs (fs.place source) (fs.place dest) target fs' := by
  unfold copy
  refine Work.ends_get_bind ?_
  refine Work.ends_ask_bind rfl fun n hn => ?_
  have hn := node_eq_ok_iff.mp hn
  split
  · exact Work.ends_throw rfl
  · refine Work.ends_get_bind ?_
    refine Work.ends_ask_bind rfl fun t ht => ?_
    rcases target_cases ht with ⟨old, rfl, hold, hfile⟩ | ⟨d, rfl, hd, hdir⟩ |
      ⟨d, hdst, rfl, hname, hd, hdir, hfree⟩
    · exact ends_copyOver hn hold hfile
    · exact ends_copyInto hroot hn hd hdir (landing_of_found hd) (.inr rfl)
    · exact ends_copyInto hroot hn hd hdir (landing_of_free hdst hd hfree) (.inl hname)

theorem Copied.edit {target : Place} (h : Copied a fs src dst target fs') : Edit a fs id fs' := by
  cases h with
  | onto found readable taken writable => exact .written _ taken writable
  | into notRoot found goal site valid outside cloned =>
    exact .copied found site (valid.imp_right fun hname => ⟨hname, notRoot⟩) cloned

theorem atomic_copy (hroot : fs.root.isDir = true) (source dest : String) (recursive : Bool) :
    Atomic a fs id (copy a source dest recursive) :=
  (ends_copy hroot source dest recursive).mono fun _ _ h => h.edit

end MemShell.FileSystem
