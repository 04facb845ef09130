import MemShell.Proofs.FileSystem.Reachable
set_option autoImplicit false

/-!
# What rights allow

An edit by an actor other than root goes no further than the rights on the nodes that it touches. Nodes
are compared with what they were, so a node is followed to where a move takes it.
-/
namespace MemShell

namespace Node

structure SameRights (n n' : Node) : Prop where
  isDir : n'.isDir = n.isDir
  owner : n'.attrs.owner = n.attrs.owner
  group : n'.attrs.group = n.attrs.group
  mode : n'.attrs.mode = n.attrs.mode

structure SameData (n n' : Node) : Prop where
  content : n'.content = n.content
  names : Table.keys n'.children = Table.keys n.children

structure Similar (n n' : Node) : Prop extends SameRights n n', SameData n n'

variable {R S T : Node → Node → Prop} {n n' n'' m d c : Node} {p q : Place} {name : String}

theorem Similar.refl (n : Node) : Similar n n := ⟨⟨rfl, rfl, rfl, rfl⟩, rfl, rfl⟩

theorem similar_modify_cons (g : Node → Node) (name : String) (rest : Place) (n : Node) :
    Similar n (modify g (name :: rest) n) := by
  have hcontent : (modify g (name :: rest) n).content = n.content := by cases n <;> rfl
  exact ⟨⟨by simp, by simp, by simp, by simp⟩, hcontent, by simp⟩

theorem similar_touched (now : Time) (n : Node) : Similar n (n.touched now) := by
  cases n <;> exact ⟨⟨rfl, rfl, rfl, rfl⟩, rfl, rfl⟩

theorem sameRights_withChild (now : Time) (name : String) (c n : Node) :
    SameRights n (withChild now name c n) := by
  cases n <;> exact ⟨rfl, rfl, rfl, rfl⟩

theorem sameRights_without (now : Time) (name : String) (n : Node) :
    SameRights n (n.without now name) := by
  cases n <;> exact ⟨rfl, rfl, rfl, rfl⟩

/-- Whatever stands at the place in the second tree has a counterpart there in the first. -/
def Kept (R : Node → Node → Prop) (n n' : Node) (q : Place) : Prop :=
  ∀ m', n'.at? q = some m' → ∃ m, n.at? q = some m ∧ R m m'

theorem kept_of_at?_eq (hR : ∀ m, R m m) (h : n'.at? q = n.at? q) : Kept R n n' q := by
  intro m' hm'
  rw [h] at hm'
  exact ⟨m', hm', hR m'⟩

theorem Kept.trans (h : Kept R n n' q) (h' : Kept S n' n'' q)
    (hT : ∀ x y z, R x y → S y z → T x z) : Kept T n n'' q := by
  intro z hz
  obtain ⟨y, hy, hyz⟩ := h' z hz
  obtain ⟨x, hx, hxy⟩ := h y hy
  exact ⟨x, hx, hT x y z hxy hyz⟩

variable (hsimilar : ∀ m m', Similar m m' → R m m')
include hsimilar

theorem kept_modify {f : Node → Node}
    (hf : ∀ m r, n.at? p = some m → q = p ++ r → Kept R m (f m) r) :
    Kept R n (modify f p n) q := by
  have hrefl (m : Node) : R m m := hsimilar m m (Similar.refl m)
  by_cases hpq : p <+: q
  · obtain ⟨r, rfl⟩ := hpq
    intro m' hm'
    rw [at?_modify_append] at hm'
    obtain ⟨m, hm, hm'⟩ := Option.bind_eq_some_iff.mp hm'
    obtain ⟨x, hx, hR⟩ := hf m r hm rfl m' hm'
    refine ⟨x, ?_, hR⟩
    rw [at?_append, hm]
    exact hx
  · by_cases hqp : q <+: p
    · obtain ⟨r, rfl⟩ := hqp
      intro m' hm'
      rw [at?_modify_above] at hm'
      obtain ⟨m, hm, rfl⟩ := Option.map_eq_some_iff.mp hm'
      cases r with
      | nil => exact absurd (by simp) hpq
      | cons name rest => exact ⟨m, hm, hsimilar _ _ (similar_modify_cons f name rest m)⟩
    · exact kept_of_at?_eq hrefl (at?_modify_apart f hpq hqp n)

theorem kept_of_children (hR : R n n') (hchildren : n'.children = n.children) (q : Place) :
    Kept R n n' q := by
  cases q with
  | nil =>
    intro m' hm'
    cases hm'
    exact ⟨n, rfl, hR⟩
  | cons name rest =>
    refine kept_of_at?_eq (fun m => hsimilar m m (Similar.refl m)) ?_
    rw [at?_cons, at?_cons, child?_congr hchildren]

theorem kept_withChild {now : Time} (hd : d.isDir = true) (hR : R d (withChild now name c d))
    (hq : ¬ [name] <+: q) : Kept R d (withChild now name c d) q := by
  cases q with
  | nil =>
    intro m' hm'
    cases hm'
    exact ⟨d, rfl, hR⟩
  | cons other rest =>
    have hne : name ≠ other := fun h => hq (List.cons_prefix_cons.mpr ⟨h, List.nil_prefix⟩)
    refine kept_of_at?_eq (fun m => hsimilar m m (Similar.refl m)) ?_
    rw [at?_cons, at?_cons, child?_withChild hd, if_neg hne]

theorem kept_without {now : Time} (hR : R d (d.without now name)) (q : Place) :
    Kept R d (d.without now name) q := by
  cases q with
  | nil =>
    intro m' hm'
    cases hm'
    exact ⟨d, rfl, hR⟩
  | cons other rest =>
    intro m' hm'
    rw [at?_cons, child?_without] at hm'
    split at hm'
    · cases hm'
    · rw [at?_cons]
      exact ⟨m', hm', hsimilar m' m' (Similar.refl m')⟩

end Node

namespace FileSystem
variable {fs fs' : FileSystem} {a : Actor} {now : Time} {p q : Place} {name : String}
  {n n' m d e c leaf : Node} {carry : Place → Place}

/-- Text and children change only with the permission to write, group and mode only by the owner, and
the owner never. -/
structure Permitted (a : Actor) (n n' : Node) : Prop where
  isDir : n'.isDir = n.isDir
  owner : n'.attrs.owner = n.attrs.owner
  group : n'.attrs.group ≠ n.attrs.group → n.attrs.owner = a.user
  mode : n'.attrs.mode ≠ n.attrs.mode → n.attrs.owner = a.user
  content : n'.content ≠ n.content → a.may n .write = true
  names : Table.keys n'.children ≠ Table.keys n.children → a.may n .write = true

structure Written (a : Actor) (n n' : Node) : Prop where
  rights : Node.SameRights n n'
  data : a.may n .write = true ∨ Node.SameData n n'

theorem written_of_similar (h : Node.Similar n n') : Written a n n' :=
  ⟨h.toSameRights, .inr h.toSameData⟩

theorem Written.permitted (h : Written a n n') : Permitted a n n' := by
  refine ⟨h.rights.isDir, h.rights.owner, fun hne => absurd h.rights.group hne,
    fun hne => absurd h.rights.mode hne, fun hne => ?_, fun hne => ?_⟩
  · exact h.data.resolve_right fun hsame => hne hsame.content
  · exact h.data.resolve_right fun hsame => hne hsame.names

theorem permitted_of_similar (h : Node.Similar n n') : Permitted a n n' :=
  (written_of_similar h).permitted

theorem may_of_sameRights (h : Node.SameRights n n') (permission : Permission) :
    a.may n' permission = a.may n permission := by
  unfold Actor.may
  rw [h.owner, h.group, h.mode]

theorem Written.trans (h : Written a n m) (h' : Written a m n') : Written a n n' := by
  have hr := h.rights
  have hr' := h'.rights
  refine ⟨⟨hr'.isDir.trans hr.isDir, hr'.owner.trans hr.owner, hr'.group.trans hr.group,
    hr'.mode.trans hr.mode⟩, ?_⟩
  rcases h.data with hwrite | hsame
  · exact .inl hwrite
  · rcases h'.data with hwrite | hsame'
    · rw [may_of_sameRights hr] at hwrite
      exact .inl hwrite
    · exact .inr ⟨hsame'.content.trans hsame.content, hsame'.names.trans hsame.names⟩

theorem Permitted.similar (h : Permitted a n m) (h' : Node.Similar m n') : Permitted a n n' := by
  refine ⟨h'.isDir.trans h.isDir, h'.owner.trans h.owner, ?_, ?_, ?_, ?_⟩
  · rw [h'.group]
    exact h.group
  · rw [h'.mode]
    exact h.mode
  · rw [h'.content]
    exact h.content
  · rw [h'.names]
    exact h.names

theorem Assignment.permitted {f : Attributes → Attributes} (h : Assignment a n f)
    (ha : a.user ≠ rootUser) : Permitted a n (n.mapAttrs f) := by
  have howner (howns : a.owns n = true) : n.attrs.owner = a.user := by
    unfold Actor.owns at howns
    simpa [ha, eq_comm] using howns
  have hcontent : (n.mapAttrs f).content = n.content := by cases n <;> rfl
  have hnames : Table.keys (n.mapAttrs f).children = Table.keys n.children := by simp
  cases h with
  | owner owner isRoot _ => exact absurd isRoot ha
  | group group owns _ =>
    exact ⟨by simp, by simp, fun _ => howner owns, fun _ => howner owns, absurd hcontent,
      absurd hnames⟩
  | mode mode owns _ =>
    exact ⟨by simp, by simp, fun _ => howner owns, fun _ => howner owns, absurd hcontent,
      absurd hnames⟩

theorem kept_stamp (fs : FileSystem) (now : Time) (p q : Place) :
    Node.Kept Node.Similar fs.root (fs.stamp now p).root q := by
  have htouch (n : Node) (r s : Place) :
      Node.Kept Node.Similar n (Node.modify (Node.touched now) r n) s :=
    Node.kept_modify (fun _ _ h => h) fun m t _ _ => Node.kept_of_children (fun _ _ h => h)
      (Node.similar_touched now m) (Node.children_touched now m) t
  have htrans (x y z : Node) (hxy : Node.Similar x y) (hyz : Node.Similar y z) :
      Node.Similar x z :=
    ⟨⟨hyz.isDir.trans hxy.isDir, hyz.owner.trans hxy.owner, hyz.group.trans hxy.group,
      hyz.mode.trans hxy.mode⟩, hyz.content.trans hxy.content, hyz.names.trans hxy.names⟩
  unfold stamp
  dsimp only
  split
  · exact htouch fs.root p q
  · exact (htouch fs.root p q).trans (htouch _ p.parent q) htrans

theorem kept_edited {f : Node → Node} (hchildren : ∀ m, (f m).children = m.children)
    (hf : ∀ m, fs.at? p = some m → Permitted a m (f m)) (now : Time) (q : Place) :
    Node.Kept (Permitted a) fs.root ((fs.modify p f).stamp now p).root q := by
  have hmodify : Node.Kept (Permitted a) fs.root (fs.modify p f).root q :=
    Node.kept_modify (fun _ _ => permitted_of_similar) fun m r hm _ =>
      Node.kept_of_children (fun _ _ => permitted_of_similar) (hf m hm) (hchildren m) r
  exact hmodify.trans (kept_stamp (fs.modify p f) now p q) fun _ _ _ h h' => h.similar h'

theorem kept_insert (hd : fs.at? p = some d) (hdir : d.isDir = true)
    (hwrite : a.may d .write = true) (hq : ¬ p ++ [name] <+: q) :
    Node.Kept (Written a) fs.root (fs.insert now p name c).root q := by
  refine Node.kept_modify (fun _ _ => written_of_similar) fun m r hm hr => ?_
  rw [show fs.root.at? p = some d from hd] at hm
  cases hm
  rw [hr] at hq
  have hchild : ¬ [name] <+: r := not_singleton_prefix hq
  exact Node.kept_withChild (fun _ _ => written_of_similar) hdir
    ⟨Node.sameRights_withChild now name c d, .inl hwrite⟩ hchild

theorem kept_detach (hd : fs.at? p = some d) (hwrite : a.may d .write = true) (now : Time)
    (name : String) (q : Place) :
    Node.Kept (Written a) fs.root (fs.detach now p name).root q := by
  refine Node.kept_modify (fun _ _ => written_of_similar) fun m r hm _ => ?_
  rw [show fs.root.at? p = some d from hd] at hm
  cases hm
  exact Node.kept_without (fun _ _ => written_of_similar)
    ⟨Node.sameRights_without now name d, .inl hwrite⟩ r

/-- A node that an edit leaves at a place was carried there, changed within what is permitted, or is
new and belongs to the actor. -/
inductive Origin (a : Actor) (fs : FileSystem) (carry : Place → Place) (q : Place) (n' : Node) : Prop
  | carried {p : Place} {n : Node} (found : fs.at? p = some n) (target : carry p = q)
      (permitted : Permitted a n n') : Origin a fs carry q n'
  | made (free : ∀ p n, fs.at? p = some n → carry p ≠ q) (owner : n'.attrs.owner = a.user) :
      Origin a fs carry q n'

theorem Origin.of_kept (h : Node.Kept (Permitted a) fs.root fs'.root q) (hn' : fs'.at? q = some n') :
    Origin a fs id q n' := by
  obtain ⟨n, hn, hpermitted⟩ := h n' hn'
  exact .carried hn rfl hpermitted

theorem owner_of_attributes (m : Node) (mode : Nat) (h : m.attrs = a.attributes mode) :
    m.attrs.owner = a.user := by
  rw [h]
  rfl

theorem origin_insert (site : Site a fs p name d)
    (hc : c.Everywhere fun m => m.attrs.owner = a.user)
    (hn' : (fs.insert now p name c).at? q = some n') : Origin a fs id q n' := by
  by_cases hq : p ++ [name] <+: q
  · refine .made (fun r n hn hr => ?_) ?_
    · have hrq : r = q := hr
      rw [← hrq] at hq
      exact not_below_free site.found site.free hn hq
    · obtain ⟨r, rfl⟩ := hq
      rw [List.append_assoc, List.singleton_append, at?_insert site.found site.isDir] at hn'
      exact hc r n' hn'
  · obtain ⟨n, hn, hwritten⟩ := kept_insert site.found site.isDir site.writable hq n' hn'
    exact .carried hn rfl hwritten.permitted

theorem origin_relocated {src parent : Place} (hsrc : src ≠ []) (hn : fs.at? src = some n)
    (hd : fs.at? src.parent = some d) (hwrite : a.may d .write = true)
    (site : Site a fs parent name e) (hout : ¬ src <+: parent)
    (hn' : (fs.relocated now src n parent name).at? q = some n') :
    Origin a fs (cwdAfterMove · src (parent ++ [name])) q n' := by
  obtain ⟨e', he', hdir', -⟩ := detached_parent hsrc hout site.found site.isDir site.free now
  change ((fs.detach now src.parent src.name).insert now parent name (n.touched now)).at? q = _ at hn'
  by_cases hq : parent ++ [name] <+: q
  · -- What is at or below the new place stood at or below the old one.
    obtain ⟨r, rfl⟩ := hq
    rw [List.append_assoc, List.singleton_append, at?_insert he' hdir'] at hn'
    obtain ⟨m, hm, hsimilar⟩ := Node.kept_of_children (fun _ _ h => h)
      (Node.similar_touched now n) (Node.children_touched now n) r n' hn'
    refine .carried (p := src ++ r) (n := m) ?_ (cwdAfterMove_below src _ r)
      (permitted_of_similar hsimilar)
    rw [at?_append hn]
    exact hm
  · -- Elsewhere the leaving and the coming of the node change only the two directories.
    have hleave := kept_detach hd hwrite now src.name parent
    obtain ⟨e₀, he₀, hwritten⟩ := hleave e' he'
    rw [show fs.root.at? parent = some e from site.found] at he₀
    cases he₀
    have hwrite' : a.may e' .write = true :=
      (may_of_sameRights hwritten.rights .write).trans site.writable
    obtain ⟨y, hy, hwritten'⟩ := kept_insert he' hdir' hwrite' hq n' hn'
    obtain ⟨x, hx, hwritten⟩ := kept_detach hd hwrite now src.name q y hy
    have hbeside : ¬ src <+: q := by
      rintro ⟨r, rfl⟩
      have hgone : (fs.detach now src.parent src.name).at? (src ++ r) = none :=
        at?_append_eq_none (at?_detach_self hsrc now) r
      rw [show (fs.detach now src.parent src.name).root.at? (src ++ r) = none from hgone] at hy
      cases hy
    exact .carried hx (cwdAfterMove_beside hbeside _) (hwritten.trans hwritten').permitted

theorem Edit.origin (h : Edit a fs carry fs') (ha : a.user ≠ rootUser) (hn' : fs'.at? q = some n') :
    Origin a fs carry q n' := by
  have hsame : Permitted a n' n' := permitted_of_similar (Node.Similar.refl n')
  cases h with
  | same => exact .carried hn' rfl hsame
  | entered found isDir allowed => exact .carried hn' rfl hsame
  | made graft new =>
    cases graft with
    | intro site valid =>
      have hleaf := new.everywhere owner_of_attributes
      exact origin_insert site (everywhere_chain owner_of_attributes hleaf _) hn'
  | @written p attrs old text found allowed =>
    refine .of_kept (kept_edited (Node.children_setContent text) (fun m hm => ?_) a.now q) hn'
    rw [found] at hm
    cases hm
    exact Written.permitted ⟨⟨rfl, rfl, rfl, rfl⟩, .inl allowed⟩
  | stamped found allowed =>
    obtain ⟨n, hn, hsimilar⟩ := kept_stamp fs a.now _ q n' hn'
    exact .carried hn rfl (permitted_of_similar hsimilar)
  | @assigned p n f found allowed =>
    refine .of_kept (kept_edited (Node.children_mapAttrs f) (fun m hm => ?_) a.now q) hn'
    rw [found] at hm
    cases hm
    exact allowed.permitted ha
  | removed recursive notRoot found above writable removable =>
    obtain ⟨n, hn, hwritten⟩ := kept_detach above writable a.now _ q n' hn'
    exact .carried hn rfl hwritten.permitted
  | moved notRoot found above writable site valid outside =>
    exact origin_relocated notRoot found above writable site
      (not_below_source found site.found site.isDir outside) hn'
  | copied found site valid cloned =>
    exact origin_insert site (everywhere_clone owner_of_attributes cloned) hn'

/-- No edit carries two nodes to one place. -/
theorem Edit.carry_injective (h : Edit a fs carry fs') (hn : fs.at? p = some n)
    (hm : fs.at? q = some m) (hpq : carry p = carry q) : p = q := by
  cases h with
  | @moved src parent name _ _ _ notRoot found above writable site valid outside =>
    have hfree {p : Place} {n : Node} (hn : fs.at? p = some n) (r : Place) :
        p ≠ parent ++ [name] ++ r :=
      fun heq => not_below_free site.found site.free hn ⟨r, heq.symm⟩
    by_cases hp : src <+: p
    · obtain ⟨r, rfl⟩ := hp
      by_cases hq : src <+: q
      · obtain ⟨s, rfl⟩ := hq
        simp only [cwdAfterMove_below] at hpq
        rw [List.append_cancel_left hpq]
      · simp only [cwdAfterMove_below, cwdAfterMove_beside hq] at hpq
        exact absurd hpq.symm (hfree hm r)
    · by_cases hq : src <+: q
      · obtain ⟨s, rfl⟩ := hq
        simp only [cwdAfterMove_below, cwdAfterMove_beside hp] at hpq
        exact absurd hpq (hfree hn s)
      · simpa only [cwdAfterMove_beside hp, cwdAfterMove_beside hq] using hpq
  | _ => exact hpq

/-- A child stays with its directory under its name, unless the actor may write on the directory. -/
theorem Edit.carry_child (h : Edit a fs carry fs') (hn : fs.at? p = some n) (name : String) :
    carry (p ++ [name]) = carry p ++ [name] ∨ a.may n .write = true := by
  cases h with
  | @moved src parent new _ d _ notRoot found above writable site valid outside =>
    by_cases hp : src <+: p
    · obtain ⟨r, rfl⟩ := hp
      left
      simp only [List.append_assoc, cwdAfterMove_below]
    · by_cases hsrc : src = p ++ [name]
      · right
        have hparent : src.parent = p := by rw [hsrc, parent_concat]
        rw [hparent, hn] at above
        cases above
        exact writable
      · left
        have hchild : ¬ src <+: p ++ [name] := by
          intro hpre
          rcases List.prefix_concat_iff.mp hpre with heq | hpre
          · exact hsrc heq
          · exact hp hpre
        simp only [cwdAfterMove_beside hp, cwdAfterMove_beside hchild]
  | _ => exact .inl rfl

theorem Removed.writable (h : Removed a fs p true fs') (hn : fs.at? p = some n)
    (hfull : n.children ≠ []) :
    (∃ d, fs.at? p.parent = some d ∧ a.may d .write = true) ∧
      ∀ q m, n.at? q = some m → m.isDir = true → a.may m .write = true := by
  cases h with
  | intro notRoot found above writable removable =>
    rw [hn] at found
    cases found
    refine ⟨⟨_, above, writable⟩, fun q m hm hdir => ?_⟩
    have hnonempty : (n.isDir && !n.children.isEmpty) = true := by
      cases n with
      | file attrs content => exact absurd rfl hfull
      | dir attrs cs => simpa [Node.isDir, Node.children] using hfull
    rw [checkContents, if_pos hnonempty, if_pos rfl] at removable
    exact may_write_of_checkRemovable removable hm hdir

theorem Request.ends_removed {r : Request} {path : String} {recursive : Bool}
    (hr : r = .remove path recursive ∨ r = .delete path recursive) :
    (r.run a).Ends fs (· = fs) fun res fs' =>
      Settled (Removed a fs (fs.place path) recursive) fs res fs' := by
  rcases hr with rfl | rfl
  · exact ends_plainly (ends_remove path recursive)
  · exact ends_silently (ends_report (ends_remove path recursive) fun _ => rfl)

/-- Any request but a creation that names the owner makes an edit if it succeeds. -/
theorem Request.edit_of_success (hroot : fs.root.isDir = true) {r : Request}
    (hr : ∀ path c, r ≠ .create path c) {res : Result Unit}
    (hrun : (r.run a).run fs = (.ok res, fs')) (hres : res.success = true) :
    Edit a fs (r.carry a fs) fs' := by
  have hsettled := (Request.ends_outcome (a := a) hroot r).value hrun
  rw [Settled, if_pos hres] at hsettled
  cases hsettled with
  | edit h => exact h
  | @created path c _ _ _ _ _ => exact absurd rfl (hr path c)

/-- A successful request of an actor other than root: a node that stood before keeps its owner, has a
new group or mode only if the actor owned it, and a new text or other children only if the actor could
write on it; a full directory is removed only if the actor could write on all of it; and what was not
there before belongs to the actor. -/
theorem Reachable.changes_within_rights (h : Reachable fs) (ha : a.user ≠ rootUser) {r : Request}
    (hr : ∀ path c, r ≠ .create path c) {res : Result Unit}
    (hrun : (r.run a).run fs = (.ok res, fs')) (hres : res.success = true) :
    (∀ p n n', fs.at? p = some n → fs'.at? (r.carry a fs p) = some n' →
      Permitted a n n' ∧ ∀ name c, n.child? name = some c →
        r.carry a fs (p ++ [name]) ≠ r.carry a fs p ++ [name] → a.may n .write = true) ∧
    (∀ path n, r = .remove path true ∨ r = .delete path true →
      fs.at? (fs.place path) = some n → n.children ≠ [] →
      (∃ d, fs.at? (fs.place path).parent = some d ∧ a.may d .write = true) ∧
        ∀ q m, n.at? q = some m → m.isDir = true → a.may m .write = true) ∧
    (∀ q n', fs'.at? q = some n' → (∀ p n, fs.at? p = some n → r.carry a fs p ≠ q) →
      n'.attrs.owner = a.user) := by
  have hedit := Request.edit_of_success h.wellFormed.root_isDir hr hrun hres
  refine ⟨fun p n n' hn hn' => ⟨?_, fun name c _ hmoved => ?_⟩, fun path n hpath hn hfull => ?_,
    fun q n' hn' hnew => ?_⟩
  · cases hedit.origin ha hn' with
    | carried found target permitted =>
      have hplace := hedit.carry_injective found hn target
      subst hplace
      rw [hn] at found
      cases found
      exact permitted
    | made free _ => exact absurd rfl (free p n hn)
  · exact (hedit.carry_child hn name).resolve_left hmoved
  · have hsettled : Settled (Removed a fs (fs.place path) true) fs res fs' :=
      (Request.ends_removed hpath).value hrun
    rw [Settled, if_pos hres] at hsettled
    exact Removed.writable hsettled hn hfull
  · cases hedit.origin ha hn' with
    | carried found target _ => exact absurd target (hnew _ _ found)
    | made _ owner => exact owner

theorem Reachable.changes_within_rights_opened :
    let ada : Actor := ⟨"ada", {}, default⟩
    let fs := fresh {} default (some "ada")
    let fs' := (((Request.changeMode "/home/ada" (.number 0o755)).run ada).run fs).2
    (fs.at? ["home", "ada"]).map (·.attrs.mode) = some 0o700 ∧
      (fs'.at? ["home", "ada"]).map (·.attrs.mode) = some 0o755 ∧
      ∀ n n', fs.at? ["home", "ada"] = some n → fs'.at? ["home", "ada"] = some n' →
        Permitted ada n n' := by
  refine ⟨rfl, rfl, fun n n' hn hn' => ?_⟩
  have hfs : Reachable (fresh {} default (some "ada")) := reachable_fresh {} default (by decide)
  exact ((Reachable.changes_within_rights hfs (by decide)
    (r := .changeMode "/home/ada" (.number 0o755)) (by simp) rfl rfl).1
      ["home", "ada"] n n' hn hn').1

end FileSystem
end MemShell
