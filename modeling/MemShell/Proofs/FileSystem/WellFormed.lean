import MemShell.Proofs.Tree.Paths
import MemShell.Proofs.FileSystem.Changes
import MemShell.Proofs.FileSystem.Clones
set_option autoImplicit false

namespace MemShell

namespace Node
variable {n m d c : Node} {name : String}

/-- What a node shows of itself: nine mode bits, and children with valid names, each of them once. -/
structure Sound (n : Node) : Prop where
  mode : n.attrs.mode ≤ 0o777
  nodup : (Table.keys n.children).Nodup
  names : ∀ name ∈ Table.keys n.children, isValidName name = true

theorem Sound.of_keys (h : n.Sound) (hmode : m.attrs.mode ≤ 0o777)
    (hkeys : Table.keys m.children = Table.keys n.children) : m.Sound :=
  ⟨hmode, hkeys ▸ h.nodup, hkeys ▸ h.names⟩

theorem sound_of_no_children (hmode : n.attrs.mode ≤ 0o777) (h : n.children = []) : n.Sound := by
  refine ⟨hmode, ?_, ?_⟩ <;> rw [h] <;> simp [Table.keys]

theorem Sound.modify_cons (h : n.Sound) (f : Node → Node) (name : String) (rest : Place) :
    (modify f (name :: rest) n).Sound := by
  refine h.of_keys ?_ (keys_modify_cons f name rest n)
  rw [attrs_modify_cons]
  exact h.mode

theorem isValidName_of_child? (h : n.Sound) (hc : n.child? name = some c) :
    isValidName name = true :=
  h.names name (List.mem_map.mpr ⟨_, Table.mem_of_get? hc, rfl⟩)

theorem isValidName_of_at? {p : Place} (h : n.Everywhere Sound) (hm : n.at? p = some m) :
    ∀ name ∈ p, isValidName name = true := by
  induction p generalizing n with
  | nil => simp
  | cons name rest ih =>
    rw [at?_cons] at hm
    obtain ⟨c, hc, hm⟩ := Option.bind_eq_some_iff.mp hm
    intro other hother
    rcases List.mem_cons.mp hother with rfl | hother
    · exact isValidName_of_child? h.self hc
    · exact ih (((everywhere_iff n).mp h).2 name c hc) hm other hother

theorem sound_of_mem {attrs : Attributes} {cs : List (String × Node)}
    (h : (dir attrs cs).Everywhere Sound) (hm : (name, m) ∈ cs) : m.Everywhere Sound :=
  ((everywhere_iff _).mp h).2 name m (Table.get?_of_mem h.self.nodup hm)

theorem sound_of_children (h : n.Everywhere Sound) (hmode : m.attrs.mode ≤ 0o777)
    (hchildren : m.children = n.children) : m.Everywhere Sound :=
  h.of_children (h.self.of_keys hmode (by rw [hchildren])) hchildren

theorem sound_mapAttrs {f : Attributes → Attributes} (h : n.Everywhere Sound)
    (hf : (f n.attrs).mode ≤ 0o777) : (n.mapAttrs f).Everywhere Sound := by
  refine sound_of_children h ?_ (children_mapAttrs f n)
  rw [attrs_mapAttrs]
  exact hf

theorem sound_touched (h : n.Everywhere Sound) (now : Time) : (n.touched now).Everywhere Sound :=
  sound_mapAttrs h h.self.mode

theorem sound_setContent (h : n.Everywhere Sound) (text : String) :
    (n.setContent text).Everywhere Sound := by
  refine sound_of_children h ?_ (children_setContent text n)
  rw [attrs_setContent]
  exact h.self.mode

theorem sound_withChild (hd : d.Everywhere Sound) (hc : c.Everywhere Sound)
    (hname : isValidName name = true) (now : Time) :
    (withChild now name c d).Everywhere Sound := by
  cases d with
  | file attrs text => exact sound_touched hd now
  | dir attrs cs =>
    have hkeys : Table.keys (withChild now name c (.dir attrs cs)).children =
        if name ∈ Table.keys cs then Table.keys cs else Table.keys cs ++ [name] := by
      rw [children_withChild rfl]
      exact Table.keys_put cs name c
    refine (everywhere_iff _).mpr ⟨⟨hd.self.mode, ?_, ?_⟩, fun other m hm => ?_⟩
    · rw [hkeys]
      split
      · exact hd.self.nodup
      · next hnew =>
        refine List.nodup_append.mpr ⟨hd.self.nodup, by simp, ?_⟩
        intro x hx y hy hxy
        rw [List.mem_singleton.mp hy] at hxy
        exact hnew (hxy ▸ hx)
    · intro x hx
      rw [hkeys] at hx
      split at hx
      · exact hd.self.names x hx
      · rcases List.mem_append.mp hx with hx | hx
        · exact hd.self.names x hx
        · rw [List.mem_singleton.mp hx]
          exact hname
    · rw [child?_withChild rfl] at hm
      split at hm
      · cases hm
        exact hc
      · exact ((everywhere_iff _).mp hd).2 other m hm

theorem sound_without (hd : d.Everywhere Sound) (now : Time) (name : String) :
    (without now name d).Everywhere Sound := by
  have hkeys : Table.keys (without now name d).children =
      (Table.keys d.children).filter fun k => decide (k ≠ name) := by
    rw [children_without]
    exact Table.keys_erase d.children name
  have hmode : (without now name d).attrs.mode = d.attrs.mode := by cases d <;> rfl
  refine (everywhere_iff _).mpr ⟨⟨hmode ▸ hd.self.mode, ?_, ?_⟩, fun other m hm => ?_⟩
  · rw [hkeys]
    exact hd.self.nodup.filter _
  · intro x hx
    rw [hkeys] at hx
    exact hd.self.names x (List.mem_filter.mp hx).1
  · rw [child?_without] at hm
    split at hm
    · cases hm
    · exact ((everywhere_iff _).mp hd).2 other m hm

end Node

namespace FileSystem
variable {fs fs' : FileSystem} {a : Actor} {p src : Place} {name : String} {leaf d n c : Node}

theorem New.sound (h : New a n) : n.Everywhere Node.Sound := by
  have hmode : n.attrs.mode ≤ 0o777 := by
    cases h with
    | directory => exact (by decide : Mode.ofDirectory ≤ 0o777)
    | file content => exact (by decide : Mode.ofFile ≤ 0o777)
  exact Node.everywhere_of_no_children (Node.sound_of_no_children hmode h.children) h.children

theorem sound_chain (hleaf : leaf.Everywhere Node.Sound) {names : List String}
    (hnames : ∀ n ∈ names, isValidName n = true) : (a.chain names leaf).Everywhere Node.Sound := by
  induction names with
  | nil => exact hleaf
  | cons name rest ih =>
    have hrest := ih fun n hn => hnames n (by simp [hn])
    have hnew : a.newDirectory.Everywhere Node.Sound := New.directory.sound
    exact Node.sound_withChild hnew hrest (hnames name (by simp)) a.now

theorem sound_clone (h : clone a src n = .ok c) (hn : n.Everywhere Node.Sound) :
    c.Everywhere Node.Sound := by
  intro p m' hm'
  obtain ⟨m, hm, hcloned⟩ := at?_clone h hm'
  have hsound : m.Sound := hn p m hm
  refine hsound.of_keys ?_ hcloned.names
  rw [hcloned.attrs]
  exact hsound.mode

structure WellFormed (fs : FileSystem) : Prop where
  root_isDir : fs.root.isDir = true
  sound : fs.root.Everywhere Node.Sound
  cwd_isDir : fs.kind? fs.cwd = some true

theorem WellFormed.sound_at? (h : fs.WellFormed) (hn : fs.at? p = some n) :
    n.Everywhere Node.Sound := h.sound.below hn

/-- Whoever is found is found at a place that has a path. -/
theorem WellFormed.plain (h : fs.WellFormed) (hn : fs.at? p = some n) : p.Plain :=
  fun name hname => plainName_of_isValidName (Node.isValidName_of_at? h.sound hn name hname)

theorem WellFormed.isValidName_name (h : fs.WellFormed) (hp : p ≠ []) (hn : fs.at? p = some n) :
    isValidName p.name = true := by
  refine Node.isValidName_of_at? h.sound hn p.name ?_
  rw [Place.name, List.getLast?_eq_some_getLast hp, Option.getD_some]
  exact List.getLast_mem hp

theorem sound_modify (h : fs.root.Everywhere Node.Sound) {f : Node → Node}
    (hf : ∀ m, fs.at? p = some m → m.Everywhere Node.Sound → (f m).Everywhere Node.Sound) :
    (fs.modify p f).root.Everywhere Node.Sound :=
  h.modify (fun m hm => hf m hm (h.below hm)) fun _ g name rest hm => hm.modify_cons g name rest

theorem sound_stamp (h : fs.root.Everywhere Node.Sound) (now : Time) (p : Place) :
    (fs.stamp now p).root.Everywhere Node.Sound := by
  have hself : (fs.modify p (Node.touched now)).root.Everywhere Node.Sound :=
    sound_modify h fun _ _ hm => Node.sound_touched hm now
  unfold stamp
  dsimp only
  split
  · exact hself
  · exact sound_modify hself fun _ _ hm => Node.sound_touched hm now

theorem sound_insert (h : fs.root.Everywhere Node.Sound) (hc : c.Everywhere Node.Sound)
    (hname : isValidName name = true) (now : Time) (p : Place) :
    (fs.insert now p name c).root.Everywhere Node.Sound :=
  sound_modify h fun _ _ hm => Node.sound_withChild hm hc hname now

theorem sound_detach (h : fs.root.Everywhere Node.Sound) (now : Time) (p : Place) (name : String) :
    (fs.detach now p name).root.Everywhere Node.Sound :=
  sound_modify h fun _ _ hm => Node.sound_without hm now name

theorem isDir_root_modify {f : Node → Node} (hf : ∀ m, (f m).isDir = m.isDir) :
    (fs.modify p f).root.isDir = fs.root.isDir := Node.isDir_modify hf p fs.root

theorem isDir_root_insert (now : Time) :
    (fs.insert now p name c).root.isDir = fs.root.isDir :=
  isDir_root_modify (Node.isDir_withChild now name c)

theorem isDir_root_detach (now : Time) : (fs.detach now p name).root.isDir = fs.root.isDir :=
  isDir_root_modify (Node.isDir_without now name)

theorem isDir_root_stamp (now : Time) : (fs.stamp now p).root.isDir = fs.root.isDir := by
  have hkind : (fs.stamp now p).kind? [] = fs.kind? [] := kind?_stamp []
  exact Option.some.inj hkind

theorem cwd_stamp (now : Time) : (fs.stamp now p).cwd = fs.cwd := by
  unfold stamp
  dsimp only
  split <;> rfl

theorem WellFormed.edited (h : fs.WellFormed) {f : Node → Node} (hdir : ∀ m, (f m).isDir = m.isDir)
    (hchildren : ∀ m, (f m).children = m.children)
    (hf : ∀ m, fs.at? p = some m → m.Everywhere Node.Sound → (f m).Everywhere Node.Sound)
    (now : Time) : ((fs.modify p f).stamp now p).WellFormed := by
  refine ⟨?_, sound_stamp (sound_modify h.sound hf) now p, ?_⟩
  · rw [isDir_root_stamp, isDir_root_modify hdir]
    exact h.root_isDir
  · rw [cwd_stamp, kind?_stamp, kind?_modify_of_children hdir hchildren]
    exact h.cwd_isDir

theorem WellFormed.inserted (h : fs.WellFormed) (hd : fs.at? p = some d)
    (hfree : d.child? name = none) (hname : isValidName name = true)
    (hc : c.Everywhere Node.Sound) (now : Time) : (fs.insert now p name c).WellFormed := by
  refine ⟨(isDir_root_insert now).trans h.root_isDir, sound_insert h.sound hc hname now p, ?_⟩
  obtain ⟨w, hw, -⟩ := Node.kind?_eq_some_iff.mp h.cwd_isDir
  exact (kind?_insert (not_below_free hd hfree hw)).trans h.cwd_isDir

theorem Grafted.wellFormed (h : Grafted a fs p leaf fs') (hfs : fs.WellFormed)
    (hleaf : leaf.Everywhere Node.Sound) : fs'.WellFormed := by
  cases h with
  | intro site valid =>
    have hchain := sound_chain (a := a) hleaf fun n hn => valid n (List.mem_cons_of_mem _ hn)
    exact hfs.inserted site.found site.free (valid _ (by simp)) hchain a.now

/-- The working directory is taken away with all that it is in. The places are compared by their paths,
which for plain places is the same as by their names. -/
theorem cwdAfterRemoval_eq {cwd : Place} (hcwd : cwd.Plain) (hp : p.Plain) (hne : p ≠ []) :
    cwdAfterRemoval cwd p = if p <+: cwd then p.parent else cwd := by
  unfold cwdAfterRemoval
  by_cases hwithin : p <+: cwd
  · have htaken : cwd = p ∨ (p.text ++ "/").toList.isPrefixOf (Place.text cwd).toList = true := by
      obtain ⟨r, rfl⟩ := hwithin
      cases r with
      | nil => exact .inl (List.append_nil p)
      | cons name rest =>
        exact .inr (Place.text_slash_isPrefixOf hne (List.cons_ne_nil name rest) hcwd)
    rw [if_pos htaken, if_pos hwithin]
  · have hother : ¬ (cwd = p ∨ (p.text ++ "/").toList.isPrefixOf (Place.text cwd).toList = true) := by
      rintro (rfl | htext)
      · exact hwithin List.prefix_rfl
      · exact hwithin (Place.isPrefix_of_text_slash hp hcwd htext)
    have houtside : ¬ cwd.within p = true := fun h => hwithin (List.isPrefixOf_iff_prefix.mp h)
    rw [if_neg hother, if_neg hwithin, if_neg houtside]

theorem WellFormed.plain_cwd (h : fs.WellFormed) : fs.cwd.Plain := by
  obtain ⟨w, hw, -⟩ := Node.kind?_eq_some_iff.mp h.cwd_isDir
  exact h.plain hw

theorem not_prefix_parent (hp : p ≠ []) : ¬ p <+: p.parent := by
  intro hprefix
  have hlength := hprefix.length_le
  rw [Place.parent, List.length_dropLast] at hlength
  have hpos := List.length_pos_iff.mpr hp
  omega

/-- After a removal the working directory is one that is left. -/
theorem WellFormed.removed (h : fs.WellFormed) (hp : p ≠ []) (hn : fs.at? p = some n)
    (hd : fs.at? p.parent = some d) (hdir : d.isDir = true) (now : Time) :
    ({ fs with cwd := cwdAfterRemoval fs.cwd p }.detach now p.parent p.name).WellFormed := by
  refine ⟨(isDir_root_detach now).trans h.root_isDir, sound_detach h.sound now p.parent p.name, ?_⟩
  have hleft {q : Place} (hq : fs.kind? q = some true) (hout : ¬ p <+: q) :
      (fs.detach now p.parent p.name).kind? q = some true := by
    rw [kind?_detach (by rwa [parent_append_name hp])]
    exact hq
  change (fs.detach now p.parent p.name).kind? (cwdAfterRemoval fs.cwd p) = some true
  rw [cwdAfterRemoval_eq h.plain_cwd (h.plain hn) hp]
  split
  · exact hleft ((kind?_of_at? hd).trans (congrArg some hdir)) (not_prefix_parent hp)
  · next hout => exact hleft h.cwd_isDir hout

/-- After a move the working directory is the one it was, wherever that stands now. -/
theorem WellFormed.relocated (h : fs.WellFormed) {parent : Place} {e : Node} (hsrc : src ≠ [])
    (hn : fs.at? src = some n) (he : fs.at? parent = some e) (hdir : e.isDir = true)
    (hfree : e.child? name = none) (hname : isValidName name = true) (hout : ¬ src <+: parent)
    (now : Time) : (fs.relocated now src n parent name).WellFormed := by
  have hroot : (fs.detach now src.parent src.name).root.isDir = true :=
    (isDir_root_detach now).trans h.root_isDir
  have hsound := sound_detach h.sound now src.parent src.name
  have hnode := Node.sound_touched (h.sound_at? hn) now
  refine ⟨(isDir_root_insert now).trans hroot, sound_insert hsound hnode hname now parent, ?_⟩
  obtain ⟨e', he', hdir', hfree'⟩ := detached_parent hsrc hout he hdir hfree now
  change ((fs.detach now src.parent src.name).insert now parent name (n.touched now)).kind?
    (cwdAfterMove fs.cwd src (parent ++ [name])) = some true
  unfold cwdAfterMove
  split
  · -- The working directory moves along.
    next hwithin =>
    obtain ⟨r, hr⟩ := List.isPrefixOf_iff_prefix.mp hwithin
    have hplace : parent ++ [name] ++ fs.cwd.drop src.length = parent ++ name :: r := by
      rw [← hr, List.drop_left, List.append_assoc]
      rfl
    have hbelow : ((fs.detach now src.parent src.name).insert now parent name
        (n.touched now)).kind? (parent ++ name :: r) = (n.touched now).kind? r := by
      rw [kind?, Node.kind?]
      exact congrArg _ (at?_insert he' hdir' r)
    have hcwd : n.kind? r = some true := by
      have hold := h.cwd_isDir
      rw [← hr, kind?, Node.kind?_append, show fs.root.at? src = some n from hn] at hold
      exact hold
    rw [hplace, hbelow]
    exact (Node.kind?_congr (Node.isDir_touched now n) (Node.children_touched now n) r).trans hcwd
  · -- It stands elsewhere: neither the leaving nor the coming of the node touches it.
    next hwithin =>
    have hcwdOut : ¬ src <+: fs.cwd := fun hpre => hwithin (List.isPrefixOf_iff_prefix.mpr hpre)
    have hleft : (fs.detach now src.parent src.name).kind? fs.cwd = some true := by
      rw [kind?_detach (by rwa [parent_append_name hsrc])]
      exact h.cwd_isDir
    obtain ⟨w, hw, -⟩ := Node.kind?_eq_some_iff.mp hleft
    exact (kind?_insert (not_below_free he' hfree' hw)).trans hleft

theorem Assignment.small {f : Attributes → Attributes} (h : Assignment a n f)
    (hn : n.attrs.mode ≤ 0o777) : (f n.attrs).mode ≤ 0o777 := by
  cases h with
  | owner owner _ _ => exact hn
  | group group _ _ => exact hn
  | mode mode _ small => exact small

theorem Edit.wellFormed {carry : Place → Place} (h : Edit a fs carry fs') (hfs : fs.WellFormed) :
    fs'.WellFormed := by
  cases h with
  | same => exact hfs
  | entered found isDir allowed =>
    exact ⟨hfs.root_isDir, hfs.sound, (kind?_of_at? found).trans (congrArg some isDir)⟩
  | made graft new => exact graft.wellFormed hfs new.sound
  | written text found allowed =>
    exact hfs.edited (Node.isDir_setContent text) (Node.children_setContent text)
      (fun m _ hm => Node.sound_setContent hm text) a.now
  | stamped found allowed =>
    refine ⟨(isDir_root_stamp a.now).trans hfs.root_isDir, sound_stamp hfs.sound a.now _, ?_⟩
    rw [cwd_stamp, kind?_stamp]
    exact hfs.cwd_isDir
  | @assigned p n f found allowed =>
    refine hfs.edited (Node.isDir_mapAttrs f) (Node.children_mapAttrs f) (fun m hm hsound => ?_) a.now
    rw [found] at hm
    cases hm
    exact Node.sound_mapAttrs hsound (allowed.small hsound.self.mode)
  | removed recursive notRoot found above writable removable =>
    have hchild := (at?_of_parent notRoot above).symm.trans found
    exact hfs.removed notRoot found above (Node.isDir_of_child? hchild) a.now
  | moved notRoot found above writable site valid outside =>
    have hname : isValidName _ = true := valid.elim id fun hsame => by
      rw [hsame]
      exact hfs.isValidName_name notRoot found
    exact hfs.relocated notRoot found site.found site.isDir site.free hname
      (not_below_source found site.found site.isDir outside) a.now
  | copied found site valid cloned =>
    have hname : isValidName _ = true := valid.elim id fun hsame => by
      rw [hsame.1]
      exact hfs.isValidName_name hsame.2 found
    have hclone := sound_clone cloned (hfs.sound_at? found)
    exact hfs.inserted site.found site.free hname (Node.sound_touched hclone a.now) a.now

theorem Change.wellFormed (h : Change a fs fs') (hfs : fs.WellFormed) : fs'.WellFormed := by
  cases h with
  | edit h => exact h.wellFormed hfs
  | created graft new c =>
    exact (graft.modify _).wellFormed hfs (Node.sound_mapAttrs new.sound new.sound.self.mode)

end FileSystem
end MemShell
