import MemShell.Proofs.FileSystem.Labels
import MemShell.Proofs.FileSystem.Owners
set_option autoImplicit false

namespace MemShell.FileSystem
variable {fs fs' t : FileSystem} {a : Actor} {above p q r : Place} {name path : String}
  {rest : List String} {d n m leaf : Node} {parents : Bool}

structure Deepest (fs : FileSystem) (p q : Place) : Prop where
  onWay : q <+: p
  found : (fs.at? q).isSome
  last : ∀ r, r <+: p → (fs.at? r).isSome → r <+: q

/-- An actor can make a node at a place, if the directories that are missing above it may be made. -/
structure Makeable (a : Actor) (fs : FileSystem) (p : Place) : Prop where
  notRoot : p ≠ []
  free : fs.at? p = none
  way : ∀ q n, q <+: p → fs.at? q = some n → n.isDir = true
  writable : ∃ q n, Deepest fs p q ∧ fs.at? q = some n ∧ a.may n .write = true
  valid : ∀ q name, q ++ [name] <+: p → fs.at? (q ++ [name]) = none → isValidName name = true

structure Grown (a : Actor) (fs : FileSystem) (p : Place) (leaf : Node) (fs' : FileSystem) : Prop where
  top : fs'.at? p = some leaf
  found : ∀ q, (fs'.at? q).isSome ↔ (fs.at? q).isSome ∨ q <+: p
  made : ∀ q, q <+: p → q ≠ p → fs.at? q = none →
    ∃ cs, fs'.at? q = some (.dir (a.attributes Mode.ofDirectory) cs)
  above : ∀ q name, Deepest fs p q → q ++ [name] <+: p →
    fs'.label? q = (fs.label? q).map (Label.withName a.now name)
  beside : ∀ q, (fs.at? q).isSome → ¬ Deepest fs p q → fs'.label? q = fs.label? q
  cwd : fs'.cwd = fs.cwd

theorem isSome_above (hn : fs.at? p = some n) (hq : q <+: p) : (fs.at? q).isSome := by
  obtain ⟨r, rfl⟩ := hq
  obtain ⟨m, hm, -⟩ := Node.at?_left_of_append hn
  exact Option.isSome_of_eq_some hm

theorem deepest_of_free (hd : fs.at? above = some d) (hfree : d.child? name = none)
    (rest : List String) : Deepest fs (above ++ name :: rest) above := by
  refine ⟨⟨name :: rest, rfl⟩, Option.isSome_of_eq_some hd, fun r hr hfound => ?_⟩
  rcases prefix_cases hr with habove | ⟨s, -, rfl⟩
  · exact habove
  · rw [at?_below_free hd hfree] at hfound
    cases hfound

theorem Deepest.eq (h : Deepest fs p q) (h' : Deepest fs p r) : q = r :=
  (h'.last q h.onWay h.found).eq_of_length_le (h.last r h'.onWay h'.found).length_le

theorem Grafted.makeable (h : Grafted a fs p leaf fs') : Makeable a fs p := by
  have hfree := h.at?_eq_none
  cases h with
  | @intro above name rest d _ site valid =>
    have hdeepest := deepest_of_free site.found site.free rest
    refine ⟨by simp, hfree, fun q n hq hn => ?_, ⟨above, d, hdeepest, site.found, site.writable⟩,
      fun q other hq hmissing => ?_⟩
    · have habove := hdeepest.last q hq (Option.isSome_of_eq_some hn)
      have hkind := kind?_ne_some_false site.found site.isDir habove
      rw [kind?_of_at? hn] at hkind
      simpa using hkind
    · rcases prefix_cases hq with habove | ⟨r, hr, heq⟩
      · have hfound := isSome_above site.found habove
        rw [hmissing] at hfound
        cases hfound
      · have hlast := congrArg List.getLast? heq
        rw [List.getLast?_concat, List.getLast?_append_of_ne_nil _ (List.cons_ne_nil name r)] at hlast
        have hmem : other ∈ name :: r := List.mem_of_getLast? hlast.symm
        exact valid other ((List.cons_prefix_cons.mpr ⟨rfl, hr⟩).subset hmem)

theorem Makeable.site (h : Makeable a fs p) (hroot : fs.root.isDir = true) :
    ∃ above name rest d, p = above ++ name :: rest ∧ Site a fs above name d ∧
      ∀ n ∈ name :: rest, isValidName n = true := by
  have hclear (q : Place) (hq : q <+: p) : fs.root.kind? q ≠ some false := by
    intro hfile
    obtain ⟨n, hn, hkind⟩ := Node.kind?_eq_some_iff.mp hfile
    rw [h.way q n hq hn] at hkind
    cases hkind
  obtain ⟨above, missing, hnear⟩ := exists_nearest hclear []
  obtain ⟨_, d, rfl, rfl, hd, hdir, hfree⟩ := nearest_ok hroot hnear
  have hd : fs.at? above = some d := hd
  cases missing with
  | nil =>
    have hnone := h.free
    rw [List.append_nil, hd] at hnone
    cases hnone
  | cons name rest =>
    have hfree := hfree name rest rfl
    obtain ⟨q, n, hq, hn, hwrite⟩ := h.writable
    rw [hq.eq (deepest_of_free hd hfree rest), hd] at hn
    cases hn
    refine ⟨above, name, rest, d, rfl, ⟨hd, hdir, hwrite, hfree⟩, fun other hother => ?_⟩
    obtain ⟨front, back, hsplit⟩ := List.append_of_mem hother
    have hway : front ++ [other] <+: name :: rest := ⟨back, by rw [hsplit]; simp⟩
    refine h.valid (above ++ front) other ?_ ?_
    · rw [List.append_assoc]
      exact (List.prefix_append_right_inj above).mpr hway
    · obtain ⟨r, hr, -⟩ := (List.prefix_cons_iff.mp hway).resolve_left (List.concat_ne_nil _ _)
      rw [List.append_assoc, hr, at?_below_free hd hfree]

theorem makeable_iff_grafted (hroot : fs.root.isDir = true) (leaf : Node) :
    Makeable a fs p ↔ ∃ t, Grafted a fs p leaf t := by
  refine ⟨fun h => ?_, fun ⟨_, hgraft⟩ => hgraft.makeable⟩
  obtain ⟨above, name, rest, d, rfl, site, valid⟩ := h.site hroot
  exact ⟨_, .intro site valid⟩

theorem at?_chain_append (a : Actor) (p q : List String) (leaf : Node) :
    (a.chain (p ++ q) leaf).at? p = some (a.chain q leaf) := by
  rw [a.chain_append, a.at?_chain]

/-- In new directories one inside the other there is nothing beside the way to the last of them. -/
theorem prefix_of_at?_chain (hleaf : leaf.children = []) (h : (a.chain rest leaf).at? q = some m) :
    q <+: rest := by
  induction rest generalizing q with
  | nil =>
    cases q with
    | nil => exact List.prefix_rfl
    | cons name q =>
      rw [Actor.chain, Node.at?_cons, Node.child?, hleaf] at h
      cases h
  | cons first rest ih =>
    cases q with
    | nil => exact List.nil_prefix
    | cons name q =>
      rw [Actor.chain, Node.at?_cons, Node.child?, Node.children, Table.get?] at h
      split at h
      · next heq => exact List.cons_prefix_cons.mpr ⟨heq.symm, ih h⟩
      · cases h

theorem Site.label?_insert (site : Site a fs above name d) (hq : (fs.at? q).isSome) (c : Node) :
    (fs.insert a.now above name c).label? q =
      (fs.label? q).map fun l => if q = above then l.withName a.now name else l := by
  obtain ⟨n, hn⟩ := Option.isSome_iff_exists.mp hq
  exact FileSystem.label?_insert site.found site.isDir site.free
    (not_below_free site.found site.free hn)

theorem Site.isSome_insert_iff (site : Site a fs above name d) (hleaf : leaf.children = []) :
    ((fs.insert a.now above name (a.chain rest leaf)).at? q).isSome ↔
      (fs.at? q).isSome ∨ q <+: above ++ name :: rest := by
  have hbelow (r : Place) :
      (fs.insert a.now above name (a.chain rest leaf)).at? (above ++ name :: r) =
        (a.chain rest leaf).at? r := at?_insert site.found site.isDir r
  have hbeside (hq : ¬ above ++ [name] <+: q) :
      ((fs.insert a.now above name (a.chain rest leaf)).at? q).isSome = (fs.at? q).isSome := by
    rw [← isSome_kind?, kind?_insert hq, isSome_kind?]
  have hold (hq : (fs.at? q).isSome) :
      ((fs.insert a.now above name (a.chain rest leaf)).at? q).isSome := by
    obtain ⟨n, hn⟩ := Option.isSome_iff_exists.mp hq
    rwa [hbeside (not_below_free site.found site.free hn)]
  constructor
  · intro hq
    by_cases hin : above ++ [name] <+: q
    · obtain ⟨r, rfl⟩ := hin
      rw [List.append_assoc, List.singleton_append] at hq ⊢
      rw [hbelow] at hq
      obtain ⟨m, hm⟩ := Option.isSome_iff_exists.mp hq
      have hr : name :: r <+: name :: rest :=
        List.cons_prefix_cons.mpr ⟨rfl, prefix_of_at?_chain hleaf hm⟩
      exact .inr ((List.prefix_append_right_inj above).mpr hr)
    · exact .inl (hbeside hin ▸ hq)
  · rintro (hq | hq)
    · exact hold hq
    · rcases prefix_cases hq with habove | ⟨r, ⟨s, rfl⟩, rfl⟩
      · exact hold (isSome_above site.found habove)
      · rw [hbelow, at?_chain_append]
        rfl

theorem Grafted.grown (h : Grafted a fs p leaf fs') (hleaf : leaf.children = []) :
    Grown a fs p leaf fs' := by
  have htop := h.at?
  cases h with
  | @intro above name rest d _ site valid =>
    have hdeepest := deepest_of_free site.found site.free rest
    refine ⟨htop, fun q => site.isSome_insert_iff hleaf, fun q hq hne hmissing => ?_,
      fun q other hq hother => ?_, fun q hq hnot => ?_, rfl⟩
    · rcases prefix_cases hq with habove | ⟨r, ⟨s, rfl⟩, rfl⟩
      · have hfound := isSome_above site.found habove
        rw [hmissing] at hfound
        cases hfound
      · rw [at?_insert site.found site.isDir, at?_chain_append]
        cases s with
        | nil => exact absurd (by rw [List.append_nil]) hne
        | cons next s => exact ⟨_, rfl⟩
    · obtain rfl := hdeepest.eq hq
      rw [List.prefix_append_right_inj, List.cons_prefix_cons] at hother
      rw [site.label?_insert hq.found, hother.1]
      simp only [if_true]
    · have hne : q ≠ above := fun heq => hnot (heq ▸ hdeepest)
      rw [site.label?_insert hq]
      simp only [if_neg hne, Option.map_id']

theorem Making.ends_of_missing (k : Making) (hroot : fs.root.isDir = true)
    (hmissing : fs.at? (fs.place path).parent = none) :
    (k.run a path false).Ends fs (fun _ => True) fun _ _ => False := by
  rw [run_eq]
  refine Work.ends_get_bind (Work.ends_lift_bind trivial ?_)
  rintro ⟨parent, name⟩ hsplit
  obtain ⟨-, rfl, -⟩ := splitParent_eq_ok_iff.mp hsplit
  refine Work.ends_lift_bind trivial fun _ _ => ?_
  exact (ends_ensure_of_missing hroot hmissing).bind fun _ _ h => h.elim

theorem Grafted.run_making {k : Making} (h : Grafted a fs p (k.node a) t)
    (hplace : fs.place path = p) (hparent : parents = true ∨ (fs.at? p.parent).isSome) :
    ((k.run a path parents).run fs).1 = .ok p := by
  cases h with
  | @intro above name rest d _ site valid =>
    rcases List.eq_nil_or_concat' rest with rfl | ⟨front, last, rfl⟩
    · have hstands := run_ensure_of_isDir (a := a) site.found site.isDir parents
      rw [k.run_of_ensured hplace (valid name List.mem_cons_self) hstands site]
    · -- The directory above is made first, and a child of it can always be made then.
      have hsplit : above ++ name :: (front ++ [last]) = above ++ name :: front ++ [last] := by simp
      rw [hsplit] at hplace hparent ⊢
      have hdir : Grafted a fs (above ++ name :: front) a.newDirectory _ :=
        .intro site fun n hn => valid n (List.mem_append_left [last] hn)
      rw [parent_concat, hdir.at?_eq_none] at hparent
      obtain rfl : parents = true := hparent.resolve_right Bool.false_ne_true
      have hlast : isValidName last = true := valid last (by simp)
      rw [k.run_of_ensured hplace hlast hdir.run_ensure (hdir.site last)]

/-- A directory or a file can be made just where only directories are in the way, the last of them can
be written on and the names of the missing ones can be given. What is made are the node and those
directories, and of the others the last one that was there takes in a name. -/
theorem Reachable.makes_iff_makeable (h : Reachable fs) (a : Actor) (k : Making) (path : String)
    (parents : Bool) :
    ((∃ target, ((k.run a path parents).run fs).1 = .ok target) ↔
      Makeable a fs (fs.place path) ∧
        (parents = false → (fs.at? (fs.place path).parent).isSome)) ∧
      ∀ target, ((k.run a path parents).run fs).1 = .ok target →
        target = fs.place path ∧
          Grown a fs (fs.place path) (k.node a) ((k.run a path parents).run fs).2 := by
  have hroot := h.wellFormed.root_isDir
  have hmade {target : Place} (hok : ((k.run a path parents).run fs).1 = .ok target) :
      target = fs.place path ∧
        Grafted a fs target (k.node a) ((k.run a path parents).run fs).2 :=
    (k.ends hroot path parents).value (Work.run_eq_of_ok hok)
  refine ⟨⟨?_, ?_⟩, fun target hok => ?_⟩
  · rintro ⟨target, hok⟩
    obtain ⟨rfl, hgraft⟩ := hmade hok
    refine ⟨hgraft.makeable, fun hparents => ?_⟩
    subst hparents
    rw [Option.isSome_iff_ne_none]
    exact fun hmissing => (k.ends_of_missing hroot hmissing).value (Work.run_eq_of_ok hok)
  · rintro ⟨hmakeable, hparent⟩
    obtain ⟨t, hgraft⟩ := (makeable_iff_grafted hroot (k.node a)).mp hmakeable
    refine ⟨_, hgraft.run_making rfl ?_⟩
    cases parents with
    | false => exact .inr (hparent rfl)
    | true => exact .inl rfl
  · obtain ⟨rfl, hgraft⟩ := hmade hok
    exact ⟨rfl, hgraft.grown (k.children_node a)⟩

/-- Ada makes a file in her home, in directories that are not there yet. -/
theorem Reachable.makes_iff_makeable_home :
    let a : Actor := ⟨"ada", {}, default⟩
    let fs := fresh {} default (some "ada")
    let p : Place := ["home", "ada", "notes", "old", "list"]
    let run := (makeFile a "notes/old/list" "text" true).run fs
    run.1 = .ok p ∧ Makeable a fs p ∧ Grown a fs p (a.newFile "text") run.2 ∧
      (∃ cs, run.2.at? ["home", "ada", "notes"] = some (.dir (a.attributes Mode.ofDirectory) cs)) ∧
      ∀ target, ((makeFile a "notes/old/list" "text" false).run fs).1 ≠ .ok target := by
  have hfs : Reachable (fresh {} default (some "ada")) := reachable_fresh {} default (by decide)
  have hplace : (fresh {} default (some "ada")).place "notes/old/list" =
      ["home", "ada", "notes", "old", "list"] := by decide +kernel
  have hok : ((makeFile ⟨"ada", {}, default⟩ "notes/old/list" "text" true).run
      (fresh {} default (some "ada"))).1 = .ok ["home", "ada", "notes", "old", "list"] := by
    decide +kernel
  have hmissing : (fresh {} default (some "ada")).at? ["home", "ada", "notes"] = none := by rfl
  obtain ⟨hiff, hgrown⟩ :=
    Reachable.makes_iff_makeable hfs ⟨"ada", {}, default⟩ (.file "text") "notes/old/list" true
  rw [hplace] at hiff hgrown
  have hgrown := (hgrown _ hok).2
  refine ⟨hok, (hiff.mp ⟨_, hok⟩).1, hgrown, hgrown.made _ (by decide) (by decide) hmissing, ?_⟩
  -- Without leave to make the directories above it the file is refused.
  intro target hmade
  have hrefused :=
    (Reachable.makes_iff_makeable hfs ⟨"ada", {}, default⟩ (.file "text") "notes/old/list" false).1
  have hparent := (hrefused.mp ⟨target, hmade⟩).2 rfl
  rw [hplace] at hparent
  exact absurd hparent (by decide +kernel)

end MemShell.FileSystem
