import MemShell.Proofs.FileSystem.Places
import MemShell.Proofs.Tree.Drawing
set_option autoImplicit false

namespace MemShell.FileSystem
variable {fs : FileSystem} {a : Actor} {p q : Place} {n m d : Node} {path : String}

/-- A walk meets what stands at and below the place where it begins. -/
theorem WellFormed.mem_below_iff (h : fs.WellFormed) (hn : fs.at? p = some n) :
    (q, m) ∈ below p n ↔ p <+: q ∧ fs.at? q = some m := by
  rw [mem_below (h.sound_at? hn)]
  constructor
  · rintro ⟨r, rfl, hr⟩
    exact ⟨List.prefix_append p r, (at?_append hn r).trans hr⟩
  · rintro ⟨⟨r, rfl⟩, hm⟩
    exact ⟨r, rfl, (at?_append hn r).symm.trans hm⟩

theorem WellFormed.nodup_paths_below (h : fs.WellFormed) (hn : fs.at? p = some n) :
    ((below p n).map fun e => Place.text e.1).Nodup := by
  have hplaces := List.pairwise_map.mp (nodup_below (p := p) (h.sound_at? hn))
  refine List.pairwise_map.mpr (hplaces.imp_of_mem fun {x y} hx hy hne htext => hne ?_)
  have hxAt := ((h.mem_below_iff hn).mp hx).2
  have hyAt := ((h.mem_below_iff hn).mp hy).2
  exact Place.text_injective (h.plain hxAt) (h.plain hyAt) htext

/-- A walk meets the nodes at and below the place of its path and nothing else, no path twice, the
directories before what is below them and the children of each, with all that is below them, in
ascending order of their names. Each node comes with the path that leads to it, and by whose names
one climbs from it to the root. -/
theorem Reachable.walk_enumerates (h : Reachable fs)
    (hn : fs.node (fs.place path) = .ok n) :
    ∃ met, fs.walk path = .ok met ∧
      (∀ q m, (q, m) ∈ met ↔ fs.place path <+: q ∧ fs.node q = .ok m) ∧
      (met.map fun e => Place.text e.1).Nodup ∧
      met.Pairwise (fun x y => x.1.Before y.1) ∧
      ∀ q m, (q, m) ∈ met → fs.node (fs.place q.text) = .ok m ∧
        ∃ names, fs.root.Climbs m names ∧ q.text = "/" ++ "/".intercalate names.reverse := by
  have hfs := h.wellFormed
  have hat := node_eq_ok_iff.mp hn
  refine ⟨FileSystem.below (fs.place path) n, ?_, fun q m => ?_, hfs.nodup_paths_below hat,
    pairwise_below (hfs.sound_at? hat), fun q m hm => ?_⟩
  · rw [walk, hn]
    rfl
  · rw [hfs.mem_below_iff hat, node_eq_ok_iff]
  · have hm := ((hfs.mem_below_iff hat).mp hm).2
    have hplain := hfs.plain hm
    have hplace : fs.place q.text = q := Place.ofPath_text hplain fs.cwd
    rw [hplace]
    exact ⟨node_eq_ok_iff.mpr hm, (hfs.node_iff_climbs hplain m).mp (node_eq_ok_iff.mpr hm)⟩

def branches : FileSystem :=
  let a : Actor := ⟨rootUser, {}, default⟩
  (empty default).after
    [(a, .makeDirectory "/a/c" true false), (a, .makeDirectory "/a/b" true false),
      (a, .touch "/a/c/d")]

/-- The walk begins at the upper directory and comes to the file below the second. -/
theorem Reachable.walk_enumerates_branches :
    ∃ met d n, branches.walk "x/../a" = .ok met ∧ (["a"], d) ∈ met ∧ (["a", "c", "d"], n) ∈ met ∧
      Place.text ["a", "c", "d"] = "/a/c/d" ∧ (met.map fun e => Place.text e.1).Nodup ∧
      met.Pairwise (fun x y => x.1.Before y.1) ∧ ∀ q m, (q, m) ∈ met → ["a"] <+: q := by
  have hfs : Reachable branches := (Reachable.start default).after _
  have hplace : branches.place "x/../a" = ["a"] := by decide +kernel
  obtain ⟨d, hd⟩ : ∃ d, branches.node ["a"] = .ok d := ⟨_, rfl⟩
  obtain ⟨n, hn⟩ : ∃ n, branches.node ["a", "c", "d"] = .ok n := ⟨_, rfl⟩
  have hstart : branches.node (branches.place "x/../a") = .ok d := hplace ▸ hd
  obtain ⟨met, hwalk, hmem, hnodup, horder, -⟩ := Reachable.walk_enumerates hfs hstart
  rw [hplace] at hmem
  exact ⟨met, d, n, hwalk, (hmem _ _).mpr ⟨by decide, hd⟩, (hmem _ _).mpr ⟨by decide, hn⟩,
    by decide +kernel, hnodup, horder, fun q m h => ((hmem q m).mp h).1⟩

theorem drawTree_eq (hd : fs.directory (fs.place path) = .ok d) (hmay : a.may d .execute = true) :
    fs.drawTree a path = .ok ("\n".intercalate
      (Place.text (fs.place path) :: Drawing.lines "" (inside a d))) := by
  have hallowed : a.require (fs.place path) d .execute = .ok () := require_eq_ok_iff.mpr hmay
  simp only [drawTree, hd, bind, Except.bind, hallowed, inside, if_pos hmay]
  rfl

/-- What shows below a directory is what stands below it in the file system, as far as the directories
on the way let the actor in. -/
theorem WellFormed.mem_shown_iff (h : fs.WellFormed) (hd : fs.at? p = some d) {x : Place} :
    (x, m) ∈ shown a d ↔ fs.node (p ++ x) = .ok m ∧ x ≠ [] ∧
      ∀ y, y <+: x → y ≠ x → ∃ e, fs.node (p ++ y) = .ok e ∧ a.may e .execute = true := by
  simp only [node_eq_ok_iff, at?_append hd, mem_shown (h.sound_at? hd)]

/-- The drawing of a directory is its path and, in the order of a walk, a row for each node below it to
which all directories on the way, from the first on, let the actor in. What stands in front of the name
in a row says of each node on the way whether it is the last of its siblings, and there are as many of
them as the node is deep. The rows are lines unless a name has a line break in it. -/
theorem Reachable.drawTree_rows (h : Reachable fs) (hd : fs.directory (fs.place path) = .ok d)
    (hmay : a.may d .execute = true) :
    ∃ shown : List (Place × Node),
      (∀ x m, (x, m) ∈ shown ↔ fs.node (fs.place path ++ x) = .ok m ∧ x ≠ [] ∧
        ∀ y, y <+: x → y ≠ x →
          ∃ e, fs.node (fs.place path ++ y) = .ok e ∧ a.may e .execute = true) ∧
      shown.Pairwise (fun e f => e.1.Before f.1) ∧
      (∀ x m, (x, m) ∈ shown →
        Drawing.readEdges (d.row x m).toList = some (d.lasts x, m.drawnName x.name) ∧
          (d.lasts x).length = x.length) ∧
      ∃ text, fs.drawTree a path = .ok text ∧
        text = "\n".intercalate (Place.text (fs.place path) :: shown.map fun e => d.row e.1 e.2) ∧
        (Text.Unbroken (Place.text (fs.place path)) → (∀ e ∈ shown, Text.Unbroken e.1.name) →
          Text.lineBodies text =
            Place.text (fs.place path) :: shown.map fun e => d.row e.1 e.2) := by
  have hfs := h.wellFormed
  have hat := (directory_eq_ok_iff.mp hd).1
  have hsound := hfs.sound_at? hat
  have hread (x : Place) (m : Node) (hx : (x, m) ∈ FileSystem.shown a d) :
      Drawing.readEdges (d.row x m).toList = some (d.lasts x, m.drawnName x.name) ∧
        (d.lasts x).length = x.length := by
    obtain ⟨hm, hne, -⟩ := (mem_shown hsound).mp hx
    exact ⟨Node.readEdges_row hne hm, Node.length_lasts hm⟩
  have hrows : Drawing.lines "" (inside a d) =
      (FileSystem.shown a d).map fun e => d.row e.1 e.2 := by
    simpa using lines_inside (a := a) hsound ""
  have hdraw := drawTree_eq hd hmay
  rw [hrows] at hdraw
  refine ⟨FileSystem.shown a d, fun x m => hfs.mem_shown_iff hat, pairwise_shown a hsound, hread,
    _, hdraw, rfl, fun hpath hnames => ?_⟩
  refine Text.lineBodies_intercalate (List.forall_mem_cons.mpr ⟨hpath, ?_⟩)
    (List.forall_mem_cons.mpr ⟨?_, ?_⟩)
  · exact List.forall_mem_map.mpr fun e he => Node.unbroken_row (hnames e he) e.2
  · rw [Place.text_eq (hfs.plain hat)]
    simp
  · refine List.forall_mem_map.mpr fun e he hempty => ?_
    have hrow := (hread e.1 e.2 he).1
    rw [hempty] at hrow
    cases hrow

def guarded : FileSystem :=
  let a : Actor := ⟨rootUser, {}, default⟩
  (empty default).after
    [(a, .makeDirectory "/a/b" true false), (a, .touch "/a/b/x"), (a, .touch "/a/c"),
      (a, .changeMode "/a/b" (.number 0o700))]

/-- The directory shows, and what is in it does not. -/
theorem Reachable.drawTree_rows_guarded :
    ∃ (d b c x : Node) (shown : List (Place × Node)),
      guarded.drawTree ⟨"ada", {}, default⟩ "/a" =
        .ok ("\n".intercalate ("/a" :: shown.map fun e => d.row e.1 e.2)) ∧
      (["b"], b) ∈ shown ∧ d.row ["b"] b = "├── b/" ∧
      (["c"], c) ∈ shown ∧ d.row ["c"] c = "└── c" ∧
      guarded.node ["a", "b", "x"] = .ok x ∧ (["b", "x"], x) ∉ shown := by
  have hfs : Reachable guarded := (Reachable.start default).after _
  have hplace : guarded.place "/a" = ["a"] := by decide +kernel
  have hpath : Place.text ["a"] = "/a" := by decide +kernel
  obtain ⟨d, hd, hmay, hbrow, hcrow⟩ : ∃ d, guarded.directory ["a"] = .ok d ∧
      Actor.may ⟨"ada", {}, default⟩ d .execute = true ∧
      (∀ b ∈ d.child? "b", d.row ["b"] b = "├── b/") ∧
      ∀ c ∈ d.child? "c", d.row ["c"] c = "└── c" :=
    ⟨_, rfl, by decide +kernel, by decide +kernel, by decide +kernel⟩
  obtain ⟨b, hb, hclosed⟩ : ∃ b, guarded.node ["a", "b"] = .ok b ∧
      Actor.may ⟨"ada", {}, default⟩ b .execute = false := ⟨_, rfl, by decide +kernel⟩
  obtain ⟨c, hc⟩ : ∃ c, guarded.node ["a", "c"] = .ok c := ⟨_, rfl⟩
  obtain ⟨x, hx⟩ : ∃ x, guarded.node ["a", "b", "x"] = .ok x := ⟨_, rfl⟩
  obtain ⟨shown, hmem, -, -, text, hdraw, htext, -⟩ :=
    Reachable.drawTree_rows hfs (hplace ▸ hd) hmay
  rw [hplace] at hmem htext
  rw [htext, hpath] at hdraw
  have hat := (directory_eq_ok_iff.mp hd).1
  have hchild {name : String} {m : Node} (hm : guarded.node ["a", name] = .ok m) :
      ([name], m) ∈ shown ∧ m ∈ d.child? name := by
    have hself : ∃ e, guarded.node (["a"] ++ []) = .ok e ∧
        Actor.may ⟨"ada", {}, default⟩ e .execute = true := ⟨d, node_eq_ok_iff.mpr hat, hmay⟩
    refine ⟨(hmem _ _).mpr ⟨hm, List.cons_ne_nil _ _, Node.forall_above_cons.mpr ⟨hself, ?_⟩⟩,
      (Node.at?_snoc hat name).symm.trans (node_eq_ok_iff.mp hm)⟩
    exact fun y hy hne => absurd (List.prefix_nil.mp hy) hne
  refine ⟨d, b, c, x, shown, hdraw, (hchild hb).1, hbrow b (hchild hb).2, (hchild hc).1,
    hcrow c (hchild hc).2, hx, fun hshown => ?_⟩
  obtain ⟨e, he, hmaye⟩ := ((hmem _ _).mp hshown).2.2 ["b"] (by decide) (by decide)
  have hsame : e = b := Except.ok.inj (he.symm.trans hb)
  rw [hsame, hclosed] at hmaye
  cases hmaye

def broken : FileSystem :=
  (empty default).after [(⟨rootUser, {}, default⟩, .touch "/a\nb")]

/-- A name with a line break in it makes two lines for one node. -/
theorem Reachable.drawTree_broken_name :
    ¬ ∀ (fs : FileSystem) (a : Actor) (path : String) (d : Node), fs.Reachable →
      fs.directory (fs.place path) = .ok d → a.may d .execute = true →
      ∃ (shown : List (Place × Node)) (text : String), shown.Nodup ∧
        (∀ x m, (x, m) ∈ shown ↔ fs.node (fs.place path ++ x) = .ok m ∧ x ≠ [] ∧
          ∀ y, y <+: x → y ≠ x →
            ∃ e, fs.node (fs.place path ++ y) = .ok e ∧ a.may e .execute = true) ∧
        fs.drawTree a path = .ok text ∧ (Text.lineBodies text).tail.length = shown.length := by
  intro h
  have hfs : Reachable broken := (Reachable.start default).after _
  obtain ⟨shown, text, hnodup, hmem, hdraw, hlength⟩ :=
    h broken ⟨rootUser, {}, default⟩ "/" broken.root hfs rfl rfl
  have hdrawn : broken.drawTree ⟨rootUser, {}, default⟩ "/" = .ok "/\n└── a\nb" := by decide +kernel
  have hlines : (Text.lineBodies "/\n└── a\nb").tail.length = 2 := by decide +kernel
  have hone : (FileSystem.shown ⟨rootUser, {}, default⟩ broken.root).length = 1 := by decide +kernel
  have hat : broken.at? (broken.place "/") = some broken.root := rfl
  have hshown : shown.Perm (FileSystem.shown ⟨rootUser, {}, default⟩ broken.root) :=
    (List.perm_ext_iff_of_nodup hnodup (nodup_shown _ hfs.wellFormed.sound)).mpr fun e =>
      (hmem e.1 e.2).trans (hfs.wellFormed.mem_shown_iff hat).symm
  rw [hdrawn] at hdraw
  rw [← Except.ok.inj hdraw, hlines, hshown.length_eq, hone] at hlength
  cases hlength

end MemShell.FileSystem
