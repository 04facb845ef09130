import MemShell.Proofs.Snapshot.Reading
import MemShell.Proofs.FileSystem.WellFormed
set_option autoImplicit false

namespace MemShell.FileSystem
variable {fs : FileSystem} {a : Attributes} {n : Node}

theorem readAttributes_commonMembers (name label : String) (isDir : Bool) (h : a.mode ≤ 0o777)
    (more : List (String × Json)) :
    readAttributes name (commonMembers label (if isDir then "d" else "f") a ++ more) =
      .ok (isDir, a) := by
  have hkind : readKind name (.str (if isDir then "d" else "f")) = .ok isDir := by
    cases isDir <;> rfl
  have hmode : readMode name (.str (Mode.text a.mode)) = .ok a.mode := by
    simp only [readMode, Mode.ofText_text h]
  have howner (s : String) : readOwner name (.str s) = .ok s := rfl
  have hctime : readTime name (.real a.ctime) = .ok a.ctime := rfl
  have hmtime : readTime name (.real a.mtime) = .ok a.mtime := rfl
  simp [readAttributes, commonMembers, member, Table.get?, hkind, hmode, howner, hctime, hmtime,
    bind, Except.bind, pure, Except.pure]

-- No name of a child is refused: those that are taken already are names of siblings.
mutual
theorem readNode_nodeSnapshot (name : String) (n : Node) (h : n.Everywhere Node.Sound) :
    readNode name (nodeSnapshot name n) = .ok n := by
  cases n with
  | file attrs content =>
    have hattrs := readAttributes_commonMembers name name false h.self.mode
      [("content", .str content)]
    exact readNode_eq_ok_iff.mpr ⟨_, rfl, .file hattrs rfl rfl⟩
  | dir attrs cs =>
    have hattrs := readAttributes_commonMembers name name true h.self.mode
      [("children", .obj (childSnapshots cs))]
    have hentries : readAll [] (childSnapshots cs) = .ok cs :=
      readAll_childSnapshots [] cs h.self.nodup (by simp) fun _ _ hm => Node.sound_of_mem h hm
    refine readNode_eq_ok_iff.mpr ⟨_, rfl, .dir hattrs rfl ?_⟩
    rw [readChildren_eq]
    exact hentries

theorem readAll_childSnapshots (taken : List String) (cs : List (String × Node))
    (hnodup : (Table.keys cs).Nodup) (hfresh : ∀ name ∈ Table.keys cs, name ∉ taken)
    (hcs : ∀ name m, (name, m) ∈ cs → m.Everywhere Node.Sound) :
    readAll taken (childSnapshots cs) = .ok cs := by
  cases cs with
  | nil => rfl
  | cons entry rest =>
    obtain ⟨name, n⟩ := entry
    obtain ⟨hname, hrest⟩ := List.nodup_cons.mp hnodup
    have hn := readNode_nodeSnapshot name n (hcs name n (by simp))
    have hnew : name ∉ taken := hfresh name (by simp [Table.keys])
    have hall := readAll_childSnapshots (name :: taken) rest hrest (fun other hother => by
      rintro hmem
      rcases List.mem_cons.mp hmem with rfl | hmem
      · exact hname hother
      · exact hfresh other (List.mem_cons_of_mem _ hother) hmem) fun other m hm =>
        hcs other m (by simp [hm])
    exact readAll_cons_eq_ok_iff.mpr ⟨n, rest, hn, hnew, hall, rfl⟩
end

/-- A snapshot is accepted in every state, and replaces it by the one that it was taken from. -/
theorem WellFormed.run_restore (h : fs.WellFormed) (other : FileSystem) :
    (restore fs.snapshot).run other = (.ok (), fs) := by
  have hroot : readNode "" ((fs.snapshot.member? "root").getD .null) = .ok fs.root :=
    readNode_nodeSnapshot "" fs.root h.sound
  obtain ⟨d, hd, hdir⟩ := Node.kind?_eq_some_iff.mp h.cwd_isDir
  have hplace : Place.ofPath [] fs.workingPath = fs.cwd := Place.ofPath_text (h.plain hd) []
  have hfound : (FileSystem.mk fs.root []).isDirectory fs.workingPath = true := by
    rw [isDirectory, place, hplace, show FileSystem.at? ⟨fs.root, []⟩ fs.cwd = some d from hd]
    exact hdir
  have hcwd : fs.snapshot.member? "cwd" = some (.str fs.workingPath) := rfl
  unfold restore
  rw [Work.run_bind, Work.run_lift, hroot]
  dsimp only
  rw [h.root_isDir, Bool.not_true, if_neg Bool.false_ne_true, Work.run_bind, Work.run_change, hcwd]
  dsimp only
  rw [Work.run_change, if_pos hfound, place, hplace]

end MemShell.FileSystem
