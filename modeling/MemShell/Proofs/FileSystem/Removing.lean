import MemShell.Proofs.FileSystem.Labels
import MemShell.Proofs.FileSystem.Owners
set_option autoImplicit false

namespace MemShell.FileSystem
variable {fs fs' : FileSystem} {a : Actor} {now : Time} {above p q : Place} {recursive : Bool}
  {n m d : Node}

structure Removable (a : Actor) (fs : FileSystem) (p : Place) (recursive : Bool) : Prop where
  notRoot : p ≠ []
  found : (fs.at? p).isSome
  parent : ∃ d, fs.at? p.parent = some d ∧ a.may d .write = true
  full : ∀ n, fs.at? p = some n → n.children ≠ [] → recursive = true
  below : ∀ n, fs.at? p = some n → n.children ≠ [] →
    ∀ x m, fs.at? (p ++ x) = some m → m.isDir = true → a.may m .write = true

structure Pruned (now : Time) (fs : FileSystem) (p : Place) (fs' : FileSystem) : Prop where
  gone : ∀ x, fs'.at? (p ++ x) = none
  /-- Of the other nodes the directory above changes, in its list of names. -/
  beside : ∀ q, ¬ p <+: q → fs'.label? q =
    (fs.label? q).map fun l => if q = p.parent then l.without now p.name else l
  displaced : p <+: fs.cwd → fs'.cwd = p.parent
  stays : ¬ p <+: fs.cwd → fs'.cwd = fs.cwd

/-- Whoever may write on every directory of a tree may remove it. -/
theorem checkRemovable_of_may (h : n.Everywhere Node.Sound)
    (hmay : ∀ x m, n.at? x = some m → m.isDir = true → a.may m .write = true) (above : Place) :
    checkRemovable a above n = .ok () := by
  induction n using Node.ind generalizing above with
  | file attrs text => rfl
  | dir attrs cs ih =>
    have hself : a.require above (.dir attrs cs) .write = .ok () :=
      require_eq_ok_iff.mpr (hmay [] _ rfl rfl)
    refine bind_eq_ok_iff.mpr ⟨(), hself, checkAllRemovable_eq_ok_iff.mpr fun name c hc => ?_⟩
    have hchild : Node.child? (.dir attrs cs) name = some c := Table.get?_of_mem h.self.nodup hc
    refine ih name c hc (Node.sound_of_mem h hc) (fun x m hm => hmay (name :: x) m ?_) _
    rw [Node.at?_cons, hchild]
    exact hm

theorem isDir_of_children (hfull : n.children ≠ []) : n.isDir = true := by
  cases n with
  | file attrs text => exact absurd rfl hfull
  | dir attrs cs => rfl

theorem checkContents_eq_ok_iff (h : n.Everywhere Node.Sound) :
    checkContents a p n recursive = .ok () ↔ (n.children ≠ [] → recursive = true ∧
      ∀ x m, n.at? x = some m → m.isDir = true → a.may m .write = true) := by
  by_cases hempty : n.children = []
  · have hskip : ¬ (n.isDir && !n.children.isEmpty) = true := by simp [hempty]
    rw [checkContents, if_neg hskip]
    exact iff_of_true rfl fun hfull => absurd hempty hfull
  · have henter : (n.isDir && !n.children.isEmpty) = true := by
      simp [isDir_of_children hempty, hempty]
    rw [checkContents, if_pos henter]
    cases recursive with
    | false => exact iff_of_false (by simp) fun hall => Bool.false_ne_true (hall hempty).1
    | true =>
      rw [if_pos rfl]
      exact ⟨fun hcheck _ => ⟨rfl, fun x m => may_write_of_checkRemovable hcheck⟩,
        fun hall => checkRemovable_of_may h (hall hempty).2 p⟩

theorem Removed.removable (h : Removed a fs p recursive fs') (hfs : fs.WellFormed) :
    Removable a fs p recursive := by
  cases h with
  | @intro n d notRoot found above writable removable =>
    have hcontents := (checkContents_eq_ok_iff (hfs.sound_at? found)).mp removable
    refine ⟨notRoot, Option.isSome_of_eq_some found, ⟨d, above, writable⟩, fun n' hn' hfull => ?_,
      fun n' hn' hfull x m hm => ?_⟩
    · rw [found] at hn'
      cases hn'
      exact (hcontents hfull).1
    · rw [found] at hn'
      cases hn'
      rw [at?_append found] at hm
      exact (hcontents hfull).2 x m hm

theorem Removable.run_remove {path : String} (h : Removable a fs (fs.place path) recursive)
    (hfs : fs.WellFormed) : ((remove a path recursive).run fs).1 = .ok () := by
  obtain ⟨n, hn⟩ := Option.isSome_iff_exists.mp h.found
  obtain ⟨d, hd, hmay⟩ := h.parent
  have hnode : fs.node (fs.place path) = .ok n := node_eq_ok_iff.mpr hn
  have hparent : fs.node (fs.place path).parent = .ok d := node_eq_ok_iff.mpr hd
  have hwrite : a.require (fs.place path).parent d .write = .ok () :=
    require_eq_ok_iff.mpr hmay
  have hcontents : checkContents a (fs.place path) n recursive = .ok () := by
    refine (checkContents_eq_ok_iff (hfs.sound_at? hn)).mpr fun hfull => ?_
    refine ⟨h.full n hn hfull, fun x m hm => h.below n hn hfull x m ?_⟩
    rw [at?_append hn]
    exact hm
  have hroot : (fs.place path).isEmpty = false := List.isEmpty_eq_false_iff.mpr h.notRoot
  have hchild : d.child? (fs.place path).name = some n := by
    rw [← at?_of_parent h.notRoot hd, hn]
  have htake : (takeOut a.now (fs.place path).parent (fs.place path).name).run
      { fs with cwd := cwdAfterRemoval fs.cwd (fs.place path) } = (.ok (), _) :=
    run_takeOut hd hchild
  simp only [remove, Work.run_bind, Work.run_get, Work.run_ask, Work.run_lift, Work.run_change,
    hroot, Bool.false_eq_true, if_false, hnode, hparent, hwrite, hcontents]
  rw [htake]

theorem Removed.pruned (h : Removed a fs p recursive fs') (hfs : fs.WellFormed) :
    Pruned a.now fs p fs' := by
  cases h with
  | @intro n d notRoot found above writable removable =>
    have hcwd : cwdAfterRemoval fs.cwd p = if p <+: fs.cwd then p.parent else fs.cwd :=
      cwdAfterRemoval_eq hfs.plain_cwd (hfs.plain found) notRoot
    refine ⟨fun x => ?_, fun q hq => ?_, fun hin => hcwd.trans (if_pos hin),
      fun hout => hcwd.trans (if_neg hout)⟩
    · have hself : (fs.detach a.now p.parent p.name).at? p = none := at?_detach_self notRoot a.now
      exact at?_append_eq_none hself x
    · rw [← parent_append_name notRoot] at hq
      exact label?_detach hq

/-- A removal succeeds just if it is permitted, and then takes away what is at and below the place. -/
theorem Reachable.removes_iff_removable (h : Reachable fs) (a : Actor) (path : String)
    (recursive : Bool) :
    (((remove a path recursive).run fs).1 = .ok () ↔ Removable a fs (fs.place path) recursive) ∧
      (((remove a path recursive).run fs).1 = .ok () →
        Pruned a.now fs (fs.place path) ((remove a path recursive).run fs).2) := by
  have hremoved (hok : ((remove a path recursive).run fs).1 = .ok ()) :
      Removed a fs (fs.place path) recursive ((remove a path recursive).run fs).2 :=
    (ends_remove path recursive).value (Work.run_eq_of_ok hok)
  exact ⟨⟨fun hok => (hremoved hok).removable h.wellFormed, fun hall => hall.run_remove h.wellFormed⟩,
    fun hok => (hremoved hok).pruned h.wellFormed⟩

def siblings : FileSystem :=
  let a : Actor := ⟨rootUser, {}, default⟩
  (empty default).after [(a, .makeDirectory "/a/b" true false), (a, .makeDirectory "/ab" false false),
    (a, .enter "/a/b")]

/-- The directory above the working directory is removed, and the sibling stays. -/
theorem Reachable.removes_iff_removable_siblings :
    let run := (remove ⟨rootUser, {}, default⟩ ".." true).run siblings
    run.1 = .ok () ∧ Removable ⟨rootUser, {}, default⟩ siblings ["a"] true ∧
      Pruned default siblings ["a"] run.2 ∧ run.2.cwd = [] ∧
      run.2.label? ["ab"] = siblings.label? ["ab"] ∧ (siblings.label? ["ab"]).isSome := by
  have hfs : Reachable siblings := (Reachable.start default).after _
  have hok : ((remove ⟨rootUser, {}, default⟩ ".." true).run siblings).1 = .ok () := by
    decide +kernel
  have hplace : siblings.place ".." = ["a"] := by decide +kernel
  have hcwd : siblings.cwd = ["a", "b"] := by decide +kernel
  obtain ⟨hiff, hpruned⟩ := Reachable.removes_iff_removable hfs ⟨rootUser, {}, default⟩ ".." true
  rw [hplace] at hiff hpruned
  have hleft := hpruned hok
  have hbeside : ((remove ⟨rootUser, {}, default⟩ ".." true).run siblings).2.label? ["ab"] =
      siblings.label? ["ab"] := (hleft.beside ["ab"] (by decide)).trans Option.map_id'
  refine ⟨hok, hiff.mp hok, hleft, hleft.displaced (hcwd ▸ ⟨["b"], rfl⟩), hbeside, ?_⟩
  decide +kernel

end MemShell.FileSystem
