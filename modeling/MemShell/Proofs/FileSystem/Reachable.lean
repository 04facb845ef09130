import MemShell.Proofs.FileSystem.Requests
import MemShell.Proofs.Snapshot.RoundTrip
import MemShell.Proofs.Tree.Walk
set_option autoImplicit false

/-!
# Reachable file systems

Whatever is asked of a file system, by whomever and with whatever success, it stays a tree with one
working directory in which every node is found at its own path.
-/
namespace MemShell.FileSystem
variable {fs : FileSystem} {a : Actor} {p q : Place} {n m : Node}

/-- States that operations lead to from a new file system. Failed requests are steps as well, and a
snapshot may come from another file system. -/
inductive Reachable : FileSystem → Prop
  | start (now : Time) : Reachable (empty now)
  | reset {fs : FileSystem} (h : Reachable fs) (a : Actor) (user : Option String)
      (valid : ∀ name, user = some name → name = "" ∨ isValidName name = true) :
      Reachable ((FileSystem.reset a user).run fs).2
  | request {fs : FileSystem} (h : Reachable fs) (a : Actor) (r : Request) :
      Reachable ((r.run a).run fs).2
  | restore {fs source : FileSystem} (h : Reachable fs) (hsource : Reachable source) :
      Reachable ((FileSystem.restore source.snapshot).run fs).2

theorem sound_newDir {attrs : Attributes} (h : attrs.mode ≤ 0o777) :
    (Node.dir attrs []).Everywhere Node.Sound :=
  Node.everywhere_of_no_children (Node.sound_of_no_children h rfl) rfl

theorem sound_rootDirectory (now : Time) : (rootDirectory now []).Everywhere Node.Sound :=
  sound_newDir (by decide : Mode.ofDirectory ≤ 0o777)

theorem wellFormed_empty (now : Time) : (empty now).WellFormed :=
  ⟨rfl, sound_rootDirectory now, rfl⟩

theorem wellFormed_home (now : Time) :
    ((empty now).insert now [] "home" (rootDirectory now [])).WellFormed :=
  (wellFormed_empty now).inserted rfl rfl (by decide) (sound_rootDirectory now) now

theorem wellFormed_fresh (accounts : Accounts) (now : Time) (user : Option String)
    (valid : ∀ name, user = some name → name = "" ∨ isValidName name = true) :
    (fresh accounts now user).WellFormed := by
  cases user with
  | none => exact wellFormed_home now
  | some name =>
    unfold fresh
    dsimp only
    split
    · exact wellFormed_home now
    · next hname =>
      have hne : name ≠ "" := fun h => hname (.inl (by rw [h]; rfl))
      have hvalid := (valid name rfl).resolve_left hne
      have hfound : ((empty now).insert now [] "home" (rootDirectory now [])).at? ["home"] =
          some (rootDirectory now []) := rfl
      have hown : (Node.dir ⟨name, accounts.primaryGroup name, Mode.ofPrivateDirectory, now, now⟩
          []).Everywhere Node.Sound := sound_newDir (by decide : Mode.ofPrivateDirectory ≤ 0o777)
      have hmade := (wellFormed_home now).inserted hfound rfl hvalid hown now
      exact ⟨hmade.root_isDir, hmade.sound, kind?_of_at? (at?_insert hfound rfl [])⟩

theorem Reachable.wellFormed (h : Reachable fs) : fs.WellFormed := by
  induction h with
  | start now => exact wellFormed_empty now
  | reset h a user valid ih => exact wellFormed_fresh a.accounts a.now user valid
  | request h a r ih => exact (Request.change_run ih.root_isDir r).wellFormed ih
  | restore h hsource ih ihsource =>
    rw [ihsource.run_restore]
    exact ihsource

theorem reachable_fresh (accounts : Accounts) (now : Time) {name : String}
    (hname : isValidName name = true) : Reachable (fresh accounts now (some name)) :=
  (Reachable.start now).reset ⟨rootUser, accounts, now⟩ (some name) fun _ h =>
    .inr (Option.some.inj h ▸ hname)

theorem place_slash (fs : FileSystem) : fs.place "/" = [] :=
  Place.ofPath_text Place.plain_nil fs.cwd

/-- The tree has one nameless node, its root; every other node has a valid name that no sibling bears,
and is found at its path; no two nodes share a path, and a walk meets each of them once. -/
theorem Reachable.consistent (h : Reachable fs) :
    fs.root.isDir = true ∧
    (∀ p n, fs.at? p = some n →
      (∀ name ∈ p, isValidName name = true) ∧ (p.name = "" ↔ p = []) ∧
      (Table.keys n.children).Nodup ∧ n.attrs.mode ≤ 0o777 ∧
      fs.place p.text = p ∧ fs.node (fs.place p.text) = .ok n) ∧
    (∀ p q n m, fs.at? p = some n → fs.at? q = some m → p.text = q.text → p = q) ∧
    (∃ d, fs.at? fs.cwd = some d ∧ d.isDir = true) ∧
    ∃ met, fs.walk "/" = .ok met ∧ (met.map Prod.fst).Nodup ∧ met.length = fs.root.count ∧
      ∀ p n, (p, n) ∈ met ↔ fs.at? p = some n := by
  have hfs := h.wellFormed
  refine ⟨hfs.root_isDir, fun p n hn => ?_, fun p q n m hn hm htext => ?_,
    Node.kind?_eq_some_iff.mp hfs.cwd_isDir, FileSystem.below [] fs.root, ?_,
    nodup_below hfs.sound, length_below [] fs.root, fun p n => ?_⟩
  · have hplace : fs.place p.text = p := Place.ofPath_text (hfs.plain hn) fs.cwd
    have hnode := hfs.sound_at? hn
    refine ⟨Node.isValidName_of_at? hfs.sound hn, ⟨fun hname => ?_, fun hroot => ?_⟩,
      hnode.self.nodup, hnode.self.mode, hplace, ?_⟩
    · by_contra hp
      have hvalid := hfs.isValidName_name hp hn
      rw [hname] at hvalid
      cases hvalid
    · rw [hroot]
      rfl
    · rw [hplace]
      exact node_eq_ok_iff.mpr hn
  · exact Place.text_injective (hfs.plain hn) (hfs.plain hm) htext
  · unfold walk
    rw [place_slash]
    rfl
  · rw [mem_below hfs.sound]
    constructor
    · rintro ⟨r, rfl, hr⟩
      exact hr
    · intro hn
      exact ⟨p, rfl, hn⟩

theorem Reachable.consistent_nested :
    let fs := ((Request.makeDirectory "/a/b" true false).run ⟨rootUser, {}, default⟩).run
      (empty default) |>.2
    fs.at? ["a", "b"] = some (Actor.newDirectory ⟨rootUser, {}, default⟩) ∧
      fs.node (fs.place (Place.text ["a", "b"])) = .ok (Actor.newDirectory ⟨rootUser, {}, default⟩) := by
  refine ⟨rfl, ?_⟩
  have hfs := (Reachable.start default).request ⟨rootUser, {}, default⟩
    (.makeDirectory "/a/b" true false)
  exact (Reachable.consistent hfs).2.1 ["a", "b"] _ rfl |>.2.2.2.2.2

/-- A request that stops at a fault or answers with a failed result leaves everything as it was. -/
theorem Reachable.unchanged_of_failure (h : Reachable fs) (a : Actor) (r : Request)
    (hfail : ∀ res, ((r.run a).run fs).1 = .ok res → res.success = false) :
    ((r.run a).run fs).2 = fs := by
  have hends := Request.ends (a := a) h.wellFormed.root_isDir r
  cases hrun : (r.run a).run fs with
  | mk out t =>
    rw [hrun] at hfail
    cases out with
    | error f => exact hends.fault hrun
    | ok res =>
      have hrep : Reported a fs res t := hends.value hrun
      rw [Reported, hfail res rfl] at hrep
      exact hrep

theorem Reachable.unchanged_of_failure_denied :
    let r := Request.makeDirectory "/a/b" true false
    let a : Actor := ⟨"ada", {}, default⟩
    (∃ f, ((r.run a).run (empty default)).1 = .error f) ∧
      ((r.run a).run (empty default)).2 = empty default := by
  refine ⟨⟨_, rfl⟩, Reachable.unchanged_of_failure (.start default) _ _ fun res hres => ?_⟩
  cases hres

/-- What was saved is restored, into whatever state it is loaded, and saved alike again. -/
theorem Reachable.restore_snapshot (h : Reachable fs) (other : FileSystem) :
    (FileSystem.restore fs.snapshot).run other = (.ok (), fs) ∧
      ((FileSystem.restore fs.snapshot).run other).2.snapshot = fs.snapshot := by
  have hrun := h.wellFormed.run_restore other
  refine ⟨hrun, ?_⟩
  rw [hrun]

theorem Reachable.restore_snapshot_home :
    let fs := fresh {} default (some "ada")
    fs.cwd = ["home", "ada"] ∧ (FileSystem.restore fs.snapshot).run (empty default) = (.ok (), fs) := by
  have hfs : Reachable (fresh {} default (some "ada")) := reachable_fresh {} default (by decide)
  exact ⟨rfl, (Reachable.restore_snapshot hfs (empty default)).1⟩

end MemShell.FileSystem
