import MemShell.Proofs.FileSystem.Reachable
import MemShell.Proofs.Json.RoundTrip
import MemShell.Proofs.Snapshot.Order
import MemShell.Proofs.Storage.Saving
set_option autoImplicit false

namespace MemShell.FileSystem
variable {fs : FileSystem}

theorem distinct_nodeSnapshot {n : Node} (h : n.Everywhere Node.Sound) (name : String) :
    (nodeSnapshot name n).Distinct := by
  induction n using Node.ind generalizing name with
  | file a content =>
    refine ⟨nodup_content name "f" a _, ?_⟩
    simp [commonMembers, Json.EachDistinct, Json.Distinct]
  | dir a cs ih =>
    have hkeys : Table.keys (childSnapshots cs) = Table.keys cs := by
      rw [childSnapshots_eq, Table.keys, List.map_map]
      rfl
    have hchildren : (Json.obj (childSnapshots cs)).Distinct := by
      refine ⟨?_, Json.eachDistinct_iff.mpr fun other v hv => ?_⟩
      · rw [hkeys]
        exact h.self.nodup
      · rw [childSnapshots_eq] at hv
        obtain ⟨e, he, heq⟩ := List.mem_map.mp hv
        cases heq
        exact ih e.1 e.2 he (Node.sound_of_mem h he) e.1
    refine ⟨nodup_children name "d" a _, ?_⟩
    simpa [commonMembers, Json.EachDistinct, Json.Distinct] using hchildren

theorem distinct_snapshot (h : fs.WellFormed) : fs.snapshot.Distinct := by
  have hroot := distinct_nodeSnapshot h.sound ""
  refine ⟨by simp [Table.keys], ?_⟩
  exact ⟨hroot, trivial, trivial⟩

theorem isShowable_nodeSnapshot (n : Node) (name : String) :
    (nodeSnapshot name n).isShowable = true := by
  induction n using Node.ind generalizing name with
  | file a content => rfl
  | dir a cs ih =>
    have hchildren : Json.haveShowable (childSnapshots cs) = true := by
      refine Json.haveShowable_iff.mpr fun other v hv => ?_
      rw [childSnapshots_eq] at hv
      obtain ⟨e, he, heq⟩ := List.mem_map.mp hv
      cases heq
      exact ih e.1 e.2 he e.1
    simp [nodeSnapshot, commonMembers, Json.isShowable, Json.haveShowable, hchildren]

theorem isShowable_snapshot (fs : FileSystem) : fs.snapshot.isShowable = true := by
  simp [snapshot, Json.isShowable, Json.haveShowable, isShowable_nodeSnapshot]

theorem read_snapshot (h : fs.WellFormed) :
    Json.read fs.snapshot.sorted.pretty = .ok fs.snapshot.sorted :=
  Json.read_pretty (Json.distinct_sorted _ (distinct_snapshot h))
    (Json.isShowable_sorted _ (isShowable_snapshot fs))

theorem get?_of_save {s : Storage} {p : Path} (hs : s.backend = some (.file p))
    (hsave : (s.save fs).1 = .ok .done) :
    (s.save fs).2.disk.get? p = some (.text fs.snapshot.sorted.pretty) := by
  have hput : Storage.put (.file p) s.disk fs.snapshot =
      ((Storage.writeText s.disk p fs.snapshot.sorted.pretty).1, .file p,
        (Storage.writeText s.disk p fs.snapshot.sorted.pretty).2) := rfl
  cases hwrite : Storage.writeText s.disk p fs.snapshot.sorted.pretty with
  | mk kept disk =>
    rw [hwrite] at hput
    simp only [Storage.save, hs, hput] at hsave ⊢
    cases kept with
    | error f =>
      simp only [Result.ofFault] at hsave
      split at hsave
      · cases hsave
      · cases hsave
    | ok kept =>
      cases kept with
      | false => cases hsave
      | true => exact Storage.get?_of_writeText hwrite

theorem run_load {s : Storage} {b : Backend} {v : Json} {other fs' : FileSystem}
    (hs : s.backend = some b) (hstored : Storage.get b s.disk = .ok (some v))
    (hrestore : (restore v).run other = (.ok (), fs')) :
    s.load.run other = (.ok (.ok true), fs') := by
  have hfetch : (Storage.fetch b s.disk).run other = (.ok true, fs') := by
    unfold Storage.fetch
    rw [Work.run_bind, Work.run_lift, hstored]
    dsimp only
    rw [Work.run_bind, hrestore]
    rfl
  unfold Storage.load
  rw [hs]
  dsimp only
  rw [Work.run_bind, Work.run_outcome, hfetch]
  rfl

def visits (fs : FileSystem) : Except Fault (List Visit) := (fs.walk "/").map (·.map visit)

theorem visits_eq (fs : FileSystem) : fs.visits = .ok ((below [] fs.root).map visit) := by
  unfold visits walk
  rw [place_slash]
  rfl

/-- What was saved to a file is loaded from it into any other file system: with the same visits of a
walk and the same working directory, the siblings sorted. -/
theorem Reachable.load_save (h : Reachable fs) {p : Path} {s t : Storage}
    (hs : s.backend = some (.file p)) (hsave : (s.save fs).1 = .ok .done)
    (ht : t.backend = some (.file p)) (hfile : t.disk.get? p = (s.save fs).2.disk.get? p)
    (other : FileSystem) :
    ∃ fs', t.load.run other = (.ok (.ok true), fs') ∧ fs'.visits = fs.visits ∧
      fs'.workingPath = fs.workingPath ∧ fs'.cwd = fs.cwd ∧ fs'.root = fs.root.sorted := by
  have hfs := h.wellFormed
  have hobject : fs.snapshot.sorted.isObject = true := rfl
  have hstored : Storage.get (.file p) t.disk = .ok (some fs.snapshot.sorted) := by
    rw [Storage.get, Storage.readText, hfile, get?_of_save hs hsave]
    dsimp only
    rw [read_snapshot hfs]
    dsimp only
    rw [if_pos hobject]
  refine ⟨_, run_load ht hstored (hfs.run_restore_sorted other), ?_, rfl, rfl, rfl⟩
  rw [visits_eq, visits_eq, visit_below_sorted]

theorem Reachable.load_save_unsorted :
    let a : Actor := ⟨rootUser, {}, default⟩
    let fs := ((Request.makeFile "/a" "π\n" false).run a).run
      (((Request.makeFile "/b" "" false).run a).run (empty default)).2 |>.2
    let s : Storage := { backend := some (.file ⟨.root, ["tmp", "fs.json"]⟩) }
    Table.keys fs.root.children = ["b", "a"] ∧
      ∃ fs', (s.save fs).2.load.run (empty default) = (.ok (.ok true), fs') ∧ fs'.visits = fs.visits ∧
        fs'.workingPath = fs.workingPath ∧ fs'.cwd = fs.cwd ∧ fs'.root = fs.root.sorted := by
  intro a fs s
  have hfs : Reachable fs := ((Reachable.start default).request a (.makeFile "/b" "" false)).request a
    (.makeFile "/a" "π\n" false)
  exact ⟨by decide +kernel, hfs.load_save (s := s) rfl rfl rfl rfl (empty default)⟩

end MemShell.FileSystem
