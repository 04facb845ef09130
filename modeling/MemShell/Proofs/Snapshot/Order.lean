import MemShell.Proofs.Json.Keys
import MemShell.Proofs.Snapshot.RoundTrip
import MemShell.Proofs.Tree.Walk
set_option autoImplicit false

namespace MemShell

namespace Node

mutual
def sorted : Node → Node
  | .file a c => .file a c
  | .dir a cs => .dir a (sortByKey (·.1) (sortedChildren cs))

def sortedChildren : List (String × Node) → List (String × Node)
  | [] => []
  | (name, n) :: rest => (name, n.sorted) :: sortedChildren rest
end

theorem sortedChildren_eq (cs : List (String × Node)) :
    sortedChildren cs = cs.map fun e => (e.1, e.2.sorted) := by
  induction cs with
  | nil => rfl
  | cons e rest ih =>
    obtain ⟨name, n⟩ := e
    rw [sortedChildren, ih, List.map_cons]

theorem sorted_dir (a : Attributes) (cs : List (String × Node)) :
    (dir a cs).sorted = .dir a ((sortByKey (·.1) cs).map fun e => (e.1, e.2.sorted)) := by
  rw [sorted, sortedChildren_eq, sortByKey_map fun e : String × Node => e.2.sorted]

theorem isDir_sorted (n : Node) : n.sorted.isDir = n.isDir := by
  cases n
  · rw [sorted]
  · rw [sorted]; rfl

theorem attrs_sorted (n : Node) : n.sorted.attrs = n.attrs := by
  cases n
  · rw [sorted]
  · rw [sorted]; rfl

theorem content_sorted (n : Node) : n.sorted.content = n.content := by
  cases n
  · rw [sorted]
  · rw [sorted]; rfl

variable {n : Node} {name : String}

theorem get?_map_sorted (cs : List (String × Node)) (name : String) :
    Table.get? (cs.map fun e => (e.1, e.2.sorted)) name = (Table.get? cs name).map sorted := by
  induction cs with
  | nil => rfl
  | cons e rest ih =>
    rw [List.map_cons, Table.get?, Table.get?, ih]
    split
    · rfl
    · rfl

theorem child?_sorted (h : n.Sound) (name : String) :
    n.sorted.child? name = (n.child? name).map sorted := by
  cases n with
  | file a c => rfl
  | dir a cs =>
    have hget : Table.get? (sortByKey (·.1) cs) name = Table.get? cs name :=
      Table.get?_perm (sortByKey_perm _ cs) h.nodup name
    rw [sorted_dir, child?, children, get?_map_sorted, hget]
    rfl

theorem at?_sorted (h : n.Everywhere Sound) (p : Place) : n.sorted.at? p = (n.at? p).map sorted := by
  induction p generalizing n with
  | nil => rfl
  | cons name rest ih =>
    rw [at?_cons, at?_cons, child?_sorted h.self]
    cases hc : n.child? name with
    | none => rfl
    | some c => exact ih (((everywhere_iff n).mp h).2 name c hc)

end Node

namespace FileSystem
variable {fs : FileSystem} {name : String} {a : Attributes}

theorem readAttributes_congr {members members' : List (String × Json)}
    (h : ∀ key, Table.get? members' key = Table.get? members key) (name : String) :
    readAttributes name members' = readAttributes name members := by
  unfold readAttributes member
  simp only [h]

def sortedEntry (name kind : String) (a : Attributes) (last : String × Json) :
    List (String × Json) :=
  sortByKey (·.1) (commonMembers name kind a ++ [last])

theorem get?_sortedEntry {kind : String} {last : String × Json}
    (h : (Table.keys (commonMembers name kind a ++ [last])).Nodup) (key : String) :
    Table.get? (sortedEntry name kind a last) key =
      Table.get? (commonMembers name kind a ++ [last]) key :=
  Table.get?_perm (sortByKey_perm _ _) h key

theorem nodup_content (name kind : String) (a : Attributes) (v : Json) :
    (Table.keys (commonMembers name kind a ++ [("content", v)])).Nodup := by
  simp [commonMembers, Table.keys]

theorem nodup_children (name kind : String) (a : Attributes) (v : Json) :
    (Table.keys (commonMembers name kind a ++ [("children", v)])).Nodup := by
  simp [commonMembers, Table.keys]

theorem sorted_nodeSnapshot_file (name content : String) (a : Attributes) :
    (nodeSnapshot name (.file a content)).sorted =
      .obj (sortedEntry name "f" a ("content", .str content)) := rfl

theorem childSnapshots_eq (cs : List (String × Node)) :
    childSnapshots cs = cs.map fun e => (e.1, nodeSnapshot e.1 e.2) := by
  induction cs with
  | nil => rfl
  | cons e rest ih =>
    obtain ⟨name, n⟩ := e
    rw [childSnapshots, ih, List.map_cons]

theorem sorted_nodeSnapshot_dir (name : String) (a : Attributes) (cs : List (String × Node)) :
    (nodeSnapshot name (.dir a cs)).sorted =
      .obj (sortedEntry name "d" a ("children",
        .obj ((sortByKey (·.1) cs).map fun e => (e.1, (nodeSnapshot e.1 e.2).sorted)))) := by
  have hchildren : (Json.obj (childSnapshots cs)).sorted =
      .obj ((sortByKey (·.1) cs).map fun e => (e.1, (nodeSnapshot e.1 e.2).sorted)) := by
    rw [Json.sorted, Json.sortedMembers_eq, childSnapshots_eq, List.map_map,
      ← sortByKey_map fun e => (nodeSnapshot e.1 e.2).sorted]
    rfl
  rw [← hchildren]
  rfl

theorem readAll_map {cs : List (String × Node)} {f : String × Node → Json} {g : Node → Node}
    (h : ∀ e ∈ cs, readNode e.1 (f e) = .ok (g e.2)) (hnodup : (Table.keys cs).Nodup)
    (taken : List String) (hfresh : ∀ name ∈ Table.keys cs, name ∉ taken) :
    readAll taken (cs.map fun e => (e.1, f e)) = .ok (cs.map fun e => (e.1, g e.2)) := by
  induction cs generalizing taken with
  | nil => rfl
  | cons e rest ih =>
    obtain ⟨hname, hrest⟩ := List.nodup_cons.mp hnodup
    have hnew : e.1 ∉ taken := hfresh e.1 (by simp [Table.keys])
    have hall := ih (fun e he => h e (by simp [he])) hrest (e.1 :: taken) fun other hother hmem => by
      rcases List.mem_cons.mp hmem with rfl | hmem
      · exact hname hother
      · exact hfresh other (List.mem_cons_of_mem _ hother) hmem
    exact readAll_cons_eq_ok_iff.mpr ⟨g e.2, _, h e (by simp), hnew, hall, rfl⟩

theorem readNode_sorted {n : Node} (h : n.Everywhere Node.Sound) (name : String) :
    readNode name (nodeSnapshot name n).sorted = .ok n.sorted := by
  induction n using Node.ind generalizing name with
  | file a content =>
    have hget := get?_sortedEntry (nodup_content name "f" a (.str content))
    have hattrs := readAttributes_commonMembers name name false h.self.mode
      [("content", .str content)]
    rw [sorted_nodeSnapshot_file]
    refine readNode_eq_ok_iff.mpr ⟨_, rfl, .file ((readAttributes_congr hget name).trans hattrs) ?_ ?_⟩
    · rw [hget]
      rfl
    · rw [readContent, hget]
      rfl
  | dir a cs ih =>
    have hget := get?_sortedEntry (nodup_children name "d" a
      (.obj ((sortByKey (·.1) cs).map fun e => (e.1, (nodeSnapshot e.1 e.2).sorted))))
    have hattrs := readAttributes_commonMembers name name true h.self.mode [("children",
      .obj ((sortByKey (·.1) cs).map fun e => (e.1, (nodeSnapshot e.1 e.2).sorted)))]
    have hperm := sortByKey_perm (·.1) cs
    have hnodup : (Table.keys (sortByKey (·.1) cs)).Nodup :=
      (hperm.map _).nodup_iff.mpr h.self.nodup
    have hchildren : readAll []
        ((sortByKey (·.1) cs).map fun e => (e.1, (nodeSnapshot e.1 e.2).sorted)) =
          .ok ((sortByKey (·.1) cs).map fun e => (e.1, e.2.sorted)) := by
      refine readAll_map (fun e he => ?_) hnodup [] (by simp)
      have hmem := hperm.mem_iff.mp he
      exact ih e.1 e.2 hmem (Node.sound_of_mem h hmem) e.1
    rw [sorted_nodeSnapshot_dir, Node.sorted_dir]
    refine readNode_eq_ok_iff.mpr ⟨_, rfl, .dir ((readAttributes_congr hget name).trans hattrs) ?_ ?_⟩
    · rw [hget]
      rfl
    · rw [readChildren_eq, hget]
      exact hchildren

/-- A sorted snapshot restores the sorted file system, in whatever state. -/
theorem WellFormed.run_restore_sorted (h : fs.WellFormed) (other : FileSystem) :
    (restore fs.snapshot.sorted).run other = (.ok (), { root := fs.root.sorted, cwd := fs.cwd }) := by
  have hnodup : (Table.keys [("root", nodeSnapshot "" fs.root),
      ("cwd", Json.str fs.workingPath)]).Nodup := by
    simp [Table.keys]
  have hmember (key : String) : fs.snapshot.sorted.member? key =
      (fs.snapshot.member? key).map Json.sorted := Json.get?_sorted hnodup key
  have hroot : readNode "" ((fs.snapshot.sorted.member? "root").getD .null) = .ok fs.root.sorted := by
    rw [hmember]
    exact readNode_sorted h.sound ""
  have hcwd : fs.snapshot.sorted.member? "cwd" = some (.str fs.workingPath) := by
    rw [hmember]
    rfl
  obtain ⟨d, hd, hdir⟩ := Node.kind?_eq_some_iff.mp h.cwd_isDir
  have hplace : Place.ofPath [] fs.workingPath = fs.cwd := Place.ofPath_text (h.plain hd) []
  have hat : (FileSystem.mk fs.root.sorted []).at? fs.cwd = some d.sorted := by
    rw [at?, Node.at?_sorted h.sound]
    exact congrArg (Option.map Node.sorted) hd
  have hfound : (FileSystem.mk fs.root.sorted []).isDirectory fs.workingPath = true := by
    rw [isDirectory, place, hplace, hat, Option.map_some, Option.getD_some, Node.isDir_sorted]
    exact hdir
  unfold restore
  rw [Work.run_bind, Work.run_lift, hroot]
  dsimp only
  rw [Node.isDir_sorted, h.root_isDir, Bool.not_true, if_neg Bool.false_ne_true, Work.run_bind,
    Work.run_change, hcwd]
  dsimp only
  rw [Work.run_change, if_pos hfound, place, hplace]

structure Visit where
  path : String
  isDir : Bool
  attrs : Attributes
  content : String
deriving DecidableEq

def visit (e : Place × Node) : Visit := ⟨Place.text e.1, e.2.isDir, e.2.attrs, e.2.content⟩

theorem visit_sorted (p : Place) (n : Node) : visit (p, n.sorted) = visit (p, n) := by
  rw [visit, Node.isDir_sorted, Node.attrs_sorted, Node.content_sorted, visit]

theorem visit_below_sorted (n : Node) (p : Place) :
    (below p n.sorted).map visit = (below p n).map visit := by
  induction n using Node.ind generalizing p with
  | file a c => rfl
  | dir a cs ih =>
    have hperm := sortByKey_perm (·.1) cs
    have hhead := visit_sorted p (.dir a cs)
    rw [Node.sorted_dir] at hhead ⊢
    rw [below_dir, below_dir, List.map_cons, List.map_cons, hhead,
      sortByKey_map fun e : String × Node => e.2.sorted, sortByKey_sortByKey, List.flatMap_map,
      List.map_flatMap, List.map_flatMap]
    refine congrArg (_ :: ·) (List.flatMap_congr fun e he => ?_)
    exact ih e.1 e.2 (hperm.mem_iff.mp he) (p ++ [e.1])

end FileSystem
end MemShell
