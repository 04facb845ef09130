import Mathlib.Data.List.Induction
import MemShell.Proofs.FileSystem.Access
import MemShell.Proofs.FileSystem.Owners
set_option autoImplicit false

namespace MemShell

namespace Path

def parts (s : String) : List String := (s.toList.splitOn '/').map String.ofList

theorem parts_slash (s t : String) : parts (s ++ "/" ++ t) = parts s ++ parts t := by
  have hcut := splitSlashes_append s.toList t.toList
  rw [splitSlashes_eq_splitOn, splitSlashes_eq_splitOn, splitSlashes_eq_splitOn] at hcut
  have hlist : (s ++ "/" ++ t).toList = s.toList ++ '/' :: t.toList := by simp
  rw [parts, hlist, hcut, List.map_append, parts, parts]

theorem namesOf_eq (s : String) :
    namesOf s.toList = (parts s).filter fun n => !n.isEmpty && n ≠ "." := by
  rw [namesOf, splitSlashes_eq_splitOn, parts]

theorem isAbsolute_ofText (s : String) :
    (ofText s).isAbsolute = true ↔ s.toList.head? = some '/' := by
  change decide (anchorOf s.toList ≠ .relative) = true ↔ _
  rw [decide_eq_true_eq]
  cases s.toList with
  | nil => simp [anchorOf]
  | cons c rest =>
    rw [List.head?_cons, Option.some_inj]
    by_cases hc : c = '/'
    · subst hc
      refine iff_of_true ?_ rfl
      unfold anchorOf
      split <;> simp_all
    · refine iff_of_false (fun hne => hne ?_) hc
      unfold anchorOf
      split <;> simp_all

end Path

namespace Place
variable {cwd : Place} {s t : String}

def follow (p : Place) (part : String) : Place :=
  if part = "" ∨ part = "." then p else if part = ".." then p.dropLast else p ++ [part]

theorem follow_eq (p : Place) (part : String) :
    p.follow part = if (!part.isEmpty && part ≠ ".") = true then p.step part else p := by
  by_cases hempty : part = "" <;> by_cases hdot : part = "." <;> simp [follow, step, hempty, hdot]

theorem walk_namesOf (p : Place) (s : String) :
    p.walk (Path.namesOf s.toList) = (Path.parts s).foldl follow p := by
  rw [walk, Path.namesOf_eq, List.foldl_filter]
  congr 1
  funext q part
  exact (follow_eq q part).symm

theorem walk_append (p : Place) (names more : List String) :
    p.walk (names ++ more) = (p.walk names).walk more := List.foldl_append

theorem ofPath_eq (hcwd : cwd.Plain) (s : String) :
    ofPath cwd s =
      (Path.parts s).foldl follow (if s.toList.head? = some '/' then [] else cwd) := by
  simp only [ofPath, Path.isAbsolute_ofText]
  split
  · exact walk_namesOf [] s
  · change walk [] (cwd.path.names ++ Path.namesOf s.toList) = _
    rw [walk_append, path_eq hcwd, walk_of_plain [] hcwd, List.nil_append, walk_namesOf]

/-- Behind a path and a slash, a relative path goes on from where the first one leads. -/
theorem ofPath_slash (hcwd : cwd.Plain) (hs : s ≠ "") (ht : t.toList.head? ≠ some '/') :
    ofPath (ofPath cwd s) t = ofPath cwd (s ++ "/" ++ t) := by
  have hhead : (s ++ "/" ++ t).toList.head? = s.toList.head? := by
    have hne : s.toList ≠ [] := fun h => hs (String.toList_eq_nil_iff.mp h)
    obtain ⟨c, cs, hcs⟩ := List.exists_cons_of_ne_nil hne
    simp [hcs]
  rw [ofPath_eq (plain_ofPath cwd s), if_neg ht, ofPath_eq hcwd, ofPath_eq hcwd, hhead,
    Path.parts_slash, List.foldl_append]

end Place

namespace Node
variable {root n : Node} {names : List String}

/-- The names on the way up from a node to the root, each the one under which the directory above
holds what is below. -/
inductive Climbs (root : Node) : Node → List String → Prop
  | top : Climbs root root []
  | up {d n : Node} {name : String} {names : List String} (above : Climbs root d names)
      (held : (name, n) ∈ d.children) : Climbs root n (name :: names)

theorem climbs_of_at? {p : Place} (h : root.at? p = some n) : root.Climbs n p.reverse := by
  induction p using List.reverseRecOn generalizing n with
  | nil =>
    obtain rfl : root = n := Option.some.inj h
    exact .top
  | append_singleton p name ih =>
    obtain ⟨d, hd, hn⟩ := at?_left_of_append h
    rw [at?_singleton] at hn
    rw [List.reverse_append]
    exact .up (ih hd) (Table.mem_of_get? hn)

theorem Climbs.at? (h : root.Climbs n names) (hsound : root.Everywhere Sound) :
    root.at? names.reverse = some n := by
  induction h with
  | top => rfl
  | @up d n name names above held ih =>
    have hd : d.Sound := hsound names.reverse d ih
    rw [List.reverse_cons, at?_snoc ih]
    exact Table.get?_of_mem hd.nodup held

end Node

namespace FileSystem
variable {fs : FileSystem}

theorem WellFormed.node_iff_climbs (h : fs.WellFormed) {p : Place} (hp : p.Plain) (n : Node) :
    fs.node p = .ok n ↔
      ∃ names, fs.root.Climbs n names ∧ p.text = "/" ++ "/".intercalate names.reverse := by
  rw [node_eq_ok_iff]
  constructor
  · intro hn
    refine ⟨p.reverse, Node.climbs_of_at? hn, ?_⟩
    rw [List.reverse_reverse]
    exact Place.text_eq hp
  · rintro ⟨names, hclimb, htext⟩
    have hn : fs.at? names.reverse = some n := hclimb.at? h.sound
    rw [← Place.text_eq (h.plain hn)] at htext
    rw [Place.text_injective hp (h.plain hn) htext]
    exact hn

theorem run_enter_of_root {b : Actor} (hb : b.user = rootUser) {path : String}
    (hdir : fs.isDirectory path = true) :
    (enter b path).run fs = (.ok (), { fs with cwd := fs.place path }) := by
  obtain ⟨d, hd, hddir⟩ : ∃ d, fs.at? (fs.place path) = some d ∧ d.isDir = true := by
    unfold isDirectory at hdir
    cases hd : fs.at? (fs.place path) with
    | none => simp [hd] at hdir
    | some d => exact ⟨d, rfl, by simpa [hd] using hdir⟩
  have hdirectory : fs.directory (fs.place path) = .ok d := directory_eq_ok_iff.mpr ⟨hd, hddir⟩
  have hexecute : b.require (fs.place path) d .execute = .ok () :=
    require_eq_ok_iff.mpr (may_of_root hb d .execute)
  simp only [enter, Work.run_bind, Work.run_get, Work.run_ask, hdirectory, Work.run_lift, hexecute,
    Work.run_change]

/-- The place of a path is the one that its parts lead to, one after the other. It is written as an
absolute path of plain names, which denotes it in every state; a relative path behind a slash goes
on from there; and the node at the place is the one from which one climbs to the root by those
names. -/
theorem Reachable.place_canonical (h : Reachable fs) (path : String) :
    (fs.place path).path = ⟨.root, fs.place path⟩ ∧
      (∀ name ∈ fs.place path, name ≠ "" ∧ name ≠ "." ∧ name ≠ ".." ∧ '/' ∉ name.toList) ∧
      fs.place path = (Path.parts path).foldl Place.follow
        (if path.toList.head? = some '/' then [] else fs.cwd) ∧
      (∀ other : FileSystem, other.place (fs.place path).text = fs.place path) ∧
      (path ≠ "" → fs.isDirectory path = true → ∀ (b : Actor) (rest : String),
        b.user = rootUser → rest.toList.head? ≠ some '/' →
          ((enter b path).run fs).1 = .ok () ∧
            ((enter b path).run fs).2.place rest = fs.place (path ++ "/" ++ rest)) ∧
      ∀ n, fs.node (fs.place path) = .ok n ↔ ∃ names, fs.root.Climbs n names ∧
        (fs.place path).text = "/" ++ "/".intercalate names.reverse := by
  have hcwd := h.wellFormed.plain_cwd
  have hplain : (fs.place path).Plain := Place.plain_ofPath fs.cwd path
  refine ⟨Place.path_eq hplain, hplain, Place.ofPath_eq hcwd path,
    fun other => Place.ofPath_text hplain other.cwd, fun hne hdir b rest hb hrest => ?_,
    h.wellFormed.node_iff_climbs hplain⟩
  rw [run_enter_of_root hb hdir]
  exact ⟨rfl, Place.ofPath_slash hcwd hne hrest⟩

def inner : FileSystem :=
  let a : Actor := ⟨rootUser, {}, default⟩
  (empty default).after [(a, .makeDirectory "/a/b" true false), (a, .enter "/a/b")]

/-- A path leads up beyond the root, down, and down and up again. -/
theorem Reachable.place_canonical_inner :
    inner.place "../../..//a/./c/.." = ["a"] ∧
      ["a"] = ["..", "..", "..", "", "a", ".", "c", ".."].foldl Place.follow ["a", "b"] ∧
      inner.place (Place.text ["a"]) = ["a"] ∧
      ((enter ⟨rootUser, {}, default⟩ "../../..//a/./c/..").run inner).2.place "b/." =
        inner.place "../../..//a/./c/../b/." ∧
      ∃ n names, inner.root.Climbs n names ∧
        Place.text ["a"] = "/" ++ "/".intercalate names.reverse := by
  have hfs : Reachable inner := (Reachable.start default).after _
  obtain ⟨-, -, hread, hagain, hon, hnode⟩ :=
    Reachable.place_canonical hfs "../../..//a/./c/.."
  have hplace : inner.place "../../..//a/./c/.." = ["a"] := by decide +kernel
  have hcwd : inner.cwd = ["a", "b"] := by decide +kernel
  have hparts : Path.parts "../../..//a/./c/.." = ["..", "..", "..", "", "a", ".", "c", ".."] := by
    decide +kernel
  rw [hplace] at hread hagain hnode
  rw [hparts, hcwd, if_neg (by decide)] at hread
  obtain ⟨-, hrest⟩ :=
    hon (by decide) (by decide +kernel) ⟨rootUser, {}, default⟩ "b/." rfl (by decide)
  obtain ⟨n, hn⟩ : ∃ n, inner.node ["a"] = .ok n := ⟨_, rfl⟩
  exact ⟨hplace, hread, hagain inner, hrest, n, (hnode n).mp hn⟩

end FileSystem
end MemShell
