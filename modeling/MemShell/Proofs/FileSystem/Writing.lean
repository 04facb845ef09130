import MemShell.Proofs.FileSystem.Access
import MemShell.Proofs.FileSystem.Copying
import MemShell.Proofs.FileSystem.Making
import MemShell.Proofs.FileSystem.Texts
set_option autoImplicit false

namespace MemShell

theorem Node.eq_file_of_label {n : Node} {attrs : Attributes} {x : String}
    (h : n.label = (Node.file attrs x).label) : n = .file attrs x := by
  cases n with
  | file attrs' x' =>
    have hattrs : attrs' = attrs := congrArg Label.attrs h
    have htext : x' = x := congrArg Label.content h
    rw [hattrs, htext]
  | dir attrs' cs => cases congrArg Label.isDir h

namespace FileSystem
variable {fs fs' : FileSystem} {a : Actor} {p q target : Place} {x path text : String}
  {append parents : Bool} {attrs : Attributes}

theorem isFile_iff : fs.isFile path = true ↔ fs.kind? (fs.place path) = some false := by
  have hkind : fs.kind? (fs.place path) = (fs.at? (fs.place path)).map Node.isDir := rfl
  rw [isFile, hkind]
  cases fs.at? (fs.place path) <;> simp

theorem kind?_eq_some_false_iff :
    fs.kind? p = some false ↔ ∃ attrs x, fs.at? p = some (.file attrs x) := by
  constructor
  · intro h
    obtain ⟨n, hn, hfile⟩ := Node.kind?_eq_some_iff.mp h
    cases n with
    | file attrs x => exact ⟨attrs, x, hn⟩
    | dir attrs cs => cases hfile
  · rintro ⟨attrs, x, hn⟩
    exact kind?_of_at? hn

theorem at?_file_of_label? (h : fs'.label? q = fs.label? q) (hn : fs.at? q = some (.file attrs x)) :
    fs'.at? q = some (.file attrs x) := by
  rw [label?_of_at? hn] at h
  obtain ⟨n, hn', hlabel⟩ := Option.map_eq_some_iff.mp h
  rw [hn', Node.eq_file_of_label hlabel]

theorem ne_parent_of_file (hn : fs.at? q = some (.file attrs x)) (hp : (fs.at? p).isSome)
    (hq : q ≠ p) : q ≠ p.parent := by
  rintro rfl
  have hne : p ≠ [] := by
    rintro rfl
    exact hq rfl
  obtain ⟨m, hm⟩ := Option.isSome_iff_exists.mp hp
  rw [← parent_append_name hne] at hm
  cases Node.isDir_of_at?_append hm hn (List.cons_ne_nil _ _)

theorem Wrote.text? (h : Wrote a fs p text append fs') :
    fs'.text? p = some (if append then (fs.text? p).getD "" ++ text else text) := by
  cases h with
  | new graft =>
    have hnone : fs.text? p = none := by
      rw [FileSystem.text?, graft.at?_eq_none]
      rfl
    have hnew : fs'.text? p = some text := text?_eq_some_iff.mpr ⟨_, graft.at?⟩
    rw [hnew, hnone, Option.getD_none, String.empty_append]
    split <;> rfl
  | @onto attrs old found writable =>
    have hold : fs.text? p = some old := text?_eq_some_iff.mpr ⟨attrs, found⟩
    rw [text?_stamp, text?_setContent_self hold, hold, Option.getD_some]

theorem Wrote.at?_file (h : Wrote a fs p text append fs') (hq : q ≠ p)
    (hn : fs.at? q = some (.file attrs x)) : fs'.at? q = some (.file attrs x) := by
  refine at?_file_of_label? ?_ hn
  cases h with
  | new graft =>
    refine (graft.grown rfl).beside q (Option.isSome_of_eq_some hn) fun hdeepest => ?_
    -- What was the last on the way to the new file is a directory.
    cases graft.makeable.way q _ hdeepest.onWay hn
  | onto found writable =>
    have hparent := ne_parent_of_file hn (Option.isSome_of_eq_some found) hq
    rw [label?_stamp, label?_setContent _ found]
    simp [hq, hparent]

theorem Grafted.kind?_eq_some_false {leaf : Node} (h : Grafted a fs p leaf fs')
    (hleaf : leaf.children = []) (hq : q ≠ p) (hfile : fs'.kind? q = some false) :
    fs.kind? q = some false := by
  have hgrown := h.grown hleaf
  by_cases hold : fs.at? q = none
  · -- On the way to the new node only directories were made.
    obtain ⟨m, hm, hmfile⟩ := Node.kind?_eq_some_iff.mp hfile
    have hway : q <+: p :=
      ((hgrown.found q).mp (Option.isSome_of_eq_some hm)).resolve_left (by simp [hold])
    obtain ⟨cs, hcs⟩ := hgrown.made q hway hq hold
    rw [show fs'.at? q = some m from hm] at hcs
    cases hcs
    cases hmfile
  · obtain ⟨n, hn⟩ := Option.ne_none_iff_exists'.mp hold
    cases h with
    | intro site valid => rwa [kind?_insert (not_below_free site.found site.free hn)] at hfile

theorem Wrote.isFile_iff (h : Wrote a fs p text append fs') :
    fs'.kind? q = some false ↔ fs.kind? q = some false ∨ q = p := by
  constructor
  · intro hfile
    by_cases hq : q = p
    · exact .inr hq
    · left
      cases h with
      | new graft => exact graft.kind?_eq_some_false rfl hq hfile
      | onto found writable =>
        rwa [kind?_stamp, kind?_modify_of_children (Node.isDir_setContent _)
          (Node.children_setContent _)] at hfile
  · intro hfile
    by_cases hq : q = p
    · obtain ⟨attrs, hn⟩ := text?_eq_some_iff.mp h.text?
      rw [hq]
      exact kind?_of_at? hn
    · obtain ⟨attrs, x, hn⟩ := kind?_eq_some_false_iff.mp (hfile.resolve_right hq)
      exact kind?_of_at? (h.at?_file hq hn)

theorem Wrote.cwd (h : Wrote a fs p text append fs') : fs'.cwd = fs.cwd := by
  cases h with
  | new graft => exact (graft.grown rfl).cwd
  | onto found writable => exact cwd_stamp a.now

/-- After a write that succeeds root reads, by whatever path leads to the same place, the text that
was written, behind the old one if it was to be appended. Whoever could read another file reads the
same there, and the files are those that there were and the one that was written. -/
theorem Reachable.readText_of_writeText (h : Reachable fs)
    (hrun : (writeText a path text append parents).run fs = (.ok target, fs')) :
    target = fs.place path ∧ fs'.cwd = fs.cwd ∧
      (∀ b q, b.user = rootUser → fs.place q = fs.place path → fs'.readText b q =
        .ok (if append then (fs.text? (fs.place path)).getD "" ++ text else text)) ∧
      (∀ b q x, fs.place q ≠ fs.place path → fs.readText b q = .ok x → fs'.readText b q = .ok x) ∧
      ∀ q, fs'.isFile q = true ↔ fs.isFile q = true ∨ fs.place q = fs.place path := by
  obtain ⟨rfl, hwrote⟩ := (ends_write h.wellFormed.root_isDir path text append parents).value hrun
  have hplace (q : String) : fs'.place q = fs.place q := by
    rw [place, hwrote.cwd]
    rfl
  refine ⟨rfl, hwrote.cwd, fun b q hb hq => ?_, fun b q x hq hx => ?_, fun q => ?_⟩
  · obtain ⟨attrs, hn⟩ := text?_eq_some_iff.mp hwrote.text?
    rw [readText_eq_ok_iff, hplace, hq]
    exact ⟨attrs, hn, may_of_root hb _ _⟩
  · obtain ⟨attrs, hn, hmay⟩ := readText_eq_ok_iff.mp hx
    rw [readText_eq_ok_iff, hplace]
    exact ⟨attrs, hwrote.at?_file hq hn, hmay⟩
  · rw [isFile_iff, isFile_iff, hplace]
    exact hwrote.isFile_iff

def desk : FileSystem :=
  let a : Actor := ⟨"ada", {}, default⟩
  (fresh {} default (some "ada")).after
    [(a, .makeFile "note" "one" false), (a, .makeFile "other" "two" false)]

/-- Ada appends to a file by a path that leads out of her home and back. -/
theorem Reachable.readText_of_writeText_detour :
    let run := (writeText ⟨"ada", {}, default⟩ "..//ada/./note" "!" true true).run desk
    let root : Actor := ⟨rootUser, {}, default⟩
    run.1 = .ok ["home", "ada", "note"] ∧ run.2.readText root "/home/ada/note" = .ok "one!" ∧
      run.2.readText root "other" = .ok "two" ∧ run.2.isFile "/home/ada" = false := by
  have hfs : Reachable desk := (reachable_fresh {} default (by decide)).after _
  have hok : ((writeText ⟨"ada", {}, default⟩ "..//ada/./note" "!" true true).run desk).1 =
      .ok ["home", "ada", "note"] := by decide +kernel
  obtain ⟨-, -, hself, hothers, hfiles⟩ :=
    Reachable.readText_of_writeText hfs (Work.run_eq_of_ok hok)
  have hread := hself ⟨rootUser, {}, default⟩ "/home/ada/note" rfl (by decide +kernel)
  have hold : desk.text? (desk.place "..//ada/./note") = some "one" := by decide +kernel
  rw [hold] at hread
  refine ⟨hok, hread, hothers _ "other" "two" (by decide +kernel) (by decide +kernel), ?_⟩
  rw [Bool.eq_false_iff, ne_eq, hfiles]
  decide +kernel

end FileSystem
end MemShell
