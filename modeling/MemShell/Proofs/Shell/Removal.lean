import MemShell.Proofs.FileSystem.WellFormed
import MemShell.Proofs.Shell.Appending
set_option autoImplicit false

namespace MemShell

namespace FileSystem
variable {fs fs' : FileSystem} {a : Actor} {p q : Place} {recursive : Bool}

/-- The removal of a path takes the working directory away. The root is not removed. -/
def Displaces (fs : FileSystem) (path : String) : Prop :=
  fs.place path ≠ [] ∧ cwdAfterRemoval fs.cwd (fs.place path) ≠ fs.cwd

instance (fs : FileSystem) (path : String) : Decidable (fs.Displaces path) :=
  inferInstanceAs (Decidable (_ ∧ _))

/-- In a well-formed tree the working directory is taken away with all that it is in. -/
theorem displaces_iff (h : fs.WellFormed) (path : String) :
    fs.Displaces path ↔ fs.place path ≠ [] ∧ fs.place path <+: fs.cwd := by
  have hplace : (fs.place path).Plain := Place.plain_ofPath fs.cwd path
  refine and_congr_right fun hne => ?_
  rw [cwdAfterRemoval_eq h.plain_cwd hplace hne]
  split
  · next hwithin =>
    refine iff_of_true (fun hstays => not_prefix_parent hne ?_) hwithin
    rwa [hstays]
  · next hout => exact iff_of_false (fun hmoves => hmoves rfl) hout

theorem Removed.isPrefix_of_lost (h : Removed a fs p recursive fs') (hq : fs.at? q ≠ none)
    (hlost : fs'.at? q = none) : p <+: q := by
  by_contra hout
  cases h with
  | intro notRoot found above writable removable =>
    have hkind : (fs.detach a.now p.parent p.name).kind? q = fs.kind? q :=
      kind?_detach (by rwa [parent_append_name notRoot])
    exact hq (Node.kind?_eq_none_iff.mp (hkind.symm.trans (Node.kind?_eq_none_iff.mpr hlost)))

theorem Removed.notRoot (h : Removed a fs p recursive fs') : p ≠ [] := by
  cases h
  assumption

theorem Removed.cwd_eq (h : Removed a fs p recursive fs') : fs'.cwd = cwdAfterRemoval fs.cwd p := by
  cases h
  rfl

end FileSystem

namespace Builtins
open FileSystem
variable {c : Context} {s : Shell} {q : Place}

theorem ends_removePath (c : Context) (path : String) (s : Shell) :
    (removePath c path).Ends s (fun t => t.files = s.files) fun _ t => t.files = s.files ∨
      Removed (s.actor c.user) s.files (s.files.place path) (c.hasFlag "recursive") t.files := by
  have hremove : (Effect.changeFiles c.user fun a =>
      FileSystem.remove a path (c.hasFlag "recursive")).Ends s (fun t => t.files = s.files)
      fun _ t => Removed (s.actor c.user) s.files (s.files.place path) (c.hasFlag "recursive")
        t.files :=
    Effect.ends_changeFiles (ends_remove path _)
  unfold removePath
  refine Work.ends_bind_of_run (Work.run_outcome _ s) ?_
  unfold Work.Ends at hremove
  generalize (Effect.changeFiles c.user fun a =>
    FileSystem.remove a path (c.hasFlag "recursive")).run s = ended at hremove ⊢
  obtain ⟨f | _, t⟩ := ended
  · dsimp only
    split
    · exact Work.ends_throw hremove
    · split
      · exact Work.ends_pure (.inl hremove)
      · exact Work.ends_throw hremove
  · exact Work.ends_pure (.inr hremove)

def behind (c : Context) (paths : List String) (s : Shell) : Shell :=
  ((paths.forM (removePath c)).run s).2

theorem behind_cons (c : Context) (path : String) (rest : List String) (s : Shell) :
    behind c (path :: rest) s =
      match (removePath c path).run s with
      | (.ok _, t) => behind c rest t
      | (.error _, t) => t := by
  unfold behind
  rw [List.forM_eq_forM, List.forM_cons, Work.run_bind]
  split <;> simp_all

theorem behind_rm (c : Context) (s : Shell) : ((rm c).run s).2 = behind c c.args s := by
  rw [rm, behind, Work.run_bind]
  split <;> simp_all

/-- What is gone behind operands was at or below one of them, as seen when it had its turn. -/
theorem exists_of_lost {paths : List String} (hq : s.files.at? q ≠ none)
    (hlost : (behind c paths s).files.at? q = none) :
    ∃ pre u post, paths = pre ++ u :: post ∧ (behind c pre s).files.place u <+: q := by
  induction paths generalizing s with
  | nil => exact absurd hlost hq
  | cons path rest ih =>
    have hstep := ends_removePath c path s
    have hhead {t : Shell} (ht : t.files = s.files ∨ Removed (s.actor c.user) s.files
        (s.files.place path) (c.hasFlag "recursive") t.files) (hgone : t.files.at? q = none) :
        s.files.place path <+: q := by
      obtain hsame | hremoved := ht
      · exact absurd (hsame ▸ hgone) hq
      · exact hremoved.isPrefix_of_lost hq hgone
    unfold Work.Ends at hstep
    cases hrun : (removePath c path).run s with
    | mk r t =>
      rw [behind_cons, hrun] at hlost
      rw [hrun] at hstep
      cases r with
      | error f => exact absurd (hstep ▸ hlost) hq
      | ok _ =>
        by_cases hgone : t.files.at? q = none
        · exact ⟨[], path, rest, rfl, hhead hstep hgone⟩
        · obtain ⟨pre, u, post, rfl, hu⟩ := ih hgone hlost
          refine ⟨path :: pre, u, post, rfl, ?_⟩
          rwa [behind_cons, hrun]

/-- The working directory stays until an operand takes it away. -/
theorem cwd_behind (c : Context) (paths : List String) (s : Shell) :
    (behind c paths s).files.cwd = s.files.cwd ∨ ∃ v ∈ paths, s.files.Displaces v := by
  induction paths generalizing s with
  | nil => exact .inl rfl
  | cons path rest ih =>
    have hstep := ends_removePath c path s
    unfold Work.Ends at hstep
    cases hrun : (removePath c path).run s with
    | mk r t =>
      rw [behind_cons, hrun]
      rw [hrun] at hstep
      cases r with
      | error f => exact .inl (congrArg FileSystem.cwd hstep)
      | ok _ =>
        by_cases hcwd : t.files.cwd = s.files.cwd
        · obtain hsame | ⟨v, hv, hdisplaces⟩ := ih t
          · exact .inl (hsame.trans hcwd)
          · refine .inr ⟨v, List.mem_cons_of_mem path hv, ?_⟩
            rwa [Displaces, place, hcwd] at hdisplaces
        · obtain hsame | hremoved := hstep
          · exact absurd (congrArg FileSystem.cwd hsame) hcwd
          · exact .inr ⟨path, List.mem_cons_self, hremoved.notRoot, hremoved.cwd_eq ▸ hcwd⟩

/-- Whatever a removal is given and however it ends: what is gone was at or below an operand seen
from the working directory in the beginning, or a relative operand led there from the working
directory that was left when it was its turn, behind an operand that takes the first one away. -/
theorem operand_above_of_lost (hq : s.files.at? q ≠ none)
    (hlost : ((rm c).run s).2.files.at? q = none) :
    (∃ u ∈ c.args, s.files.place u <+: q) ∨
      ∃ pre u post, c.args = pre ++ u :: post ∧ (Path.ofText u).isAbsolute = false ∧
        (∃ v ∈ pre, s.files.Displaces v) ∧ (behind c pre s).files.place u <+: q := by
  rw [behind_rm] at hlost
  obtain ⟨pre, u, post, hargs, hu⟩ := exists_of_lost hq hlost
  have hmem : u ∈ c.args := by simp [hargs]
  cases habsolute : (Path.ofText u).isAbsolute with
  | true =>
    have hplace : (behind c pre s).files.place u = s.files.place u := by
      simp only [place, Place.ofPath, habsolute, if_true]
    exact .inl ⟨u, hmem, hplace ▸ hu⟩
  | false =>
    obtain hcwd | hdisplaced := cwd_behind c pre s
    · have hplace : (behind c pre s).files.place u = s.files.place u := by rw [place, place, hcwd]
      exact .inl ⟨u, hmem, hplace ▸ hu⟩
    · exact .inr ⟨pre, u, post, hargs, habsolute, hdisplaced, hu⟩

def sheltered : Shell :=
  let s := Shell.bare Catalogue.files
  let files := ((FileSystem.ensureDirectory (s.actor rootUser) "/a/b").run s.files).2
  ({ s with files := { files with cwd := ["a", "b"] } }.withFile "/a/x" "").withFile "/a/b/x" ""

def twice : Context where
  name := "rm"
  args := ["x", ".", "x"]
  flags := [("recursive", .switch true)]
  paths := []
  input := none
  caller := { user := rootUser }
  services := []

theorem operand_above_of_lost_twice :
    sheltered.files.at? ["a", "x"] ≠ none ∧ ((rm twice).run sheltered).1.isOk = true ∧
      ((rm twice).run sheltered).2.files.at? ["a", "x"] = none ∧
      (¬ ∃ u ∈ twice.args, sheltered.files.place u <+: ["a", "x"]) ∧
      ∃ pre u post, twice.args = pre ++ u :: post ∧ (Path.ofText u).isAbsolute = false ∧
        (∃ v ∈ pre, sheltered.files.Displaces v) ∧
        (behind twice pre sheltered).files.place u <+: ["a", "x"] := by
  have hthere : sheltered.files.at? ["a", "x"] ≠ none := by decide +kernel
  have hgone : ((rm twice).run sheltered).2.files.at? ["a", "x"] = none := by decide +kernel
  have hnone : ¬ ∃ u ∈ twice.args, sheltered.files.place u <+: ["a", "x"] := by decide +kernel
  have habove := operand_above_of_lost hthere hgone
  exact ⟨hthere, by decide +kernel, hgone, hnone, habove.resolve_left hnone⟩

end Builtins
end MemShell
