import MemShell.Proofs.FileSystem.Texts
import MemShell.Proofs.Shell.Discipline
set_option autoImplicit false

namespace MemShell
open FileSystem

namespace Effect
variable {α β : Type} {s : Shell} {user : String} {f : Actor → Update α}

theorem run_changeFiles {r : Except Fault α} {files : FileSystem}
    (h : (f (s.actor user)).run s.files = (r, files)) :
    (changeFiles user f).run s = (r, { s with files }) := by
  simp only [changeFiles, Work.run_bind, Work.run_get, h]
  rfl

theorem run_readFiles {q : FileSystem → Actor → Except Fault α} {a : α}
    (h : q s.files (s.actor user) = .ok a) : (readFiles user q).run s = (.ok a, s) := by
  rw [readFiles, Work.run_ask, h]

theorem ends_changeFiles {E : Shell → Prop} {Q : α → Shell → Prop}
    (h : (f (s.actor user)).Ends s.files (fun files => E { s with files })
      fun a files => Q a { s with files }) : (changeFiles user f).Ends s E Q := by
  cases hrun : (f (s.actor user)).run s.files with
  | mk r files =>
    cases r with
    | ok a => exact Work.ends_of_run (run_changeFiles hrun) (h.value hrun)
    | error e => exact Work.ends_of_fault (run_changeFiles hrun) (h.fault hrun)

theorem ends_changeFiles_of_unchanged {Q : α → FileSystem → Prop}
    (h : (f (s.actor user)).Ends s.files (· = s.files) Q) :
    (changeFiles user f).Ends s (· = s) fun a t => ∃ files, Q a files ∧ t = { s with files } := by
  refine ends_changeFiles ((h.mono_fault ?_).mono fun a files hQ => ⟨files, hQ, rfl⟩)
  rintro _ rfl
  rfl

theorem ends_readFiles_bind {q : FileSystem → Actor → Except Fault α} {g : α → Effect β}
    {E : Shell → Prop} {Q : β → Shell → Prop} (hE : E s) (hg : ∀ a, (g a).Ends s E Q) :
    (readFiles user q >>= g).Ends s E Q := Work.ends_ask_bind hE fun a _ => hg a

end Effect

namespace Redirection
open Execute
variable {s t : Shell} {caller : Caller} {r : Redirect} {text : String} {files : FileSystem}
  {f : Fault}

theorem place_target (files : FileSystem) (s : Shell) (r : Redirect) :
    files.place (Place.text (s.files.place r.path)) = s.files.place r.path :=
  place_text_place s.files files r.path

theorem place_parent (files : FileSystem) (s : Shell) (r : Redirect) :
    files.place (Place.text (s.files.place r.path).parent) = (s.files.place r.path).parent :=
  Place.ofPath_text (Place.plain_ofPath s.files.cwd r.path).parent files.cwd

/-- The only thing that can be wrong with the name of a target is a NUL. -/
theorem isValidName_target (hne : s.files.place r.path ≠ []) :
    isValidName (s.files.place r.path).name = true ↔
      Char.ofNat 0 ∉ (s.files.place r.path).name.toList := by
  have hplain : (s.files.place r.path).Plain := Place.plain_ofPath s.files.cwd r.path
  rw [← parent_append_name hne, Place.plain_append, Place.plain_singleton] at hplain
  rw [isValidName_iff, and_iff_right hplain.2]

def Prepared (s : Shell) (caller : Caller) (r : Redirect) (files : FileSystem) : Prop :=
  Grafted (s.actor caller.user) s.files (s.files.place r.path).parent
    (s.actor caller.user).newDirectory files

/-- The directory is made for a target that no node can be. -/
structure Torn (s : Shell) (caller : Caller) (r : Redirect) (files : FileSystem) : Prop where
  prepared : Prepared s caller r files
  hasNul : Char.ofNat 0 ∈ (s.files.place r.path).name.toList

theorem Prepared.ne_nil (h : Prepared s caller r files) : s.files.place r.path ≠ [] := by
  intro hnil
  have hnone := h.at?_eq_none
  rw [hnil] at hnone
  cases hnone

/-- Where no directory is made, a failure changes nothing. -/
theorem ends_writeRedirect_of_not_prepared (hroot : s.files.root.isDir = true)
    (h : ∀ files, ¬ Prepared s caller r files) :
    (writeRedirect caller r text).Ends s (· = s) fun _ _ => True := by
  have hparent := place_parent s.files s r
  unfold Prepared at h
  refine Work.ends_get_bind ?_
  dsimp only
  generalize s.files.place r.path = p at h hparent
  generalize Place.text p.parent = above at hparent
  generalize Place.text p = path
  split
  · exact Work.ends_throw rfl
  · refine (Effect.ends_changeFiles_of_unchanged (ends_ensureDirectory hroot above)).bind ?_
    rintro _ _ ⟨files, ⟨rfl, hensured⟩, rfl⟩
    rw [hparent] at hensured
    rcases hensured with ⟨rfl, -⟩ | hgraft
    · have hatomic : (writeText (s.actor caller.user) path text r.append).Ends s.files
        (· = s.files) _ := atomic_writeText hroot path text r.append true
      refine Effect.ends_readFiles_bind rfl fun _ => ?_
      exact (Effect.ends_changeFiles_of_unchanged hatomic).bind fun _ _ _ => Work.ends_pure trivial
    · exact absurd hgraft (h files)

/-- Behind a directory that was made only the making of the file is left. -/
theorem run_writeRedirect_of_prepared {made : Except Fault Place} {left : FileSystem}
    (h : Prepared s caller r files)
    (hmade : (makeFile (s.actor caller.user) (Place.text (s.files.place r.path)) text true).run
      files = (made, left)) :
    (writeRedirect caller r text).run s = (made.map fun _ => (), { s with files := left }) := by
  have hne := h.ne_nil
  have hparent := place_parent s.files s r
  have htarget := place_target files s r
  unfold Prepared at h
  rw [writeRedirect, Work.run_bind, Work.run_get]
  dsimp only
  -- From here on only the places count, so the reading of the paths is closed off.
  generalize s.files.place r.path = p at *
  generalize Place.text p.parent = above at *
  generalize Place.text p = path at *
  have hempty : ¬ p.isEmpty = true := by simpa using hne
  have hensured : (ensureDirectory (s.actor caller.user) above).run s.files =
      (.ok p.parent, files) := by
    rw [← hparent] at h
    have hrun := h.run_ensureDirectory
    rwa [hparent] at hrun
  have hsite := h.site p.name
  have hnode : files.node p.parent = .ok (s.actor caller.user).newDirectory :=
    node_eq_ok_iff.mpr hsite.found
  have hwrite := hsite.run_writeText (htarget.trans (parent_append_name hne).symm) text r.append
  rw [if_neg hempty, Work.run_bind, Effect.run_changeFiles hensured]
  dsimp only
  rw [Work.run_bind, Effect.run_readFiles (a := ()) ?allowed]
  case allowed => exact bind_eq_ok_iff.mpr ⟨_, hnode, require_eq_ok_iff.mpr hsite.writable⟩
  dsimp only
  rw [Work.run_bind, Effect.run_changeFiles (hwrite.trans hmade)]
  cases made <;> rfl

theorem Torn.run (h : Torn s caller r files) (text : String) :
    (writeRedirect caller r text).run s =
      (.error (.node (.invalidName (s.files.place r.path).name)), { s with files }) := by
  have hne := h.prepared.ne_nil
  have hplace := (place_target files s r).trans (parent_append_name hne).symm
  have hname : isValidName (s.files.place r.path).name = false := by
    rw [Bool.eq_false_iff, Ne, isValidName_target hne]
    exact not_not_intro h.hasNul
  exact run_writeRedirect_of_prepared h.prepared (run_makeFile_of_invalid hplace hname text true)

theorem Prepared.run (h : Prepared s caller r files)
    (hnul : Char.ofNat 0 ∉ (s.files.place r.path).name.toList) (text : String) :
    ((writeRedirect caller r text).run s).1 = .ok () := by
  have hne := h.ne_nil
  have hplace := (place_target files s r).trans (parent_append_name hne).symm
  have hname := (isValidName_target hne).mpr hnul
  rw [run_writeRedirect_of_prepared h ((h.site _).run_makeFile hplace hname text true)]
  rfl

/-- A redirection that fails leaves the shell as it was, unless it makes the directory above a target
with a NUL in its name. Then the directory stays. -/
theorem unchanged_iff_not_torn (hroot : s.files.root.isDir = true)
    (h : (writeRedirect caller r text).run s = (.error f, t)) :
    (t = s ↔ ∀ files, ¬ Torn s caller r files) ∧
      ∀ files, Torn s caller r files → t = { s with files } := by
  have hleft (files : FileSystem) (htorn : Torn s caller r files) : t = { s with files } := by
    have hrun := htorn.run text
    rw [h] at hrun
    exact congrArg Prod.snd hrun
  constructor
  · constructor
    · intro hsame files htorn
      have hchanged := hleft files htorn
      rw [hsame] at hchanged
      exact htorn.prepared.ne (congrArg Shell.files hchanged).symm
    · intro hnot
      by_cases hprepared : ∃ files, Prepared s caller r files
      · obtain ⟨files, hprepared⟩ := hprepared
        have hok := hprepared.run (fun hnul => hnot files ⟨hprepared, hnul⟩) text
        rw [h] at hok
        cases hok
      · exact (ends_writeRedirect_of_not_prepared hroot (not_exists.mp hprepared)).fault h
  · exact hleft

/-- Root's output leaves its directory behind; the output of a user who may not write does not. -/
theorem unchanged_iff_not_torn_root :
    let s := Shell.bare []
    let root : Caller := { user := rootUser }
    let torn : Redirect := { path := "/d/x\x00" }
    let ada : Caller := { user := "ada" }
    let top : Redirect := { path := "/top.txt" }
    (∃ f t, (writeRedirect root torn "hi").run s = (.error f, t) ∧ t ≠ s ∧
        t.files.isDirectory "/d" = true) ∧
      ∃ f t, (writeRedirect ada top "hi").run s = (.error f, t) ∧ t = s := by
  intro s root torn ada top
  have hroot : s.files.root.isDir = true := rfl
  have htorn : s.files.place torn.path = ["d", "x\x00"] := by decide +kernel
  have htop : s.files.place top.path = ["top.txt"] := by decide +kernel
  constructor
  · let files := s.files.insert (s.actor rootUser).now [] "d" (s.actor rootUser).newDirectory
    have hsite : Site (s.actor rootUser) s.files [] "d" s.files.root := ⟨rfl, rfl, rfl, rfl⟩
    have hleft : Torn s root torn files := by
      constructor
      · rw [Prepared, htorn]
        exact .intro hsite (by decide)
      · rw [htorn]
        decide
    have hrun := hleft.run "hi"
    have hchanged := (unchanged_iff_not_torn hroot hrun).1
    exact ⟨_, _, hrun, fun hsame => hchanged.mp hsame files hleft, by decide +kernel⟩
  · have hdenied : ((writeRedirect ada top "hi").run s).1.isOk = false := by decide +kernel
    cases hrun : (writeRedirect ada top "hi").run s with
    | mk e t =>
      rw [hrun] at hdenied
      cases e with
      | ok => cases hdenied
      | error f =>
        have hsame := (unchanged_iff_not_torn hroot hrun).1
        refine ⟨f, t, rfl, hsame.mpr fun files hfiles => ?_⟩
        have hnul := hfiles.hasNul
        rw [htop] at hnul
        revert hnul
        decide

end Redirection
end MemShell
