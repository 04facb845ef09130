import Mathlib.Data.List.Forall2
import MemShell.Builtins.Catalogue
set_option autoImplicit false

namespace MemShell.Builtins

/-- Files that can all be read are read in their order. -/
theorem run_mapM_readText {α : Type} {user : String} {s : Shell} {name place : α → String}
    {files : List α} {texts : List String}
    (h : List.Forall₂ (fun file text =>
      s.files.readText (s.actor user) (place file) = .ok text) files texts) :
    ∃ sources : List Source,
      (files.mapM fun file =>
        (Effect.readFiles user fun fs a => fs.readText a (place file)) >>= fun text =>
          pure ⟨some (name file), text⟩).run s = (.ok sources, s) ∧
      sources.map (·.text) = texts := by
  induction h with
  | nil => exact ⟨[], rfl, rfl⟩
  | @cons file text files texts hread _ ih =>
    obtain ⟨sources, hrun, htexts⟩ := ih
    have hfirst : (Effect.readFiles user fun fs a => fs.readText a (place file)).run s =
        (.ok text, s) := by
      rw [Effect.readFiles, Work.run_ask, hread]
    refine ⟨⟨some (name file), text⟩ :: sources, ?_, congrArg (text :: ·) htexts⟩
    simp only [List.mapM_cons, Work.run_bind, hfirst, Work.run_pure, hrun]

/-- The texts that a command reads: those of the files that it names, or its input. -/
def Reads (c : Context) (s : Shell) (texts : List String) : Prop :=
  if c.paths.isEmpty then texts = [c.inputText]
  else List.Forall₂ (fun p text =>
    s.files.readText (s.actor c.user) (Place.text p.place) = .ok text) c.paths texts

theorem run_checkedSources {c : Context} {s : Shell} {texts : List String} (h : Reads c s texts) :
    ∃ sources, (checkedSources c).run s = (.ok sources, s) ∧ sources.map (·.text) = texts := by
  unfold Reads at h
  unfold checkedSources
  split at h
  · next hempty =>
    rw [if_pos hempty, h]
    exact ⟨[inputSource c], rfl, rfl⟩
  · next hne =>
    rw [if_neg hne]
    exact run_mapM_readText h

def ReadsNamed (c : Context) (s : Shell) (files texts : List String) : Prop :=
  if files.isEmpty then texts = [c.inputText]
  else List.Forall₂ (fun file text =>
    s.files.readText (s.actor c.user) file = .ok text) files texts

theorem run_namedSources {c : Context} {s : Shell} {files texts : List String}
    (h : ReadsNamed c s files texts) :
    ∃ sources, (namedSources c files).run s = (.ok sources, s) ∧ sources.map (·.text) = texts := by
  unfold ReadsNamed at h
  unfold namedSources
  split at h
  · next hempty =>
    rw [if_pos hempty, h]
    exact ⟨[inputSource c], rfl, rfl⟩
  · next hne =>
    rw [if_neg hne]
    exact run_mapM_readText h

theorem exists_source {sources : List Source} {text : String}
    (h : sources.map (·.text) = [text]) : ∃ source, sources = [source] ∧ source.text = text := by
  obtain ⟨source, rest, rfl, htext, hrest⟩ := List.map_eq_cons_iff.mp h
  exact ⟨source, congrArg _ (List.map_eq_nil_iff.mp hrest), htext⟩

end MemShell.Builtins
