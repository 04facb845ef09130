import MemShell.Proofs.Shell.Redirection
import MemShell.Proofs.Shell.Interleaving
import MemShell.Proofs.Shell.Upkeep
set_option autoImplicit false

namespace MemShell
open Execute

namespace Builtin

def replacesFiles : Builtin → Bool
  | rm | rmdir | mv | cp => true
  | _ => false

end Builtin

namespace Note

def appended (p : Place) (s : Shell) : Note → String
  | .command .. => ""
  | .redirect c target text =>
    if s.files.place target.path = p ∧ ((writeRedirect c target text).run s).1.isOk then text else ""

/-- The file at a place is neither taken away nor overwritten: a command that could do so leaves its
text alone, and an output that is written to it is appended. -/
def SparesText (p : Place) (s : Shell) : Note → Prop
  | .command (.builtin b) c =>
    b.replacesFiles = true → ((b.run c).run s).2.files.text? p = s.files.text? p
  | .command .. => True
  | .redirect c target text =>
    s.files.place target.path = p → ((writeRedirect c target text).run s).1.isOk = true →
      target.append = true

instance (p : Place) (s : Shell) : (n : Note) → Decidable (n.SparesText p s)
  | .command (.builtin b) c => inferInstanceAs (Decidable (b.replacesFiles = true →
      ((b.run c).run s).2.files.text? p = s.files.text? p))
  | .command (.wait _) _ => .isTrue trivial
  | .command .runScript _ => .isTrue trivial
  | .command .fanOut _ => .isTrue trivial
  | .command (.custom _) _ => .isTrue trivial
  | .redirect c target text => inferInstanceAs (Decidable (s.files.place target.path = p →
      ((writeRedirect c target text).run s).1.isOk = true → target.append = true))

end Note

namespace Appending

def Holds (p : Place) (x : String) (s : Shell) : Prop := s.files.text? p = some x

variable {p : Place} {x : String} {s t : Shell} {c : Context}

theorem ends_gentle {α : Type} {user : String} {f : Actor → Update α}
    (h : FileSystem.Gentle (s.actor user) s.files (f (s.actor user))) (hx : Holds p x s) :
    (Effect.changeFiles user f).Ends s (Holds p x) fun _ => Holds p x :=
  Effect.ends_changeFiles (Work.ends_of_state (FileSystem.text?_run_of_gentle h hx))

theorem ends_changeOnce {f : Actor → Update Place}
    (h : FileSystem.Gentle (s.actor c.user) s.files (f (s.actor c.user))) (hx : Holds p x s) :
    (Builtins.changeOnce c f).Ends s (Holds p x) fun _ => Holds p x :=
  (ends_gentle h hx).bind fun _ _ ht => Work.ends_pure ht

theorem ends_changeEach {f : String → Actor → Update Place}
    (h : ∀ path s, Holds p x s → FileSystem.Gentle (s.actor c.user) s.files (f path (s.actor c.user)))
    (hx : Holds p x s) : (Builtins.changeEach c f).Ends s (Holds p x) fun _ => Holds p x := by
  have hall : (c.args.forM fun path => do
      let _ ← Effect.changeFiles c.user (f path)).Ends s (Holds p x) fun _ => Holds p x :=
    Work.ends_forM hx fun path s hs => (ends_gentle (h path s hs) hs).bind fun _ _ ht =>
      Work.ends_pure ht
  exact hall.bind fun _ _ ht => Work.ends_pure ht

theorem ends_withTwo {f : String → String → Effect (Result String)} (hx : Holds p x s)
    (h : ∀ y z, (f y z).Ends s (Holds p x) fun _ => Holds p x) :
    (Builtins.withTwo c f).Ends s (Holds p x) fun _ => Holds p x := by
  unfold Builtins.withTwo
  split
  · exact h _ _
  · exact Work.ends_pure hx

theorem ends_useradd (hp : p ≠ []) (hx : Holds p x s) :
    (Builtins.useradd c).Ends s (Holds p x) fun _ => Holds p x := by
  have hrequired : (Builtins.requireRoot c).Ends s (Holds p x) fun _ => Holds p x := by
    unfold Builtins.requireRoot
    split
    · exact Work.ends_pure hx
    · exact Work.ends_throw hx
  refine hrequired.bind fun _ s hx => ?_
  refine Work.ends_get_bind ?_
  refine Work.ends_lift_bind hx fun accounts _ => ?_
  refine Work.ends_change_bind ?_
  have hmade := FileSystem.gentle_makeDirectory (a := Shell.actor { s with accounts } rootUser)
    (FileSystem.root_isDir_of_text? hp hx) ("/home/" ++ c.args.headD "") true true
  refine (ends_gentle (s := { s with accounts }) hmade hx).bind fun home t ht => ?_
  refine Work.ends_change_bind (Work.ends_pure ?_)
  exact (FileSystem.text?_mapAttrs _ home).trans ht

theorem files_setEnvironment (job : Option JobId) (e : Environment) (s : Shell) :
    (s.setEnvironment job e).files = s.files := by cases job <;> rfl

theorem holds_setEnvironment {job : Option JobId} {e : Environment} (hx : Holds p x s) :
    Holds p x (s.setEnvironment job e) := by
  rw [Holds, files_setEnvironment]
  exact hx

theorem upheld (p : Place) (x : String) (job : Option JobId) : Upheld (Holds p x) job where
  cwd _ h := h
  environment _ h _ := holds_setEnvironment h
  aliases _ h := h
  accounts _ h := h
  jobs h _ _ := h
  save h := h

/-- The commands that change the tree, but take no file away and put no other text in its place. -/
theorem ends_run_of_changesTree {b : Builtin} (hp : p ≠ []) (hx : Holds p x s)
    (htree : b.changesTree = true) (hreplace : b.replacesFiles = false) :
    (b.run c).Ends s (Holds p x) fun _ => Holds p x := by
  have hroot (s : Shell) (hs : Holds p x s) := FileSystem.root_isDir_of_text? hp hs
  cases b with
  | touch =>
    exact ends_changeEach (fun path s hs => FileSystem.gentle_touch (hroot s hs) path) hx
  | mkdir =>
    exact ends_changeEach (fun path s hs => FileSystem.gentle_makeDirectory (hroot s hs) path _ _) hx
  | chmod =>
    exact ends_withTwo hx fun _ _ => ends_changeOnce (FileSystem.gentle_changeMode _ _) hx
  | chown =>
    exact ends_withTwo hx fun _ _ => ends_changeOnce (FileSystem.gentle_changeOwner _ _) hx
  | chgrp =>
    exact ends_withTwo hx fun _ _ => ends_changeOnce (FileSystem.gentle_changeGroup _ _) hx
  | useradd => exact ends_useradd hp hx
  | rm | rmdir | mv | cp => cases hreplace
  | _ => cases htree

theorem holds_builtin {b : Builtin} (hp : p ≠ []) (hx : Holds p x s)
    (hspares : Note.SparesText p s (.command (.builtin b) c)) : Holds p x ((b.run c).run s).2 := by
  by_cases hreplace : b.replacesFiles = true
  · exact (hspares hreplace).trans hx
  by_cases htree : b.changesTree = true
  · exact (ends_run_of_changesTree hp hx htree (by simpa using hreplace)).state
  refine Builtin.upholds (upheld p x _) hx (fun h => absurd h htree) ?_ fun _ => hx
  rintro - t ⟨session, environment, cwd, -, rfl⟩
  exact hx

theorem ends_writeText {user path text : String} {append : Bool} {q : Place} (hp : p ≠ [])
    (hplace : s.files.place path = q) (hx : Holds p x s) :
    (Effect.changeFiles user fun a => FileSystem.writeText a path text append).Ends s (Holds p x)
      fun _ => Holds p (if q = p then if append then x ++ text else text else x) := by
  have hwrite := FileSystem.ends_writeText (a := s.actor user) (FileSystem.root_isDir_of_text? hp hx)
    hx path text append true
  rw [hplace] at hwrite
  have hkept : ∀ fs, fs = s.files → fs.text? p = some x := by
    rintro _ rfl
    exact hx
  exact Effect.ends_changeFiles (f := fun a => FileSystem.writeText a path text append)
    (hwrite.mono_fault hkept)

theorem ends_writeRedirect (caller : Caller) (target : Redirect) (text : String) (hp : p ≠ [])
    (hx : Holds p x s) :
    (writeRedirect caller target text).Ends s (Holds p x) fun _ => Holds p
      (if s.files.place target.path = p then if target.append then x ++ text else text else x) := by
  -- The path of the target leads to it from any working directory.
  have hplace (t : Shell) := FileSystem.place_text_place s.files t.files target.path
  refine Work.ends_get_bind ?_
  dsimp only
  generalize Place.text (s.files.place target.path) = path at hplace
  generalize Place.text (s.files.place target.path).parent = above
  split
  · exact Work.ends_throw hx
  · have hroot := FileSystem.root_isDir_of_text? hp hx
    have hensured : (Effect.changeFiles caller.user fun a =>
        FileSystem.ensureDirectory a above).Ends s (Holds p x) fun _ => Holds p x :=
      ends_gentle (FileSystem.gentle_ensureDirectory hroot above) hx
    refine hensured.bind fun _ t ht => ?_
    refine Effect.ends_readFiles_bind ht fun _ => ?_
    exact (ends_writeText hp (hplace t) ht).bind fun _ _ hu => Work.ends_pure hu

theorem holds_redirect {caller : Caller} {target : Redirect} {text : String} (hp : p ≠ [])
    (hx : Holds p x s) (hspares : Note.SparesText p s (.redirect caller target text)) :
    Holds p (x ++ Note.appended p s (.redirect caller target text))
      ((writeRedirect caller target text).run s).2 := by
  have hends := ends_writeRedirect caller target text hp hx
  replace hspares : s.files.place target.path = p →
      ((writeRedirect caller target text).run s).1.isOk = true → target.append = true := hspares
  rw [Note.appended]
  cases hrun : (writeRedirect caller target text).run s with
  | mk r t =>
    rw [hrun] at hspares
    cases r with
    | error f =>
      have hkept : Holds p x t := hends.fault hrun
      simpa [Except.isOk, Except.toBool] using hkept
    | ok _ =>
      have hwritten := hends.value hrun
      by_cases hplace : s.files.place target.path = p
      · rw [if_pos hplace, hspares hplace rfl, if_pos rfl] at hwritten
        simpa [hplace, Except.isOk, Except.toBool] using hwritten
      · rw [if_neg hplace] at hwritten
        simpa [hplace] using hwritten

def Kept (p : Place) (v : Prop × String) (s t : Shell) : Prop := t = s ∧ (v.1 → Holds p v.2 s)

def discipline (p : Place) : Discipline (Prop × String) where
  mine _ := True
  same := Kept p
  unsaved := Kept p
  next v s e u := u = (v.1 ∧ e.SparesText p s, v.2 ++ e.appended p s)

theorem upkeep (hp : p ≠ []) : (discipline p).Upkeep (fun v s => v.1 → Holds p v.2 s)
    fun v s => v.1 → Holds p v.2 s where
  same := .rfl
  unsaved := .rfl
  script _ _ := trivial
  orSession _ _ := trivial
  weaken _ := .inr fun _ _ h => h
  save h := h
  notify _ h := h
  record _ h := h
  environment _ _ h hknown := holds_setEnvironment (h hknown)
  launch _ _ _ h := h
  next := by
    rintro v _ s action c rfl h hknown
    change Holds p (v.2 ++ "") s
    rw [String.append_empty]
    exact h hknown.1
  builtin := by
    rintro b c v _ s - rfl h
    refine Discipline.ends_of_upholds (fun hknown => ?_) fun _ h => h
    change Holds p (v.2 ++ "") _
    rw [String.append_empty]
    exact holds_builtin hp (h hknown.1) hknown.2
  redirect := by
    rintro c target text v _ s - rfl h
    exact Work.ends_of_state fun hknown => holds_redirect hp (h hknown.1) hknown.2

theorem lawful (hp : p ≠ []) : (discipline p).Lawful := (upkeep hp).lawful

theorem knows_noted (v : Prop × String) (notes : List (Shell × Note)) :
    ∃ u, Step.Knows (discipline p).next v notes u ∧
      (v.1 → (∀ n ∈ notes, n.2.SparesText p n.1) → u.1) ∧
      u.2 = v.2 ++ String.join (notes.map fun n => n.2.appended p n.1) := by
  induction notes generalizing v with
  | nil => exact ⟨v, rfl, fun hv _ => hv, by simp⟩
  | cons n rest ih =>
    obtain ⟨u, hu, hknown, htext⟩ := ih (v.1 ∧ n.2.SparesText p n.1, v.2 ++ n.2.appended p n.1)
    refine ⟨u, ⟨_, rfl, hu⟩, fun hv hall => ?_, ?_⟩
    · exact hknown ⟨hv, hall n List.mem_cons_self⟩ fun m hm => hall m (List.mem_cons_of_mem _ hm)
    · rw [htext, List.map_cons, String.join_cons, String.append_assoc]

theorem holds_turn {who : Option JobId → Prop}
    {run : Shell → Step Shell Note (Except Fault (Result String))} (hp : p ≠ [])
    (hrun : Step.Rest (Shell.Routines who) run) (hx : Holds p x s)
    (hspares : ∀ n ∈ (run s).noted, n.2.SparesText p n.1) :
    Holds p (x ++ String.join ((run s).noted.map fun n => n.2.appended p n.1)) (run s).finish := by
  have halong := Shell.along_of_rest (lawful hp) (fun _ _ => trivial) hrun
    (fun s => ⟨(False, ""), rfl, False.elim⟩) (fun _ _ _ => ⟨_, rfl⟩) (v := (True, x)) ⟨rfl, fun _ => hx⟩
  obtain ⟨u, hu, hknown, htext⟩ := knows_noted (p := p) (True, x) (run s).noted
  have hfinal := (halong.finish hu).2 (hknown trivial hspares)
  rw [htext] at hfinal
  exact hfinal

theorem files_meanwhile {who : Option JobId → Prop} (h : Shell.Meanwhile who s t) :
    t.files = s.files := by cases h <;> rfl

/-- However lines and jobs are interleaved: if none of them takes the file away or overwrites it, the
file has in the end the text that it had, and behind it all outputs that were appended, each of them
once and as a whole, in the order in which they were written. -/
theorem text?_of_interleaves {who : Option JobId → Prop} {notes : List (Shell × Note)}
    (hroot : s.files.root.isDir = true) (hx : s.files.text? p = some x)
    (h : Shell.Interleaves who s notes t) (hspares : ∀ n ∈ notes, n.2.SparesText p n.1) :
    t.files.text? p = some (x ++ String.join (notes.map fun n => n.2.appended p n.1)) := by
  have hp : p ≠ [] := FileSystem.ne_nil_of_text? hroot hx
  induction h with
  | refl => simpa using hx
  | @turn t notes run h hrun ih =>
    have hbefore := ih fun n hn => hspares n (List.mem_append_left _ hn)
    have hturn := holds_turn hp hrun hbefore fun n hn => hspares n (List.mem_append_right _ hn)
    rw [Holds, String.append_assoc, ← String.join_append, ← List.map_append] at hturn
    exact hturn
  | meanwhile h ht ih =>
    rw [files_meanwhile ht]
    exact ih hspares

def logbook : Terminal :=
  .ofShell ((Shell.bare (Catalogue.texts ++ Catalogue.jobs)).withFile "/log" "0 ")

/-- While the line sleeps its job appends to the same file. -/
theorem text?_of_interleaves_logbook : ∃ r t',
    logbook.execute "echo a >> log & echo b >> log; sleep 1; echo c >> log" = some (r, t') ∧
    t'.state.files.text? ["log"] = some "0 b\na\nc\n" := by
  let line := "echo a >> log & echo b >> log; sleep 1; echo c >> log"
  have hran : (logbook.execute line).isSome = true := by decide +kernel
  have hspares : ∀ n ∈ logbook.noted line none true, n.2.SparesText ["log"] n.1 := by
    decide +kernel
  have happended : (logbook.noted line none true).map (fun n => n.2.appended ["log"] n.1) =
    ["", "b\n", "", "", "a\n", "", "c\n"] := by decide +kernel
  obtain ⟨⟨r, t'⟩, hend⟩ := Option.isSome_iff_exists.mp hran
  refine ⟨r, t', hend, ?_⟩
  have hproper : logbook.Proper := Terminal.proper_ofShell _
  have hinterleaves := Terminal.interleaves_of_execute hproper hend
  have htext := text?_of_interleaves (p := ["log"]) (x := "0 ") (by decide +kernel)
    (by decide +kernel) hinterleaves hspares
  rw [happended] at htext
  exact htext

end Appending
end MemShell
