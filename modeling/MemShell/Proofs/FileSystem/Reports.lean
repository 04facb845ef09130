import MemShell.Proofs.FileSystem.Faults
import MemShell.Proofs.FileSystem.Requests
import MemShell.Proofs.Text.Lines
import MemShell.Storage.Backend
set_option autoImplicit false

namespace MemShell

namespace Mode
variable {s : String}

/-- Whether a text is nine letters of a mode and a line feed. -/
def Overlong (s : String) : Prop :=
  ∃ letters, isSymbolic letters = true ∧ s.toList = letters ++ ['\n']

def overlongFault : Fault := .breakdown (.value "negative shift count")

theorem ofText_of_overlong (h : Overlong s) : ofText s = .error overlongFault := by
  obtain ⟨letters, hsym, hs⟩ := h
  have hbody : Text.dropFinalNewline s.toList = letters := by simp [Text.dropFinalNewline, hs]
  have hlength : letters.length ≠ s.toList.length := by simp [hs]
  simp only [ofText, hbody, hsym, if_true, if_neg hlength, overlongFault]

theorem faultsAre_ofText (h : ¬Overlong s) : FaultsAre Fault.IsNode (ofText s) := by
  unfold ofText
  dsimp only
  split
  · next hsym =>
    split
    · exact faultsAre_ok _
    · next hlength =>
      -- A body that is shorter than the text is the text without its final line feed.
      refine absurd ⟨_, hsym, ?_⟩ h
      rcases Text.dropFinalNewline_cases s.toList with ⟨front, hs, hdrop⟩ | ⟨-, hdrop⟩
      · rwa [hdrop]
      · exact absurd (congrArg List.length hdrop) hlength
  · split
    · exact faultsAre_ok _
    · exact faultsAre_node_error _

end Mode

namespace FileSystem

theorem ModeSpec.faultsAre_value {spec : ModeSpec} (h : ∀ s, spec = .text s → ¬Mode.Overlong s) :
    FaultsAre Fault.IsNode spec.value := by
  cases spec with
  | text s => exact Mode.faultsAre_ofText (h s rfl)
  | number n =>
    rw [ModeSpec.value]
    split
    · exact faultsAre_ok _
    · exact faultsAre_node_error _

inductive Operation where
  | resolve (path : String)
  | access (path : String) (permission : Permission)
  | create (path : String) (c : Creation)
  | rename (source dest : String)
  | delete (path : String) (recursive : Bool)
  | setOwner (path owner : String)
  | setGroup (path group : String)
  | setMode (path : String) (mode : ModeSpec)
  | save

namespace Operation
variable {fs : FileSystem} {a : Actor} {storage : Storage}

/-- The answer of an operation. What a result holds is left out, and so is the storage after a save. -/
def run (a : Actor) (storage : Storage) : Operation → Update (Result Unit)
  | .resolve path => silently (FileSystem.resolve path)
  | .access path permission => silently (FileSystem.access a path permission)
  | .create path c => silently (createResult a path c)
  | .rename source dest => silently (FileSystem.rename a source dest)
  | .delete path recursive => silently (FileSystem.delete a path recursive)
  | .setOwner path owner => silently (FileSystem.setOwner a path owner)
  | .setGroup path group => silently (FileSystem.setGroup a path group)
  | .setMode path mode => silently (FileSystem.setMode a path mode)
  | .save => Work.ask fun fs => (storage.save fs).1

def fault? (a : Actor) (storage : Storage) (fs : FileSystem) : Operation → Option Fault
  | .resolve path => faultOf (fs.node (fs.place path))
  | .access path permission =>
    faultOf do
      let n ← fs.node (fs.place path)
      a.require (fs.place path) n permission
  | .create path c => faultOf ((FileSystem.create a path c).run fs).1
  | .rename source dest => faultOf ((move a source dest).run fs).1
  | .delete path recursive => faultOf ((remove a path recursive).run fs).1
  | .setOwner path owner => faultOf ((changeOwner a path owner).run fs).1
  | .setGroup path group => faultOf ((changeGroup a path group).run fs).1
  | .setMode path mode => faultOf ((changeMode a path mode).run fs).1
  | .save => storage.backend.bind fun b => faultOf (Storage.put b storage.disk fs.snapshot).1

def BreaksDown (a : Actor) (fs : FileSystem) : Operation → Prop
  | .setMode path (.text s) =>
    Mode.Overlong s ∧ ∃ n, fs.at? (fs.place path) = some n ∧ a.owns n = true
  | _ => False

def Reports (found : Option Fault) (x : Update (Result Unit)) (fs : FileSystem) : Prop :=
  ∃ r t, x.run fs = (.ok r, t) ∧
    ∀ f, found = some f → ∃ c, f.category? = some c ∧ r = .fail f.message c.kind

theorem reports_report {α β : Type} {answer : α → Result β} {x : Update α}
    (hx : FaultsAre (fun f => f.category? ≠ none) (x.run fs).1) :
    Reports (faultOf (x.run fs).1) (silently (report answer x)) fs := by
  have hrun : (silently (report answer x)).run fs =
      match x.run fs with
      | (.ok v, t) => (.ok ((answer v).map fun _ => ()), t)
      | (.error f, t) => ((Result.ofFault "" f).map fun r : Result β => r.map fun _ => (), t) := by
    unfold silently report
    rw [Work.run_bind, Work.run_bind, Work.run_outcome]
    cases x.run fs with
    | mk out t =>
      cases out with
      | ok v => rfl
      | error f =>
        dsimp only
        rw [Work.run_lift]
        cases (Result.ofFault "" f : Except Fault (Result β)) <;> rfl
  cases hout : x.run fs with
  | mk out t =>
    rw [hout] at hrun hx
    cases out with
    | ok v => exact ⟨_, _, hrun, fun f hf => by cases hf⟩
    | error f =>
      obtain ⟨c, hc⟩ := Option.ne_none_iff_exists'.mp (hx f rfl)
      refine ⟨.fail f.message c.kind, t, ?_, fun g hg => ?_⟩
      · rw [hrun]
        simp only [Result.ofFault, hc]
        simp [Except.map, Result.map, Result.fail]
      · obtain rfl := Option.some.inj hg
        exact ⟨c, hc, rfl⟩

theorem category?_ne_none {f : Fault} (h : f.IsNode) : f.category? ≠ none := by
  obtain ⟨n, rfl⟩ := h
  exact Option.some_ne_none _

theorem reports_of_faultsAre {α β : Type} {answer : α → Result β} {x : Update α}
    (hx : x.FaultsAre Fault.IsNode) (fs : FileSystem) :
    Reports (faultOf (x.run fs).1) (silently (report answer x)) fs :=
  reports_report fun f hf => category?_ne_none (hx fs f hf)

theorem reports_resolve (path : String) :
    Reports ((resolve path).fault? a storage fs) ((resolve path).run a storage) fs := by
  have hfound : faultOf (fs.node (fs.place path)) = faultOf ((do
      let p := (← get).place path
      let _ ← Work.ask (·.node p)
      pure p : Update Place).run fs).1 := by
    rw [Work.run_bind, Work.run_get]
    dsimp only
    rw [Work.run_bind, Work.run_ask]
    cases fs.node (fs.place path) <;> rfl
  rw [fault?, hfound]
  refine reports_of_faultsAre ?_ fs
  refine Work.faultsAre_get.bind fun fs => ?_
  exact (Work.faultsAre_ask fun fs => faultsAre_node fs _).bind fun _ => Work.faultsAre_pure _

theorem reports_access (path : String) (permission : Permission) :
    Reports ((access path permission).fault? a storage fs) ((access path permission).run a storage)
      fs := by
  have hfound : (access path permission).fault? a storage fs = faultOf ((do
      let p := (← get).place path
      let n ← Work.ask (·.node p)
      Work.lift (a.require p n permission)
      pure p : Update Place).run fs).1 := by
    rw [Work.run_bind, Work.run_get]
    dsimp only [fault?]
    rw [Work.run_bind, Work.run_ask]
    cases fs.node (fs.place path) with
    | error f => rfl
    | ok n =>
      change faultOf (a.require _ n permission) = _
      dsimp only
      rw [Work.run_bind, Work.run_lift]
      cases a.require (fs.place path) n permission <;> rfl
  rw [hfound]
  refine reports_of_faultsAre ?_ fs
  refine Work.faultsAre_get.bind fun fs => ?_
  refine (Work.faultsAre_ask fun fs => faultsAre_node fs _).bind fun n => ?_
  exact (Work.faultsAre_lift (a.faultsAre_require _ n _)).bind fun _ => Work.faultsAre_pure _

/-- What setting a mode does for one who may. -/
theorem run_changeMode {path : String} (spec : ModeSpec) {n : Node}
    (hn : fs.at? (fs.place path) = some n) (howns : a.owns n = true) :
    (changeMode a path spec).run fs = match spec.value with
      | .ok mode =>
        (.ok (fs.place path), fs.setAttrs a.now (fs.place path) fun attrs => { attrs with mode })
      | .error f => (.error f, fs) := by
  have howner : a.requireOwner (fs.place path) n "permissions" = .ok () := if_pos howns
  unfold changeMode
  rw [Work.run_bind, Work.run_get]
  dsimp only
  rw [Work.run_bind, Work.run_ask, node_eq_ok_iff.mpr hn]
  dsimp only
  rw [Work.run_bind, Work.run_lift, howner]
  dsimp only
  rw [Work.run_bind, Work.run_lift]
  cases spec.value <;> rfl

theorem faultsAre_changeMode {path : String} {spec : ModeSpec}
    (h : ¬(setMode path spec).BreaksDown a fs) :
    FaultsAre Fault.IsNode ((changeMode a path spec).run fs).1 := by
  by_cases hmay : ∃ n, fs.at? (fs.place path) = some n ∧ a.owns n = true
  · obtain ⟨n, hn, howns⟩ := hmay
    have hspec : FaultsAre Fault.IsNode spec.value := by
      refine ModeSpec.faultsAre_value fun s hs hlong => h ?_
      subst hs
      exact ⟨hlong, n, hn, howns⟩
    rw [run_changeMode spec hn howns]
    cases hvalue : spec.value with
    | ok m => exact faultsAre_ok _
    | error f => exact faultsAre_error (hspec f hvalue)
  · -- The mode is not looked at.
    unfold changeMode
    rw [Work.run_bind, Work.run_get]
    dsimp only
    rw [Work.run_bind, Work.run_ask]
    cases hnode : fs.node (fs.place path) with
    | error f => exact faultsAre_error (faultsAre_node fs _ f hnode)
    | ok n =>
      have howns : a.owns n ≠ true := fun howns => hmay ⟨n, node_eq_ok_iff.mp hnode, howns⟩
      have howner : a.requireOwner (fs.place path) n "permissions" =
          .error (.node (.notOwner "permissions" (Place.text (fs.place path)))) := if_neg howns
      dsimp only
      rw [Work.run_bind, Work.run_lift, howner]
      exact faultsAre_node_error _

theorem reports_save
    (hbackend : ∀ b, storage.backend = some b → ∀ f,
      (Storage.put b storage.disk fs.snapshot).1 = .error f → f.category? = some .storage) :
    Reports (save.fault? a storage fs) (save.run a storage) fs := by
  rw [Reports, run, Work.run_ask, fault?, Storage.save]
  cases hb : storage.backend with
  | none => exact ⟨.done, fs, rfl, fun f hf => by cases hf⟩
  | some b =>
    have hcategory := hbackend b hb
    dsimp only [Option.bind_some]
    cases hput : Storage.put b storage.disk fs.snapshot with
    | mk kept rest =>
      rw [hput] at hcategory
      cases kept with
      | ok kept =>
        cases kept
        · exact ⟨_, fs, rfl, fun f hf => by cases hf⟩
        · exact ⟨_, fs, rfl, fun f hf => by cases hf⟩
      | error f =>
        have hc := hcategory f rfl
        refine ⟨.fail f.message Category.storage.kind, fs, ?_, fun g hg => ?_⟩
        · simp [Result.ofFault, hc]
        · obtain rfl := Option.some.inj hg
          exact ⟨.storage, hc, rfl⟩

/-- An operation answers with a result, and with a failed one where it meets a fault, unless a mode
that is nine letters and a line feed is set; that breaks off and changes nothing. -/
theorem answers_unless_overlong (a : Actor) (storage : Storage) (fs : FileSystem) (o : Operation)
    (hbackend : ∀ b, storage.backend = some b → ∀ f,
      (Storage.put b storage.disk fs.snapshot).1 = .error f → f.category? = some .storage) :
    (¬o.BreaksDown a fs → Reports (o.fault? a storage fs) (o.run a storage) fs) ∧
    (o.BreaksDown a fs → (o.run a storage).run fs = (.error Mode.overlongFault, fs)) := by
  constructor
  · intro h
    cases o with
    | resolve path => exact reports_resolve path
    | access path permission => exact reports_access path permission
    | create path c => exact reports_of_faultsAre (faultsAre_create a path c) fs
    | rename source dest => exact reports_of_faultsAre (faultsAre_move a source dest) fs
    | delete path recursive => exact reports_of_faultsAre (faultsAre_remove a path recursive) fs
    | setOwner path owner => exact reports_of_faultsAre (faultsAre_changeOwner a path owner) fs
    | setGroup path group => exact reports_of_faultsAre (faultsAre_changeGroup a path group) fs
    | setMode path mode =>
      exact reports_report fun f hf => category?_ne_none (faultsAre_changeMode h f hf)
    | save => exact reports_save hbackend
  · intro h
    cases o with
    | setMode path spec =>
      cases spec with
      | number n => exact h.elim
      | text s =>
        obtain ⟨hlong, n, hn, howns⟩ := h
        have hvalue : (ModeSpec.text s).value = .error Mode.overlongFault :=
          Mode.ofText_of_overlong hlong
        have hchange := run_changeMode (.text s) hn howns
        rw [hvalue] at hchange
        rw [run, silently, FileSystem.setMode, report, Work.run_bind, Work.run_bind,
          Work.run_outcome, hchange]
        rfl
    | _ => exact h.elim

theorem answers_unless_overlong_root :
    let storage : Storage :=
      { backend := some (.fixed (.error (.storage (.unreadable "s" "lost"))) (.ok none)) }
    let a : Actor := ⟨rootUser, {}, default⟩
    (∀ b, storage.backend = some b → ∀ f,
      (Storage.put b storage.disk (empty default).snapshot).1 = .error f →
        f.category? = some .storage) ∧
    Reports (some (.storage (.unreadable "s" "lost"))) (save.run a storage) (empty default) ∧
    ((setMode "/" (.text "rwxr-xr-x\n")).run a storage).run (empty default) =
      (.error Mode.overlongFault, empty default) := by
  intro storage a
  have hbackend : ∀ b, storage.backend = some b → ∀ f,
      (Storage.put b storage.disk (empty default).snapshot).1 = .error f →
        f.category? = some .storage := by
    intro b hb f hf
    cases hb
    cases hf
    rfl
  have hlong : Mode.Overlong "rwxr-xr-x\n" := ⟨"rwxr-xr-x".toList, by decide, by decide⟩
  exact ⟨hbackend, (answers_unless_overlong a storage (empty default) .save hbackend).1 id,
    (answers_unless_overlong a storage (empty default) (.setMode "/" (.text "rwxr-xr-x\n"))
      hbackend).2 ⟨hlong, (empty default).root, rfl, by decide⟩⟩

end Operation
end FileSystem
end MemShell
