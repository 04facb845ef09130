import MemShell.FileSystem.Results
import MemShell.Proofs.FileSystem.WellFormed
set_option autoImplicit false

namespace MemShell.FileSystem

inductive Request where
  | enter (path : String)
  | makeDirectory (path : String) (parents existOk : Bool)
  | makeFile (path content : String) (parents : Bool)
  | ensureDirectory (path : String)
  | writeText (path text : String) (append parents : Bool)
  | appendText (path text : String)
  | touch (path : String)
  | remove (path : String) (recursive : Bool)
  | move (source dest : String)
  | copy (source dest : String) (recursive : Bool)
  | changeOwner (path owner : String)
  | changeGroup (path group : String)
  | changeMode (path : String) (mode : ModeSpec)
  | create (path : String) (c : Creation)
  | rename (source dest : String)
  | delete (path : String) (recursive : Bool)
  | setOwner (path owner : String)
  | setGroup (path group : String)
  | setMode (path : String) (mode : ModeSpec)

variable {α : Type}

def plainly (x : Update α) : Update (Result Unit) := do
  let _ ← x
  pure .done

def silently (x : Update (Result α)) : Update (Result Unit) := do
  let r ← x
  pure (r.map fun _ => ())

def Request.run (a : Actor) : Request → Update (Result Unit)
  | .enter path => plainly (FileSystem.enter a path)
  | .makeDirectory path parents existOk => plainly (FileSystem.makeDirectory a path parents existOk)
  | .makeFile path content parents => plainly (FileSystem.makeFile a path content parents)
  | .ensureDirectory path => plainly (FileSystem.ensureDirectory a path)
  | .writeText path text append parents => plainly (FileSystem.writeText a path text append parents)
  | .appendText path text => plainly (FileSystem.appendText a path text)
  | .touch path => plainly (FileSystem.touch a path)
  | .remove path recursive => plainly (FileSystem.remove a path recursive)
  | .move source dest => plainly (FileSystem.move a source dest)
  | .copy source dest recursive => plainly (FileSystem.copy a source dest recursive)
  | .changeOwner path owner => plainly (FileSystem.changeOwner a path owner)
  | .changeGroup path group => plainly (FileSystem.changeGroup a path group)
  | .changeMode path mode => plainly (FileSystem.changeMode a path mode)
  | .create path c => silently (createResult a path c)
  | .rename source dest => silently (FileSystem.rename a source dest)
  | .delete path recursive => silently (FileSystem.delete a path recursive)
  | .setOwner path owner => silently (FileSystem.setOwner a path owner)
  | .setGroup path group => silently (FileSystem.setGroup a path group)
  | .setMode path mode => silently (FileSystem.setMode a path mode)

variable {fs : FileSystem} {a : Actor}

def Request.carry (a : Actor) (fs : FileSystem) : Request → Place → Place
  | .move source dest => placeAfterMove a fs source dest
  | .rename source dest => placeAfterMove a fs source dest
  | _ => id

inductive Outcome (a : Actor) (fs : FileSystem) : Request → FileSystem → Prop
  | edit {r : Request} {fs' : FileSystem} (h : Edit a fs (r.carry a fs) fs') : Outcome a fs r fs'
  | created {path : String} {c : Creation} {p : Place} {leaf : Node} {fs' : FileSystem}
      (graft : Grafted a fs p leaf fs') (new : New a leaf) :
      Outcome a fs (.create path c) (fs'.modify p (Node.mapAttrs c.assign))

theorem Outcome.change {r : Request} {fs' : FileSystem} (h : Outcome a fs r fs') :
    Change a fs fs' := by
  cases h with
  | edit h => exact .edit h
  | @created _ c _ _ _ graft new => exact .created graft new c

/-- A successful result goes with an outcome; a failed one goes with none. -/
def Settled (leaves : FileSystem → Prop) (fs : FileSystem) (res : Result α) (fs' : FileSystem) :
    Prop :=
  if res.success = true then leaves fs' else fs' = fs

variable {leaves : FileSystem → Prop}

theorem ends_plainly {x : Update α} (h : x.Ends fs (· = fs) fun _ fs' => leaves fs') :
    (plainly x).Ends fs (· = fs) fun res fs' => Settled leaves fs res fs' := by
  unfold plainly
  refine h.bind fun _ t ht => Work.ends_pure ?_
  have hdone : (Result.done : Result Unit).success = true := rfl
  rw [Settled, if_pos hdone]
  exact ht

theorem ends_report {β : Type} {answer : α → Result β} {x : Update α}
    (h : x.Ends fs (· = fs) fun _ fs' => leaves fs')
    (hanswer : ∀ v, (answer v).success = true) :
    (report answer x).Ends fs (· = fs) fun res fs' => Settled leaves fs res fs' := by
  unfold report
  cases hrun : x.run fs with
  | mk out t =>
    have hout : x.outcome.run fs = (.ok out, t) := by rw [Work.run_outcome, hrun]
    refine Work.ends_bind_of_run hout ?_
    cases out with
    | ok v =>
      refine Work.ends_pure ?_
      rw [Settled, if_pos (hanswer v)]
      exact h.value hrun
    | error f =>
      -- The fault becomes a failed result, or stays a fault; the state is the old one either way.
      have hsame : t = fs := h.fault hrun
      subst hsame
      rw [Work.Ends, Work.run_lift]
      unfold Result.ofFault
      cases f.category? with
      | none => rfl
      | some c => rfl

theorem ends_silently {x : Update (Result α)}
    (h : x.Ends fs (· = fs) fun res fs' => Settled leaves fs res fs') :
    (silently x).Ends fs (· = fs) fun res fs' => Settled leaves fs res fs' := by
  unfold silently
  exact h.bind fun _ _ ht => Work.ends_pure ht

theorem Atomic.outcome {x : Update α} {r : Request} (h : Atomic a fs (r.carry a fs) x) :
    x.Ends fs (· = fs) fun _ fs' => Outcome a fs r fs' :=
  h.mono fun _ _ he => .edit he

theorem Settled.mono {leaves' : FileSystem → Prop} {res : Result α} {fs' : FileSystem}
    (h : Settled leaves fs res fs') (hleaves : ∀ t, leaves t → leaves' t) :
    Settled leaves' fs res fs' := by
  unfold Settled at h ⊢
  split at h
  · next hok =>
    rw [if_pos hok]
    exact hleaves _ h
  · next hfail =>
    rw [if_neg hfail]
    exact h

theorem Request.ends_created (hroot : fs.root.isDir = true) (path : String) (c : Creation) :
    ((Request.create path c).run a).Ends fs (· = fs) fun res fs' =>
      Settled (fun fs' => ∃ leaf t, Grafted a fs (fs.place path) leaf t ∧ New a leaf ∧
        fs' = t.modify (fs.place path) (Node.mapAttrs c.assign)) fs res fs' := by
  refine ends_silently (ends_report ((ends_create hroot path c).mono ?_) fun _ => rfl)
  rintro p fs' ⟨rfl, hmade⟩
  exact hmade

/-- A request ends in one of three ways: at a fault or with a failed result, and then nothing has
changed, or with a success and its outcome. -/
theorem Request.ends_outcome (hroot : fs.root.isDir = true) (r : Request) :
    (r.run a).Ends fs (· = fs) fun res fs' => Settled (Outcome a fs r) fs res fs' := by
  cases r with
  | enter path => exact ends_plainly (gentle_enter path).atomic.outcome
  | makeDirectory path parents existOk =>
    exact ends_plainly (gentle_makeDirectory hroot path parents existOk).atomic.outcome
  | makeFile path content parents =>
    exact ends_plainly (gentle_makeFile hroot path content parents).atomic.outcome
  | ensureDirectory path => exact ends_plainly (gentle_ensureDirectory hroot path).atomic.outcome
  | writeText path text append parents =>
    exact ends_plainly (atomic_writeText hroot path text append parents).outcome
  | appendText path text => exact ends_plainly (atomic_writeText hroot path text true true).outcome
  | touch path => exact ends_plainly (gentle_touch hroot path).atomic.outcome
  | remove path recursive => exact ends_plainly (atomic_remove path recursive).outcome
  | move source dest => exact ends_plainly (atomic_move source dest).outcome
  | copy source dest recursive => exact ends_plainly (atomic_copy hroot source dest recursive).outcome
  | changeOwner path owner => exact ends_plainly (gentle_changeOwner path owner).atomic.outcome
  | changeGroup path group => exact ends_plainly (gentle_changeGroup path group).atomic.outcome
  | changeMode path mode => exact ends_plainly (gentle_changeMode path mode).atomic.outcome
  | create path c =>
    refine (Request.ends_created hroot path c).mono fun res fs' h => h.mono ?_
    rintro t ⟨_, _, hgraft, hnew, rfl⟩
    exact .created hgraft hnew
  | rename source dest =>
    exact ends_silently (ends_report (atomic_move source dest).outcome fun _ => rfl)
  | delete path recursive =>
    exact ends_silently (ends_report (atomic_remove path recursive).outcome fun _ => rfl)
  | setOwner path owner =>
    exact ends_silently (ends_report (gentle_changeOwner path owner).atomic.outcome fun _ => rfl)
  | setGroup path group =>
    exact ends_silently (ends_report (gentle_changeGroup path group).atomic.outcome fun _ => rfl)
  | setMode path mode =>
    exact ends_silently (ends_report (gentle_changeMode path mode).atomic.outcome fun _ => rfl)

def Reported (a : Actor) (fs : FileSystem) (res : Result α) (fs' : FileSystem) : Prop :=
  if res.success = true then Change a fs fs' else fs' = fs

theorem Request.ends (hroot : fs.root.isDir = true) (r : Request) :
    (r.run a).Ends fs (· = fs) fun res fs' => Reported a fs res fs' := by
  refine (Request.ends_outcome hroot r).mono fun res fs' h => ?_
  exact h.mono fun _ houtcome => houtcome.change

theorem Request.change_run (hroot : fs.root.isDir = true) (r : Request) :
    Change a fs ((r.run a).run fs).2 := by
  have hends := Request.ends (a := a) hroot r
  cases hrun : (r.run a).run fs with
  | mk out t =>
    cases out with
    | error f =>
      have hsame : t = fs := hends.fault hrun
      rw [hsame]
      exact .edit .same
    | ok res =>
      have hrep : Reported a fs res t := hends.value hrun
      unfold Reported at hrep
      split at hrep
      · exact hrep
      · rw [hrep]
        exact .edit .same

end MemShell.FileSystem
