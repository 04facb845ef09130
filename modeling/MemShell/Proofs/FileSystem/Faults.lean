import MemShell.FileSystem.Results
import MemShell.Proofs.FileSystem.Edits
import MemShell.Proofs.Faults
set_option autoImplicit false

namespace MemShell

def Work.FaultsAre (P : Fault → Prop) {σ α : Type} (x : Work σ α) : Prop :=
  ∀ s, MemShell.FaultsAre P (x.run s).1

def faultOf {α : Type} : Except Fault α → Option Fault
  | .ok _ => none
  | .error f => some f

variable {P : Fault → Prop} {α β : Type}

namespace Work
variable {σ : Type} {s : σ}

theorem faultsAre_pure (a : α) : (pure a : Work σ α).FaultsAre P := fun _ => faultsAre_ok a

theorem faultsAre_throw {f : Fault} (h : P f) : (throw f : Work σ α).FaultsAre P :=
  fun _ => faultsAre_error h

theorem faultsAre_get : (get : Work σ σ).FaultsAre P := fun s => faultsAre_ok s

theorem faultsAre_change (f : σ → σ) : (change f).FaultsAre P := fun _ => faultsAre_ok ()

theorem faultsAre_ask {q : σ → Except Fault α} (h : ∀ s, MemShell.FaultsAre P (q s)) :
    (ask q).FaultsAre P := h

theorem faultsAre_lift {r : Except Fault α} (h : MemShell.FaultsAre P r) :
    (lift r : Work σ α).FaultsAre P := fun _ => h

theorem FaultsAre.bind {x : Work σ β} {f : β → Work σ α} (hx : x.FaultsAre P)
    (hf : ∀ b, (f b).FaultsAre P) : (x >>= f).FaultsAre P := by
  intro s e he
  rw [run_bind] at he
  cases hrun : x.run s with
  | mk out t =>
    rw [hrun] at he
    cases out with
    | ok b => exact hf b t e he
    | error g =>
      cases he
      exact hx s e (congrArg Prod.fst hrun)

end Work

def Fault.IsNode (f : Fault) : Prop := ∃ n, f = .node n

theorem Fault.isNode_node (n : NodeFault) : (Fault.node n).IsNode := ⟨n, rfl⟩

theorem Fault.IsNode.ofFault {f : Fault} (h : f.IsNode) (α : Type) (before : String) :
    ∃ n : NodeFault, f = .node n ∧
      (Result.ofFault before f : Except Fault (Result α)) =
        .ok (.fail (before ++ n.message) n.category.kind) := by
  obtain ⟨n, rfl⟩ := h
  exact ⟨n, rfl, rfl⟩

theorem faultsAre_node_error (n : NodeFault) :
    FaultsAre Fault.IsNode (.error (.node n) : Except Fault α) :=
  faultsAre_error (Fault.isNode_node n)

theorem Work.faultsAre_throw_node {σ : Type} (n : NodeFault) :
    (throw (.node n) : Work σ α).FaultsAre Fault.IsNode :=
  faultsAre_throw (Fault.isNode_node n)

theorem Node.faultsAre_resolve (above : Place) (n : Node) (p : Place) :
    FaultsAre Fault.IsNode (n.resolve above p) := by
  induction p generalizing above n with
  | nil => exact faultsAre_ok n
  | cons name rest ih =>
    rw [Node.resolve]
    split
    · split
      · exact ih _ _
      · exact faultsAre_node_error _
    · exact faultsAre_node_error _

theorem Actor.faultsAre_require (a : Actor) (p : Place) (n : Node) (q : Permission) :
    FaultsAre Fault.IsNode (a.require p n q) := by
  unfold Actor.require
  split
  · exact faultsAre_ok ()
  · exact faultsAre_node_error _

theorem Actor.faultsAre_requireOwner (a : Actor) (p : Place) (n : Node) (action : String) :
    FaultsAre Fault.IsNode (a.requireOwner p n action) := by
  unfold Actor.requireOwner
  split
  · exact faultsAre_ok ()
  · exact faultsAre_node_error _

namespace FileSystem
variable {fs : FileSystem} {a : Actor} {p : Place}

theorem faultsAre_node (fs : FileSystem) (p : Place) : FaultsAre Fault.IsNode (fs.node p) :=
  Node.faultsAre_resolve [] fs.root p

theorem faultsAre_directory (fs : FileSystem) (p : Place) :
    FaultsAre Fault.IsNode (fs.directory p) := by
  unfold directory
  refine (faultsAre_node fs p).bind fun n _ => ?_
  split
  · exact faultsAre_ok n
  · exact faultsAre_node_error _

theorem faultsAre_splitParent (p : Place) : FaultsAre Fault.IsNode (splitParent p) := by
  unfold splitParent
  split
  · exact faultsAre_node_error _
  · exact faultsAre_ok _

theorem faultsAre_checkName (name : String) : FaultsAre Fault.IsNode (checkName name) := by
  unfold checkName
  split
  · exact faultsAre_ok ()
  · exact faultsAre_node_error _

theorem faultsAre_checkNames (names : List String) :
    FaultsAre Fault.IsNode (names.forM checkName) := by
  induction names with
  | nil => exact faultsAre_ok ()
  | cons name rest ih =>
    rw [List.forM_eq_forM, List.forM_cons]
    exact (faultsAre_checkName name).bind fun _ _ => ih

theorem faultsAre_nearest (above : Place) (n : Node) (p : Place) :
    FaultsAre Fault.IsNode (nearest above n p) := by
  induction p generalizing above n with
  | nil => exact faultsAre_ok _
  | cons name rest ih =>
    rw [nearest]
    split
    · exact faultsAre_ok _
    · split
      · exact ih _ _
      · exact faultsAre_node_error _

mutual
theorem faultsAre_checkRemovable (a : Actor) (above : Place) (n : Node) :
    FaultsAre Fault.IsNode (checkRemovable a above n) := by
  match n with
  | .file .. =>
    rw [checkRemovable]
    exact faultsAre_ok ()
  | .dir attrs cs =>
    rw [checkRemovable]
    exact (a.faultsAre_require above _ _).bind fun _ _ => faultsAre_checkAllRemovable a above cs

theorem faultsAre_checkAllRemovable (a : Actor) (above : Place) (cs : List (String × Node)) :
    FaultsAre Fault.IsNode (checkAllRemovable a above cs) := by
  match cs with
  | [] =>
    rw [checkAllRemovable]
    exact faultsAre_ok ()
  | (name, n) :: rest =>
    rw [checkAllRemovable]
    exact (faultsAre_checkRemovable a _ n).bind fun _ _ => faultsAre_checkAllRemovable a above rest
end

theorem faultsAre_checkContents (a : Actor) (p : Place) (n : Node) (recursive : Bool) :
    FaultsAre Fault.IsNode (checkContents a p n recursive) := by
  unfold checkContents
  split
  · split
    · exact faultsAre_checkRemovable a p n
    · exact faultsAre_node_error _
  · exact faultsAre_ok ()

theorem faultsAre_target (fs : FileSystem) (p : Place) : FaultsAre Fault.IsNode (fs.target p) := by
  unfold target
  split
  · exact faultsAre_ok _
  · next f hf =>
    split
    · refine (faultsAre_directory fs _).bind fun _ _ => ?_
      exact (faultsAre_checkName _).bind fun _ _ => faultsAre_ok _
    · exact faultsAre_error (faultsAre_node fs p f hf)

theorem faultsAre_checkFree (fs : FileSystem) (parent : Place) (name : String) :
    FaultsAre Fault.IsNode (fs.checkFree parent name) := by
  unfold checkFree
  refine (faultsAre_node fs parent).bind fun d _ => ?_
  split
  · exact faultsAre_node_error _
  · exact faultsAre_ok ()

theorem faultsAre_destination (fs : FileSystem) (src dst : Place) :
    FaultsAre Fault.IsNode (fs.destination src dst) := by
  unfold destination
  refine (faultsAre_target fs dst).bind fun t _ => ?_
  cases t with
  | taken n => exact faultsAre_node_error _
  | free parent name => exact faultsAre_ok _
  | into parent => exact (faultsAre_checkFree fs parent _).bind fun _ _ => faultsAre_ok _

open Work

theorem faultsAre_attach (now : Time) (p : Place) (name : String) (n : Node) :
    (attach now p name n).FaultsAre Fault.IsNode := by
  unfold attach
  refine (faultsAre_ask fun fs => faultsAre_node fs p).bind fun d => ?_
  split
  · exact faultsAre_throw_node _
  · exact faultsAre_change _

theorem faultsAre_takeOut (now : Time) (p : Place) (name : String) :
    (takeOut now p name).FaultsAre Fault.IsNode := by
  unfold takeOut
  refine (faultsAre_ask fun fs => faultsAre_node fs p).bind fun d => ?_
  split
  · exact faultsAre_change _
  · exact faultsAre_throw_node _

theorem faultsAre_attachChain (a : Actor) (p : Place) (names : List String) :
    (attachChain a p names).FaultsAre Fault.IsNode := by
  induction names generalizing p with
  | nil => exact faultsAre_pure ()
  | cons name rest ih =>
    rw [attachChain]
    exact (faultsAre_attach _ _ _ _).bind fun _ => ih _

theorem faultsAre_ensure (a : Actor) (p : Place) (parents : Bool) :
    (ensure a p parents).FaultsAre Fault.IsNode := by
  unfold ensure
  have hnearest (fs : FileSystem) := faultsAre_nearest [] fs.root p
  refine (faultsAre_ask hnearest).bind fun (e, missing) => ?_
  dsimp only
  split
  · exact faultsAre_pure ()
  · split
    · exact faultsAre_throw_node _
    · refine (faultsAre_lift (faultsAre_checkNames missing)).bind fun _ => ?_
      refine (faultsAre_ask fun fs => faultsAre_node fs e).bind fun d => ?_
      refine (faultsAre_lift (a.faultsAre_require e d _)).bind fun _ => ?_
      exact faultsAre_attachChain a e missing

theorem faultsAre_makeDirectory (a : Actor) (path : String) (parents existOk : Bool) :
    (makeDirectory a path parents existOk).FaultsAre Fault.IsNode := by
  unfold makeDirectory
  refine faultsAre_get.bind fun fs => ?_
  refine (faultsAre_lift (faultsAre_splitParent _)).bind fun (parent, name) => ?_
  refine (faultsAre_lift (faultsAre_checkName name)).bind fun _ => ?_
  refine (faultsAre_ensure a parent parents).bind fun _ => ?_
  refine (faultsAre_ask fun fs => faultsAre_node fs parent).bind fun d => ?_
  split
  · split
    · exact faultsAre_pure _
    · exact faultsAre_throw_node _
  · refine (faultsAre_lift (a.faultsAre_require parent d _)).bind fun _ => ?_
    exact (faultsAre_attach _ _ _ _).bind fun _ => faultsAre_pure _

theorem faultsAre_makeFile (a : Actor) (path content : String) (parents : Bool) :
    (makeFile a path content parents).FaultsAre Fault.IsNode := by
  unfold makeFile
  refine faultsAre_get.bind fun fs => ?_
  refine (faultsAre_lift (faultsAre_splitParent _)).bind fun (parent, name) => ?_
  refine (faultsAre_lift (faultsAre_checkName name)).bind fun _ => ?_
  refine (faultsAre_ensure a parent parents).bind fun _ => ?_
  refine (faultsAre_ask fun fs => faultsAre_node fs parent).bind fun d => ?_
  split
  · exact faultsAre_throw_node _
  · refine (faultsAre_lift (a.faultsAre_require parent d _)).bind fun _ => ?_
    exact (faultsAre_attach _ _ _ _).bind fun _ => faultsAre_pure _

theorem faultsAre_create (a : Actor) (path : String) (c : Creation) :
    (create a path c).FaultsAre Fault.IsNode := by
  have hassign (p : Place) : (do
      Work.change (·.modify p (Node.mapAttrs c.assign))
      pure p : Update Place).FaultsAre Fault.IsNode :=
    (faultsAre_change _).bind fun _ => faultsAre_pure p
  unfold create
  dsimp only
  split
  · exact (faultsAre_makeDirectory a path _ _).bind hassign
  · exact (faultsAre_makeFile a path _ _).bind hassign

theorem faultsAre_remove (a : Actor) (path : String) (recursive : Bool) :
    (remove a path recursive).FaultsAre Fault.IsNode := by
  unfold remove
  refine faultsAre_get.bind fun fs => ?_
  dsimp only
  split
  · exact faultsAre_throw_node _
  · refine (faultsAre_ask fun fs => faultsAre_node fs _).bind fun n => ?_
    refine (faultsAre_ask fun fs => faultsAre_node fs _).bind fun d => ?_
    refine (faultsAre_lift (a.faultsAre_require _ d _)).bind fun _ => ?_
    refine (faultsAre_lift (faultsAre_checkContents a _ n recursive)).bind fun _ => ?_
    exact (faultsAre_change _).bind fun _ => faultsAre_takeOut _ _ _

theorem faultsAre_move (a : Actor) (source dest : String) :
    (move a source dest).FaultsAre Fault.IsNode := by
  unfold move
  refine faultsAre_get.bind fun fs => ?_
  dsimp only
  split
  · exact faultsAre_throw_node _
  · refine (faultsAre_ask fun fs => faultsAre_node fs _).bind fun n => ?_
    refine (faultsAre_ask fun fs => faultsAre_node fs _).bind fun d => ?_
    refine (faultsAre_lift (a.faultsAre_require _ d _)).bind fun _ => ?_
    refine faultsAre_get.bind fun fs => ?_
    refine (faultsAre_ask fun fs => faultsAre_destination fs _ _).bind fun (parent, name) => ?_
    refine (faultsAre_ask fun fs => faultsAre_node fs parent).bind fun d => ?_
    refine (faultsAre_lift (a.faultsAre_require parent d _)).bind fun _ => ?_
    split
    · exact faultsAre_throw_node _
    · split
      · exact faultsAre_pure _
      · refine (faultsAre_takeOut _ _ _).bind fun _ => ?_
        refine (faultsAre_attach _ _ _ _).bind fun _ => ?_
        exact (faultsAre_change _).bind fun _ => faultsAre_pure _

theorem faultsAre_changeOwner (a : Actor) (path owner : String) :
    (changeOwner a path owner).FaultsAre Fault.IsNode := by
  unfold changeOwner
  refine faultsAre_get.bind fun fs => ?_
  refine (faultsAre_ask fun fs => faultsAre_node fs _).bind fun _ => ?_
  split
  · exact faultsAre_throw_node _
  · split
    · exact faultsAre_throw_node _
    · exact (faultsAre_change _).bind fun _ => faultsAre_pure _

theorem faultsAre_changeGroup (a : Actor) (path group : String) :
    (changeGroup a path group).FaultsAre Fault.IsNode := by
  unfold changeGroup
  refine faultsAre_get.bind fun fs => ?_
  refine (faultsAre_ask fun fs => faultsAre_node fs _).bind fun n => ?_
  refine (faultsAre_lift (a.faultsAre_requireOwner _ n _)).bind fun _ => ?_
  split
  · exact faultsAre_throw_node _
  · exact (faultsAre_change _).bind fun _ => faultsAre_pure _

theorem faultsAre_readText (fs : FileSystem) (a : Actor) (path : String) :
    FaultsAre Fault.IsNode (fs.readText a path) := by
  unfold readText
  refine (faultsAre_node fs _).bind fun n _ => ?_
  cases n with
  | dir => exact faultsAre_node_error _
  | file => exact (a.faultsAre_require _ _ _).bind fun _ _ => faultsAre_ok _

theorem faultsAre_ensureDirectory (a : Actor) (path : String) :
    (ensureDirectory a path).FaultsAre Fault.IsNode := by
  unfold ensureDirectory
  refine faultsAre_get.bind fun fs => ?_
  exact (faultsAre_ensure a _ true).bind fun _ => faultsAre_pure _

theorem faultsAre_writeText (a : Actor) (path text : String) (append parents : Bool) :
    (writeText a path text append parents).FaultsAre Fault.IsNode := by
  unfold writeText
  refine faultsAre_get.bind fun fs => ?_
  dsimp only
  split
  · next f hf =>
    split
    · exact faultsAre_makeFile a path text parents
    · exact faultsAre_throw (faultsAre_node fs _ f hf)
  · exact faultsAre_throw_node _
  · refine (faultsAre_lift (a.faultsAre_require _ _ _)).bind fun _ => ?_
    exact (faultsAre_change _).bind fun _ => faultsAre_pure _

end FileSystem
end MemShell
