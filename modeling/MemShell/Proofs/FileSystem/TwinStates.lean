import MemShell.Proofs.FileSystem.Calls
import MemShell.Proofs.Tree.Twins
set_option autoImplicit false

namespace MemShell.FileSystem

structure Twins (a : Actor) (p : Place) (fs gs : FileSystem) : Prop where
  root : Node.Twins a p fs.root gs.root
  cwd : gs.cwd = fs.cwd

def Alike (a : Actor) (p : Place) (fs gs : FileSystem) : Prop := gs = fs ∨ Twins a p fs gs

variable {fs gs : FileSystem} {a : Actor} {p q r : Place} {name : String} {n m x y c : Node}

theorem Twins.place (h : Twins a p fs gs) (path : String) : gs.place path = fs.place path := by
  rw [FileSystem.place, FileSystem.place, h.cwd]

theorem Twins.node (h : Twins a p fs gs) (q : Place) :
    Agree (Node.Counterpart a p q) (fs.node q) (gs.node q) := h.root.resolve [] q

theorem Twins.directory (h : Twins a p fs gs) (q : Place) :
    Agree (Node.Counterpart a p q) (fs.directory q) (gs.directory q) := by
  unfold FileSystem.directory
  refine (h.node q).bind fun x y _ _ hxy => ?_
  rw [hxy.shape.isDir]
  split
  · exact .ok hxy
  · exact .error _

theorem require_counterpart (h : Node.Counterpart a p q x y) (place : Place)
    (permission : Permission) : a.require place y permission = a.require place x permission := by
  rw [Actor.require, Actor.require, Actor.may, Actor.may, h.shape.attrs]

theorem requireOwner_counterpart (h : Node.Counterpart a p q x y) (place : Place)
    (action : String) : a.requireOwner place y action = a.requireOwner place x action := by
  rw [Actor.requireOwner, Actor.requireOwner, Actor.owns, Actor.owns, h.shape.attrs]

theorem Entry.row_congr (h : Node.SameShape x y) (name : String) (place : Place) :
    (Entry.mk name place y).row = (Entry.mk name place x).row := by
  simp only [Entry.row, Entry.attrs, Entry.size, h.attrs, h.isDir, h.length]

theorem row_counterpart (h : Node.Counterpart a p q x y) (place : Place) :
    row place y = row place x := Entry.row_congr h.shape _ place

theorem checkContents_counterpart (h : Node.Counterpart a p q x y) (place : Place)
    (recursive : Bool) : checkContents a place y recursive = checkContents a place x recursive := by
  cases h with
  | same apart => rfl
  | twins below h =>
    have hempty : y.children.isEmpty = x.children.isEmpty := by
      have hkeys := congrArg List.isEmpty h.shape.names
      simpa [Table.keys] using hkeys
    rw [checkContents, checkContents, h.shape.isDir, hempty, h.checkRemovable]

theorem clone_counterpart (h : Node.Counterpart a p q x y) (place : Place) :
    clone a place y = clone a place x := by
  cases h with
  | same apart => rfl
  | twins below h => exact h.clone place

theorem Twins.modify {g : Node → Node} (h : Twins a p fs gs)
    (hg : ∀ r x y, p = q ++ r → fs.at? q = some x → Node.Twins a r x y →
      Node.Twins a r (g x) (g y)) : Twins a p (fs.modify q g) (gs.modify q g) :=
  ⟨h.root.modify hg, h.cwd⟩

theorem Twins.setCwd (h : Twins a p fs gs) (f : Place → Place) :
    Twins a p { fs with cwd := f fs.cwd } { gs with cwd := f gs.cwd } :=
  ⟨h.root, congrArg f h.cwd⟩

theorem Twins.stamp (h : Twins a p fs gs) (now : Time) (q : Place) :
    Twins a p (fs.stamp now q) (gs.stamp now q) := by
  have htouch (q : Place) {fs gs : FileSystem} (h : Twins a p fs gs) :
      Twins a p (fs.modify q (Node.touched now)) (gs.modify q (Node.touched now)) :=
    h.modify fun _ _ _ _ _ hxy => hxy.touched now
  unfold FileSystem.stamp
  dsimp only
  split
  · exact htouch q h
  · exact htouch q.parent (htouch q h)

theorem Twins.write {text other : String} (h : Twins a p fs gs)
    (hxy : Node.Counterpart a p q x y) (hx : fs.at? q = some x) (hfile : x.isDir = false)
    (hlength : other.length = text.length) (hsame : y = x → other = text) (now : Time) :
    Twins a p ((fs.modify q (Node.setContent text)).stamp now q)
      ((gs.modify q (Node.setContent other)).stamp now q) := by
  refine Twins.stamp ?_ now q
  cases hxy with
  | same apart =>
    rw [hsame rfl]
    exact h.modify fun r _ _ hp _ _ => absurd ⟨r, hp.symm⟩ apart
  | @twins r _ below hxy =>
    cases r with
    | nil =>
      rw [List.append_nil] at below
      subst below
      exact ⟨h.root.setContent hlength, h.cwd⟩
    | cons name rest =>
      obtain ⟨_, _, _, _, rfl, -, -, -⟩ := Node.twins_cons hxy
      cases hfile

/-- Attributes are assigned by the owner, who the actor is not where the difference is. -/
theorem Twins.setAttrs (h : Twins a p fs gs) (hx : fs.at? q = some x) (howns : a.owns x = true)
    (now : Time) (f : Attributes → Attributes) :
    Twins a p (fs.setAttrs now q f) (gs.setAttrs now q f) := by
  refine Twins.stamp ?_ now q
  refine h.modify fun r x' y' _ hx' hxy => ?_
  rw [hx] at hx'
  cases hx'
  refine hxy.mapAttrs ?_ f
  rintro rfl
  obtain ⟨_, _, _, rfl, -, hbarred, -⟩ := Node.twins_nil hxy
  rw [hbarred.foreign] at howns
  cases howns

theorem parallel_attach (h : Twins a p fs gs) (now : Time) (q : Place) (name : String) (c : Node) :
    (attach now q name c).Parallel (attach now q name c) fs gs (Twins a p)
      fun _ _ s t => Twins a p s t := by
  unfold attach
  refine Work.parallel_ask_bind (h.node q) h fun x y hx _ hxy => ?_
  rcases hxy.child? name with ⟨hnone, hnone'⟩ | ⟨_, _, hc, hc', -⟩
  · rw [hnone, hnone']
    refine Work.parallel_change (h.modify fun r x' y' _ hx' hxy' => ?_)
    rw [node_eq_ok_iff.mp hx] at hx'
    cases hx'
    exact hxy'.withChild hnone now _
  · rw [hc, hc']
    exact Work.parallel_throw h

/-- Twins that are put into the same directory of one state make twin states. -/
theorem parallel_attach_twins (h : Node.Twins a r n m) (now : Time) (q : Place) (name : String) :
    (attach now q name n).Parallel (attach now q name m) fs fs (fun s t => t = s)
      fun _ _ s t => Alike a (q ++ name :: r) s t := by
  unfold attach
  refine Work.parallel_ask_bind_eq rfl rfl fun d hd => ?_
  cases hc : d.child? name with
  | some c => exact Work.parallel_throw rfl
  | none =>
    refine Work.parallel_change ?_
    cases d with
    | file attrs text =>
      left
      have hroot : Node.modify (Node.withChild now name (m.touched now)) q fs.root =
          Node.modify (Node.withChild now name (n.touched now)) q fs.root := by
        refine Node.modify_congr fun x hx => ?_
        rw [show fs.root.at? q = _ from node_eq_ok_iff.mp hd] at hx
        cases hx
        rfl
      rw [FileSystem.insert, FileSystem.insert, FileSystem.modify, FileSystem.modify, hroot]
    | dir attrs cs =>
      right
      have hmade := Node.twins_withChild (h.touched now) (d := .dir attrs cs) rfl now name
      exact ⟨Node.twins_modify (node_eq_ok_iff.mp hd) hmade, rfl⟩

theorem parallel_takeOut (h : Twins a p fs gs) (now : Time) (hout : ¬ q ++ [name] <+: p) :
    (takeOut now q name).Parallel (takeOut now q name) fs gs (Twins a p)
      fun _ _ s t => Twins a p s t := by
  unfold takeOut
  refine Work.parallel_ask_bind (h.node q) h fun x y _ _ hxy => ?_
  rcases hxy.child? name with ⟨hnone, hnone'⟩ | ⟨_, _, hc, hc', -⟩
  · rw [hnone, hnone']
    exact Work.parallel_throw h
  · rw [hc, hc']
    refine Work.parallel_change (h.modify fun r x' y' hp _ hxy' => hxy'.without ?_ now)
    rintro ⟨s, rfl⟩
    exact hout ⟨s, by rw [hp, List.append_assoc]⟩

/-- With the file the difference is gone. -/
theorem parallel_takeOut_eq (h : Twins a (q ++ name :: r) fs gs) (now : Time) :
    (takeOut now q name).Parallel (takeOut now q name) fs gs (Twins a (q ++ name :: r))
      fun _ _ s t => t = s := by
  unfold takeOut
  refine Work.parallel_ask_bind (h.node q) h fun x y _ _ hxy => ?_
  rcases hxy.child? name with ⟨hnone, hnone'⟩ | ⟨_, _, hc, hc', -⟩
  · rw [hnone, hnone']
    exact Work.parallel_throw h
  · rw [hc, hc']
    refine Work.parallel_change ?_
    have hroot : Node.modify (Node.without now name) q gs.root =
        Node.modify (Node.without now name) q fs.root :=
      h.root.modify_eq fun _ _ _ hxy' => hxy'.without_eq now
    rw [FileSystem.detach, FileSystem.detach, FileSystem.modify, FileSystem.modify, hroot, h.cwd]

end MemShell.FileSystem
