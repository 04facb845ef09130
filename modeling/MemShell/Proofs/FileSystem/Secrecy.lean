import MemShell.Proofs.FileSystem.TwinStates
set_option autoImplicit false

/-!
# The text of a file that one may not read

Two file systems that differ in the text of one file, which is as long in both and which the actor
neither owns nor may read, are not told apart by whatever the actor does. Every operation goes the same
way in both, step by step.
-/
namespace MemShell.FileSystem
variable {fs gs : FileSystem} {a : Actor} {p q r : Place} {name : String} {n m x y c : Node}

/-! ## Reading -/

theorem Twins.readText (h : Twins a p fs gs) (path : String) :
    gs.readText a path = fs.readText a path := by
  unfold FileSystem.readText
  dsimp only
  rw [h.place path]
  refine Agree.eq ((h.node (fs.place path)).bind fun x y _ _ hxy => ?_)
  cases x with
  | dir attrs cs =>
    cases y with
    | file _ _ => cases hxy.shape.isDir
    | dir _ _ => exact .error _
  | file attrs text =>
    cases hread : a.may (.file attrs text) .read with
    | true =>
      rw [hxy.eq_of_readable rfl hread]
      exact .self fun _ _ => rfl
    | false =>
      cases y with
      | dir _ _ => cases hxy.shape.isDir
      | file attrs' other =>
        have hdenied : a.require (fs.place path) (.file attrs text) .read =
            .error (.node (.denied (Place.text (fs.place path)))) := by
          rw [Actor.require, hread, if_neg Bool.false_ne_true]
        dsimp only
        rw [require_counterpart hxy, hdenied]
        exact .error _

theorem Twins.drawTree (h : Twins a p fs gs) (path : String) :
    gs.drawTree a path = fs.drawTree a path := by
  unfold FileSystem.drawTree
  dsimp only
  rw [h.place path]
  refine Agree.eq ((h.directory (fs.place path)).bind fun x y _ _ hxy => ?_)
  have hdrawn : drawAll a y.children = drawAll a x.children := by
    cases hxy with
    | same apart => rfl
    | twins below hxy => exact hxy.drawAll
  rw [require_counterpart hxy, hdrawn]
  exact .self fun _ _ => rfl

def rowsOf (place : Place) (hidden : Bool) (cs : List (String × Node)) : List Row :=
  (cs.filter fun c => hidden || !c.1.startsWith ".").map fun c =>
    (Entry.mk (shownName c.1) (place ++ [c.1]) c.2).row

theorem map_row_sort (place : Place) (hidden : Bool) (cs : List (String × Node)) :
    (sortByKey (·.name) ((cs.filter fun c => hidden || !c.1.startsWith ".").map fun c =>
      Entry.mk (shownName c.1) (place ++ [c.1]) c.2)).map Entry.row =
        sortByKey (·.name) (rowsOf place hidden cs) := by
  have hname (e : Entry) : e.row.name = e.name := rfl
  rw [map_sortByKey hname, List.map_map]
  rfl

theorem rowsOf_counterpart (h : Node.Counterpart a p q x y) (place : Place) (hidden : Bool) :
    rowsOf place hidden y.children = rowsOf place hidden x.children := by
  cases h with
  | same apart => rfl
  | @twins r _ below h =>
    cases r with
    | nil =>
      obtain ⟨_, _, _, rfl, rfl, -, -⟩ := Node.twins_nil h
      rfl
    | cons name rest =>
      obtain ⟨attrs, cs, c, c', rfl, rfl, hc, hbelow⟩ := Node.twins_cons h
      refine Table.apply_update (fun t => ?_) (fun k v t t' ht => ?_) hc
      · have hrow := Entry.row_congr hbelow.shape (shownName name) (place ++ [name])
        simp only [rowsOf, List.filter_cons]
        split <;> simp [hrow]
      · simp only [rowsOf, List.filter_cons] at ht ⊢
        split <;> simp [ht]

theorem Twins.list (h : Twins a p fs gs) (path : String) (hidden : Bool) :
    Agree (fun v w => w.map Entry.row = v.map Entry.row) (fs.list a path hidden)
      (gs.list a path hidden) := by
  unfold FileSystem.list
  dsimp only
  rw [h.place path]
  refine (h.node (fs.place path)).bind fun x y _ _ hxy => ?_
  rw [hxy.shape.isDir]
  split
  · rw [require_counterpart hxy]
    refine Agree.bind (R := fun _ _ => True) (.self fun _ _ => trivial) fun _ _ _ _ _ => .ok ?_
    rw [map_row_sort, map_row_sort, rowsOf_counterpart hxy]
  · exact .ok (congrArg (fun r => [r]) (row_counterpart hxy (fs.place path)))

/-! ## Creating and writing -/

theorem lockstep_attachChain (h : Twins a p fs gs) (q : Place) (names : List String) :
    (attachChain a q names).Lockstep (Twins a p) fs gs := by
  induction names generalizing fs gs q with
  | nil => exact Work.parallel_pure ⟨rfl, h⟩
  | cons name rest ih =>
    exact (parallel_attach h a.now q name a.newDirectory).bind fun _ _ _ _ h' => ih h' (q ++ [name])

theorem lockstep_ensure (h : Twins a p fs gs) (q : Place) (parents : Bool) :
    (ensure a q parents).Lockstep (Twins a p) fs gs := by
  unfold ensure
  refine Work.parallel_ask_bind_eq (h.root.nearest [] q) h ?_
  rintro ⟨existing, missing⟩ -
  dsimp only
  split
  · exact Work.parallel_pure ⟨rfl, h⟩
  · split
    · exact Work.parallel_throw h
    · refine Work.parallel_lift_bind rfl h fun _ _ => ?_
      refine Work.parallel_ask_bind (h.node existing) h fun d e _ _ hde => ?_
      refine Work.parallel_lift_bind (require_counterpart hde existing .write) h fun _ _ => ?_
      exact lockstep_attachChain h existing missing

theorem lockstep_ensureDirectory (h : Twins a p fs gs) (path : String) :
    (ensureDirectory a path).Lockstep (Twins a p) fs gs := by
  unfold ensureDirectory
  refine Work.parallel_get_bind ?_
  dsimp only
  rw [h.place path]
  exact (lockstep_ensure h _ true).bind fun _ _ _ _ h' => Work.parallel_pure ⟨rfl, h'.2⟩

theorem lockstep_putInto (h : Twins a p fs gs) {v : Place} (q : Place) (name : String) (c : Node)
    {taken : Node → Update Place}
    (htaken : ∀ d e s t, Twins a p s t → e.isDir = d.isDir →
      (taken d).Parallel (taken e) s t (Twins a p) fun v w s t => w = v ∧ Twins a p s t) :
    (do
      let d ← Work.ask (·.node q)
      match d.child? name with
      | some c => taken c
      | none =>
        Work.lift (a.require q d .write)
        attach a.now q name c
        pure v : Update Place).Lockstep (Twins a p) fs gs := by
  refine Work.parallel_ask_bind (h.node q) h fun d e _ _ hde => ?_
  rcases hde.child? name with ⟨hnone, hnone'⟩ | ⟨b, b', hb, hb', hdir⟩
  · rw [hnone, hnone']
    refine Work.parallel_lift_bind (require_counterpart hde q .write) h fun _ _ => ?_
    exact (parallel_attach h a.now q name c).bind fun _ _ _ _ h' => Work.parallel_pure ⟨rfl, h'⟩
  · rw [hb, hb']
    exact htaken b b' fs gs h hdir

theorem lockstep_makeDirectory (h : Twins a p fs gs) (path : String) (parents existOk : Bool) :
    (makeDirectory a path parents existOk).Lockstep (Twins a p) fs gs := by
  unfold makeDirectory
  refine Work.parallel_get_bind ?_
  dsimp only
  rw [h.place path]
  refine Work.parallel_lift_bind rfl h ?_
  rintro ⟨parent, name⟩ -
  refine Work.parallel_lift_bind rfl h fun _ _ => ?_
  refine (lockstep_ensure h parent parents).bind fun _ _ s t h' => ?_
  refine lockstep_putInto h'.2 parent name _ fun d e s t hst hdir => ?_
  rw [hdir]
  split
  · exact Work.parallel_pure ⟨rfl, hst⟩
  · exact Work.parallel_throw hst

theorem lockstep_makeFile (h : Twins a p fs gs) (path content : String) (parents : Bool) :
    (makeFile a path content parents).Lockstep (Twins a p) fs gs := by
  unfold makeFile
  refine Work.parallel_get_bind ?_
  dsimp only
  rw [h.place path]
  refine Work.parallel_lift_bind rfl h ?_
  rintro ⟨parent, name⟩ -
  refine Work.parallel_lift_bind rfl h fun _ _ => ?_
  refine (lockstep_ensure h parent parents).bind fun _ _ s t h' => ?_
  exact lockstep_putInto h'.2 parent name _ fun _ _ _ _ hst _ => Work.parallel_throw hst

theorem lockstep_writeText (h : Twins a p fs gs) (path text : String) (append parents : Bool) :
    (writeText a path text append parents).Lockstep (Twins a p) fs gs := by
  unfold writeText
  refine Work.parallel_get_bind ?_
  dsimp only
  rw [h.place path]
  rcases (h.node (fs.place path)).cases with ⟨f, hf, hf'⟩ | ⟨x, y, hx, hy, hxy⟩
  · rw [hf, hf']
    dsimp only
    split
    · exact lockstep_makeFile h path text parents
    · exact Work.parallel_throw h
  · rw [hx, hy]
    cases x with
    | dir attrs cs =>
      cases y with
      | file _ _ => cases hxy.shape.isDir
      | dir _ _ => exact Work.parallel_throw h
    | file attrs old =>
      cases y with
      | dir _ _ => cases hxy.shape.isDir
      | file attrs' old' =>
        dsimp only
        refine Work.parallel_lift_bind (require_counterpart hxy _ .write) h fun _ _ => ?_
        refine Work.parallel_change_bind (Work.parallel_pure ⟨rfl, ?_⟩)
        refine h.write hxy (node_eq_ok_iff.mp hx) rfl ?_ (fun hsame => ?_) a.now
        · have hlength : old'.length = old.length := hxy.shape.length
          split <;> simp [hlength]
        · cases hsame
          rfl

theorem lockstep_touch (h : Twins a p fs gs) (path : String) :
    (touch a path).Lockstep (Twins a p) fs gs := by
  unfold touch
  refine Work.parallel_get_bind ?_
  dsimp only
  rw [h.place path]
  rcases (h.node (fs.place path)).cases with ⟨f, hf, hf'⟩ | ⟨x, y, hx, hy, hxy⟩
  · rw [hf, hf']
    dsimp only
    split
    · exact lockstep_makeFile h path "" false
    · exact Work.parallel_throw h
  · rw [hx, hy]
    refine Work.parallel_lift_bind (require_counterpart hxy _ .write) h fun _ _ => ?_
    exact Work.parallel_change_bind (Work.parallel_pure ⟨rfl, h.stamp a.now _⟩)

/-! ## Entering and assigning -/

theorem lockstep_enter (h : Twins a p fs gs) (path : String) :
    (enter a path).Lockstep (Twins a p) fs gs := by
  unfold enter
  refine Work.parallel_get_bind ?_
  dsimp only
  rw [h.place path]
  refine Work.parallel_ask_bind (h.directory _) h fun d e _ _ hde => ?_
  refine Work.parallel_lift_bind (require_counterpart hde _ .execute) h fun _ _ => ?_
  exact Work.parallel_change ⟨rfl, h.setCwd fun _ => fs.place path⟩

theorem lockstep_changeOwner (h : Twins a p fs gs) (path owner : String) :
    (changeOwner a path owner).Lockstep (Twins a p) fs gs := by
  unfold changeOwner
  refine Work.parallel_get_bind ?_
  dsimp only
  rw [h.place path]
  refine Work.parallel_ask_bind (h.node _) h fun x y _ _ _ => ?_
  rw [if_pos h.root.user_ne_root]
  exact Work.parallel_throw h

theorem lockstep_changeGroup (h : Twins a p fs gs) (path group : String) :
    (changeGroup a path group).Lockstep (Twins a p) fs gs := by
  unfold changeGroup
  refine Work.parallel_get_bind ?_
  dsimp only
  rw [h.place path]
  refine Work.parallel_ask_bind (h.node _) h fun x y hx _ hxy => ?_
  refine Work.parallel_lift_bind (requireOwner_counterpart hxy _ _) h fun _ howner => ?_
  split
  · exact Work.parallel_throw h
  · have howns := requireOwner_eq_ok_iff.mp howner
    have hset := h.setAttrs (node_eq_ok_iff.mp hx) howns a.now fun at' => { at' with group }
    exact Work.parallel_change_bind (Work.parallel_pure ⟨rfl, hset⟩)

theorem lockstep_changeMode (h : Twins a p fs gs) (path : String) (mode : ModeSpec) :
    (changeMode a path mode).Lockstep (Twins a p) fs gs := by
  unfold changeMode
  refine Work.parallel_get_bind ?_
  dsimp only
  rw [h.place path]
  refine Work.parallel_ask_bind (h.node _) h fun x y hx _ hxy => ?_
  refine Work.parallel_lift_bind (requireOwner_counterpart hxy _ _) h fun _ howner => ?_
  refine Work.parallel_lift_bind rfl h fun mode _ => ?_
  have howns := requireOwner_eq_ok_iff.mp howner
  have hset := h.setAttrs (node_eq_ok_iff.mp hx) howns a.now fun at' => { at' with mode }
  exact Work.parallel_change_bind (Work.parallel_pure ⟨rfl, hset⟩)

/-! ## Removing, moving and copying -/

theorem Alike.setCwd (h : Alike a p fs gs) (f : Place → Place) :
    Alike a p { fs with cwd := f fs.cwd } { gs with cwd := f gs.cwd } := by
  rcases h with rfl | h
  · exact .inl rfl
  · exact .inr (h.setCwd f)

theorem lockstep_remove (h : Twins a p fs gs) (path : String) (recursive : Bool) :
    (remove a path recursive).Lockstep (Alike a p) fs gs := by
  unfold remove
  refine Work.parallel_get_bind ?_
  dsimp only
  rw [h.place path]
  generalize fs.place path = q
  split
  · exact Work.parallel_throw (.inr h)
  · next hne =>
    have hq : q ≠ [] := fun hnil => hne (List.isEmpty_iff.mpr hnil)
    refine Work.parallel_ask_bind (h.node q) (.inr h) fun x y _ _ hxy => ?_
    refine Work.parallel_ask_bind (h.node q.parent) (.inr h) fun d e _ _ hde => ?_
    refine Work.parallel_lift_bind (require_counterpart hde _ .write) (.inr h) fun _ _ => ?_
    refine Work.parallel_lift_bind (checkContents_counterpart hxy q recursive) (.inr h)
      fun _ _ => ?_
    refine Work.parallel_change_bind ?_
    have hcwd := h.setCwd fun cwd => cwdAfterRemoval cwd q
    by_cases hbelow : q <+: p
    · obtain ⟨r, rfl⟩ := hbelow
      rw [append_eq_parent_append hq] at hcwd ⊢
      exact (parallel_takeOut_eq hcwd a.now).mono (fun _ _ hst => .inr hst)
        fun _ _ _ _ hst => ⟨rfl, .inl hst⟩
    · have hout : ¬ q.parent ++ [q.name] <+: p := by rwa [parent_append_name hq]
      exact (parallel_takeOut hcwd a.now hout).mono (fun _ _ hst => .inr hst)
        fun _ _ _ _ hst => ⟨rfl, .inr hst⟩

/-- What a target is in one state it is in the other, and if it is taken, then by counterparts. -/
theorem Twins.target (h : Twins a p fs gs) (q : Place) :
    Agree (fun t t' => (t' = t ∧ ∀ n, t ≠ .taken n) ∨
      ∃ x y, t = .taken x ∧ t' = .taken y ∧ fs.at? q = some x ∧ x.isDir = false ∧
        Node.Counterpart a p q x y) (fs.target q) (gs.target q) := by
  unfold FileSystem.target
  rcases (h.node q).cases with ⟨f, hf, hf'⟩ | ⟨x, y, hx, hy, hxy⟩
  · rw [hf, hf']
    dsimp only
    split
    · refine (h.directory q.parent).bind fun _ _ _ _ _ => ?_
      refine Agree.bind (R := fun _ _ => True) (.self fun _ _ => trivial) fun _ _ _ _ _ => ?_
      exact .ok (.inl ⟨rfl, by simp⟩)
    · exact .error f
  · rw [hx, hy]
    dsimp only
    rw [hxy.shape.isDir]
    cases hdir : x.isDir with
    | true => exact .ok (.inl ⟨rfl, by simp⟩)
    | false => exact .ok (.inr ⟨x, y, rfl, rfl, node_eq_ok_iff.mp hx, hdir, hxy⟩)

theorem Twins.checkFree (h : Twins a p fs gs) (q : Place) (name : String) :
    gs.checkFree q name = fs.checkFree q name := by
  unfold FileSystem.checkFree
  refine Agree.eq ((h.node q).bind fun x y _ _ hxy => ?_)
  rcases hxy.child? name with ⟨hnone, hnone'⟩ | ⟨_, _, hc, hc', -⟩
  · rw [hnone, hnone']
    exact .ok rfl
  · rw [hc, hc']
    exact .error _

theorem Twins.destination (h : Twins a p fs gs) (src dst : Place) :
    gs.destination src dst = fs.destination src dst := by
  unfold FileSystem.destination
  refine Agree.eq ((h.target dst).bind fun t t' _ _ htt => ?_)
  rcases htt with ⟨rfl, hfree⟩ | ⟨x, y, rfl, rfl, -, -, -⟩
  · cases t' with
    | free parent name => exact .ok rfl
    | into parent =>
      dsimp only
      rw [h.checkFree]
      exact .self fun _ _ => rfl
    | taken n => exact absurd rfl (hfree n)
  · exact .error _

theorem parallel_move (h : Twins a p fs gs) (source dest : String) :
    (move a source dest).Parallel (move a source dest) fs gs (Alike a p)
      fun v w s t => w = v ∧ Alike a (cwdAfterMove p (fs.place source) v) s t := by
  unfold move
  refine Work.parallel_get_bind ?_
  dsimp only
  rw [h.place source]
  generalize fs.place source = src
  split
  · exact Work.parallel_throw (.inr h)
  · next hne =>
    have hsrc : src ≠ [] := fun hnil => hne (List.isEmpty_iff.mpr hnil)
    refine Work.parallel_ask_bind (h.node src) (.inr h) fun n m _ _ hnm => ?_
    refine Work.parallel_ask_bind (h.node src.parent) (.inr h) fun d e _ _ hde => ?_
    refine Work.parallel_lift_bind (require_counterpart hde _ .write) (.inr h) fun _ _ => ?_
    refine Work.parallel_get_bind ?_
    rw [h.place dest]
    refine Work.parallel_ask_bind_eq (h.destination src _) (.inr h) ?_
    rintro ⟨parent, name⟩ -
    refine Work.parallel_ask_bind (h.node parent) (.inr h) fun d e _ _ hde => ?_
    refine Work.parallel_lift_bind (require_counterpart hde _ .write) (.inr h) fun _ _ => ?_
    rw [hnm.shape.isDir]
    split
    · exact Work.parallel_throw (.inr h)
    · split
      · refine Work.parallel_pure ⟨rfl, .inr ?_⟩
        rw [congrFun (cwdAfterMove_self src) p]
        exact h
      · cases hnm with
        | same apart =>
          have hout : ¬ src.parent ++ [src.name] <+: p := by rwa [parent_append_name hsrc]
          refine Work.Parallel.bind ((parallel_takeOut h a.now hout).mono (fun _ _ hst => .inr hst)
            fun _ _ _ _ hst => hst) fun _ _ _ _ hst => ?_
          refine Work.Parallel.bind ((parallel_attach hst a.now parent name n).mono
            (fun _ _ hst => .inr hst) fun _ _ _ _ hst => hst) fun _ _ _ _ hst => ?_
          refine Work.parallel_change_bind (Work.parallel_pure ⟨rfl, .inr ?_⟩)
          rw [cwdAfterMove_beside apart]
          exact hst.setCwd fun cwd => cwdAfterMove cwd src (parent ++ [name])
        | @twins r _ below hnm =>
          subst below
          have hplace := append_eq_parent_append hsrc r
          have hleft := h
          rw [hplace] at hleft
          refine Work.Parallel.bind ((parallel_takeOut_eq hleft a.now).mono
            (fun _ _ hst => .inr (hplace ▸ hst)) fun _ _ _ _ hst => hst) ?_
          rintro _ _ s _ rfl
          refine Work.Parallel.bind ((parallel_attach_twins hnm a.now parent name).mono
            (fun _ _ hst => .inl hst) fun _ _ _ _ hst => hst) fun _ _ _ _ hst => ?_
          refine Work.parallel_change_bind (Work.parallel_pure ⟨rfl, ?_⟩)
          rw [cwdAfterMove_below, List.append_assoc, List.singleton_append]
          exact hst.setCwd fun cwd => cwdAfterMove cwd src (parent ++ [name])

theorem lockstep_move (h : Twins a p fs gs) (source dest : String) :
    (move a source dest).Lockstep (Alike a (placeAfterMove a fs source dest p)) fs gs := by
  cases parallel_move h source dest with
  | ok hx hy hst =>
    refine .ok hx hy ?_
    rw [placeAfterMove, hx]
    exact hst
  | error hx hy hst =>
    refine .error hx hy ?_
    rw [placeAfterMove, hx]
    exact hst

theorem lockstep_copyInto (h : Twins a p fs gs) {src : Place} (hnm : Node.Counterpart a p src n m)
    (parent : Place) (name : String) :
    (copyInto a src n parent name).Parallel (copyInto a src m parent name) fs gs (Twins a p)
      fun v w s t => w = v ∧ Twins a p s t := by
  unfold copyInto
  refine Work.parallel_ask_bind (h.node parent) h fun d e _ _ hde => ?_
  refine Work.parallel_lift_bind (require_counterpart hde _ .write) h fun _ _ => ?_
  refine Work.parallel_ask_bind_eq (h.checkFree parent name) h fun _ _ => ?_
  rw [hnm.shape.isDir]
  split
  · exact Work.parallel_throw h
  · refine Work.parallel_lift_bind (clone_counterpart hnm src) h fun c _ => ?_
    exact (parallel_attach h a.now parent name c).bind fun _ _ _ _ hst =>
      Work.parallel_pure ⟨rfl, hst⟩

theorem lockstep_copyOver (h : Twins a p fs gs) {src dst : Place}
    (hnm : Node.Counterpart a p src n m) (hxy : Node.Counterpart a p dst x y)
    (hx : fs.at? dst = some x) (hfile : x.isDir = false) :
    (copyOver a src n dst x).Parallel (copyOver a src m dst y) fs gs (Twins a p)
      fun v w s t => w = v ∧ Twins a p s t := by
  unfold copyOver
  rw [hnm.shape.isDir]
  split
  · exact Work.parallel_throw h
  · next hnfile =>
    refine Work.parallel_lift_bind (require_counterpart hnm src .read) h fun _ hread => ?_
    refine Work.parallel_lift_bind (require_counterpart hxy dst .write) h fun _ _ => ?_
    have hsame : m = n :=
      hnm.eq_of_readable (by simpa using hnfile) (require_eq_ok_iff.mp hread)
    rw [hsame]
    refine Work.parallel_change_bind (Work.parallel_pure ⟨rfl, ?_⟩)
    exact h.write hxy hx hfile rfl (fun _ => rfl) a.now

theorem lockstep_copy (h : Twins a p fs gs) (source dest : String) (recursive : Bool) :
    (copy a source dest recursive).Lockstep (Twins a p) fs gs := by
  unfold copy
  refine Work.parallel_get_bind ?_
  dsimp only
  rw [h.place source]
  refine Work.parallel_ask_bind (h.node _) h fun n m _ _ hnm => ?_
  rw [hnm.shape.isDir]
  split
  · exact Work.parallel_throw h
  · refine Work.parallel_get_bind ?_
    rw [h.place dest]
    refine Work.parallel_ask_bind (h.target _) h fun t t' _ _ htt => ?_
    rcases htt with ⟨rfl, hfree⟩ | ⟨x, y, rfl, rfl, hx, hfile, hxy⟩
    · cases t' with
      | free parent name => exact lockstep_copyInto h hnm parent name
      | into parent => exact lockstep_copyInto h hnm parent _
      | taken n => exact absurd rfl (hfree n)
    · exact lockstep_copyOver h hnm hxy hx hfile

/-! ## Calls -/

theorem Alike.row (h : Alike a p fs gs) (q : Place) :
    (gs.at? q).map (row q) = (fs.at? q).map (row q) := by
  rcases h with rfl | h
  · rfl
  · rcases (h.node q).cases with ⟨f, hf, hf'⟩ | ⟨x, y, hx, hy, hxy⟩
    · rw [at?_of_node_error hf, at?_of_node_error hf']
    · rw [node_eq_ok_iff.mp hx, node_eq_ok_iff.mp hy, Option.map_some, Option.map_some,
        row_counterpart hxy]

theorem lockstep_showing {z : Update Place} (h : z.Lockstep (Alike a p) fs gs) :
    (showing z).Lockstep (Alike a p) fs gs := by
  unfold showing
  refine h.bind ?_
  rintro q _ s t ⟨rfl, hst⟩
  refine Work.parallel_get_bind (Work.parallel_pure ⟨?_, hst⟩)
  rw [hst.row]

theorem Call.lockstep (h : Twins a p fs gs) (c : Call) :
    (c.run a).Lockstep (Alike a (c.carry a fs p)) fs gs := by
  have hweak {α : Type} {z : Update α} (hz : z.Lockstep (Twins a p) fs gs) :
      z.Lockstep (Alike a p) fs gs := hz.mono fun _ _ hst => .inr hst
  cases c with
  | readText path =>
    refine Work.parallel_ask_bind_eq (h.readText path) (.inr h) fun _ _ => ?_
    exact Work.parallel_pure ⟨rfl, .inr h⟩
  | list path hidden =>
    refine Work.parallel_ask_bind (h.list path hidden) (.inr h) fun v w _ _ hrows => ?_
    exact Work.parallel_pure ⟨congrArg Answer.rows hrows, .inr h⟩
  | drawTree path =>
    refine Work.parallel_ask_bind_eq (h.drawTree path) (.inr h) fun _ _ => ?_
    exact Work.parallel_pure ⟨rfl, .inr h⟩
  | enter path =>
    refine (hweak (lockstep_enter h path)).bind fun _ _ s t hst => ?_
    refine Work.parallel_get_bind (Work.parallel_pure ⟨?_, hst.2⟩)
    rcases hst.2 with rfl | hst
    · rfl
    · rw [workingPath, workingPath, hst.cwd]
  | makeDirectory path parents existOk =>
    exact lockstep_showing (hweak (lockstep_makeDirectory h path parents existOk))
  | makeFile path content parents =>
    exact lockstep_showing (hweak (lockstep_makeFile h path content parents))
  | ensureDirectory path => exact lockstep_showing (hweak (lockstep_ensureDirectory h path))
  | writeText path text append parents =>
    exact lockstep_showing (hweak (lockstep_writeText h path text append parents))
  | appendText path text => exact lockstep_showing (hweak (lockstep_writeText h path text true true))
  | touch path => exact lockstep_showing (hweak (lockstep_touch h path))
  | remove path recursive =>
    refine (lockstep_remove h path recursive).bind fun _ _ _ _ hst => ?_
    exact Work.parallel_pure ⟨rfl, hst.2⟩
  | move source dest => exact lockstep_showing (lockstep_move h source dest)
  | copy source dest recursive => exact lockstep_showing (hweak (lockstep_copy h source dest recursive))
  | changeMode path mode => exact lockstep_showing (hweak (lockstep_changeMode h path mode))
  | changeGroup path group => exact lockstep_showing (hweak (lockstep_changeGroup h path group))
  | changeOwner path owner => exact lockstep_showing (hweak (lockstep_changeOwner h path owner))

/-! ## Runs -/

theorem Twins.at_time (h : Twins a p fs gs) (now : Time) : Twins { a with now } p fs gs := by
  refine ⟨?_, h.cwd⟩
  have hroot := h.root
  generalize gs.root = other at hroot ⊢
  cases hroot with
  | intro other found barred length =>
    exact .intro other found ⟨barred.foreign, barred.unreadable⟩ length

theorem Alike.at_time {now : Time} (h : Alike { a with now } p fs gs) : Alike a p fs gs := by
  rcases h with rfl | h
  · exact .inl rfl
  · exact .inr (h.at_time a.now)

theorem Alike.transcript (h : Alike a p fs gs) (calls : List (Time × Call)) :
    (FileSystem.transcript a gs calls).1 = (FileSystem.transcript a fs calls).1 ∧
      Alike a (follow a fs p calls) (FileSystem.transcript a fs calls).2
        (FileSystem.transcript a gs calls).2 := by
  induction calls generalizing fs gs p with
  | nil => exact ⟨rfl, h⟩
  | cons call rest ih =>
    obtain ⟨now, c⟩ := call
    rcases h with rfl | h
    · exact ⟨rfl, .inl rfl⟩
    · have hstep := Call.lockstep (h.at_time now) c
      rw [FileSystem.transcript, FileSystem.transcript, follow]
      cases hstep with
      | ok hx hy hst =>
        obtain ⟨hanswers, hlast⟩ := ih hst.2.at_time
        rw [hx, hy, hst.1]
        exact ⟨congrArg (List.cons _) hanswers, hlast⟩
      | error hx hy hst =>
        obtain ⟨hanswers, hlast⟩ := ih hst.at_time
        rw [hx, hy]
        exact ⟨congrArg (List.cons _) hanswers, hlast⟩

/-- Who may not read a file and does not own it learns nothing about its text but its length. From two
states that differ in that text all calls are answered alike, one after the other, and the states
afterwards differ at most in the text of the file, wherever it was moved, and which may still not be
read. -/
theorem transcript_of_barred {attrs : Attributes} {text other : String}
    (found : fs.at? p = some (.file attrs text)) (barred : a.Barred (.file attrs text))
    (length : other.length = text.length) (calls : List (Time × Call)) :
    let gs := fs.modify p (Node.setContent other)
    (transcript a gs calls).1 = (transcript a fs calls).1 ∧
      ((transcript a gs calls).2 = (transcript a fs calls).2 ∨
        ∃ attrs' text' other',
          (transcript a fs calls).2.at? (follow a fs p calls) = some (.file attrs' text') ∧
          a.Barred (.file attrs' text') ∧ other'.length = text'.length ∧
          (transcript a gs calls).2 =
            (transcript a fs calls).2.modify (follow a fs p calls) (Node.setContent other')) := by
  intro gs
  have htwins : Twins a p fs gs := ⟨.intro other found barred length, rfl⟩
  obtain ⟨hanswers, halike⟩ := Alike.transcript (.inr htwins) calls
  refine ⟨hanswers, ?_⟩
  generalize (transcript a gs calls).2 = last' at halike ⊢
  generalize (transcript a fs calls).2 = last at halike ⊢
  rcases halike with rfl | ⟨hroot, hcwd⟩
  · exact .inl rfl
  · right
    obtain ⟨root', cwd'⟩ := last'
    dsimp only at hroot hcwd
    cases hroot with
    | @intro attrs' text' other' found' barred' length' =>
      refine ⟨attrs', text', other', found', barred', length', ?_⟩
      rw [hcwd]
      rfl

theorem transcript_of_barred_moved :
    let bob : Actor := ⟨"bob", {}, default⟩
    let secret (text : String) : Node := .file ⟨rootUser, rootUser, 0o600, default, default⟩ text
    let fs : FileSystem :=
      { root := .dir ⟨"bob", "bob", 0o755, default, default⟩ [("note", secret "yes")] }
    let gs := fs.modify ["note"] (Node.setContent "no!")
    let calls : List (Time × Call) :=
      [(default, .readText "/note"), (default, .move "/note" "/moved"), (default, .list "/" false)]
    fs.readText ⟨rootUser, {}, default⟩ "/note" = .ok "yes" ∧
      gs.readText ⟨rootUser, {}, default⟩ "/note" = .ok "no!" ∧
      follow bob fs ["note"] calls = ["moved"] ∧
      (transcript bob gs calls).1 = (transcript bob fs calls).1 := by
  refine ⟨rfl, rfl, rfl, ?_⟩
  have hlength : "no!".length = "yes".length := by decide
  exact (transcript_of_barred rfl ⟨by decide, by decide⟩ hlength _).1

end MemShell.FileSystem
