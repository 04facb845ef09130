import MemShell.Proofs.FileSystem.Creation
import MemShell.Proofs.Routine.Runs
import MemShell.Shell.Execute
set_option autoImplicit false

namespace MemShell

namespace Node
variable {n : Node} {p rest : Place} {name : String}

/-- Nothing stands at a place, and the way there is not barred by a file. -/
structure Missing (n : Node) (p : Place) : Prop where
  free : n.at? p = none
  way : ∀ q m, q <+: p → n.at? q = some m → m.isDir = true

theorem not_missing_nil (n : Node) : ¬ n.Missing [] := fun h => nomatch h.free

theorem missing_cons_iff :
    n.Missing (name :: rest) ↔ n.isDir = true ∧ ∀ c, n.child? name = some c → c.Missing rest := by
  constructor
  · intro h
    refine ⟨h.way [] n List.nil_prefix rfl, fun c hc => ⟨?_, fun q m hq hm => ?_⟩⟩
    · have hfree := h.free
      rw [at?_cons, hc] at hfree
      exact hfree
    · refine h.way (name :: q) m (List.cons_prefix_cons.mpr ⟨rfl, hq⟩) ?_
      rw [at?_cons, hc]
      exact hm
  · rintro ⟨hdir, hbelow⟩
    refine ⟨?_, fun q m hq hm => ?_⟩
    · rw [at?_cons]
      cases hc : n.child? name with
      | none => rfl
      | some c => exact (hbelow c hc).free
    · cases q with
      | nil => exact Option.some.inj hm ▸ hdir
      | cons other q =>
        obtain ⟨rfl, hrest⟩ := List.cons_prefix_cons.mp hq
        rw [at?_cons] at hm
        obtain ⟨c, hc, hm⟩ := Option.bind_eq_some_iff.mp hm
        exact (hbelow c hc).way q m hrest hm

theorem resolve_isNotFound_iff (above : Place) (n : Node) (p : Place) :
    (∃ f, n.resolve above p = .error f ∧ f.isNotFound = true) ↔ n.Missing p := by
  induction p generalizing n above with
  | nil =>
    refine iff_of_false ?_ n.not_missing_nil
    rintro ⟨f, h, -⟩
    cases h
  | cons name rest ih =>
    rw [missing_cons_iff, resolve]
    by_cases hdir : n.isDir = true
    · rw [if_pos hdir]
      cases hc : n.child? name with
      | none =>
        refine iff_of_true ⟨_, rfl, rfl⟩ ⟨hdir, fun c h => ?_⟩
        cases h
      | some c => simpa [hdir] using ih (above ++ [name]) c
    · rw [if_neg hdir]
      refine iff_of_false ?_ fun h => hdir h.1
      rintro ⟨f, hf, hmissing⟩
      cases hf
      cases hmissing

end Node

structure ArgSpec.Accepts (s : ArgSpec) (count : Int) : Prop where
  exact : ∀ n, s.exact = some n → count = n
  min : ∀ n, s.min = some n → n ≤ count
  max : ∀ n, s.max = some n → count ≤ n

theorem ArgSpec.check_eq_none_iff {s : ArgSpec} {count : Int} :
    s.check count = none ↔ s.Accepts count := by
  have hchecks : s.check count = none ↔ s.exact.filter (count ≠ ·) = none ∧
      s.min.filter (count < ·) = none ∧ s.max.filter (· < count) = none := by
    unfold check
    dsimp only
    split <;> simp_all
  rw [hchecks, Option.filter_eq_none_iff, Option.filter_eq_none_iff, Option.filter_eq_none_iff]
  simp only [ne_eq, decide_not, Bool.not_eq_true', decide_eq_false_iff_not, Decidable.not_not,
    decide_eq_true_eq, Int.not_lt]
  exact ⟨fun ⟨hexact, hmin, hmax⟩ => ⟨hexact, hmin, hmax⟩, fun h => ⟨h.exact, h.min, h.max⟩⟩

namespace PathRule
open FileSystem
variable {r : PathRule} {fs : FileSystem} {a : Actor} {arg : String} {args : List String} {p : Place}
  {n : Node} {ps : List Permission} {node : Option Node} {c : CheckedPath}

structure Meets (r : PathRule) (fs : FileSystem) (a : Actor) (arg : String) : Prop where
  stands : (∃ n, fs.at? (fs.place arg) = some n) ∨
    r.allowMissing = true ∧ fs.root.Missing (fs.place arg)
  kind : ∀ n k, fs.at? (fs.place arg) = some n → r.kind = some k →
    (n.isDir = true ↔ k = .directory)
  permissions : ∀ n, fs.at? (fs.place arg) = some n → ∀ q ∈ r.permissions, a.may n q = true
  /-- The root has no directory above it. -/
  parent : r.parentPermissions ≠ [] → fs.place arg ≠ [] →
    ∃ d, fs.at? (fs.place arg).parent = some d ∧ d.isDir = true ∧
      ∀ q ∈ r.parentPermissions, a.may d q = true
  owner : ∀ n, fs.at? (fs.place arg) = some n → r.owned = true →
    a.user = rootUser ∨ a.user = n.attrs.owner

def checked (fs : FileSystem) (arg : String) : CheckedPath :=
  ⟨arg, fs.place arg, fs.at? (fs.place arg)⟩

theorem kindMatches_iff {k : NodeKind} : kindMatches k n = true ↔ (n.isDir = true ↔ k = .directory) := by
  cases k <;> simp [kindMatches]

theorem requireAll_eq_ok_iff (arg : String) :
    requireAll a arg n ps = .ok () ↔ ∀ q ∈ ps, a.may n q = true := by
  rw [requireAll, ← List.all_eq_true]
  split <;> simp_all

theorem nodeAt_eq_ok_iff :
    r.nodeAt fs p arg = .ok node ↔
      node = fs.at? p ∧ ((∃ n, fs.at? p = some n) ∨ r.allowMissing = true ∧ fs.root.Missing p) := by
  have hmissing : (∃ f, fs.node p = .error f ∧ f.isNotFound = true) ↔ fs.root.Missing p :=
    Node.resolve_isNotFound_iff [] fs.root p
  unfold nodeAt
  cases hn : fs.node p with
  | ok n =>
    have hat := node_eq_ok_iff.mp hn
    simpa [hat] using eq_comm
  | error f =>
    have hat := at?_of_node_error hn
    rw [← hmissing, hn]
    cases hf : f.isNotFound <;> cases r.allowMissing <;> simp [hat, hf]
    exact eq_comm

theorem checkNode_eq_ok_iff :
    r.checkNode a arg n = .ok () ↔
      (∀ k, r.kind = some k → (n.isDir = true ↔ k = .directory)) ∧
        ∀ q ∈ r.permissions, a.may n q = true := by
  rw [← requireAll_eq_ok_iff arg]
  simp only [← kindMatches_iff]
  unfold checkNode
  cases r.kind with
  | none => simp
  | some k => cases hk : kindMatches k n <;> simp [hk, bind, Except.bind]

theorem checkOwner_eq_ok_iff :
    r.checkOwner a arg n = .ok () ↔ (r.owned = true → a.user = rootUser ∨ a.user = n.attrs.owner) := by
  have howns : a.owns n = true ↔ a.user = rootUser ∨ a.user = n.attrs.owner := by simp [Actor.owns]
  rw [checkOwner, ← howns]
  cases r.owned <;> cases a.owns n <;> simp

theorem existingParent_eq_ok_iff (arg : String) {d : Node} :
    existingParent fs p arg = .ok d ↔ fs.at? p.parent = some d ∧ d.isDir = true := by
  unfold existingParent
  cases hd : fs.node p.parent with
  | ok m =>
    rw [node_eq_ok_iff.mp hd]
    by_cases hdir : m.isDir = true
    · simp only [if_pos hdir, Except.ok.injEq, Option.some.injEq]
      exact ⟨fun h => ⟨h, h ▸ hdir⟩, fun h => h.1⟩
    · simp only [if_neg hdir, Option.some.injEq]
      exact iff_of_false (fun h => nomatch h) fun h => hdir (h.1 ▸ h.2)
  | error f =>
    rw [at?_of_node_error hd]
    refine iff_of_false (fun h => ?_) fun h => nomatch h.1
    dsimp only at h
    split at h <;> cases h

/-- Above a node there is a directory, and above a missing one there has to be one. -/
theorem parentNode_eq_ok_iff (hp : p ≠ []) :
    parentNode fs p arg (fs.at? p) = .ok node ↔
      ∃ d, node = some d ∧ fs.at? p.parent = some d ∧ d.isDir = true := by
  cases hn : fs.at? p with
  | some n =>
    rw [← parent_append_name hp] at hn
    obtain ⟨d, hd, hname⟩ := Node.at?_left_of_append hn
    have habove : fs.at? p.parent = some d := hd
    have hdir : d.isDir = true := by
      rw [Node.at?_singleton] at hname
      exact Node.isDir_of_child? hname
    simp only [parentNode, List.isEmpty_eq_false_iff.mpr hp, Bool.false_eq_true, if_false, habove,
      Except.ok.injEq]
    constructor
    · rintro rfl
      exact ⟨d, rfl, rfl, hdir⟩
    · rintro ⟨e, rfl, he, -⟩
      exact he
  | none =>
    simp only [parentNode, ← existingParent_eq_ok_iff arg]
    cases existingParent fs p arg with
    | ok d => simp [Except.map, eq_comm]
    | error f => simp [Except.map]

theorem checkParent_eq_ok_iff :
    r.checkParent fs a p arg (fs.at? p) = .ok () ↔
      (r.parentPermissions ≠ [] → p ≠ [] → ∃ d, fs.at? p.parent = some d ∧ d.isDir = true ∧
        ∀ q ∈ r.parentPermissions, a.may d q = true) := by
  unfold checkParent
  by_cases hlisted : r.parentPermissions = []
  · simp [hlisted]
  · have hask : ¬ r.parentPermissions.isEmpty = true := by simpa using hlisted
    rw [if_neg hask, bind_eq_ok_iff]
    by_cases hp : p = []
    · subst hp
      simp [parentNode, FileSystem.at?]
      rfl
    · simp only [parentNode_eq_ok_iff hp]
      constructor
      · rintro ⟨_, ⟨d, rfl, hd, hdir⟩, hmay⟩ _ _
        exact ⟨d, hd, hdir, (requireAll_eq_ok_iff _).mp hmay⟩
      · intro h
        obtain ⟨d, hd, hdir, hmay⟩ := h hlisted hp
        exact ⟨some d, ⟨d, rfl, hd, hdir⟩, (requireAll_eq_ok_iff _).mpr hmay⟩

theorem check_bind_eq_ok_iff {α : Type} {x : Except Fault Unit} {f : Unit → Except Fault α} {b : α} :
    x >>= f = .ok b ↔ x = .ok () ∧ f () = .ok b :=
  bind_eq_ok_iff.trans ⟨fun ⟨_, h⟩ => h, fun h => ⟨(), h⟩⟩

theorem checkArg_eq_ok_iff_checks :
    r.checkArg fs a arg = .ok c ↔ ∃ node, r.nodeAt fs (fs.place arg) arg = .ok node ∧
      (∀ n, node = some n → r.checkNode a arg n = .ok ()) ∧
      r.checkParent fs a (fs.place arg) arg node = .ok () ∧
      (∀ n, node = some n → r.checkOwner a arg n = .ok ()) ∧ ⟨arg, fs.place arg, node⟩ = c := by
  unfold checkArg
  rw [bind_eq_ok_iff]
  refine exists_congr fun node => and_congr_right fun _ => ?_
  cases node with
  | none => simp [check_bind_eq_ok_iff, pure, Except.pure]
  | some n => simp [check_bind_eq_ok_iff, pure, Except.pure]

theorem checkArg_eq_ok_iff :
    r.checkArg fs a arg = .ok c ↔ r.Meets fs a arg ∧ c = checked fs arg := by
  simp only [checkArg_eq_ok_iff_checks, nodeAt_eq_ok_iff, checkNode_eq_ok_iff, checkOwner_eq_ok_iff]
  constructor
  · rintro ⟨_, ⟨rfl, hstands⟩, hnode, hparent, howner, rfl⟩
    exact ⟨⟨hstands, fun n k hn => (hnode n hn).1 k, fun n hn => (hnode n hn).2,
      checkParent_eq_ok_iff.mp hparent, howner⟩, rfl⟩
  · rintro ⟨h, rfl⟩
    exact ⟨_, ⟨rfl, h.stands⟩, fun n hn => ⟨fun k => h.kind n k hn, h.permissions n hn⟩,
      checkParent_eq_ok_iff.mpr h.parent, h.owner, rfl⟩

/-- A rule counts its argument from the first one. -/
def Forward (r : PathRule) : Prop := ∀ i, r.select = .index i → 0 ≤ i

def selected (r : PathRule) (args : List String) : List String :=
  (r.indices args.length).filterMap fun i => args[i.toNat]?

/-- All that a rule is about is there, if it has to be, and leads to what the rule asks for. -/
structure Satisfied (r : PathRule) (fs : FileSystem) (a : Actor) (args : List String) : Prop where
  inRange : r.required = true → ∀ i ∈ r.indices args.length, i < args.length
  meets : ∀ arg ∈ r.selected args, r.Meets fs a arg

theorem Forward.indices_nonneg (h : r.Forward) (count : Nat) : ∀ i ∈ r.indices count, 0 ≤ i := by
  intro i hi
  unfold indices at hi
  cases hselect : r.select with
  | all =>
    rw [hselect] at hi
    obtain ⟨k, -, rfl⟩ := List.mem_map.mp hi
    exact Int.natCast_nonneg k
  | index j =>
    rw [hselect] at hi
    obtain rfl := List.mem_singleton.mp hi
    exact h i hselect

theorem argAt_of_nonneg {i : Int} (hi : 0 ≤ i) : argAt args i = .ok args[i.toNat]? := by
  unfold argAt
  dsimp only
  by_cases hrange : (args.length : Int) ≤ i
  · rw [if_pos hrange, List.getElem?_eq_none (by omega)]
  · have hlt : i.toNat < args.length := by omega
    rw [if_neg hrange, if_neg (by omega), List.getElem?_eq_getElem hlt]
    exact if_neg (by omega)

theorem checkAll_eq_ok_iff {is : List Int} {made : List CheckedPath} (his : ∀ i ∈ is, 0 ≤ i) :
    r.checkAll fs a args is = .ok made ↔
      (r.required = true → ∀ i ∈ is, i < args.length) ∧
      (∀ arg ∈ is.filterMap fun i => args[i.toNat]?, r.Meets fs a arg) ∧
      (is.filterMap fun i => args[i.toNat]?).map (checked fs) = made := by
  induction is generalizing made with
  | nil => simp [checkAll]
  | cons i rest ih =>
    have hpos : 0 ≤ i := his i List.mem_cons_self
    have hrest {made : List CheckedPath} := @ih made fun j hj => his j (List.mem_cons_of_mem i hj)
    rw [checkAll, argAt_of_nonneg hpos]
    cases hget : args[i.toNat]? with
    | none =>
      have hout : ¬ i < args.length := by
        have hle := List.getElem?_eq_none_iff.mp hget
        omega
      cases hrequired : r.required with
      | true => simp [bind, Except.bind, hout]
      | false => simp [bind, Except.bind, hrequired, hrest, hget]
    | some arg =>
      have hin : i < args.length := by
        obtain ⟨hlt, -⟩ := List.getElem?_eq_some_iff.mp hget
        omega
      change (do
        let p ← r.checkArg fs a arg
        pure (p :: (← checkAll r fs a args rest)) : Except Fault (List CheckedPath)) = _ ↔ _
      simp only [bind_eq_ok_iff, checkArg_eq_ok_iff, hrest, List.forall_mem_cons, hin, true_and,
        List.filterMap_cons, hget, List.map_cons]
      constructor
      · rintro ⟨_, ⟨hmeets, rfl⟩, _, ⟨hrange, hall, rfl⟩, hmade⟩
        cases hmade
        exact ⟨hrange, ⟨hmeets, hall⟩, rfl⟩
      · rintro ⟨hrange, ⟨hmeets, hall⟩, rfl⟩
        exact ⟨_, ⟨hmeets, rfl⟩, _, ⟨hrange, hall, rfl⟩, rfl⟩

theorem Forward.check_eq_ok_iff (h : r.Forward) {made : List CheckedPath} :
    r.check fs a args = .ok made ↔
      r.Satisfied fs a args ∧ (r.selected args).map (checked fs) = made := by
  rw [check, checkAll_eq_ok_iff (h.indices_nonneg args.length)]
  exact ⟨fun ⟨hrange, hmeets, hmade⟩ => ⟨⟨hrange, hmeets⟩, hmade⟩,
    fun ⟨hall, hmade⟩ => ⟨hall.inRange, hall.meets, hmade⟩⟩

end PathRule

namespace Contract
open Execute
variable {c : Contract} {fs : FileSystem} {a : Actor} {args words : List String} {i : Invocation}

theorem checkRules_eq_ok_iff {rules : List PathRule} {made : List CheckedPath}
    (h : ∀ r ∈ rules, r.Forward) :
    checkRules fs a args rules = .ok made ↔ (∀ r ∈ rules, r.Satisfied fs a args) ∧
      (rules.flatMap fun r => (r.selected args).map (PathRule.checked fs)) = made := by
  induction rules generalizing made with
  | nil => simp [checkRules]
  | cons r rest ih =>
    have hrest {made : List CheckedPath} := @ih made fun s hs => h s (List.mem_cons_of_mem r hs)
    rw [checkRules]
    simp only [bind_eq_ok_iff, (h r List.mem_cons_self).check_eq_ok_iff, hrest,
      List.forall_mem_cons, List.flatMap_cons]
    constructor
    · rintro ⟨_, ⟨hfirst, rfl⟩, _, ⟨hall, rfl⟩, hmade⟩
      cases hmade
      exact ⟨⟨hfirst, hall⟩, rfl⟩
    · rintro ⟨⟨hfirst, hall⟩, rfl⟩
      exact ⟨_, ⟨hfirst, rfl⟩, _, ⟨hall, rfl⟩, rfl⟩

structure Accepts (c : Contract) (fs : FileSystem) (a : Actor) (args : List String) : Prop where
  count : ∀ s, c.args = some s → s.Accepts args.length
  paths : ∀ r ∈ c.paths, r.Satisfied fs a args

theorem checkWords_eq_ok_iff (h : ∀ r ∈ c.paths, r.Forward) :
    c.checkWords fs a words = .ok i ↔ Flags.read c.flags words = .ok (i.flags, i.args) ∧
      c.Accepts fs a i.args ∧
      (c.paths.flatMap fun r => (r.selected i.args).map (PathRule.checked fs)) = i.paths := by
  have hcount (args : List String) : c.args.bind (·.check args.length) = none ↔
      ∀ s, c.args = some s → s.Accepts args.length := by
    simp only [Option.bind_eq_none_iff, ArgSpec.check_eq_none_iff]
  unfold checkWords
  rw [bind_eq_ok_iff]
  constructor
  · rintro ⟨⟨flags, args⟩, hread, hmade⟩
    dsimp only at hmade
    cases hspec : c.args.bind (·.check args.length) with
    | some text =>
      rw [hspec] at hmade
      cases hmade
    | none =>
      rw [hspec] at hmade
      obtain ⟨made, hrules, hmade⟩ := bind_eq_ok_iff.mp hmade
      cases hmade
      obtain ⟨hall, hpaths⟩ := (checkRules_eq_ok_iff h).mp hrules
      exact ⟨hread, ⟨(hcount args).mp hspec, hall⟩, hpaths⟩
  · rintro ⟨hread, haccepts, hpaths⟩
    refine ⟨_, hread, ?_⟩
    dsimp only
    rw [(hcount i.args).mpr haccepts.count]
    exact bind_eq_ok_iff.mpr ⟨_, (checkRules_eq_ok_iff h).mpr ⟨haccepts.paths, hpaths⟩, rfl⟩

theorem check_eq_ok_iff : c.check fs a words = .ok i ↔ c.checkWords fs a words = .ok i := by
  unfold check
  cases c.checkWords fs a words <;> simp

section
variable {inner : LineRunner} {seg : Segment} {input : Option String} {caller : Caller} {s : Shell}
  {command : Command}

theorem runSegment_of_refused (hcommand : s.commands.get? seg.name = some command)
    (hservices : ∀ name ∈ command.contract.requires, s.hasService name = true) {f : Fault}
    (hcheck : command.contract.check s.files (s.actor caller.user) seg.args = .error f) :
    runSegment inner seg input caller s = .done s (.ok (report seg.name f)) := by
  have hmissing : (command.contract.requires.filter fun name => !s.hasService name) = [] := by
    simpa using hservices
  unfold runSegment
  rw [Run.get_bind]
  simp only [hcommand, hmissing, List.isEmpty_nil, Bool.not_true, Bool.false_eq_true, if_false, hcheck]
  rfl

theorem runSegment_of_passed (hcommand : s.commands.get? seg.name = some command)
    (hservices : ∀ name ∈ command.contract.requires, s.hasService name = true)
    (hcheck : command.contract.check s.files (s.actor caller.user) seg.args = .ok i) :
    ∃ next, runSegment inner seg input caller s = .note s (.command command.action
      (contextFor s command.contract i seg.name input caller)) next := by
  have hmissing : (command.contract.requires.filter fun name => !s.hasService name) = [] := by
    simpa using hservices
  unfold runSegment
  rw [Run.get_bind]
  simp only [hcommand, hmissing, List.isEmpty_nil, Bool.not_true, Bool.false_eq_true, if_false, hcheck]
  exact ⟨_, Run.note_bind _ _ s⟩

end

/-- Words pass the check of a contract just if their flags are read and the arguments that are left
are as many as it accepts and lead to what its rules ask for. The nodes that are handed on are those
at the places of the arguments, and the command is refused, or begins its work, in the state in which
its words were checked. -/
theorem passes_iff_accepts (c : Contract) (h : ∀ r ∈ c.paths, r.Forward) (fs : FileSystem) (a : Actor)
    (words : List String) :
    ((∃ i, c.check fs a words = .ok i) ↔
      ∃ flags args, Flags.read c.flags words = .ok (flags, args) ∧ c.Accepts fs a args) ∧
    (∀ i, c.check fs a words = .ok i →
      Flags.read c.flags words = .ok (i.flags, i.args) ∧
      i.paths.map (·.arg) = c.paths.flatMap (·.selected i.args) ∧
      ∀ p ∈ i.paths, p.place = fs.place p.arg ∧ ∀ n, p.node = some n ↔ fs.node p.place = .ok n) ∧
    ∀ (s : Shell) (command : Command) (inner : LineRunner) (seg : Segment) (input : Option String)
      (caller : Caller), s.commands.get? seg.name = some command → command.contract = c →
      (∀ name ∈ c.requires, s.hasService name = true) →
      s.files = fs → s.actor caller.user = a → seg.args = words →
        (∀ f, c.check fs a words = .error f →
          runSegment inner seg input caller s = .done s (.ok (report seg.name f))) ∧
        ∀ i, c.check fs a words = .ok i → ∃ next, runSegment inner seg input caller s =
          .note s (.command command.action (contextFor s c i seg.name input caller)) next := by
  refine ⟨⟨fun ⟨i, hi⟩ => ?_, fun ⟨flags, args, hread, haccepts⟩ => ?_⟩, fun i hi => ?_, ?_⟩
  · obtain ⟨hread, haccepts, -⟩ := (checkWords_eq_ok_iff h).mp (check_eq_ok_iff.mp hi)
    exact ⟨i.flags, i.args, hread, haccepts⟩
  · exact ⟨⟨flags, args, c.paths.flatMap fun r => (r.selected args).map (PathRule.checked fs)⟩,
      check_eq_ok_iff.mpr ((checkWords_eq_ok_iff h).mpr ⟨hread, haccepts, rfl⟩)⟩
  · obtain ⟨hread, -, hpaths⟩ := (checkWords_eq_ok_iff h).mp (check_eq_ok_iff.mp hi)
    refine ⟨hread, ?_, fun p hp => ?_⟩
    · rw [← hpaths, List.map_flatMap]
      refine List.flatMap_congr fun r _ => ?_
      rw [List.map_map]
      exact List.map_id _
    · rw [← hpaths] at hp
      obtain ⟨r, -, hp⟩ := List.mem_flatMap.mp hp
      obtain ⟨arg, -, rfl⟩ := List.mem_map.mp hp
      exact ⟨rfl, fun n => FileSystem.node_eq_ok_iff.symm⟩
  · rintro s command inner seg input caller hcommand rfl hservices rfl rfl rfl
    exact ⟨fun f hf => runSegment_of_refused hcommand hservices hf,
      fun i hi => runSegment_of_passed hcommand hservices hi⟩

def sample : Contract :=
  { name := "put"
    args := some { min := some 1, max := some 2 }
    paths := [{ select := .index 0, kind := some .directory, permissions := [.execute], owned := true },
      { select := .index 1, allowMissing := true, parentPermissions := [.write], required := false }] }

/-- The owner of a home passes with a note that is still missing, and nobody else passes. -/
theorem passes_iff_accepts_sample :
    let fs := FileSystem.fresh {} default (some "ada")
    let words := ["/home/ada", "/home/ada/note"]
    (∀ r ∈ sample.paths, r.Forward) ∧ sample.Accepts fs ⟨"ada", {}, default⟩ words ∧
      ¬ sample.Accepts fs ⟨"bob", {}, default⟩ words := by
  have hforward : ∀ r ∈ sample.paths, r.Forward := by
    intro r hr i hi
    simp only [sample, List.mem_cons, List.not_mem_nil, or_false] at hr
    rcases hr with rfl | rfl <;> cases hi <;> decide
  have hpassed : ∃ i, sample.check (FileSystem.fresh {} default (some "ada")) ⟨"ada", {}, default⟩
      ["/home/ada", "/home/ada/note"] = .ok i := ⟨_, rfl⟩
  have hrefused : ¬ ∃ i, sample.check (FileSystem.fresh {} default (some "ada")) ⟨"bob", {}, default⟩
      ["/home/ada", "/home/ada/note"] = .ok i := fun ⟨_, hi⟩ => by cases hi
  have hread : Flags.read sample.flags ["/home/ada", "/home/ada/note"] =
      .ok ([], ["/home/ada", "/home/ada/note"]) := rfl
  obtain ⟨flags, args, hargs, haccepts⟩ :=
    (passes_iff_accepts sample hforward _ ⟨"ada", {}, default⟩ _).1.mp hpassed
  rw [hread] at hargs
  cases hargs
  exact ⟨hforward, haccepts, fun hbob => hrefused
    ((passes_iff_accepts sample hforward _ ⟨"bob", {}, default⟩ _).1.mpr ⟨_, _, hread, hbob⟩)⟩

end Contract
end MemShell
