import MemShell.FileSystem.Listing
import MemShell.Proofs.FileSystem.Reachable
set_option autoImplicit false

namespace MemShell

theorem Node.resolve_modify_above (g : Attributes → Attributes) {p q : Place} (h : q <+: p)
    (hne : q ≠ p) (above : Place) (n : Node) :
    (Node.modify (Node.mapAttrs g) q n).resolve above p = n.resolve above p := by
  induction q generalizing p n above with
  | nil =>
    cases p with
    | nil => exact absurd rfl hne
    | cons name rest =>
      change (n.mapAttrs g).resolve above (name :: rest) = _
      have hchild : (n.mapAttrs g).child? name = n.child? name :=
        Node.child?_congr (Node.children_mapAttrs g n) name
      rw [Node.resolve, Node.resolve, hchild, Node.isDir_mapAttrs]
  | cons first q ih =>
    cases p with
    | nil => simp at h
    | cons name rest =>
      obtain ⟨rfl, hrest⟩ := List.cons_prefix_cons.mp h
      have hne' : q ≠ rest := fun heq => hne (by rw [heq])
      rw [Node.resolve, Node.resolve, Node.isDir_modify_cons, Node.child?_modify_cons, if_pos rfl]
      cases n.child? first with
      | none => rfl
      | some c =>
        rw [Option.map_some]
        simp only [ih hrest hne']

namespace FileSystem
variable {fs : FileSystem} {a : Actor} {path text : String} {p : Place} {n : Node}

theorem readText_eq_ok_iff :
    fs.readText a path = .ok text ↔
      ∃ attrs, fs.at? (fs.place path) = some (.file attrs text) ∧
        a.may (.file attrs text) .read = true := by
  unfold readText
  dsimp only
  constructor
  · intro h
    obtain ⟨n, hn, h⟩ := bind_eq_ok_iff.mp h
    cases n with
    | dir attrs cs => cases h
    | file attrs content =>
      obtain ⟨_, hread, h⟩ := bind_eq_ok_iff.mp h
      cases h
      exact ⟨attrs, node_eq_ok_iff.mp hn, require_eq_ok_iff.mp hread⟩
  · rintro ⟨attrs, hn, hread⟩
    refine bind_eq_ok_iff.mpr ⟨_, node_eq_ok_iff.mpr hn, ?_⟩
    exact bind_eq_ok_iff.mpr ⟨(), require_eq_ok_iff.mpr hread, rfl⟩

/-- Writing to a file that stands asks for the permission on the file. -/
theorem answer_writeText (hn : fs.at? (fs.place path) = some n) (hfile : n.isDir = false)
    (append parents : Bool) :
    ((writeText a path text append parents).run fs).1 =
      (a.require (fs.place path) n .write).map fun _ => fs.place path := by
  unfold writeText
  rw [Work.run_bind, Work.run_get]
  simp only [node_eq_ok_iff.mpr hn]
  cases n with
  | dir attrs cs => cases hfile
  | file attrs content =>
    dsimp only
    rw [Work.run_bind, Work.run_lift]
    cases a.require (fs.place path) (.file attrs content) .write <;> rfl

theorem answer_enter :
    ((enter a path).run fs).1 =
      (fs.directory (fs.place path)).bind fun d => a.require (fs.place path) d .execute := by
  unfold enter
  rw [Work.run_bind, Work.run_get]
  dsimp only
  rw [Work.run_bind, Work.run_ask]
  cases fs.directory (fs.place path) with
  | error f => rfl
  | ok d =>
    dsimp only [Except.bind]
    rw [Work.run_bind, Work.run_lift]
    cases a.require (fs.place path) d .execute <;> rfl

theorem enter_succeeds_iff :
    ((enter a path).run fs).1 = .ok () ↔
      ∃ d, fs.at? (fs.place path) = some d ∧ d.isDir = true ∧ a.may d .execute = true := by
  rw [answer_enter]
  constructor
  · intro h
    obtain ⟨d, hd, hexecute⟩ := bind_eq_ok_iff.mp h
    obtain ⟨hfound, hdir⟩ := directory_eq_ok_iff.mp hd
    exact ⟨d, hfound, hdir, require_eq_ok_iff.mp hexecute⟩
  · rintro ⟨d, hfound, hdir, hexecute⟩
    have hd : fs.directory (fs.place path) = .ok d := directory_eq_ok_iff.mpr ⟨hfound, hdir⟩
    exact bind_eq_ok_iff.mpr ⟨d, hd, require_eq_ok_iff.mpr hexecute⟩

theorem list_succeeds_iff {hidden : Bool} :
    (∃ rows, fs.list a path hidden = .ok rows) ↔
      ∃ n, fs.at? (fs.place path) = some n ∧ (n.isDir = true → a.may n .execute = true) := by
  unfold list
  dsimp only
  constructor
  · rintro ⟨rows, h⟩
    obtain ⟨n, hn, h⟩ := bind_eq_ok_iff.mp h
    refine ⟨n, node_eq_ok_iff.mp hn, fun hdir => ?_⟩
    rw [if_pos hdir] at h
    obtain ⟨_, hexecute, -⟩ := bind_eq_ok_iff.mp h
    exact require_eq_ok_iff.mp hexecute
  · rintro ⟨n, hn, hexecute⟩
    rw [node_eq_ok_iff.mpr hn]
    cases hdir : n.isDir with
    | true =>
      have hrequire := require_eq_ok_iff (p := fs.place path) |>.mpr (hexecute hdir)
      simp only [bind, Except.bind, hdir, if_true, hrequire]
      exact ⟨_, rfl⟩
    | false =>
      simp only [bind, Except.bind, hdir]
      exact ⟨_, rfl⟩

theorem node_modify_above (g : Attributes → Attributes) {q : Place} (h : q <+: p) (hne : q ≠ p) :
    (fs.modify q (Node.mapAttrs g)).node p = fs.node p :=
  Node.resolve_modify_above g h hne [] fs.root

/-- Whether a text is read, a file written to, a directory entered or a node listed is decided by the
permission on the node that the path leads to. The answers are the same whatever owner, group and mode
the directories above it have. -/
theorem access_decided_at_node (fs : FileSystem) (a : Actor) (path : String) :
    (∀ text, fs.readText a path = .ok text ↔
      ∃ attrs, fs.at? (fs.place path) = some (.file attrs text) ∧
        a.may (.file attrs text) .read = true) ∧
    (∀ n text append parents, fs.at? (fs.place path) = some n → n.isDir = false →
      ((∃ p, ((writeText a path text append parents).run fs).1 = .ok p) ↔
        a.may n .write = true)) ∧
    (((enter a path).run fs).1 = .ok () ↔
      ∃ d, fs.at? (fs.place path) = some d ∧ d.isDir = true ∧ a.may d .execute = true) ∧
    (∀ hidden, (∃ rows, fs.list a path hidden = .ok rows) ↔
      ∃ n, fs.at? (fs.place path) = some n ∧ (n.isDir = true → a.may n .execute = true)) ∧
    ∀ q g, q <+: fs.place path → q ≠ fs.place path →
      let other := fs.modify q (Node.mapAttrs g)
      other.readText a path = fs.readText a path ∧
      (∀ text append parents, fs.isFile path = true →
        ((writeText a path text append parents).run other).1 =
          ((writeText a path text append parents).run fs).1) ∧
      ((enter a path).run other).1 = ((enter a path).run fs).1 ∧
      ∀ hidden, other.list a path hidden = fs.list a path hidden := by
  refine ⟨fun _ => readText_eq_ok_iff, fun n text append parents hn hfile => ?_,
    enter_succeeds_iff, fun _ => list_succeeds_iff, fun q g hq hne => ?_⟩
  · rw [answer_writeText hn hfile, ← require_eq_ok_iff (p := fs.place path)]
    cases a.require (fs.place path) n .write <;> simp [Except.map]
  · have hnode : (fs.modify q (Node.mapAttrs g)).node (fs.place path) = fs.node (fs.place path) :=
      node_modify_above g hq hne
    have hplace : (fs.modify q (Node.mapAttrs g)).place path = fs.place path := rfl
    refine ⟨?_, fun text append parents hfile => ?_, ?_, fun hidden => ?_⟩
    · unfold readText
      dsimp only
      rw [hplace, hnode]
    · obtain ⟨n, hn, hdir⟩ : ∃ n, fs.at? (fs.place path) = some n ∧ n.isDir = false := by
        unfold isFile at hfile
        cases hn : fs.at? (fs.place path) with
        | none => simp [hn] at hfile
        | some n => exact ⟨n, rfl, by simpa [hn] using hfile⟩
      have hn' : (fs.modify q (Node.mapAttrs g)).at? (fs.place path) = some n := by
        rw [← node_eq_ok_iff, hnode, node_eq_ok_iff, hn]
      rw [answer_writeText hn hdir, answer_writeText hn' hdir, hplace]
    · rw [answer_enter, answer_enter, hplace, directory, directory, hnode]
    · unfold list
      dsimp only
      rw [hplace, hnode]

theorem access_decided_at_node_closed_home :
    let ada : Actor := ⟨"ada", {}, default⟩
    let fs := (((Request.makeFile "/home/ada/note" "dear diary" false).run ada).run
      (fresh {} default (some "ada"))).2
    let closed := fs.modify ["home", "ada"] (Node.mapAttrs fun at' => { at' with mode := 0 })
    fs.readText ⟨"bob", {}, default⟩ "/home/ada/note" = .ok "dear diary" ∧
      closed.readText ⟨"bob", {}, default⟩ "/home/ada/note" =
        fs.readText ⟨"bob", {}, default⟩ "/home/ada/note" := by
  refine ⟨rfl, ?_⟩
  exact ((access_decided_at_node _ ⟨"bob", {}, default⟩ "/home/ada/note").2.2.2.2 ["home", "ada"]
    (fun at' => { at' with mode := 0 }) (by decide) (by decide)).1

/-- A file that everybody may read is read inside a home that nobody else may enter. -/
theorem traversal_not_required :
    ¬ ∀ (fs : FileSystem) (a : Actor) (path text : String), Reachable fs → a.user ≠ rootUser →
      fs.readText a path = .ok text → ∀ q d, q <+: fs.place path → q ≠ fs.place path →
        fs.at? q = some d → a.may d .execute = true := by
  intro h
  have hhome : Reachable (fresh {} default (some "ada")) := reachable_fresh {} default (by decide)
  have hfs := hhome.request ⟨"ada", {}, default⟩ (.makeFile "/home/ada/note" "dear diary" false)
  have henter := h _ ⟨"bob", {}, default⟩ "/home/ada/note" "dear diary" hfs (by decide) rfl
    ["home", "ada"] _ (by decide) (by decide) rfl
  exact absurd henter (by decide)

end FileSystem
end MemShell
