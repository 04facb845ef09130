import MemShell.Proofs.Text.Lines
import MemShell.Proofs.Tree.Walk
set_option autoImplicit false

/-!
# The rows of a drawing

A drawing has a row for each node below the directory to which all directories on the way let the
actor in, and the rows come in the order of a walk. What stands in front of the name in a row tells
for each node on the way whether it is the last one of its siblings, so the depth is read off it.
-/
namespace MemShell

namespace FileSystem.Drawing

/-- What is drawn in front of a name: for each node above it whether it is the last of its siblings,
and last the same of the node itself. -/
def edges : List Bool → String
  | [] => ""
  | [last] => if last then "└── " else "├── "
  | last :: rest => (if last then "    " else "│   ") ++ edges rest

def readEdges : List Char → Option (List Bool × String)
  | '└' :: '─' :: '─' :: ' ' :: text => some ([true], String.ofList text)
  | '├' :: '─' :: '─' :: ' ' :: text => some ([false], String.ofList text)
  | ' ' :: ' ' :: ' ' :: ' ' :: rest => (readEdges rest).map fun r => (true :: r.1, r.2)
  | '│' :: ' ' :: ' ' :: ' ' :: rest => (readEdges rest).map fun r => (false :: r.1, r.2)
  | _ => none

theorem edges_cons {rest : List Bool} (h : rest ≠ []) (last : Bool) :
    edges (last :: rest) = (if last then "    " else "│   ") ++ edges rest := by
  cases rest with
  | nil => exact absurd rfl h
  | cons b bs => rfl

theorem readEdges_edges {lasts : List Bool} (h : lasts ≠ []) (text : String) :
    readEdges (edges lasts ++ text).toList = some (lasts, text) := by
  induction lasts with
  | nil => exact absurd rfl h
  | cons last rest ih =>
    by_cases hrest : rest = []
    · subst hrest
      cases last <;> simp [edges, readEdges]
    · have hread := ih hrest
      rw [String.toList_append] at hread
      rw [edges_cons hrest, String.append_assoc, String.toList_append, String.toList_append]
      cases last <;> simp [readEdges, hread]

theorem unbroken_edges (lasts : List Bool) : Text.Unbroken (edges lasts) := by
  have hpiece (last : Bool) : Text.Unbroken (if last then "└── " else "├── ") ∧
      Text.Unbroken (if last then "    " else "│   ") := by
    cases last <;> simp [Text.Unbroken, Text.isLineBreak]
  induction lasts with
  | nil => simp [edges, Text.Unbroken]
  | cons last rest ih =>
    by_cases hrest : rest = []
    · subst hrest
      exact (hpiece last).1
    · rw [edges_cons hrest]
      exact Text.unbroken_append.mpr ⟨(hpiece last).2, ih⟩

end FileSystem.Drawing

namespace Node
open FileSystem (Drawing)
variable {n m c : Node} {a : Actor} {name : String} {x : Place}

def isLast (n : Node) (name : String) : Bool :=
  decide (∀ other ∈ Table.keys n.children, ¬ name < other)

def lasts (n : Node) : Place → List Bool
  | [] => []
  | name :: rest =>
    n.isLast name :: match n.child? name with
      | some c => c.lasts rest
      | none => []

def drawnName (name : String) (n : Node) : String := name ++ if n.isDir then "/" else ""

def row (d : Node) (x : Place) (n : Node) : String := Drawing.edges (d.lasts x) ++ n.drawnName x.name

/-- Whether each directory on the way to a node, from the first to the one above it, lets the actor
in. -/
def shows (a : Actor) : Node → Place → Bool
  | _, [] => false
  | n, name :: rest =>
    a.may n .execute && (n.child? name).any fun c => rest.isEmpty || shows a c rest

theorem lasts_cons (hc : n.child? name = some c) (x : Place) :
    n.lasts (name :: x) = n.isLast name :: c.lasts x := by
  rw [lasts, hc]

theorem length_lasts (h : n.at? x = some m) : (n.lasts x).length = x.length := by
  induction x generalizing n with
  | nil => rfl
  | cons name rest ih =>
    rw [at?_cons] at h
    obtain ⟨c, hc, hm⟩ := Option.bind_eq_some_iff.mp h
    rw [lasts_cons hc, List.length_cons, ih hm, List.length_cons]

theorem lasts_ne_nil (hx : x ≠ []) (hm : n.at? x = some m) : n.lasts x ≠ [] := by
  rw [← List.length_pos_iff, length_lasts hm]
  exact List.length_pos_iff.mpr hx

theorem row_child (hc : n.child? name = some c) (m : Node) :
    n.row [name] m = (if n.isLast name then "└── " else "├── ") ++ m.drawnName name := by
  rw [row, lasts_cons hc]
  rfl

theorem row_cons (hc : n.child? name = some c) (hx : x ≠ []) (hm : c.at? x = some m) :
    n.row (name :: x) m = (if n.isLast name then "    " else "│   ") ++ c.row x m := by
  have hname : Place.name (name :: x) = x.name := by
    rw [Place.name, Place.name, List.getLast?_cons_of_ne_nil hx]
  rw [row, row, lasts_cons hc, Drawing.edges_cons (lasts_ne_nil hx hm), hname, String.append_assoc]

/-- What holds at the places above one below a child holds at the node, and above that in the child. -/
theorem forall_above_cons {P : Place → Prop} :
    (∀ y, y <+: name :: x → y ≠ name :: x → P y) ↔
      P [] ∧ ∀ y, y <+: x → y ≠ x → P (name :: y) := by
  constructor
  · intro h
    constructor
    · exact h [] List.nil_prefix (List.cons_ne_nil name x).symm
    · intro y hy hne
      exact h (name :: y) (List.cons_prefix_cons.mpr ⟨rfl, hy⟩) fun heq => hne (List.cons.inj heq).2
  · rintro ⟨hnil, hcons⟩ y hy hne
    cases y with
    | nil => exact hnil
    | cons other y =>
      obtain ⟨rfl, habove⟩ := List.cons_prefix_cons.mp hy
      exact hcons y habove fun heq => hne (heq ▸ rfl)

/-- From a row one reads off the way to its node, as far as it says which ones are last, and the
name. -/
theorem readEdges_row (hx : x ≠ []) (hm : n.at? x = some m) :
    Drawing.readEdges (n.row x m).toList = some (n.lasts x, m.drawnName x.name) := by
  have hlasts : n.lasts x ≠ [] := lasts_ne_nil hx hm
  exact Drawing.readEdges_edges hlasts _

theorem unbroken_row (h : Text.Unbroken x.name) (m : Node) : Text.Unbroken (n.row x m) := by
  have hmark : Text.Unbroken (if m.isDir then "/" else "") := by
    cases m.isDir <;> simp [Text.Unbroken, Text.isLineBreak]
  exact Text.unbroken_append.mpr
    ⟨Drawing.unbroken_edges _, Text.unbroken_append.mpr ⟨h, hmark⟩⟩

theorem shows_iff (hx : n.at? x = some m) :
    n.shows a x = true ↔
      x ≠ [] ∧ ∀ y, y <+: x → y ≠ x → ∃ d, n.at? y = some d ∧ a.may d .execute = true := by
  induction x generalizing n with
  | nil => simp [shows]
  | cons name rest ih =>
    rw [at?_cons] at hx
    obtain ⟨c, hc, hm⟩ := Option.bind_eq_some_iff.mp hx
    have hself : (∃ d, n.at? [] = some d ∧ a.may d .execute = true) ↔ a.may n .execute = true :=
      ⟨fun ⟨d, hd, hmay⟩ => Option.some.inj hd ▸ hmay, fun hmay => ⟨n, rfl, hmay⟩⟩
    have hbelow : (rest.isEmpty || c.shows a rest) = true ↔
        ∀ y, y <+: rest → y ≠ rest → ∃ d, n.at? (name :: y) = some d ∧ a.may d .execute = true := by
      simp only [at?_cons, hc, Option.bind_some]
      cases rest with
      | nil => simp
      | cons next more => simpa using ih hm
    rw [forall_above_cons, hself, ← hbelow, shows, hc]
    simp

end Node

namespace FileSystem
variable {n c : Node} {a : Actor} {p q : Place} {name : String}

def shown (a : Actor) (n : Node) : List (Place × Node) :=
  (below [] n).filter fun e => n.shows a e.1

theorem mem_shown (h : n.Everywhere Node.Sound) {x : Place} {m : Node} :
    (x, m) ∈ shown a n ↔ n.at? x = some m ∧ x ≠ [] ∧
      ∀ y, y <+: x → y ≠ x → ∃ d, n.at? y = some d ∧ a.may d .execute = true := by
  rw [shown, List.mem_filter, mem_below h]
  simp only [List.nil_append, exists_eq_left']
  exact and_congr_right fun hx => Node.shows_iff hx

theorem pairwise_shown (a : Actor) (h : n.Everywhere Node.Sound) :
    (shown a n).Pairwise fun x y => x.1.Before y.1 :=
  (pairwise_below h).filter _

theorem nodup_shown (a : Actor) (h : n.Everywhere Node.Sound) : (shown a n).Nodup :=
  (pairwise_shown a h).imp fun hbefore heq => hbefore.ne (congrArg Prod.fst heq)

theorem below_append (p q : Place) (n : Node) :
    below (p ++ q) n = (below q n).map fun e => (p ++ e.1, e.2) := by
  induction n using Node.ind generalizing q with
  | file b t => rfl
  | dir b cs ih =>
    have hbelow (e : String × Node) (he : e ∈ sortByKey (·.1) cs) :
        below (p ++ q ++ [e.1]) e.2 = (below (q ++ [e.1]) e.2).map fun f => (p ++ f.1, f.2) := by
      rw [List.append_assoc]
      exact ih e.1 e.2 ((sortByKey_perm _ _).mem_iff.mp he) (q ++ [e.1])
    rw [below_dir, below_dir, List.map_cons, List.map_flatMap, List.flatMap_congr hbelow]

theorem below_eq_cons (p : Place) (n : Node) : ∃ rest, below p n = (p, n) :: rest := by
  cases n with
  | file b t => exact ⟨[], rfl⟩
  | dir b cs => exact ⟨_, below_dir p b cs⟩

/-- A child shows, and what shows in it, in a directory that lets the actor in. -/
theorem filter_below_child (h : c.Everywhere Node.Sound) :
    (below [] c).filter (fun e => e.1.isEmpty || c.shows a e.1) = ([], c) :: shown a c := by
  have horder := pairwise_below (p := []) h
  obtain ⟨rest, hrest⟩ := below_eq_cons [] c
  rw [hrest] at horder
  have hne (e : Place × Node) (he : e ∈ rest) : e.1.isEmpty = false :=
    List.isEmpty_eq_false_iff.mpr ((List.pairwise_cons.mp horder).1 e he).ne.symm
  rw [shown, hrest, List.filter_cons_of_pos (by rfl), List.filter_cons_of_neg (by simp [Node.shows])]
  exact congrArg _ (List.filter_congr fun e he => by rw [hne e he, Bool.false_or])

theorem filter_below_shows (hc : n.child? name = some c) (h : c.Everywhere Node.Sound) :
    (below [name] c).filter (fun e => n.shows a e.1) = if a.may n .execute then
      ([name], c) :: (shown a c).map fun e => (name :: e.1, e.2) else [] := by
  have hbelow : below [name] c = (below [] c).map fun e => (name :: e.1, e.2) :=
    below_append [name] [] c
  rw [hbelow, List.filter_map]
  by_cases hmay : a.may n .execute = true
  · have hchild := congrArg (List.map fun e : Place × Node => (name :: e.1, e.2))
      (filter_below_child (a := a) h)
    simpa [Function.comp_def, Node.shows, hc, hmay] using hchild
  · simp [Function.comp_def, Node.shows, hmay]

theorem shown_dir {b : Attributes} {cs : List (String × Node)}
    (h : (Node.dir b cs).Everywhere Node.Sound) :
    shown a (.dir b cs) = if a.may (.dir b cs) .execute then
      (sortByKey (·.1) cs).flatMap fun e =>
        ([e.1], e.2) :: (shown a e.2).map fun f => (e.1 :: f.1, f.2)
      else [] := by
  have hchild (e : String × Node) (he : e ∈ sortByKey Prod.fst cs) :=
    have hmem := (sortByKey_perm Prod.fst cs).mem_iff.mp he
    have hget : Node.child? (.dir b cs) e.1 = some e.2 := Table.get?_of_mem h.self.nodup hmem
    filter_below_shows (a := a) hget (Node.sound_of_mem h hmem)
  rw [shown, below_dir, List.filter_cons_of_neg (by simp [Node.shows]), List.filter_flatMap]
  simp only [List.nil_append]
  rw [List.flatMap_congr hchild]
  split <;> simp

def inside (a : Actor) (n : Node) : List Drawing :=
  if a.may n .execute then (sortByKey (·.1) (drawAll a n.children)).map (·.2) else []

theorem drawAll_eq (a : Actor) (cs : List (String × Node)) :
    drawAll a cs = cs.map fun e => (e.1, draw a e.1 e.2) := by
  induction cs with
  | nil => rfl
  | cons e rest ih => rw [drawAll, ih, List.map_cons]

theorem drawings_eq (a : Actor) (cs : List (String × Node)) :
    (sortByKey (·.1) (drawAll a cs)).map (·.2) =
      (sortByKey (·.1) cs).map fun e => draw a e.1 e.2 := by
  rw [drawAll_eq, sortByKey_map fun e : String × Node => draw a e.1 e.2, List.map_map]
  rfl

theorem draw_eq (a : Actor) (name : String) (n : Node) :
    draw a name n = .node (n.drawnName name) (inside a n) := by
  cases n with
  | file b t => simp [draw, inside, Node.drawnName, Node.isDir, Node.children, drawAll, sortByKey]
  | dir b cs => rfl

/-- Drawings of children in ascending order: the last one is that of the greatest name. -/
theorem lines_drawings {cs : List (String × Node)} (h : cs.Pairwise fun e f => e.1 < f.1)
    (indent : String) :
    Drawing.lines indent (cs.map fun e => draw a e.1 e.2) = cs.flatMap fun e =>
      Drawing.branch indent (decide (∀ f ∈ cs, ¬ e.1 < f.1)) (draw a e.1 e.2) := by
  induction cs with
  | nil => rfl
  | cons e rest ih =>
    obtain ⟨hfirst, hrest⟩ := List.pairwise_cons.mp h
    have hlast : (rest.map fun f => draw a f.1 f.2).isEmpty =
        decide (∀ f ∈ e :: rest, ¬ e.1 < f.1) := by
      cases rest with
      | nil =>
        have hself : ∀ f ∈ [e], ¬ e.1 < f.1 := fun f hf =>
          List.mem_singleton.mp hf ▸ String.lt_irrefl e.1
        exact (decide_eq_true hself).symm
      | cons f more =>
        have hf : f ∈ f :: more := List.mem_cons_self
        exact (decide_eq_false fun hlast => hlast f (List.mem_cons_of_mem e hf) (hfirst f hf)).symm
    have hothers (f : String × Node) (hf : f ∈ rest) :
        decide (∀ g ∈ rest, ¬ f.1 < g.1) = decide (∀ g ∈ e :: rest, ¬ f.1 < g.1) := by
      have hle : ¬ f.1 < e.1 := fun hlt => String.lt_irrefl _ (String.lt_trans hlt (hfirst f hf))
      rw [decide_eq_decide, List.forall_mem_cons]
      exact (and_iff_right hle).symm
    rw [List.map_cons, Drawing.lines, hlast, ih hrest, List.flatMap_cons]
    congr 1
    exact List.flatMap_congr fun f hf => by rw [hothers f hf]

theorem decide_greatest (n : Node) (name : String) :
    decide (∀ f ∈ sortByKey Prod.fst n.children, ¬ name < f.1) = n.isLast name := by
  rw [Node.isLast, decide_eq_decide]
  simp only [(sortByKey_perm Prod.fst n.children).mem_iff, Table.keys, List.forall_mem_map]

/-- A child is drawn as a row, with the rows of what is in it below. -/
theorem branch_draw (hc : n.child? name = some c) (h : c.Everywhere Node.Sound) (indent : String)
    (hinside : ∀ indent, Drawing.lines indent (inside a c) =
      (shown a c).map fun e => indent ++ c.row e.1 e.2) :
    Drawing.branch indent (n.isLast name) (draw a name c) =
      (([name], c) :: (shown a c).map fun e => (name :: e.1, e.2)).map fun e =>
        indent ++ n.row e.1 e.2 := by
  have hrows (e : Place × Node) (he : e ∈ shown a c) :
      (indent ++ if n.isLast name then "    " else "│   ") ++ c.row e.1 e.2 =
        indent ++ n.row (name :: e.1) e.2 := by
    obtain ⟨hat, hne, -⟩ := (mem_shown h).mp he
    rw [Node.row_cons hc hne hat, String.append_assoc]
  rw [draw_eq, Drawing.branch, hinside, List.map_congr_left hrows, List.map_cons, List.map_map,
    Node.row_child hc, ← String.append_assoc]
  rfl

/-- The rows of what is in a node are those of the nodes that show. -/
theorem lines_inside (h : n.Everywhere Node.Sound) (indent : String) :
    Drawing.lines indent (inside a n) = (shown a n).map fun e => indent ++ n.row e.1 e.2 := by
  induction n using Node.ind generalizing indent with
  | file b t =>
    have hinside : inside a (.file b t) = [] := by
      simp [inside, Node.children, drawAll, sortByKey]
    rw [hinside]
    rfl
  | dir b cs ih =>
    rw [shown_dir h, inside]
    by_cases hmay : a.may (.dir b cs) .execute = true
    · have hbranch (e : String × Node) (he : e ∈ sortByKey Prod.fst cs) :=
        have hmem := (sortByKey_perm Prod.fst cs).mem_iff.mp he
        have hget : Node.child? (.dir b cs) e.1 = some e.2 := Table.get?_of_mem h.self.nodup hmem
        have hchild := Node.sound_of_mem h hmem
        branch_draw hget hchild indent (ih e.1 e.2 hmem hchild)
      rw [if_pos hmay, if_pos hmay, drawings_eq, lines_drawings (pairwise_sortByKey_lt h.self.nodup),
        List.map_flatMap, ← List.flatMap_congr hbranch]
      simp only [decide_greatest]
      rfl
    · rw [if_neg hmay, if_neg hmay]
      rfl

end FileSystem
end MemShell
