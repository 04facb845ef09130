import MemShell.Proofs.FileSystem.Edits
set_option autoImplicit false

namespace MemShell

/-- Kind, attributes and text of a node, and the names of its children in their order. -/
structure Label where
  isDir : Bool
  attrs : Attributes
  content : String
  names : List String
deriving DecidableEq

namespace Label

def touched (now : Time) (l : Label) : Label := { l with attrs := { l.attrs with mtime := now } }

def withName (now : Time) (name : String) (l : Label) : Label :=
  { l.touched now with names := l.names ++ [name] }

def without (now : Time) (name : String) (l : Label) : Label :=
  { l.touched now with names := l.names.filter fun other => decide (other ≠ name) }

end Label

namespace Node
variable {n : Node} {name : String}

def label (n : Node) : Label := ⟨n.isDir, n.attrs, n.content, Table.keys n.children⟩

theorem label_modify_cons (f : Node → Node) (name : String) (rest : Place) (n : Node) :
    (modify f (name :: rest) n).label = n.label := by
  have hcontent : (modify f (name :: rest) n).content = n.content := by cases n <;> rfl
  rw [label, label, isDir_modify_cons, attrs_modify_cons, keys_modify_cons, hcontent]

theorem label_mapAttrs (f : Attributes → Attributes) (n : Node) :
    (n.mapAttrs f).label = { n.label with attrs := f n.label.attrs } := by cases n <;> rfl

theorem label_touched (now : Time) (n : Node) : (n.touched now).label = n.label.touched now :=
  label_mapAttrs _ n

theorem label_withChild (hdir : n.isDir = true) (hfree : n.child? name = none) (now : Time)
    (c : Node) : (withChild now name c n).label = n.label.withName now name := by
  cases n with
  | file attrs text => cases hdir
  | dir attrs cs =>
    have hnew : name ∉ Table.keys cs := Table.get?_eq_none_iff.mp hfree
    have hkeys : Table.keys (Table.put cs name c) = Table.keys cs ++ [name] := by
      rw [Table.keys_put, if_neg hnew]
    exact congrArg (Label.mk true { attrs with mtime := now } "") hkeys

theorem label_without (now : Time) (name : String) (n : Node) :
    (n.without now name).label = n.label.without now name := by
  cases n with
  | file attrs text => rfl
  | dir attrs cs =>
    exact congrArg (Label.mk true { attrs with mtime := now } "") (Table.keys_erase cs name)

/-- A node that is marked as changed shows that, and the nodes below it show what they showed. -/
theorem label_at?_touched (now : Time) (n : Node) (p : Place) :
    ((n.touched now).at? p).map label =
      ((n.at? p).map label).map fun l => if p = [] then l.touched now else l := by
  cases p with
  | nil => simp [label_touched]
  | cons name rest => simp [at?_cons, child?_congr (children_touched now n)]

end Node

namespace FileSystem
variable {fs : FileSystem} {now : Time} {p q : Place} {name : String} {d n c : Node}

def label? (fs : FileSystem) (p : Place) : Option Label := (fs.at? p).map Node.label

theorem label?_of_at? (hn : fs.at? p = some n) : fs.label? p = some n.label := by
  rw [label?, hn, Option.map_some]

theorem label?_append (hn : fs.at? p = some n) (q : Place) :
    fs.label? (p ++ q) = (n.at? q).map Node.label := by
  rw [label?, at?_append hn]

/-- A change that is seen at one node, and that leaves the children of the node on every other way. -/
theorem label?_modify {f : Node → Node} {g : Label → Label}
    (hself : ∀ m, fs.at? p = some m → (f m).label = g m.label)
    (hbelow : ∀ m name rest, fs.at? p = some m → q = p ++ name :: rest →
      (f m).child? name = m.child? name) :
    (fs.modify p f).label? q = (fs.label? q).map fun l => if q = p then g l else l := by
  by_cases hq : q = p
  · subst hq
    have hmodify : (fs.modify q f).at? q = (fs.at? q).map f := Node.at?_modify_self f q fs.root
    rw [label?, hmodify, label?]
    cases hm : fs.at? q with
    | none => rfl
    | some m => simp [hself m hm]
  · simp only [if_neg hq, Option.map_id']
    refine Node.map_at?_modify Node.label_modify_cons fun m r hm hr => ?_
    cases r with
    | nil => exact absurd (by rw [hr, List.append_nil]) hq
    | cons name rest => rw [Node.at?_cons, Node.at?_cons, hbelow m name rest hm hr]

theorem label?_mapAttrs (fs : FileSystem) (f : Attributes → Attributes) (p q : Place) :
    (fs.modify p (Node.mapAttrs f)).label? q =
      (fs.label? q).map fun l => if q = p then { l with attrs := f l.attrs } else l :=
  label?_modify (fun m _ => Node.label_mapAttrs f m) fun m name _ _ _ =>
    Node.child?_congr (Node.children_mapAttrs f m) name

theorem label?_touch (fs : FileSystem) (now : Time) (p q : Place) :
    (fs.modify p (Node.touched now)).label? q =
      (fs.label? q).map fun l => if q = p then l.touched now else l :=
  label?_mapAttrs fs _ p q

theorem label?_stamp (fs : FileSystem) (now : Time) (p q : Place) :
    (fs.stamp now p).label? q =
      (fs.label? q).map fun l => if q = p ∨ q = p.parent then l.touched now else l := by
  unfold stamp
  dsimp only
  split
  · next hroot =>
    have hp : p = [] := List.isEmpty_iff.mp hroot
    have hparent : p.parent = p := by rw [hp, Place.parent, List.dropLast_nil]
    simp only [hparent, or_self]
    exact label?_touch fs now p q
  · rw [label?_touch, label?_touch, Option.map_map]
    congr 1
    funext l
    rw [Function.comp_apply]
    by_cases hself : q = p
    · simp only [hself, if_true, true_or]
      split <;> rfl
    · simp only [hself, if_false, false_or]

theorem label?_insert (hd : fs.at? p = some d) (hdir : d.isDir = true) (hfree : d.child? name = none)
    (hq : ¬ p ++ [name] <+: q) :
    (fs.insert now p name c).label? q =
      (fs.label? q).map fun l => if q = p then l.withName now name else l := by
  refine label?_modify (fun m hm => ?_) fun m other rest hm hr => ?_
  · rw [hd] at hm
    cases hm
    exact Node.label_withChild hdir hfree now c
  · rw [hd] at hm
    cases hm
    have hne : name ≠ other := by
      rintro rfl
      exact hq ⟨rest, by rw [hr, List.append_assoc, List.singleton_append]⟩
    rw [Node.child?_withChild hdir, if_neg hne]

theorem label?_insert_below (hd : fs.at? p = some d) (hdir : d.isDir = true) (rest : Place) :
    (fs.insert now p name c).label? (p ++ name :: rest) = (c.at? rest).map Node.label :=
  congrArg (Option.map Node.label) (at?_insert hd hdir rest)

theorem label?_detach (hq : ¬ p ++ [name] <+: q) :
    (fs.detach now p name).label? q =
      (fs.label? q).map fun l => if q = p then l.without now name else l := by
  refine label?_modify (fun m _ => Node.label_without now name m) fun m other rest _ hr => ?_
  have hne : name ≠ other := by
    rintro rfl
    exact hq ⟨rest, by rw [hr, List.append_assoc, List.singleton_append]⟩
  rw [Node.child?_without, if_neg hne]

end FileSystem
end MemShell
