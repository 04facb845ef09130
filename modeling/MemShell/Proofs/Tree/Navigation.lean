import MemShell.Node
set_option autoImplicit false

namespace MemShell.Node

@[simp] theorem attrs_mapChildren (f : List (String × Node) → List (String × Node)) (n : Node) :
    (n.mapChildren f).attrs = n.attrs := by cases n <;> rfl

@[simp] theorem isDir_mapChildren (f : List (String × Node) → List (String × Node)) (n : Node) :
    (n.mapChildren f).isDir = n.isDir := by cases n <;> rfl

@[simp] theorem children_mapAttrs (f : Attributes → Attributes) (n : Node) :
    (n.mapAttrs f).children = n.children := by cases n <;> rfl

@[simp] theorem isDir_mapAttrs (f : Attributes → Attributes) (n : Node) :
    (n.mapAttrs f).isDir = n.isDir := by cases n <;> rfl

@[simp] theorem attrs_mapAttrs (f : Attributes → Attributes) (n : Node) :
    (n.mapAttrs f).attrs = f n.attrs := by cases n <;> rfl

@[simp] theorem children_setContent (text : String) (n : Node) :
    (n.setContent text).children = n.children := by cases n <;> rfl

@[simp] theorem isDir_setContent (text : String) (n : Node) :
    (n.setContent text).isDir = n.isDir := by cases n <;> rfl

@[simp] theorem attrs_setContent (text : String) (n : Node) :
    (n.setContent text).attrs = n.attrs := by cases n <;> rfl

@[simp] theorem children_touched (now : Time) (n : Node) :
    (n.touched now).children = n.children := children_mapAttrs _ n

@[simp] theorem isDir_touched (now : Time) (n : Node) : (n.touched now).isDir = n.isDir :=
  isDir_mapAttrs _ n

theorem children_mapChildren {n : Node} (h : n.isDir = true)
    (f : List (String × Node) → List (String × Node)) :
    (n.mapChildren f).children = f n.children := by
  cases n with
  | file a c => simp [isDir] at h
  | dir a cs => rfl

theorem children_mapChildren_update (f : Node → Node) (n : Node) (name : String) :
    (n.mapChildren fun cs => Table.update f cs name).children = Table.update f n.children name := by
  cases n <;> rfl

@[simp] theorem isDir_withChild (now : Time) (name : String) (c n : Node) :
    (withChild now name c n).isDir = n.isDir := by
  rw [withChild, isDir_touched, isDir_mapChildren]

@[simp] theorem isDir_without (now : Time) (name : String) (n : Node) :
    (n.without now name).isDir = n.isDir := by
  rw [without, isDir_touched, isDir_mapChildren]

theorem children_withChild {n : Node} (h : n.isDir = true) (now : Time) (name : String) (c : Node) :
    (withChild now name c n).children = Table.put n.children name c := by
  rw [withChild, children_touched, children_mapChildren h]

theorem children_without (now : Time) (name : String) (n : Node) :
    (n.without now name).children = Table.erase n.children name := by cases n <;> rfl

theorem child?_withChild {n : Node} (h : n.isDir = true) (now : Time) (name other : String)
    (c : Node) :
    (withChild now name c n).child? other = if name = other then some c else n.child? other := by
  rw [child?, children_withChild h, Table.get?_put, child?]

theorem child?_without (now : Time) (name other : String) (n : Node) :
    (n.without now name).child? other = if name = other then none else n.child? other := by
  rw [child?, children_without, Table.get?_erase, child?]

theorem isDir_of_child? {n c : Node} {name : String} (h : n.child? name = some c) :
    n.isDir = true := by
  cases n with
  | file a t => simp [child?, children, Table.get?] at h
  | dir a cs => rfl

theorem child?_congr {n m : Node} (h : n.children = m.children) (name : String) :
    n.child? name = m.child? name := by rw [child?, h, child?]

theorem at?_cons (n : Node) (name : String) (rest : Place) :
    n.at? (name :: rest) = (n.child? name).bind (·.at? rest) := by
  rw [at?]
  cases n.child? name <;> rfl

theorem at?_singleton (n : Node) (name : String) : n.at? [name] = n.child? name := by
  rw [at?_cons]
  cases n.child? name <;> rfl

theorem at?_snoc {n d : Node} {p : Place} (h : n.at? p = some d) (name : String) :
    n.at? (p ++ [name]) = d.child? name := by
  rw [at?_append, h, Option.bind_some, at?_singleton]

theorem at?_left_of_append {n m : Node} {p q : Place} (h : n.at? (p ++ q) = some m) :
    ∃ d, n.at? p = some d ∧ d.at? q = some m := by
  rw [at?_append] at h
  exact Option.bind_eq_some_iff.mp h

theorem isDir_of_at?_append {n m d : Node} {p q : Place} (h : n.at? (p ++ q) = some m)
    (hd : n.at? p = some d) (hq : q ≠ []) : d.isDir = true := by
  rw [at?_append, hd, Option.bind_some] at h
  cases q with
  | nil => exact absurd rfl hq
  | cons name rest =>
    rw [at?_cons] at h
    obtain ⟨c, hc, -⟩ := Option.bind_eq_some_iff.mp h
    exact isDir_of_child? hc

theorem resolve_append {n d : Node} {p : Place} (hd : n.at? p = some d) (above q : Place) :
    n.resolve above (p ++ q) = d.resolve (above ++ p) q := by
  induction p generalizing above n with
  | nil =>
    obtain rfl : n = d := Option.some.inj hd
    rw [List.nil_append, List.append_nil]
  | cons name rest ih =>
    rw [at?_cons] at hd
    obtain ⟨c, hc, hd⟩ := Option.bind_eq_some_iff.mp hd
    rw [List.cons_append, resolve, if_pos (isDir_of_child? hc), hc]
    dsimp only
    rw [ih hd, List.append_assoc, List.singleton_append]

theorem modify_cons (f : Node → Node) (name : String) (rest : Place) (n : Node) :
    modify f (name :: rest) n = n.mapChildren fun cs => Table.update (modify f rest) cs name := rfl

@[simp] theorem attrs_modify_cons (f : Node → Node) (name : String) (rest : Place) (n : Node) :
    (modify f (name :: rest) n).attrs = n.attrs := attrs_mapChildren _ n

@[simp] theorem isDir_modify_cons (f : Node → Node) (name : String) (rest : Place) (n : Node) :
    (modify f (name :: rest) n).isDir = n.isDir := isDir_mapChildren _ n

@[simp] theorem keys_modify_cons (f : Node → Node) (name : String) (rest : Place) (n : Node) :
    Table.keys (modify f (name :: rest) n).children = Table.keys n.children := by
  rw [modify_cons, children_mapChildren_update, Table.keys_update]

theorem isDir_modify {f : Node → Node} (hf : ∀ m, (f m).isDir = m.isDir) (p : Place) (n : Node) :
    (modify f p n).isDir = n.isDir := by
  cases p with
  | nil => exact hf n
  | cons name rest => exact isDir_modify_cons f name rest n

theorem child?_modify_cons (f : Node → Node) (name : String) (rest : Place) (n : Node)
    (other : String) :
    (modify f (name :: rest) n).child? other =
      if name = other then (n.child? other).map (modify f rest) else n.child? other := by
  rw [child?, modify_cons, children_mapChildren_update, Table.get?_update]
  rfl

theorem modify_append (f : Node → Node) (p q : Place) (n : Node) :
    modify f (p ++ q) n = modify (modify f q) p n := by
  induction p generalizing n with
  | nil => rfl
  | cons name rest ih =>
    rw [List.cons_append, modify_cons, modify_cons]
    congr 1
    funext cs
    congr 1
    funext m
    exact ih m

theorem modify_modify (f g : Node → Node) (p : Place) (n : Node) :
    modify f p (modify g p n) = modify (f ∘ g) p n := by
  induction p generalizing n with
  | nil => rfl
  | cons name rest ih =>
    cases n with
    | file a c => rfl
    | dir a cs =>
      simp only [modify_cons, mapChildren, Table.update_update]
      congr 2
      funext m
      exact ih m

theorem modify_congr {f g : Node → Node} {p : Place} {n : Node}
    (h : ∀ m, n.at? p = some m → f m = g m) : modify f p n = modify g p n := by
  induction p generalizing n with
  | nil => exact h n rfl
  | cons name rest ih =>
    cases n with
    | file a t => rfl
    | dir a cs =>
      have hcs : Table.update (modify f rest) cs name = Table.update (modify g rest) cs name := by
        refine Table.update_congr fun c hc => ih fun m hm => h m ?_
        rw [at?_cons, show (dir a cs).child? name = some c from hc]
        exact hm
      exact congrArg (dir a) hcs

/-- At and below the place stands the changed node. -/
theorem at?_modify_append (f : Node → Node) (p q : Place) (n : Node) :
    (modify f p n).at? (p ++ q) = (n.at? p).bind fun m => (f m).at? q := by
  induction p generalizing n with
  | nil => rfl
  | cons name rest ih =>
    rw [List.cons_append, at?_cons, child?_modify_cons, if_pos rfl, at?_cons]
    cases n.child? name with
    | none => rfl
    | some c => exact ih c

theorem at?_modify_self (f : Node → Node) (p : Place) (n : Node) :
    (modify f p n).at? p = (n.at? p).map f := by
  have h := at?_modify_append f p [] n
  rw [List.append_nil] at h
  rw [h]
  cases n.at? p <;> rfl

/-- Above the place the node holds the change inside. -/
theorem at?_modify_above (f : Node → Node) (p q : Place) (n : Node) :
    (modify f (p ++ q) n).at? p = (n.at? p).map (modify f q) := by
  rw [modify_append, at?_modify_self]

/-- Where neither place is above the other, nothing changes. -/
theorem at?_modify_apart (f : Node → Node) {p q : Place} (hpq : ¬ p <+: q) (hqp : ¬ q <+: p)
    (n : Node) : (modify f p n).at? q = n.at? q := by
  induction p generalizing n q with
  | nil => exact absurd List.nil_prefix hpq
  | cons name rest ih =>
    cases q with
    | nil => exact absurd List.nil_prefix hqp
    | cons other more =>
      rw [at?_cons, child?_modify_cons, at?_cons]
      by_cases hname : name = other
      · subst hname
        rw [if_pos rfl]
        cases n.child? name with
        | none => rfl
        | some c =>
          exact ih (fun h => hpq (List.cons_prefix_cons.mpr ⟨rfl, h⟩))
            (fun h => hqp (List.cons_prefix_cons.mpr ⟨rfl, h⟩)) c
      · rw [if_neg hname]

section
variable {β : Type} {look : Node → β} {f : Node → Node} {n m c : Node} {p q : Place} {name : String}

/-- A change is seen at another place only if that place is below the changed one and the change is
seen there. -/
theorem map_at?_modify (hlook : ∀ g name rest m, look (modify g (name :: rest) m) = look m)
    (h : ∀ m r, n.at? p = some m → q = p ++ r → ((f m).at? r).map look = (m.at? r).map look) :
    ((modify f p n).at? q).map look = (n.at? q).map look := by
  by_cases hpq : p <+: q
  · obtain ⟨r, rfl⟩ := hpq
    rw [at?_modify_append, at?_append]
    cases hm : n.at? p with
    | none => rfl
    | some m => exact h m r hm rfl
  · by_cases hqp : q <+: p
    · obtain ⟨r, rfl⟩ := hqp
      rw [at?_modify_above]
      cases r with
      | nil => exact absurd (by simp) hpq
      | cons name rest => cases n.at? q <;> simp [hlook]
    · rw [at?_modify_apart f hpq hqp]

theorem map_at?_congr (hself : look n = look m) (h : n.children = m.children) (q : Place) :
    (n.at? q).map look = (m.at? q).map look := by
  cases q with
  | nil => rw [at?_nil, at?_nil, Option.map_some, Option.map_some, hself]
  | cons name rest => rw [at?_cons, at?_cons, child?_congr h]

theorem map_at?_withChild {now : Time} (hself : look (withChild now name c n) = look n)
    (hq : ¬ [name] <+: q) :
    ((withChild now name c n).at? q).map look = (n.at? q).map look := by
  cases q with
  | nil => rw [at?_nil, at?_nil, Option.map_some, Option.map_some, hself]
  | cons other rest =>
    have hne : name ≠ other := fun h => hq (List.cons_prefix_cons.mpr ⟨h, List.nil_prefix⟩)
    cases n with
    | file a text => rfl
    | dir a cs => rw [at?_cons, at?_cons, child?_withChild rfl, if_neg hne]

end

def kind? (n : Node) (p : Place) : Option Bool := (n.at? p).map isDir

theorem kind?_eq_some_iff {n : Node} {p : Place} {b : Bool} :
    n.kind? p = some b ↔ ∃ m, n.at? p = some m ∧ m.isDir = b := Option.map_eq_some_iff

theorem kind?_eq_none_iff {n : Node} {p : Place} : n.kind? p = none ↔ n.at? p = none :=
  Option.map_eq_none_iff

@[simp] theorem kind?_nil (n : Node) : n.kind? [] = some n.isDir := rfl

theorem kind?_cons (n : Node) (name : String) (rest : Place) :
    n.kind? (name :: rest) = (n.child? name).bind (·.kind? rest) := by
  rw [kind?, at?_cons]
  cases n.child? name <;> rfl

theorem kind?_append (n : Node) (p q : Place) : n.kind? (p ++ q) = (n.at? p).bind (·.kind? q) := by
  rw [kind?, at?_append]
  cases n.at? p <;> rfl

theorem kind?_congr {n m : Node} (hdir : n.isDir = m.isDir) (h : n.children = m.children)
    (p : Place) : n.kind? p = m.kind? p := map_at?_congr hdir h p

theorem kind?_modify {f : Node → Node} {p q : Place} {n : Node}
    (h : ∀ m r, n.at? p = some m → q = p ++ r → (f m).kind? r = m.kind? r) :
    (modify f p n).kind? q = n.kind? q := map_at?_modify isDir_modify_cons h

theorem kind?_modify_of_children {f : Node → Node} (hdir : ∀ m, (f m).isDir = m.isDir)
    (hf : ∀ m, (f m).children = m.children) (p q : Place) (n : Node) :
    (modify f p n).kind? q = n.kind? q :=
  kind?_modify fun m r _ _ => kind?_congr (hdir m) (hf m) r

theorem kind?_withChild {n c : Node} {name : String} {q : Place} (now : Time)
    (hq : ¬ [name] <+: q) : (withChild now name c n).kind? q = n.kind? q :=
  map_at?_withChild (isDir_withChild now name c n) hq

theorem kind?_without {n : Node} {name : String} {q : Place} (now : Time) (hq : ¬ [name] <+: q) :
    (without now name n).kind? q = n.kind? q := by
  cases q with
  | nil => simp
  | cons other rest =>
    have hne : name ≠ other := fun h => hq (List.cons_prefix_cons.mpr ⟨h, List.nil_prefix⟩)
    rw [kind?_cons, kind?_cons, child?_without, if_neg hne]

def Everywhere (P : Node → Prop) (n : Node) : Prop := ∀ p m, n.at? p = some m → P m

variable {P : Node → Prop}

theorem Everywhere.self {n : Node} (h : n.Everywhere P) : P n := h [] n rfl

theorem Everywhere.below {n m : Node} {p : Place} (h : n.Everywhere P) (hm : n.at? p = some m) :
    m.Everywhere P := by
  intro q x hx
  refine h (p ++ q) x ?_
  rw [at?_append, hm]
  exact hx

theorem everywhere_iff (n : Node) :
    n.Everywhere P ↔ P n ∧ ∀ name c, n.child? name = some c → c.Everywhere P := by
  constructor
  · intro h
    refine ⟨h.self, fun name c hc => h.below (p := [name]) ?_⟩
    rw [at?_singleton, hc]
  · rintro ⟨hn, hcs⟩ p m hm
    cases p with
    | nil => exact Option.some.inj hm ▸ hn
    | cons name rest =>
      rw [at?_cons] at hm
      obtain ⟨c, hc, hm⟩ := Option.bind_eq_some_iff.mp hm
      exact hcs name c hc rest m hm

theorem everywhere_of_no_children {n : Node} (hn : P n) (hchildren : n.children = []) :
    n.Everywhere P := by
  refine (everywhere_iff n).mpr ⟨hn, fun name c hc => ?_⟩
  rw [child?, hchildren] at hc
  cases hc

theorem Everywhere.of_children {n m : Node} (h : n.Everywhere P) (hm : P m)
    (hchildren : m.children = n.children) : m.Everywhere P := by
  refine (everywhere_iff m).mpr ⟨hm, fun name c hc => ?_⟩
  rw [child?_congr hchildren] at hc
  exact ((everywhere_iff n).mp h).2 name c hc

/-- A change inside a tree keeps a property of all its nodes if the changed node has it throughout and
a change further down does not touch it. -/
theorem Everywhere.modify {f : Node → Node} {n : Node} {p : Place} (h : n.Everywhere P)
    (hf : ∀ m, n.at? p = some m → (f m).Everywhere P)
    (hP : ∀ m g name rest, P m → P (Node.modify g (name :: rest) m)) :
    (Node.modify f p n).Everywhere P := by
  intro q x hx
  by_cases hpq : p <+: q
  · obtain ⟨r, rfl⟩ := hpq
    rw [at?_modify_append] at hx
    obtain ⟨m, hm, hx⟩ := Option.bind_eq_some_iff.mp hx
    exact hf m hm r x hx
  · by_cases hqp : q <+: p
    · obtain ⟨r, rfl⟩ := hqp
      rw [at?_modify_above] at hx
      obtain ⟨m, hm, rfl⟩ := Option.map_eq_some_iff.mp hx
      cases r with
      | nil => exact absurd (by simp) hpq
      | cons name rest => exact hP m f name rest (h q m hm)
    · rw [at?_modify_apart f hpq hqp] at hx
      exact h q x hx

end MemShell.Node
