import MemShell.FileSystem.Listing
import MemShell.FileSystem.Relocate
import MemShell.Proofs.Parallel
import MemShell.Proofs.Tree.Navigation
set_option autoImplicit false

/-!
# Trees that differ in one text

Twins are two trees that are the same but for the text of one file, which is as long in both and which
the actor neither owns nor may read. What looks at a tree without looking into files, or looks only into
those that the actor may read, finds the same in both.
-/
namespace MemShell

/-- The actor does not own the node and may not read it. -/
structure Actor.Barred (a : Actor) (n : Node) : Prop where
  foreign : a.owns n = false
  unreadable : a.may n .read = false

namespace Node

inductive Twins (a : Actor) (p : Place) (n : Node) : Node → Prop
  | intro {attrs : Attributes} {text : String} (other : String)
      (found : n.at? p = some (.file attrs text)) (barred : a.Barred (.file attrs text))
      (length : other.length = text.length) : Twins a p n (modify (setContent other) p n)

variable {a : Actor} {p q : Place} {n m c c' x y : Node} {name : String}

theorem twins_nil (h : Twins a [] n m) :
    ∃ attrs text other, n = .file attrs text ∧ m = .file attrs other ∧ a.Barred n ∧
      other.length = text.length := by
  cases h with
  | @intro attrs text other found barred length =>
    cases found
    exact ⟨attrs, text, other, rfl, rfl, barred, length⟩

/-- Above the file twins are directories with the same entries but for one, which is a twin again. -/
theorem twins_cons {rest : Place} (h : Twins a (name :: rest) n m) :
    ∃ attrs cs c c', n = .dir attrs cs ∧ m = .dir attrs (Table.update (fun _ => c') cs name) ∧
      Table.get? cs name = some c ∧ Twins a rest c c' := by
  cases h with
  | @intro attrs text other found barred length =>
    rw [at?_cons] at found
    obtain ⟨c, hc, hfound⟩ := Option.bind_eq_some_iff.mp found
    cases n with
    | file fileAttrs fileText => cases hc
    | dir dirAttrs cs =>
      refine ⟨dirAttrs, cs, c, modify (setContent other) rest c, rfl, ?_, hc,
        .intro other hfound barred length⟩
      have hcs : Table.update (modify (setContent other) rest) cs name =
          Table.update (fun _ => modify (setContent other) rest c) cs name :=
        Table.update_congr fun v hv => by
          rw [show Table.get? cs name = some c from hc] at hv
          cases hv
          rfl
      exact congrArg (Node.dir dirAttrs) hcs

theorem twins_dir (attrs : Attributes) {cs : List (String × Node)} {rest : Place}
    (hc : Table.get? cs name = some c) (h : Twins a rest c c') :
    Twins a (name :: rest) (.dir attrs cs) (.dir attrs (Table.update (fun _ => c') cs name)) := by
  cases h with
  | @intro fileAttrs text other found barred length =>
    have hfound : (Node.dir attrs cs).at? (name :: rest) = some (.file fileAttrs text) := by
      rw [at?_cons, show (Node.dir attrs cs).child? name = some c from hc]
      exact found
    have hcs : Table.update (fun _ => modify (setContent other) rest c) cs name =
        Table.update (modify (setContent other) rest) cs name :=
      Table.update_congr fun v hv => by
        rw [hc] at hv
        cases hv
        rfl
    rw [hcs]
    exact .intro other hfound barred length

theorem Twins.user_ne_root (h : Twins a p n m) : a.user ≠ rootUser := by
  cases h with
  | intro other found barred length =>
    intro hroot
    have howns := barred.foreign
    simp [Actor.owns, hroot] at howns

structure SameShape (n m : Node) : Prop where
  attrs : m.attrs = n.attrs
  isDir : m.isDir = n.isDir
  length : m.content.length = n.content.length
  names : Table.keys m.children = Table.keys n.children

theorem Twins.shape (h : Twins a p n m) : SameShape n m := by
  cases p with
  | nil =>
    obtain ⟨_, _, _, rfl, rfl, -, hlength⟩ := twins_nil h
    exact ⟨rfl, rfl, hlength, rfl⟩
  | cons name rest =>
    obtain ⟨_, cs, _, c', rfl, rfl, -, -⟩ := twins_cons h
    exact ⟨rfl, rfl, rfl, Table.keys_update (fun _ => c') cs name⟩

/-- Nodes that stand at one place of twins: the same node, if the place is not above the file, or twins
again. -/
inductive Counterpart (a : Actor) (p q : Place) (x : Node) : Node → Prop
  | same (apart : ¬ q <+: p) : Counterpart a p q x x
  | twins {r : Place} {y : Node} (below : p = q ++ r) (h : Twins a r x y) : Counterpart a p q x y

theorem Counterpart.shape (h : Counterpart a p q x y) : SameShape x y := by
  cases h with
  | same apart => exact ⟨rfl, rfl, rfl, rfl⟩
  | twins below h => exact h.shape

theorem Counterpart.eq_of_readable (h : Counterpart a p q x y) (hfile : x.isDir = false)
    (hread : a.may x .read = true) : y = x := by
  cases h with
  | same apart => rfl
  | @twins r _ below h =>
    cases r with
    | nil =>
      obtain ⟨_, _, _, rfl, rfl, hbarred, -⟩ := twins_nil h
      rw [hbarred.unreadable] at hread
      cases hread
    | cons name rest =>
      obtain ⟨_, _, _, _, rfl, rfl, -, -⟩ := twins_cons h
      cases hfile

theorem Twins.child? (h : Twins a p n m) (name : String) :
    (n.child? name = none ∧ m.child? name = none) ∨
      ∃ c c', n.child? name = some c ∧ m.child? name = some c' ∧ Counterpart a p [name] c c' := by
  cases p with
  | nil =>
    obtain ⟨_, _, _, rfl, rfl, -, -⟩ := twins_nil h
    exact .inl ⟨rfl, rfl⟩
  | cons first rest =>
    obtain ⟨attrs, cs, c, c', rfl, rfl, hc, hbelow⟩ := twins_cons h
    have hm : (Node.dir attrs (Table.update (fun _ => c') cs first)).child? name =
        if first = name then (Table.get? cs name).map fun _ => c' else Table.get? cs name :=
      Table.get?_update (fun _ => c') cs first name
    have hn : (Node.dir attrs cs).child? name = Table.get? cs name := rfl
    rw [hm, hn]
    by_cases hname : first = name
    · subst hname
      rw [if_pos rfl, hc]
      exact .inr ⟨c, c', rfl, rfl, .twins rfl hbelow⟩
    · rw [if_neg hname]
      cases hget : Table.get? cs name with
      | none => exact .inl ⟨rfl, rfl⟩
      | some v =>
        have hapart : ¬ [name] <+: first :: rest :=
          fun hpre => hname (List.cons_prefix_cons.mp hpre).1.symm
        exact .inr ⟨v, v, rfl, rfl, .same hapart⟩

theorem Counterpart.child? (h : Counterpart a p q x y) (name : String) :
    (x.child? name = none ∧ y.child? name = none) ∨
      ∃ c c', x.child? name = some c ∧ y.child? name = some c' ∧ c'.isDir = c.isDir := by
  cases h with
  | same apart =>
    cases hc : x.child? name with
    | none => exact .inl ⟨rfl, rfl⟩
    | some c => exact .inr ⟨c, c, rfl, rfl, rfl⟩
  | twins below h =>
    rcases h.child? name with hnone | ⟨c, c', hc, hc', hcounter⟩
    · exact .inl hnone
    · exact .inr ⟨c, c', hc, hc', hcounter.shape.isDir⟩

theorem Twins.resolve (h : Twins a p n m) (above q : Place) :
    Agree (Counterpart a p q) (n.resolve above q) (m.resolve above q) := by
  induction q generalizing p n m above with
  | nil => exact .ok (.twins rfl h)
  | cons name q ih =>
    rw [Node.resolve, Node.resolve, h.shape.isDir]
    split
    · rcases h.child? name with ⟨hn, hm⟩ | ⟨c, c', hn, hm, hcounter⟩
      · rw [hn, hm]
        exact .error _
      · rw [hn, hm]
        cases hcounter with
        | same apart =>
          refine .self fun v _ => .same fun hpre => apart ?_
          obtain ⟨r, rfl⟩ := hpre
          exact ⟨q ++ r, by simp⟩
        | @twins r _ below hbelow =>
          subst below
          refine (ih hbelow (above ++ [name])).mono fun v w hvw => ?_
          cases hvw with
          | same apart => exact .same fun hpre => apart (List.cons_prefix_cons.mp hpre).2
          | @twins s _ below hs => exact .twins (by rw [below]; rfl) hs
    · exact .error _

theorem Twins.nearest (h : Twins a p n m) (above q : Place) :
    FileSystem.nearest above m q = FileSystem.nearest above n q := by
  induction q generalizing p n m above with
  | nil => rfl
  | cons name q ih =>
    rw [FileSystem.nearest, FileSystem.nearest]
    rcases h.child? name with ⟨hn, hm⟩ | ⟨c, c', hn, hm, hcounter⟩
    · rw [hn, hm]
    · rw [hn, hm]
      cases hcounter with
      | same apart => rfl
      | twins below hbelow =>
        dsimp only
        rw [hbelow.shape.isDir, ih hbelow]

/-- A clone takes the permission to read, so that it comes to nothing where the difference is. -/
theorem Twins.clone (h : Twins a p n m) (above : Place) :
    FileSystem.clone a above m = FileSystem.clone a above n := by
  induction p generalizing n m above with
  | nil =>
    obtain ⟨attrs, text, other, rfl, rfl, hbarred, -⟩ := twins_nil h
    have hread : a.require above (.file attrs text) .read = a.require above (.file attrs other) .read :=
      rfl
    have hdenied : a.require above (.file attrs text) .read =
        .error (.node (.denied (Place.text above))) := by
      rw [Actor.require, hbarred.unreadable, if_neg Bool.false_ne_true]
    rw [FileSystem.clone, FileSystem.clone, ← hread, hdenied]
    rfl
  | cons name rest ih =>
    obtain ⟨attrs, cs, c, c', rfl, rfl, hc, hbelow⟩ := twins_cons h
    have hall : FileSystem.cloneAll a above (Table.update (fun _ => c') cs name) =
        FileSystem.cloneAll a above cs := by
      refine Table.apply_update (fun t => ?_) (fun k v t t' ht => ?_) hc
      · rw [FileSystem.cloneAll, FileSystem.cloneAll, ih hbelow]
      · rw [FileSystem.cloneAll, FileSystem.cloneAll, ht]
    rw [FileSystem.clone, FileSystem.clone, hall]
    rfl

theorem Twins.checkRemovable (h : Twins a p n m) (above : Place) :
    FileSystem.checkRemovable a above m = FileSystem.checkRemovable a above n := by
  induction p generalizing n m above with
  | nil =>
    obtain ⟨_, _, _, rfl, rfl, -, -⟩ := twins_nil h
    rfl
  | cons name rest ih =>
    obtain ⟨attrs, cs, c, c', rfl, rfl, hc, hbelow⟩ := twins_cons h
    have hall : FileSystem.checkAllRemovable a above (Table.update (fun _ => c') cs name) =
        FileSystem.checkAllRemovable a above cs := by
      refine Table.apply_update (fun t => ?_) (fun k v t t' ht => ?_) hc
      · rw [FileSystem.checkAllRemovable, FileSystem.checkAllRemovable, ih hbelow]
      · rw [FileSystem.checkAllRemovable, FileSystem.checkAllRemovable, ht]
    rw [FileSystem.checkRemovable, FileSystem.checkRemovable, hall]
    rfl

theorem draw_congr (h : SameShape x y)
    (hall : FileSystem.drawAll a y.children = FileSystem.drawAll a x.children) (name : String) :
    FileSystem.draw a name y = FileSystem.draw a name x := by
  cases x with
  | file attrs text =>
    cases y with
    | file _ _ => rfl
    | dir _ _ => cases h.isDir
  | dir attrs cs =>
    cases y with
    | file _ _ => cases h.isDir
    | dir attrs' cs' =>
      have hmay : a.may (.dir attrs' cs') .execute = a.may (.dir attrs cs) .execute := by
        rw [Actor.may, Actor.may, h.attrs]
      rw [FileSystem.draw, FileSystem.draw, hmay, show FileSystem.drawAll a cs' = _ from hall]
      rfl

theorem Twins.drawAll (h : Twins a p n m) :
    FileSystem.drawAll a m.children = FileSystem.drawAll a n.children := by
  induction p generalizing n m with
  | nil =>
    obtain ⟨_, _, _, rfl, rfl, -, -⟩ := twins_nil h
    rfl
  | cons first rest ih =>
    obtain ⟨attrs, cs, c, c', rfl, rfl, hc, hbelow⟩ := twins_cons h
    refine Table.apply_update (fun t => ?_) (fun k v t t' ht => ?_) hc
    · rw [FileSystem.drawAll, FileSystem.drawAll,
        draw_congr hbelow.shape (ih hbelow) first]
    · rw [FileSystem.drawAll, FileSystem.drawAll, ht]

/-- What is done alike to both keeps them twins, if it does so at the place where it is done. -/
theorem Twins.modify {g : Node → Node} (h : Twins a p n m)
    (hg : ∀ r x y, p = q ++ r → n.at? q = some x → Twins a r x y → Twins a r (g x) (g y)) :
    Twins a p (modify g q n) (modify g q m) := by
  induction q generalizing p n m with
  | nil => exact hg p n m rfl rfl h
  | cons first q ih =>
    cases p with
    | nil =>
      -- There is nothing below a file.
      obtain ⟨_, _, _, rfl, rfl, -, -⟩ := twins_nil h
      exact h
    | cons name rest =>
      obtain ⟨attrs, cs, c, c', rfl, rfl, hc, hbelow⟩ := twins_cons h
      by_cases hname : first = name
      · subst hname
        have hchild : Table.get? (Table.update (Node.modify g q) cs first) first =
            some (Node.modify g q c) := by
          rw [Table.get?_update, if_pos rfl, hc, Option.map_some]
        have hinner : Twins a rest (Node.modify g q c) (Node.modify g q c') := by
          refine ih hbelow fun r x y hp hx hxy => hg r x y (by rw [hp]; rfl) ?_ hxy
          rw [at?_cons, show (Node.dir attrs cs).child? first = some c from hc]
          exact hx
        have hmade := twins_dir attrs hchild hinner
        rw [Table.update_update] at hmade
        rw [modify_cons, modify_cons, mapChildren, mapChildren, Table.update_update]
        exact hmade
      · have hchild : Table.get? (Table.update (Node.modify g q) cs first) name = some c := by
          rw [Table.get?_update, if_neg hname, hc]
        have hmade := twins_dir attrs hchild hbelow
        rw [Table.update_comm _ _ hname] at hmade
        exact hmade

/-- What is the same after a change at a place above the file makes the trees equal. -/
theorem Twins.modify_eq {r : Place} {g : Node → Node} (h : Twins a (q ++ r) n m)
    (hg : ∀ x y, n.at? q = some x → Twins a r x y → g y = g x) :
    Node.modify g q m = Node.modify g q n := by
  cases h with
  | @intro attrs text other found barred length =>
    rw [modify_append, modify_modify]
    refine modify_congr fun x hx => hg x _ hx ?_
    rw [at?_append, hx] at found
    exact .intro other found barred length

theorem twins_modify {r : Place} {g g' : Node → Node} (hx : n.at? q = some x)
    (h : Twins a r (g x) (g' x)) : Twins a (q ++ r) (Node.modify g q n) (Node.modify g' q n) := by
  generalize hy : g' x = y at h
  cases h with
  | @intro attrs text other found barred length =>
    have hmade : Node.modify g' q n =
        Node.modify (Node.setContent other) (q ++ r) (Node.modify g q n) := by
      rw [modify_append, modify_modify]
      refine modify_congr fun z hz => ?_
      rw [hx] at hz
      cases hz
      exact hy
    have hfound : (Node.modify g q n).at? (q ++ r) = some (.file attrs text) := by
      rw [at?_modify_append, hx]
      exact found
    rw [hmade]
    exact .intro other hfound barred length

theorem Twins.mapAttrs (h : Twins a p n m) (hp : p ≠ []) (f : Attributes → Attributes) :
    Twins a p (n.mapAttrs f) (m.mapAttrs f) := by
  cases p with
  | nil => exact absurd rfl hp
  | cons name rest =>
    obtain ⟨attrs, cs, c, c', rfl, rfl, hc, hbelow⟩ := twins_cons h
    exact twins_dir _ hc hbelow

theorem Twins.touched (h : Twins a p n m) (now : Time) : Twins a p (n.touched now) (m.touched now) := by
  cases p with
  | nil =>
    obtain ⟨attrs, text, other, rfl, rfl, hbarred, hlength⟩ := twins_nil h
    exact .intro other rfl ⟨hbarred.foreign, hbarred.unreadable⟩ hlength
  | cons name rest => exact h.mapAttrs (List.cons_ne_nil name rest) _

theorem Twins.setContent {text other : String} (h : Twins a p n m)
    (hlength : other.length = text.length) :
    Twins a p (Node.modify (Node.setContent text) p n)
      (Node.modify (Node.setContent other) p m) := by
  cases h with
  | @intro attrs old text' found barred length =>
    have hfile : Twins a [] (Node.setContent text (.file attrs old))
        (Node.setContent other (.file attrs old)) :=
      .intro other rfl ⟨barred.foreign, barred.unreadable⟩ hlength
    have hmade := twins_modify found hfile
    have hsame : Node.setContent other ∘ Node.setContent text' = Node.setContent other := by
      funext x
      cases x <;> rfl
    rw [modify_modify, hsame]
    rw [List.append_nil] at hmade
    exact hmade

theorem Twins.withChild (h : Twins a p n m) (hfree : n.child? name = none) (now : Time) (c : Node) :
    Twins a p (withChild now name c n) (withChild now name c m) := by
  cases p with
  | nil =>
    obtain ⟨_, _, _, rfl, rfl, -, -⟩ := twins_nil h
    exact h.touched now
  | cons first rest =>
    obtain ⟨attrs, cs, v, v', rfl, rfl, hv, hbelow⟩ := twins_cons h
    have hne : first ≠ name := by
      rintro rfl
      rw [Node.child?, Node.children, hv] at hfree
      cases hfree
    have hput : Table.get? (Table.put cs name c) first = some v := by
      rw [Table.get?_put, if_neg (Ne.symm hne), hv]
    have hmade := twins_dir { attrs with mtime := now } hput hbelow
    rw [← Table.put_update_of_ne _ hne] at hmade
    exact hmade

theorem Twins.without (h : Twins a p n m) (hname : ¬ [name] <+: p) (now : Time) :
    Twins a p (n.without now name) (m.without now name) := by
  cases p with
  | nil =>
    obtain ⟨_, _, _, rfl, rfl, -, -⟩ := twins_nil h
    exact h.touched now
  | cons first rest =>
    obtain ⟨attrs, cs, v, v', rfl, rfl, hv, hbelow⟩ := twins_cons h
    have hne : first ≠ name := fun heq => hname ⟨rest, by rw [heq]; rfl⟩
    have herase : Table.get? (Table.erase cs name) first = some v := by
      rw [Table.get?_erase, if_neg (Ne.symm hne), hv]
    have hmade := twins_dir { attrs with mtime := now } herase hbelow
    rw [← Table.erase_update_of_ne _ hne] at hmade
    exact hmade

/-- With the child on the way to the file the difference is gone. -/
theorem Twins.without_eq {rest : Place} (h : Twins a (name :: rest) n m) (now : Time) :
    m.without now name = n.without now name := by
  obtain ⟨attrs, cs, c, c', rfl, rfl, -, -⟩ := twins_cons h
  have hcs := Table.erase_update_self (fun _ => c') cs name
  exact congrArg (Node.dir { attrs with mtime := now }) hcs

/-- Twins that come into one directory make twins of it. -/
theorem twins_withChild {d : Node} (h : Twins a p c c') (hdir : d.isDir = true) (now : Time)
    (name : String) : Twins a (name :: p) (withChild now name c d) (withChild now name c' d) := by
  cases d with
  | file attrs text => cases hdir
  | dir attrs cs =>
    have hput : Table.get? (Table.put cs name c) name = some c := by
      rw [Table.get?_put, if_pos rfl]
    have hmade := twins_dir { attrs with mtime := now } hput h
    rw [Table.update_put] at hmade
    exact hmade

end Node
end MemShell
