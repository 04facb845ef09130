import MemShell.Proofs.FileSystem.Changes
import MemShell.Proofs.Tree.Paths
set_option autoImplicit false

namespace MemShell

namespace Node
variable {n : Node}

def text? : Node → Option String
  | .file _ text => some text
  | .dir .. => none

@[simp] theorem text?_modify_cons (f : Node → Node) (name : String) (rest : Place) (n : Node) :
    (modify f (name :: rest) n).text? = n.text? := by cases n <;> rfl

@[simp] theorem text?_mapAttrs (f : Attributes → Attributes) (n : Node) :
    (n.mapAttrs f).text? = n.text? := by cases n <;> rfl

@[simp] theorem text?_withChild (now : Time) (name : String) (c n : Node) :
    (withChild now name c n).text? = n.text? := by cases n <;> rfl

theorem eq_file_of_text? {x : String} (h : n.text? = some x) : ∃ attrs, n = .file attrs x := by
  cases n with
  | file attrs text =>
    cases h
    exact ⟨attrs, rfl⟩
  | dir attrs cs => cases h

end Node

namespace FileSystem
variable {fs fs' : FileSystem} {a : Actor} {now : Time} {p q above : Place} {name x text : String}
  {d c : Node}

def text? (fs : FileSystem) (p : Place) : Option String := (fs.at? p).bind Node.text?

theorem text?_eq_some_iff : fs.text? p = some x ↔ ∃ attrs, fs.at? p = some (.file attrs x) := by
  constructor
  · intro h
    obtain ⟨n, hn, hx⟩ := Option.bind_eq_some_iff.mp h
    obtain ⟨attrs, rfl⟩ := Node.eq_file_of_text? hx
    exact ⟨attrs, hn⟩
  · rintro ⟨attrs, hn⟩
    rw [text?, hn]
    rfl

theorem text?_congr (h : (fs'.at? p).map Node.text? = (fs.at? p).map Node.text?) :
    fs'.text? p = fs.text? p := by
  unfold text?
  cases hn : fs.at? p <;> cases hn' : fs'.at? p <;> simp_all

/-- A file with a text is not the root of a tree whose root is a directory. -/
theorem ne_nil_of_text? (hroot : fs.root.isDir = true) (hx : fs.text? p = some x) : p ≠ [] := by
  rintro rfl
  obtain ⟨attrs, hn⟩ := text?_eq_some_iff.mp hx
  have hfile : fs.root = .file attrs x := Option.some.inj hn
  rw [hfile] at hroot
  cases hroot

theorem root_isDir_of_text? (hp : p ≠ []) (hx : fs.text? p = some x) : fs.root.isDir = true := by
  obtain ⟨attrs, hn⟩ := text?_eq_some_iff.mp hx
  exact Node.isDir_of_at?_append (p := []) hn rfl hp

theorem text?_modify {f : Node → Node}
    (h : ∀ m r, fs.at? q = some m → p = q ++ r →
      ((f m).at? r).map Node.text? = (m.at? r).map Node.text?) :
    (fs.modify q f).text? p = fs.text? p :=
  text?_congr (Node.map_at?_modify Node.text?_modify_cons h)

theorem text?_mapAttrs (f : Attributes → Attributes) (q : Place) :
    (fs.modify q (Node.mapAttrs f)).text? p = fs.text? p :=
  text?_modify fun m r _ _ =>
    Node.map_at?_congr (Node.text?_mapAttrs f m) (Node.children_mapAttrs f m) r

theorem text?_stamp (q : Place) : (fs.stamp now q).text? p = fs.text? p := by
  have htouch (fs : FileSystem) (q : Place) :
      (fs.modify q (Node.touched now)).text? p = fs.text? p := text?_mapAttrs _ q
  unfold stamp
  dsimp only
  split
  · exact htouch fs q
  · rw [htouch, htouch]

theorem text?_insert (site : Site a fs above name d) (hx : fs.text? p = some x) :
    (fs.insert now above name c).text? p = some x := by
  rw [← hx]
  refine text?_modify fun m r _ hr => ?_
  obtain ⟨attrs, hn⟩ := text?_eq_some_iff.mp hx
  have hnot : ¬ above ++ [name] <+: p := not_below_free site.found site.free hn
  rw [hr] at hnot
  have hchild : ¬ [name] <+: r := not_singleton_prefix hnot
  exact Node.map_at?_withChild (Node.text?_withChild now name c m) hchild

theorem text?_setContent (hne : q ≠ p) :
    (fs.modify q (Node.setContent text)).text? p = fs.text? p := by
  refine text?_modify fun m r _ hr => ?_
  cases r with
  | nil => exact absurd (by rw [hr, List.append_nil]) hne
  | cons name rest =>
    rw [Node.at?_cons, Node.at?_cons, Node.child?_congr (Node.children_setContent text m)]

theorem text?_setContent_self (hx : fs.text? p = some x) :
    (fs.modify p (Node.setContent text)).text? p = some text := by
  obtain ⟨attrs, hn⟩ := text?_eq_some_iff.mp hx
  refine text?_eq_some_iff.mpr ⟨attrs, ?_⟩
  change (Node.modify _ p fs.root).at? p = _
  rw [Node.at?_modify_self, show fs.root.at? p = _ from hn]
  rfl

theorem Mild.text? (h : Mild a fs fs') (hx : fs.text? p = some x) : fs'.text? p = some x := by
  cases h with
  | same => exact hx
  | entered found isDir allowed => exact hx
  | made graft new =>
    cases graft with
    | intro site valid => exact text?_insert site hx
  | stamped found allowed => rw [text?_stamp, hx]
  | assigned found allowed => rw [setAttrs, text?_stamp, text?_mapAttrs, hx]

theorem text?_run_of_gentle {α : Type} {u : Update α} (h : Gentle a fs u)
    (hx : fs.text? p = some x) : (u.run fs).2.text? p = some x := by
  have hends : u.Ends fs (fun fs' => fs'.text? p = some x) fun _ fs' => fs'.text? p = some x := by
    unfold Gentle Work.Ends at h
    unfold Work.Ends
    split at h
    · exact h.text? hx
    · rw [h]
      exact hx
  exact hends.state

/-- What a write leaves at a place: the old text, unless it leads there. -/
theorem ends_writeText (hroot : fs.root.isDir = true) (hx : fs.text? p = some x) (path text : String)
    (append parents : Bool) :
    (writeText a path text append parents).Ends fs (· = fs) fun _ fs' => fs'.text? p =
      some (if fs.place path = p then if append then x ++ text else text else x) := by
  obtain ⟨attrs, hp⟩ := text?_eq_some_iff.mp hx
  refine (ends_write hroot path text append parents).mono fun _ fs' h => ?_
  cases h.2 with
  | new graft =>
    have hne : fs.place path ≠ p := by
      rintro rfl
      rw [graft.at?_eq_none] at hp
      cases hp
    rw [if_neg hne]
    exact (Mild.made graft (.file text)).text? hx
  | @onto attrs' old found _ =>
    rw [text?_stamp]
    by_cases heq : fs.place path = p
    · rw [heq, hp] at found
      cases found
      rw [heq, text?_setContent_self hx, if_pos rfl]
    · rw [text?_setContent heq, hx, if_neg heq]

theorem place_text_place (fs fs' : FileSystem) (path : String) :
    fs'.place (Place.text (fs.place path)) = fs.place path :=
  Place.ofPath_text (Place.plain_ofPath fs.cwd path) fs'.cwd

end FileSystem
end MemShell
