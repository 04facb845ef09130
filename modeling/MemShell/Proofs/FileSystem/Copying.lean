import MemShell.Proofs.FileSystem.Labels
import MemShell.Proofs.FileSystem.Owners
set_option autoImplicit false

namespace MemShell

def Label.ownedBy (a : Actor) (l : Label) : Label := { l with attrs := a.attributes l.attrs.mode }

namespace FileSystem
variable {fs fs' : FileSystem} {a : Actor} {above src dst p target : Place} {name : String}
  {n m m' c e : Node}

structure Overwritten (a : Actor) (fs : FileSystem) (src dst : Place) (fs' : FileSystem) : Prop where
  source : fs.kind? src = some false
  taken : fs.kind? dst = some false
  readable : ∀ n, fs.at? src = some n → a.may n .read = true
  text : ∀ n m, fs.at? src = some n → fs.at? dst = some m →
    fs'.label? dst = some { m.label.touched a.now with content := n.content }
  /-- Of the other nodes the directory of the file is marked as changed. -/
  beside : ∀ q, q ≠ dst → fs'.label? q =
    (fs.label? q).map fun l => if q = dst.parent then l.touched a.now else l
  cwd : fs'.cwd = fs.cwd

structure Duplicated (a : Actor) (fs : FileSystem) (src dst : Place) (fs' : FileSystem) : Prop where
  source : (fs.at? src).isSome
  free : fs.at? dst = none
  outside : fs.kind? src = some true → ¬ src <+: dst
  readable : ∀ x n, fs.at? (src ++ x) = some n → a.may n .read = true
  made : ∀ x, fs'.label? (dst ++ x) = (fs.label? (src ++ x)).map (Label.ownedBy a)
  /-- Of the other nodes the new directory changes, in its list of names. -/
  beside : ∀ q, ¬ dst <+: q → fs'.label? q =
    (fs.label? q).map fun l => if q = dst.parent then l.withName a.now dst.name else l
  cwd : fs'.cwd = fs.cwd

theorem label_of_cloned (h : Cloned a m m') : m'.label = m.label.ownedBy a := by
  rw [Node.label, h.isDir, h.attrs, h.content, h.names]
  rfl

theorem label_at?_clone (h : clone a above n = .ok c) (p : Place) :
    ((c.touched a.now).at? p).map Node.label = ((n.at? p).map Node.label).map (Label.ownedBy a) := by
  have hclone : (c.at? p).map Node.label = ((n.at? p).map Node.label).map (Label.ownedBy a) := by
    have hrel := cloned_at? h p
    generalize n.at? p = x at hrel
    generalize c.at? p = y at hrel
    cases hrel with
    | none => rfl
    | some hcloned => exact congrArg some (label_of_cloned hcloned)
  rw [Node.label_at?_touched, hclone, Option.map_map]
  refine Option.map_congr fun l _ => ?_
  -- A new node bears the time of its making already.
  rw [Function.comp_apply]
  split <;> rfl

theorem readable_of_clone (h : clone a above n = .ok c) (hm : n.at? p = some m) :
    a.may m .read = true := by
  have hrel := cloned_at? h p
  rw [hm] at hrel
  generalize c.at? p = y at hrel
  cases hrel with
  | some hcloned => exact hcloned.readable

theorem label?_setContent {attrs : Attributes} {old : String} (text : String)
    (hn : fs.at? dst = some (.file attrs old)) (q : Place) :
    (fs.modify dst (Node.setContent text)).label? q =
      (fs.label? q).map fun l => if q = dst then { l with content := text } else l := by
  refine label?_modify (fun m hm => ?_) fun m name _ _ _ =>
    Node.child?_congr (Node.children_setContent text m) name
  rw [hn] at hm
  cases hm
  rfl

theorem Copied.overwritten_or_duplicated (h : Copied a fs src dst target fs') :
    (target = dst ∧ Overwritten a fs src dst fs') ∨
      (target = fs.landing src dst ∧ Duplicated a fs src (fs.landing src dst) fs') := by
  cases h with
  | @onto attrs attrs' text old found readable taken writable =>
    have hlabel (q : Place) : ((fs.modify dst (Node.setContent text)).stamp a.now dst).label? q =
        ((fs.label? q).map fun l => if q = dst then { l with content := text } else l).map
          fun l => if q = dst ∨ q = dst.parent then l.touched a.now else l := by
      rw [label?_stamp, label?_setContent text taken]
    refine .inl ⟨rfl, kind?_of_at? found, kind?_of_at? taken, fun n hn => ?_, fun n m hn hm => ?_,
      fun q hq => ?_, cwd_stamp a.now⟩
    · rw [found] at hn
      cases hn
      exact readable
    · rw [found] at hn
      cases hn
      rw [hlabel, label?_of_at? hm]
      simp [Label.touched, Node.content]
    · rw [hlabel]
      simp [hq]
  | @into parent name n c e notRoot found goal site valid outside cloned =>
    rw [goal]
    refine .inr ⟨rfl, by rw [found]; rfl, (Node.at?_snoc site.found name).trans site.free,
      fun hdir => ?_, fun x m hm => ?_, fun x => ?_, fun q hq => ?_, rfl⟩
    · rw [kind?_of_at? found] at hdir
      exact outside (Option.some.inj hdir)
    · rw [at?_append found] at hm
      exact readable_of_clone cloned hm
    · rw [List.append_assoc, List.singleton_append, label?_append found, ← label_at?_clone cloned]
      exact label?_insert_below site.found site.isDir x
    · rw [parent_concat, name_concat]
      exact label?_insert site.found site.isDir site.free hq

/-- A copy that succeeds gives a file that stands at the destination the text of the other; or it makes
a second subtree there if nothing stood there, and else in the directory that stands there, under the
name of the first. -/
theorem Reachable.duplicated_of_copy (h : Reachable fs) {source dest : String} {recursive : Bool}
    (hrun : (copy a source dest recursive).run fs = (.ok target, fs')) :
    (target = fs.place dest ∧ Overwritten a fs (fs.place source) (fs.place dest) fs') ∨
      (target = fs.landing (fs.place source) (fs.place dest) ∧
        Duplicated a fs (fs.place source) (fs.landing (fs.place source) (fs.place dest)) fs') :=
  ((ends_copy h.wellFormed.root_isDir source dest recursive).value hrun).overwritten_or_duplicated

def published : FileSystem :=
  (fresh {} default (some "ada")).after
    [(⟨rootUser, {}, default⟩, .makeFile "/pub/x/f" "text" true)]

/-- What may be read is copied into a home with all below it. -/
theorem Reachable.duplicated_of_copy_published :
    let run := (copy ⟨"ada", {}, default⟩ "/pub" "/home/ada" true).run published
    run.1 = .ok ["home", "ada", "pub"] ∧
      Duplicated ⟨"ada", {}, default⟩ published ["pub"] ["home", "ada", "pub"] run.2 := by
  have hfs : Reachable published := (reachable_fresh {} default (by decide)).after _
  have hok : ((copy ⟨"ada", {}, default⟩ "/pub" "/home/ada" true).run published).1 =
      .ok ["home", "ada", "pub"] := by decide +kernel
  have hsource : published.place "/pub" = ["pub"] := by decide +kernel
  have hdest : published.place "/home/ada" = ["home", "ada"] := by decide +kernel
  have hgoal : published.landing ["pub"] ["home", "ada"] = ["home", "ada", "pub"] := by decide +kernel
  refine ⟨hok, ?_⟩
  rcases Reachable.duplicated_of_copy hfs (Work.run_eq_of_ok hok) with ⟨htarget, -⟩ | ⟨-, hmade⟩
  · rw [hdest] at htarget
    cases htarget
  · rwa [hsource, hdest, hgoal] at hmade

end FileSystem
end MemShell
