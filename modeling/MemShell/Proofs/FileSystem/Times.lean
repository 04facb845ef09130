import MemShell.Proofs.FileSystem.Copying
import MemShell.Proofs.FileSystem.Making
import MemShell.Proofs.FileSystem.Moving
import MemShell.Proofs.FileSystem.Removing
set_option autoImplicit false

/-!
# Times of nodes

A request that succeeds marks the nodes that it is about and the directories above them as changed,
and no other nodes. A node that was there before keeps the time of its making, wherever it is taken.
-/
namespace MemShell

structure Attributes.Aged (now : Time) (marked : Prop) (old new : Attributes) : Prop where
  ctime : new.ctime = old.ctime
  mtime : marked → new.mtime = now
  unmarked : ¬ marked → new.mtime = old.mtime

namespace Attributes.Aged
variable {now : Time} {marked marked' : Prop} {x y z : Attributes}

theorem of_same (hc : y.ctime = x.ctime) (hm : y.mtime = x.mtime) : Aged now False x y :=
  ⟨hc, False.elim, fun _ => hm⟩

theorem congr (h : Aged now marked x y) (hiff : marked' ↔ marked) : Aged now marked' x y := by
  rw [hiff]
  exact h

theorem trans (h : Aged now marked x y) (h' : Aged now marked' y z) :
    Aged now (marked ∨ marked') x z := by
  refine ⟨h'.ctime.trans h.ctime, fun hmarked => ?_, fun hnot => ?_⟩
  · by_cases hlast : marked'
    · exact h'.mtime hlast
    · exact (h'.unmarked hlast).trans (h.mtime (hmarked.resolve_right hlast))
  · obtain ⟨hfirst, hlast⟩ := not_or.mp hnot
    exact (h'.unmarked hlast).trans (h.unmarked hfirst)

end Attributes.Aged

theorem Label.aged_ite {now : Time} {c : Prop} [Decidable c] {f : Label → Label}
    (hf : ∀ l, (f l).attrs = (l.touched now).attrs) (l : Label) :
    l.attrs.Aged now c (if c then f l else l).attrs := by
  split
  · next hc =>
    rw [hf l]
    exact ⟨rfl, fun _ => rfl, fun hnot => absurd hc hnot⟩
  · next hc => exact ⟨rfl, fun h => absurd h hc, fun _ => rfl⟩

namespace FileSystem
variable {fs fs' t : FileSystem} {a : Actor} {now : Time} {above p q src dst target : Place}
  {name : String} {c d n leaf : Node}

structure Effect where
  /-- Where what stands at a place is taken. -/
  carry : Place → Place := id
  /-- Where a node is written, touched, moved to or given other attributes. -/
  reaches : Place → Prop := fun _ => False
  /-- Where a node is taken away. -/
  vacates : Place → Prop := fun _ => False
  /-- Where nodes are removed for good. -/
  removes : Place → Prop := fun _ => False

/-- What a request does if it succeeds, its new nodes apart. A copy writes only on a file. -/
def Request.effect (a : Actor) (fs : FileSystem) : Request → Effect
  | .writeText path .. | .appendText path _ | .touch path | .changeOwner path _
  | .changeGroup path _ | .changeMode path _ | .setOwner path _ | .setGroup path _
  | .setMode path _ => { reaches := (· = fs.place path) }
  | .remove path _ | .delete path _ =>
    { vacates := (· = fs.place path), removes := (fs.place path <+: ·) }
  | .move source dest | .rename source dest =>
    { carry := placeAfterMove a fs source dest
      reaches := (· = fs.landing (fs.place source) (fs.place dest))
      vacates := (· = fs.place source) }
  | .copy _ dest _ => { reaches := fun q => q = fs.place dest ∧ fs.kind? q = some false }
  | .enter _ | .makeDirectory .. | .makeFile .. | .ensureDirectory _ | .create .. => {}

namespace Effect
variable (e : Effect) (fs fs' : FileSystem)

/-- A node stands at a place to which none of those that were there before is taken. -/
def Makes (q : Place) : Prop := (fs'.at? q).isSome ∧ ∀ p, (fs.at? p).isSome → e.carry p ≠ q

/-- Nodes that are made or reached are to be marked as changed, and so are the directories above
them and above a place that a node is taken away from. -/
inductive Marks : Place → Prop
  | made {q : Place} (new : e.Makes fs fs' q) : Marks q
  | reached {q : Place} (reached : e.reaches q) : Marks q
  | above {p : Place} (notRoot : p ≠ []) (changed : e.Makes fs fs' p ∨ e.reaches p ∨ e.vacates p) :
      Marks p.parent

end Effect

/-- The nodes that are to be marked bear the time, and no others of those that stay have another
time than before. -/
structure Timed (now : Time) (e : Effect) (fs fs' : FileSystem) : Prop where
  marked : ∀ q, e.Marks fs fs' q → ∃ n, fs'.at? q = some n ∧ n.attrs.mtime = now
  gone : ∀ p, e.removes p → fs'.at? (e.carry p) = none
  kept : ∀ p n, fs.at? p = some n → ¬ e.removes p →
    ∃ n', fs'.at? (e.carry p) = some n' ∧ n'.attrs.ctime = n.attrs.ctime ∧
      (¬ e.Marks fs fs' (e.carry p) → n'.attrs.mtime = n.attrs.mtime)

variable {e : Effect}

theorem Timed.of_aged (made : ∀ q n, e.Makes fs fs' q → fs'.at? q = some n → n.attrs.mtime = now)
    (reached : ∀ q, e.reaches q → (fs'.at? q).isSome)
    (vacated : ∀ p, e.vacates p → (fs'.at? p.parent).isSome)
    (gone : ∀ p, e.removes p → fs'.at? (e.carry p) = none)
    (aged : ∀ p n, fs.at? p = some n → ¬ e.removes p → ∃ n', fs'.at? (e.carry p) = some n' ∧
      n.attrs.Aged now (e.Marks fs fs' (e.carry p)) n'.attrs) :
    Timed now e fs fs' := by
  have hparent {p : Place} (hp : (fs'.at? p).isSome) : (fs'.at? p.parent).isSome := by
    obtain ⟨n, hn⟩ := Option.isSome_iff_exists.mp hp
    exact isSome_above hn (List.dropLast_prefix p)
  have hstands {q : Place} (hq : e.Marks fs fs' q) : (fs'.at? q).isSome := by
    cases hq with
    | made new => exact new.1
    | reached h => exact reached q h
    | above notRoot changed =>
      rcases changed with hmade | hreached | hvacated
      · exact hparent hmade.1
      · exact hparent (reached _ hreached)
      · exact vacated _ hvacated
  refine ⟨fun q hq => ?_, gone, fun p n hn hstays => ?_⟩
  · obtain ⟨n, hn⟩ := Option.isSome_iff_exists.mp (hstands hq)
    refine ⟨n, hn, ?_⟩
    by_cases hmade : e.Makes fs fs' q
    · exact made q n hmade hn
    · -- What was not made was there before, and came from somewhere.
      obtain ⟨p, hp, rfl⟩ : ∃ p, (fs.at? p).isSome ∧ e.carry p = q := by
        by_contra hnone
        exact hmade ⟨hstands hq, fun p hp heq => hnone ⟨p, hp, heq⟩⟩
      obtain ⟨m, hm⟩ := Option.isSome_iff_exists.mp hp
      have hstays : ¬ e.removes p := by
        intro hremoved
        rw [gone p hremoved] at hn
        cases hn
      obtain ⟨n', hn', haged⟩ := aged p m hm hstays
      rw [hn] at hn'
      cases hn'
      exact haged.mtime hq
  · obtain ⟨n', hn', haged⟩ := aged p n hn hstays
    exact ⟨n', hn', haged.ctime, haged.unmarked⟩

theorem aged_of_label? {marked : Prop} {f : Label → Label}
    (hlabel : fs'.label? q = (fs.label? p).map f)
    (haged : ∀ l : Label, l.attrs.Aged now marked (f l).attrs) (hn : fs.at? p = some n) :
    ∃ n', fs'.at? q = some n' ∧ n.attrs.Aged now marked n'.attrs := by
  rw [label?_of_at? hn] at hlabel
  obtain ⟨n', hn', hlabel⟩ := Option.map_eq_some_iff.mp hlabel
  have hattrs : n'.attrs = (f n.label).attrs := congrArg Label.attrs hlabel
  refine ⟨n', hn', ?_⟩
  rw [hattrs]
  exact haged n.label

theorem isSome_of_label? {f : Label → Label} (hlabel : fs'.label? q = (fs.label? p).map f) :
    (fs'.at? q).isSome = (fs.at? p).isSome := by
  have hsome := congrArg Option.isSome hlabel
  rwa [label?, label?, Option.isSome_map, Option.isSome_map, Option.isSome_map] at hsome

/-- Where nothing is made, what is marked is known beforehand. -/
theorem Effect.marks_iff (hnone : ∀ q, ¬ e.Makes fs fs' q) :
    e.Marks fs fs' q ↔
      e.reaches q ∨ ∃ p : Place, p ≠ [] ∧ (e.reaches p ∨ e.vacates p) ∧ q = p.parent := by
  constructor
  · intro h
    cases h with
    | made new => exact absurd new (hnone q)
    | reached h => exact .inl h
    | above notRoot changed => exact .inr ⟨_, notRoot, changed.resolve_left (hnone _), rfl⟩
  · rintro (h | ⟨p, hp, hchanged, rfl⟩)
    · exact .reached h
    · exact .above hp (.inr hchanged)

theorem timed_of_root (h : fs'.root = fs.root) : Timed now {} fs fs' := by
  have hat (q : Place) : fs'.at? q = fs.at? q := congrArg (Node.at? · q) h
  have hnone (q : Place) : ¬ Effect.Makes {} fs fs' q :=
    fun hmade => hmade.2 q (hat q ▸ hmade.1) rfl
  refine .of_aged (fun q _ hmade => absurd hmade (hnone q)) (fun _ => False.elim)
    (fun _ => False.elim) (fun _ => False.elim) fun p n hn _ => ⟨n, (hat p).trans hn, ?_⟩
  refine (Attributes.Aged.of_same rfl rfl).congr ?_
  rw [Effect.marks_iff hnone]
  simp

theorem timed_stamp {f : Place → Label → Label} (hn : fs.at? p = some n)
    (hlabel : ∀ q, t.label? q = (fs.label? q).map (f q))
    (hsame : ∀ q (l : Label), l.attrs.Aged now False (f q l).attrs) :
    Timed now { reaches := (· = p) } fs (t.stamp now p) := by
  have hstamp (q : Place) : (t.stamp now p).label? q =
      (fs.label? q).map fun l =>
        if q = p ∨ q = p.parent then (f q l).touched now else f q l := by
    rw [label?_stamp, hlabel, Option.map_map]
    rfl
  have hnone (q : Place) : ¬ Effect.Makes { reaches := (· = p) } fs (t.stamp now p) q :=
    fun hmade => hmade.2 q (isSome_of_label? (hstamp q) ▸ hmade.1) rfl
  refine .of_aged (fun q _ hmade => absurd hmade (hnone q)) (fun q hq => ?_) (fun _ => False.elim)
    (fun _ => False.elim) fun q m hm' _ => ?_
  · rw [isSome_of_label? (hstamp q), hq, hn]
    rfl
  · refine aged_of_label? (hstamp q) (fun l => ?_) hm'
    refine ((hsame q l).trans (Label.aged_ite (fun _ => rfl) (f q l))).congr ?_
    rw [Effect.marks_iff hnone, false_or]
    by_cases hp : p = []
    · simp [hp, Place.parent]
    · simp [hp]

theorem Site.makes_iff (site : Site a fs above name d) (c : Node) (reaches : Place → Prop)
    (q : Place) : Effect.Makes { reaches } fs (fs.insert a.now above name c) q ↔
      above ++ [name] <+: q ∧ ((fs.insert a.now above name c).at? q).isSome := by
  constructor
  · rintro ⟨hq, hnew⟩
    refine ⟨?_, hq⟩
    by_contra hout
    have hlabel : (fs.insert a.now above name c).label? q = _ :=
      FileSystem.label?_insert site.found site.isDir site.free hout
    exact hnew q (isSome_of_label? hlabel ▸ hq) rfl
  · rintro ⟨hin, hq⟩
    refine ⟨hq, fun p hp heq => ?_⟩
    obtain ⟨n, hn⟩ := Option.isSome_iff_exists.mp hp
    have hpq : p = q := heq
    exact not_below_free site.found site.free hn (hpq ▸ hin)

/-- Of what was there the directory is marked into which the subtree comes. -/
theorem Site.marks_iff (site : Site a fs above name d) {reaches : Place → Prop}
    (hreaches : ∀ q, reaches q →
      above ++ [name] <+: q ∧ ((fs.insert a.now above name c).at? q).isSome)
    (hp : (fs.at? p).isSome) :
    Effect.Marks { reaches } fs (fs.insert a.now above name c) p ↔ p = above := by
  obtain ⟨n, hn⟩ := Option.isSome_iff_exists.mp hp
  have hout := not_below_free site.found site.free hn
  constructor
  · intro hmarks
    cases hmarks with
    | made new => exact absurd ((site.makes_iff c reaches p).mp new).1 hout
    | reached h => exact absurd (hreaches p h).1 hout
    | @above q notRoot changed =>
      have hin : above ++ [name] <+: q := by
        rcases changed with hmade | hreached | hvacated
        · exact ((site.makes_iff c reaches q).mp hmade).1
        · exact (hreaches q hreached).1
        · exact hvacated.elim
      rw [← parent_append_name notRoot] at hin
      rcases List.prefix_concat_iff.mp hin with heq | hparent
      · exact (List.append_inj_left' heq rfl).symm
      · exact absurd hparent hout
  · rintro rfl
    have htop : (fs.insert a.now p name c).at? (p ++ [name]) = some c :=
      at?_insert site.found site.isDir []
    have hmade := (site.makes_iff c reaches (p ++ [name])).mpr
      ⟨List.prefix_rfl, Option.isSome_of_eq_some htop⟩
    have hmarks := Effect.Marks.above (List.concat_ne_nil name p) (.inl hmade)
    rwa [parent_concat] at hmarks

theorem Site.timed (site : Site a fs above name d)
    (hc : c.Everywhere fun m => m.attrs.mtime = a.now) {reaches : Place → Prop}
    (hreaches : ∀ q, reaches q →
      above ++ [name] <+: q ∧ ((fs.insert a.now above name c).at? q).isSome) :
    Timed a.now { reaches } fs (fs.insert a.now above name c) := by
  refine .of_aged (fun q n hmade hn => ?_) (fun q hq => (hreaches q hq).2) (fun _ => False.elim)
    (fun _ => False.elim) fun p n hn _ => ?_
  · obtain ⟨r, rfl⟩ := ((site.makes_iff c reaches q).mp hmade).1
    rw [List.append_assoc, List.singleton_append, at?_insert site.found site.isDir] at hn
    exact hc r n hn
  · have hlabel := site.label?_insert (Option.isSome_of_eq_some hn) c
    refine aged_of_label? hlabel (fun l => ?_) hn
    refine (Label.aged_ite (f := Label.withName a.now name) (fun _ => rfl) l).congr ?_
    exact site.marks_iff hreaches (Option.isSome_of_eq_some hn)

theorem mtime_of_attributes (m : Node) (mode : Nat) (h : m.attrs = a.attributes mode) :
    m.attrs.mtime = a.now := by
  rw [h]
  rfl

theorem Grafted.timed (h : Grafted a fs p leaf fs')
    (hleaf : leaf.Everywhere fun m => m.attrs.mtime = a.now) {reaches : Place → Prop}
    (hreaches : ∀ q, reaches q → q = p) : Timed a.now { reaches } fs fs' := by
  have htop := h.at?
  cases h with
  | @intro above name rest _ _ site valid =>
    refine site.timed (everywhere_chain mtime_of_attributes hleaf rest) fun q hq => ?_
    rw [hreaches q hq, htop]
    exact ⟨⟨rest, by simp⟩, rfl⟩

theorem Ensured.timed (h : Ensured a fs p fs') : Timed a.now {} fs fs' := by
  rcases h with ⟨rfl, -⟩ | hgraft
  · exact timed_of_root rfl
  · exact hgraft.timed (New.directory.everywhere mtime_of_attributes) fun _ => False.elim

theorem Wrote.timed {text : String} {append : Bool} (h : Wrote a fs p text append fs') :
    Timed a.now { reaches := (· = p) } fs fs' := by
  cases h with
  | new graft => exact graft.timed ((New.file text).everywhere mtime_of_attributes) fun _ => id
  | onto found writable =>
    refine timed_stamp found (label?_setContent _ found) fun q l => ?_
    split <;> exact .of_same rfl rfl

theorem Touched.timed (h : Touched a fs p fs') : Timed a.now { reaches := (· = p) } fs fs' := by
  cases h with
  | new graft => exact graft.timed ((New.file "").everywhere mtime_of_attributes) fun _ => id
  | stood found allowed =>
    exact timed_stamp (f := fun _ l => l) found (fun q => Option.map_id'.symm)
      fun _ _ => .of_same rfl rfl

theorem Assignment.times {f : Attributes → Attributes} (h : Assignment a n f) (attrs : Attributes) :
    (f attrs).ctime = attrs.ctime ∧ (f attrs).mtime = attrs.mtime := by
  cases h <;> exact ⟨rfl, rfl⟩

theorem Assigned.timed (h : Assigned a fs p fs') : Timed a.now { reaches := (· = p) } fs fs' := by
  cases h with
  | @intro n f found allowed =>
    refine timed_stamp found (label?_mapAttrs fs f p) fun q l => ?_
    split
    · exact .of_same (allowed.times l.attrs).1 (allowed.times l.attrs).2
    · exact .of_same rfl rfl

theorem Pruned.timed (h : Pruned now fs p fs') (hparent : (fs.at? p.parent).isSome) (hp : p ≠ []) :
    Timed now { vacates := (· = p), removes := (p <+: ·) } fs fs' := by
  have hgone {q : Place} (hq : p <+: q) : fs'.at? q = none := by
    obtain ⟨r, rfl⟩ := hq
    exact h.gone r
  have hnone (q : Place) :
      ¬ Effect.Makes { vacates := (· = p), removes := (p <+: ·) } fs fs' q := by
    rintro ⟨hq, hnew⟩
    have hout : ¬ p <+: q := by
      intro hin
      rw [hgone hin] at hq
      cases hq
    exact hnew q (isSome_of_label? (h.beside q hout) ▸ hq) rfl
  refine .of_aged (fun q _ hmade => absurd hmade (hnone q)) (fun _ => False.elim) ?_
    (fun q => hgone) fun q n hn hout => ?_
  · rintro q rfl
    rw [isSome_of_label? (h.beside _ (not_prefix_parent hp))]
    exact hparent
  · refine aged_of_label? (h.beside q hout) (fun l => ?_) hn
    refine (Label.aged_ite (f := Label.without now p.name) (fun _ => rfl) l).congr ?_
    rw [Effect.marks_iff hnone]
    simp [hp]

def Effect.relocation (src dst : Place) : Effect where
  carry := (cwdAfterMove · src dst)
  reaches := (· = dst)
  vacates := (· = src)

namespace Transferred
variable (h : Transferred now fs src dst fs')
include h

theorem ne_nil : dst ≠ [] := by
  rintro rfl
  cases h.free

theorem not_below {x : Place} (hp : (fs.at? p).isSome) : p ≠ dst ++ x := by
  rintro rfl
  rw [at?_append_eq_none h.free] at hp
  cases hp

/-- A node of the subtree is found in its new place, and any other in its own. -/
theorem cases_isSome (hq : (fs'.at? q).isSome) :
    (∃ x, q = dst ++ x ∧ (fs.at? (src ++ x)).isSome) ∨ ¬ src <+: q ∧ (fs.at? q).isSome := by
  by_cases hdst : dst <+: q
  · obtain ⟨x, rfl⟩ := hdst
    exact .inl ⟨x, rfl, isSome_of_label? (h.carried x) ▸ hq⟩
  · have hsrc : ¬ src <+: q := by
      rintro ⟨x, rfl⟩
      rw [h.gone x] at hq
      cases hq
    have hbeside := h.beside q hsrc hdst
    rw [Option.map_map] at hbeside
    exact .inr ⟨hsrc, isSome_of_label? hbeside ▸ hq⟩

theorem makes_none (q : Place) : ¬ (Effect.relocation src dst).Makes fs fs' q := by
  rintro ⟨hq, hnew⟩
  rcases h.cases_isSome hq with ⟨x, rfl, hx⟩ | ⟨hsrc, hold⟩
  · exact hnew (src ++ x) hx (cwdAfterMove_below src dst x)
  · exact hnew q hold (cwdAfterMove_beside hsrc dst)

theorem marks_iff (hsrc : src ≠ []) : (Effect.relocation src dst).Marks fs fs' q ↔
    q = dst ∨ q = dst.parent ∨ q = src.parent := by
  rw [Effect.marks_iff h.makes_none]
  constructor
  · rintro (hq | ⟨p, -, rfl | rfl, rfl⟩)
    · exact .inl hq
    · exact .inr (.inl rfl)
    · exact .inr (.inr rfl)
  · rintro (hq | rfl | rfl)
    · exact .inl hq
    · exact .inr ⟨dst, h.ne_nil, .inl rfl, rfl⟩
    · exact .inr ⟨src, hsrc, .inr rfl, rfl⟩

theorem label?_beside (hq : ¬ src <+: q) (hold : (fs.at? q).isSome) :
    fs'.label? q = (fs.label? q).map fun l =>
      if q = dst.parent then
        (if q = src.parent then l.without now src.name else l).withName now dst.name
      else if q = src.parent then l.without now src.name else l := by
  have hout : ¬ dst <+: q := fun ⟨x, hx⟩ => h.not_below hold hx.symm
  rw [h.beside q hq hout, Option.map_map]
  rfl

/-- In the subtree its top is marked, which has come to the new place. -/
theorem aged_below (hsrc : src ≠ []) {x : Place} (hn : fs.at? (src ++ x) = some n) :
    ∃ n', fs'.at? (dst ++ x) = some n' ∧
      n.attrs.Aged now ((Effect.relocation src dst).Marks fs fs' (dst ++ x)) n'.attrs := by
  have habove : (fs.at? src.parent).isSome :=
    isSome_above hn ((List.dropLast_prefix src).trans (List.prefix_append src x))
  have hold : dst ++ x ≠ src.parent := (h.not_below habove).symm
  have hnew : dst ++ x ≠ dst.parent := fun heq => not_prefix_parent h.ne_nil ⟨x, heq⟩
  refine aged_of_label? (h.carried x) (fun l => ?_) hn
  refine (Label.aged_ite (f := Label.touched now) (fun _ => rfl) l).congr ?_
  rw [h.marks_iff hsrc]
  simp [hold, hnew]

/-- Beside the subtree the old and the new directory are marked. -/
theorem aged_beside (hsrc : src ≠ []) (hp : ¬ src <+: p) (hn : fs.at? p = some n) :
    ∃ n', fs'.at? p = some n' ∧
      n.attrs.Aged now ((Effect.relocation src dst).Marks fs fs' p) n'.attrs := by
  have hstands := Option.isSome_of_eq_some hn
  have hself : p ≠ dst := by
    have hne := h.not_below (x := []) hstands
    rwa [List.append_nil] at hne
  refine aged_of_label? (h.label?_beside hp hstands) (fun l => ?_) hn
  have hleft : l.attrs.Aged now (p = src.parent) _ :=
    Label.aged_ite (f := Label.without now src.name) (fun _ => rfl) l
  have hcame := Label.aged_ite (f := Label.withName now dst.name) (c := p = dst.parent)
    (fun _ => rfl) (if p = src.parent then l.without now src.name else l)
  refine (hleft.trans hcame).congr ?_
  rw [h.marks_iff hsrc]
  simp [hself, or_comm]

theorem timed (hn : fs.at? src = some n) (hsrc : src ≠ []) :
    Timed now (Effect.relocation src dst) fs fs' := by
  refine .of_aged (fun q _ hmade => absurd hmade (h.makes_none q)) ?_ ?_ (fun _ => False.elim)
    fun p m hm _ => ?_
  · rintro q rfl
    have hself := h.carried []
    rw [List.append_nil, List.append_nil] at hself
    rw [isSome_of_label? hself, hn]
    rfl
  · rintro q rfl
    have habove : (fs.at? q.parent).isSome := isSome_above hn (List.dropLast_prefix q)
    rw [isSome_of_label? (h.label?_beside (not_prefix_parent hsrc) habove)]
    exact habove
  · by_cases hin : src <+: p
    · obtain ⟨x, rfl⟩ := hin
      have hcarry : (Effect.relocation src dst).carry (src ++ x) = dst ++ x :=
        cwdAfterMove_below src dst x
      rw [hcarry]
      exact h.aged_below hsrc hm
    · have hcarry : (Effect.relocation src dst).carry p = p := cwdAfterMove_beside hin dst
      rw [hcarry]
      exact h.aged_beside hsrc hin hm

end Transferred

theorem Removed.timed {recursive : Bool} (h : Removed a fs p recursive fs') (hfs : fs.WellFormed) :
    Timed a.now { vacates := (· = p), removes := (p <+: ·) } fs fs' := by
  have hpruned := h.pruned hfs
  cases h with
  | intro notRoot found above writable removable =>
    exact hpruned.timed (Option.isSome_of_eq_some above) notRoot

theorem Copied.timed (h : Copied a fs src dst target fs') :
    Timed a.now { reaches := fun q => q = dst ∧ fs.kind? q = some false } fs fs' := by
  cases h with
  | @onto attrs attrs' text old found readable taken writable =>
    have hreaches : (fun q => q = dst ∧ fs.kind? q = some false) = (· = dst) := by
      funext q
      refine propext ⟨fun hq => hq.1, ?_⟩
      rintro rfl
      exact ⟨rfl, kind?_of_at? taken⟩
    rw [hreaches]
    refine timed_stamp taken (label?_setContent text taken) fun q l => ?_
    split <;> exact .of_same rfl rfl
  | @into parent name n c e notRoot found goal site valid outside cloned =>
    refine site.timed (everywhere_clone mtime_of_attributes cloned) ?_
    rintro q ⟨rfl, hfile⟩
    -- A file at the destination would be written on.
    obtain ⟨m, hm, hmfile⟩ := Node.kind?_eq_some_iff.mp hfile
    have hm : fs.at? q = some m := hm
    rw [landing_of_found hm] at goal
    obtain rfl := List.append_inj_left' goal rfl
    rw [site.found] at hm
    cases hm
    rw [site.isDir] at hmfile
    cases hmfile

theorem ends_move_timed (hfs : fs.WellFormed) (source dest : String) :
    (move a source dest).Ends fs (· = fs) fun _ fs' => Timed a.now
      { carry := placeAfterMove a fs source dest
        reaches := (· = fs.landing (fs.place source) (fs.place dest))
        vacates := (· = fs.place source) } fs fs' := by
  refine (ends_move source dest).and_run.mono fun target fs' ⟨hrun, hmoved⟩ => ?_
  have hmove := hmoved.transferred hfs
  rw [placeAfterMove_of_run hrun]
  cases hmoved with
  | intro notRoot found above writable goal site valid outside =>
    rw [goal]
    exact hmove.timed found notRoot

theorem Request.ends_timed (hfs : fs.WellFormed) (r : Request) :
    (r.run a).Ends fs (· = fs) fun res fs' =>
      Settled (Timed a.now (r.effect a fs) fs) fs res fs' := by
  have hroot := hfs.root_isDir
  cases r with
  | enter path =>
    refine ends_plainly ((ends_enter path).mono fun _ _ h => ?_)
    cases h with
    | intro found isDir allowed => exact timed_of_root rfl
  | makeDirectory path parents existOk =>
    exact ends_plainly ((ends_makeDirectory hroot path parents existOk).mono fun _ _ h => h.2.timed)
  | makeFile path content parents =>
    refine ends_plainly (((Making.file content).ends hroot path parents).mono fun _ _ h => ?_)
    exact h.2.timed ((New.file content).everywhere mtime_of_attributes) fun _ => False.elim
  | ensureDirectory path =>
    exact ends_plainly ((ends_ensureDirectory hroot path).mono fun _ _ h => h.2.timed)
  | writeText path text append parents =>
    exact ends_plainly ((ends_write hroot path text append parents).mono fun _ _ h => h.2.timed)
  | appendText path text =>
    exact ends_plainly ((ends_write hroot path text true true).mono fun _ _ h => h.2.timed)
  | touch path => exact ends_plainly ((ends_touch hroot path).mono fun _ _ h => h.2.timed)
  | remove path recursive =>
    exact ends_plainly ((ends_remove path recursive).mono fun _ _ h => h.timed hfs)
  | move source dest => exact ends_plainly (ends_move_timed hfs source dest)
  | copy source dest recursive =>
    exact ends_plainly ((ends_copy hroot source dest recursive).mono fun _ _ h => h.timed)
  | changeOwner path owner =>
    exact ends_plainly ((ends_changeOwner path owner).mono fun _ _ h => h.2.timed)
  | changeGroup path group =>
    exact ends_plainly ((ends_changeGroup path group).mono fun _ _ h => h.2.timed)
  | changeMode path mode =>
    exact ends_plainly ((ends_changeMode path mode).mono fun _ _ h => h.2.timed)
  | create path c =>
    refine (Request.ends_created hroot path c).mono fun res fs' h => h.mono ?_
    rintro t ⟨leaf, made, hgraft, hnew, rfl⟩
    have hleaf : (leaf.mapAttrs c.assign).Everywhere fun m => m.attrs.mtime = a.now := by
      have hmade := hnew.everywhere mtime_of_attributes
      refine hmade.of_children ?_ (Node.children_mapAttrs c.assign leaf)
      rw [Node.attrs_mapAttrs]
      exact hmade.self
    exact (hgraft.modify (Node.mapAttrs c.assign)).timed hleaf fun _ => False.elim
  | rename source dest =>
    exact ends_silently (ends_report (ends_move_timed hfs source dest) fun _ => rfl)
  | delete path recursive =>
    refine ends_silently (ends_report ?_ fun _ => rfl)
    exact (ends_remove path recursive).mono fun _ _ h => h.timed hfs
  | setOwner path owner =>
    refine ends_silently (ends_report ?_ fun _ => rfl)
    exact (ends_changeOwner path owner).mono fun _ _ h => h.2.timed
  | setGroup path group =>
    refine ends_silently (ends_report ?_ fun _ => rfl)
    exact (ends_changeGroup path group).mono fun _ _ h => h.2.timed
  | setMode path mode =>
    refine ends_silently (ends_report ?_ fun _ => rfl)
    exact (ends_changeMode path mode).mono fun _ _ h => h.2.timed

/-- After a request that succeeds, the nodes that it has made, written, touched, moved or given
other attributes bear its time, and so do the directories above them and above what it took away. No
other node that stays has another time of change than before, and none another time of its making.
-/
theorem Reachable.timed_of_request (h : Reachable fs) {r : Request} {res : Result Unit}
    (hrun : (r.run a).run fs = (.ok res, fs')) (hres : res.success = true) :
    Timed a.now (r.effect a fs) fs fs' := by
  have hsettled := (Request.ends_timed (a := a) h.wellFormed r).value hrun
  rwa [Settled, if_pos hres] at hsettled

/-- Directories made at time zero, one of which root moves a second later with what is in it. -/
theorem Reachable.timed_of_request_nested :
    let a : Actor := ⟨rootUser, {}, .ofDecimal false 1 0⟩
    let run := ((Request.move ".." "/d").run a).run nested
    run.1 = .ok .done ∧
      (∀ q ∈ [["d", "a"], ["d"], []], ∃ n, run.2.at? q = some n ∧ n.attrs.mtime = a.now) ∧
      ∃ n, run.2.at? ["d", "a", "b"] = some n ∧
        n.attrs.ctime = default ∧ n.attrs.mtime = default := by
  intro a run
  have hfs : Reachable nested := (Reachable.start default).after _
  have hok : run.1 = .ok .done := by decide +kernel
  have htimed : Timed a.now ((Request.move ".." "/d").effect a nested) nested run.2 :=
    Reachable.timed_of_request hfs (Work.run_eq_of_ok hok) rfl
  have hsource : nested.place ".." = ["a"] := by decide +kernel
  have hgoal : nested.landing (nested.place "..") (nested.place "/d") = ["d", "a"] := by
    decide +kernel
  have hcarry : placeAfterMove a nested ".." "/d" ["a", "b"] = ["d", "a", "b"] := by decide +kernel
  have hold : (nested.at? ["a", "b"]).map (fun n => (n.attrs.ctime, n.attrs.mtime)) =
      some (default, default) := by decide +kernel
  have hempty (name : String) : run.2.at? ["d", "a", "b", name] = none := rfl
  obtain ⟨n, hn, hdefault⟩ := Option.map_eq_some_iff.mp hold
  obtain ⟨hctime, hmtime⟩ := Prod.mk.inj hdefault
  refine ⟨hok, fun q hq => htimed.marked q ?_, ?_⟩
  · simp only [List.mem_cons, List.not_mem_nil, or_false] at hq
    rcases hq with rfl | rfl | rfl
    · exact .reached hgoal.symm
    · exact .above (p := ["d", "a"]) (by simp) (.inr (.inl hgoal.symm))
    · exact .above (p := ["a"]) (by simp) (.inr (.inr hsource.symm))
  · obtain ⟨n', hn', hc, hm⟩ := htimed.kept ["a", "b"] n hn id
    have hn' : run.2.at? (placeAfterMove a nested ".." "/d" ["a", "b"]) = some n' := hn'
    rw [hcarry] at hn'
    refine ⟨n', hn', hc.trans hctime, (hm ?_).trans hmtime⟩
    change ¬ Effect.Marks _ _ _ (placeAfterMove a nested ".." "/d" ["a", "b"])
    rw [hcarry]
    generalize hq : ["d", "a", "b"] = q
    intro hmarks
    cases hmarks with
    | made new => exact new.2 ["a", "b"] (Option.isSome_of_eq_some hn) (hcarry.trans hq)
    | reached h => exact absurd (hq.trans (h.trans hgoal)) (by decide)
    | @above p notRoot changed =>
      rcases changed with hmade | hreached | hvacated
      · have hp : (run.2.at? p).isSome := hmade.1
        rw [← parent_append_name notRoot, ← hq] at hp
        rw [show ["d", "a", "b"] ++ [p.name] = ["d", "a", "b", p.name] from rfl, hempty] at hp
        cases hp
      · rw [show p = ["d", "a"] from hreached.trans hgoal] at hq
        exact absurd hq (by decide)
      · rw [show p = ["a"] from hvacated.trans hsource] at hq
        exact absurd hq (by decide)

end FileSystem
end MemShell
