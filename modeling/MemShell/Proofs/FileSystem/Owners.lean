import MemShell.Proofs.FileSystem.Rights
set_option autoImplicit false

namespace MemShell.FileSystem
variable {fs fs' t : FileSystem} {a : Actor} {p q : Place} {n n' leaf : Node} {u : String}

theorem fault_of_plainly {x : Update Place}
    (hfail : ∀ res, ((plainly x).run fs).1 = .ok res → res.success = false) :
    ∃ f, (x.run fs).1 = .error f := by
  rw [plainly, Work.run_bind] at hfail
  cases hrun : x.run fs with
  | mk out t =>
    rw [hrun] at hfail
    cases out with
    | error f => exact ⟨f, rfl⟩
    | ok v => cases hfail _ rfl

theorem fault_of_report {x : Update Place}
    (hfail : ∀ res, ((silently (report .ok x)).run fs).1 = .ok res → res.success = false) :
    ∃ f, (x.run fs).1 = .error f := by
  rw [silently, report, Work.run_bind, Work.run_bind, Work.run_outcome] at hfail
  cases hrun : x.run fs with
  | mk out t =>
    rw [hrun] at hfail
    cases out with
    | error f => exact ⟨f, rfl⟩
    | ok v => cases hfail _ rfl

theorem placeAfterMove_of_fault {source dest : String} {f : Fault}
    (h : ((FileSystem.move a source dest).run fs).1 = .error f) (p : Place) :
    placeAfterMove a fs source dest p = p := by
  rw [placeAfterMove, h]

theorem Request.carry_of_failure {r : Request}
    (hfail : ∀ res, ((r.run a).run fs).1 = .ok res → res.success = false) (p : Place) :
    r.carry a fs p = p := by
  cases r with
  | move source dest =>
    obtain ⟨f, hf⟩ := fault_of_plainly hfail
    exact placeAfterMove_of_fault hf p
  | rename source dest =>
    obtain ⟨f, hf⟩ := fault_of_report hfail
    exact placeAfterMove_of_fault hf p
  | _ => rfl

/-- How a node comes to stand at a place after a request, and whose it is there. -/
inductive Provenance (a : Actor) (r : Request) (fs : FileSystem) (q : Place) (n' : Node) : Prop
  | kept {p : Place} {n : Node} (found : fs.at? p = some n) (target : r.carry a fs p = q)
      (same : n'.attrs.owner = n.attrs.owner) : Provenance a r fs q n'
  | made (owner : n'.attrs.owner = a.user) : Provenance a r fs q n'
  | assigned {path : String} {c : Creation} (named : r = .create path c)
      (place : fs.place path = q) (owner : c.owner = some n'.attrs.owner) : Provenance a r fs q n'

theorem Edit.provenance {r : Request} (h : Edit a fs (r.carry a fs) fs') (ha : a.user ≠ rootUser)
    (hn' : fs'.at? q = some n') : Provenance a r fs q n' := by
  cases h.origin ha hn' with
  | carried found target permitted => exact .kept found target permitted.owner
  | made _ owner => exact .made owner

theorem owner_of_assigned (f : Attributes → Attributes) (hq : q ≠ p)
    (hn' : (fs.modify p (Node.mapAttrs f)).at? q = some n') :
    ∃ n, fs.at? q = some n ∧ n'.attrs.owner = n.attrs.owner := by
  have hkept : Node.Kept (fun m m' => m'.attrs.owner = m.attrs.owner) fs.root
      (fs.modify p (Node.mapAttrs f)).root q := by
    refine Node.kept_modify (fun _ _ h => h.owner) fun m r _ hr => ?_
    cases r with
    | nil => exact absurd (by rw [hr, List.append_nil]) hq
    | cons name rest =>
      refine Node.kept_of_at?_eq (fun _ => rfl) ?_
      rw [Node.at?_cons, Node.at?_cons, Node.child?_congr (Node.children_mapAttrs f m)]
  exact hkept n' hn'

theorem New.owner (h : New a leaf) : leaf.attrs.owner = a.user :=
  (h.everywhere owner_of_attributes).self

theorem provenance_created {path : String} {c : Creation}
    (graft : Grafted a fs (fs.place path) leaf t) (new : New a leaf) (ha : a.user ≠ rootUser)
    (hn' : (t.modify (fs.place path) (Node.mapAttrs c.assign)).at? q = some n') :
    Provenance a (.create path c) fs q n' := by
  by_cases hq : q = fs.place path
  · subst hq
    rw [(graft.modify _).at?] at hn'
    cases hn'
    have howner : (leaf.mapAttrs c.assign).attrs.owner = c.owner.getD a.user := by
      rw [Node.attrs_mapAttrs, Creation.assign, new.owner]
    cases hc : c.owner with
    | none =>
      apply Provenance.made
      rw [howner, hc, Option.getD_none]
    | some owner =>
      apply Provenance.assigned rfl rfl
      rw [howner, hc, Option.getD_some]
  · obtain ⟨m, hm, hsame⟩ := owner_of_assigned c.assign hq hn'
    have hedit : Edit a fs id t := .made graft new
    cases hedit.provenance (r := .create path c) ha hm with
    | kept found target same => exact .kept found target (hsame.trans same)
    | made owner => exact .made (hsame.trans owner)
    | assigned named place _ =>
      cases named
      exact absurd place.symm hq

/-- A request of an actor other than root leaves at a place a node that it carried there, with the owner
that it had; or a new node of the actor; or the node that it was to create for someone else. -/
theorem Request.provenance (h : Reachable fs) (ha : a.user ≠ rootUser) (r : Request)
    (hn' : ((r.run a).run fs).2.at? q = some n') : Provenance a r fs q n' := by
  have hroot := h.wellFormed.root_isDir
  by_cases hok : ∃ res, ((r.run a).run fs).1 = .ok res ∧ res.success = true
  · obtain ⟨res, hres, hsuccess⟩ := hok
    have hrun : (r.run a).run fs = (.ok res, ((r.run a).run fs).2) := by rw [← hres]
    by_cases hcreate : ∃ path c, r = .create path c
    · obtain ⟨path, c, rfl⟩ := hcreate
      have hsettled := (Request.ends_created (a := a) hroot path c).value hrun
      rw [Settled, if_pos hsuccess] at hsettled
      obtain ⟨leaf, t, graft, new, hstate⟩ := hsettled
      rw [hstate] at hn'
      exact provenance_created graft new ha hn'
    · have hedit := Request.edit_of_success hroot (fun path c hr => hcreate ⟨path, c, hr⟩) hrun hsuccess
      exact hedit.provenance ha hn'
  · have hfail : ∀ res, ((r.run a).run fs).1 = .ok res → res.success = false :=
      fun res hres => Bool.eq_false_iff.mpr fun hsuccess => hok ⟨res, hres, hsuccess⟩
    rw [h.unchanged_of_failure a r hfail] at hn'
    exact .kept hn' (Request.carry_of_failure hfail q) rfl

def after (fs : FileSystem) : List (Actor × Request) → FileSystem
  | [] => fs
  | (a, r) :: rest => after ((r.run a).run fs).2 rest

theorem Reachable.after (h : Reachable fs) (deeds : List (Actor × Request)) :
    Reachable (fs.after deeds) := by
  induction deeds generalizing fs with
  | nil => exact h
  | cons deed rest ih => exact ih (h.request deed.1 deed.2)

/-- What stands at the first place stays in the tree through all requests, and they take it to the
second. -/
inductive Survives : FileSystem → List (Actor × Request) → Place → Place → Prop
  | nil {fs : FileSystem} {p : Place} {n : Node} (found : fs.at? p = some n) : Survives fs [] p p
  | cons {fs : FileSystem} {a : Actor} {r : Request} {rest : List (Actor × Request)} {p q : Place}
      {n : Node} (found : fs.at? p = some n)
      (onward : Survives ((r.run a).run fs).2 rest (r.carry a fs p) q) : Survives fs ((a, r) :: rest) p q

/-- After requests that were all made as one user other than root, every node belongs to that user, or
was there before with the same owner, or is one that a creation on the way gave to the owner that it
named. -/
theorem Reachable.owner_after (h : Reachable fs) (hu : u ≠ rootUser)
    {deeds : List (Actor × Request)} (hdeeds : ∀ d ∈ deeds, d.1.user = u)
    (hn' : (fs.after deeds).at? q = some n') :
    n'.attrs.owner = u ∨
      (∃ p n, fs.at? p = some n ∧ Survives fs deeds p q ∧ n'.attrs.owner = n.attrs.owner) ∨
      ∃ before a path c later, deeds = before ++ (a, .create path c) :: later ∧
        c.owner = some n'.attrs.owner ∧
        Survives (fs.after (before ++ [(a, .create path c)])) later ((fs.after before).place path) q := by
  -- From the first request on: what the rest of the run found there is traced back by one step.
  induction deeds generalizing fs with
  | nil => exact .inr (.inl ⟨q, n', hn', .nil hn', rfl⟩)
  | cons deed rest ih =>
    obtain ⟨a, r⟩ := deed
    have ha : a.user = u := hdeeds (a, r) List.mem_cons_self
    have hrest : ∀ d ∈ rest, d.1.user = u := fun d hd => hdeeds d (List.mem_cons_of_mem _ hd)
    rcases ih (h.request a r) hrest hn' with howner | ⟨p, n, hn, hsurvives, hsame⟩ |
      ⟨before, b, path, c, later, rfl, howner, hsurvives⟩
    · exact .inl howner
    · cases Request.provenance h (ha ▸ hu) r hn with
      | @kept p₀ n₀ found target same =>
        subst target
        exact .inr (.inl ⟨p₀, n₀, found, .cons found hsurvives, hsame.trans same⟩)
      | made owner => exact .inl (hsame.trans (owner.trans ha))
      | assigned named place owner =>
        subst named place
        exact .inr (.inr ⟨[], a, _, _, rest, rfl, hsame ▸ owner, hsurvives⟩)
    · exact .inr (.inr ⟨(a, r) :: before, b, path, c, later, rfl, howner, hsurvives⟩)

def forgery : List (Actor × Request) :=
  [(⟨"ada", {}, default⟩, .create "/home/ada/x" { owner := some rootUser }),
    (⟨"ada", {}, default⟩, .move "/home/ada/x" "/home/ada/y")]

theorem Reachable.owner_after_forgery :
    let fs := fresh {} default (some "ada")
    ∃ n', (fs.after forgery).at? ["home", "ada", "y"] = some n' ∧ n'.attrs.owner = rootUser ∧
      ((∃ p n, fs.at? p = some n ∧ Survives fs forgery p ["home", "ada", "y"] ∧
        rootUser = n.attrs.owner) ∨
      ∃ before a path c later, forgery = before ++ (a, .create path c) :: later ∧
        c.owner = some rootUser ∧ Survives (fs.after (before ++ [(a, .create path c)])) later
          ((fs.after before).place path) ["home", "ada", "y"]) := by
  have hfs : Reachable (fresh {} default (some "ada")) := reachable_fresh {} default (by decide)
  have hfinal : (((fresh {} default (some "ada")).after forgery).at? ["home", "ada", "y"]).map
      (·.attrs.owner) = some rootUser := by decide +kernel
  obtain ⟨n', hn', hroot⟩ := Option.map_eq_some_iff.mp hfinal
  refine ⟨n', hn', hroot, ?_⟩
  have howner := Reachable.owner_after hfs (u := "ada") (by decide) (by simp [forgery]) hn'
  rw [hroot] at howner
  exact howner.resolve_left (by decide)

end MemShell.FileSystem
