import MemShell.Proofs.FileSystem.Labels
import MemShell.Proofs.FileSystem.Owners
import MemShell.Proofs.Tree.Size
set_option autoImplicit false

namespace MemShell.FileSystem
variable {fs fs' : FileSystem} {a : Actor} {now : Time} {src dst p parent target : Place}
  {name : String} {d n c e : Node}

/-- What stood at and below one place stands at and below another, and all else where it was. -/
structure Transferred (now : Time) (fs : FileSystem) (src dst : Place) (fs' : FileSystem) : Prop where
  free : fs.at? dst = none
  gone : ∀ x, fs'.at? (src ++ x) = none
  /-- Only the node itself is marked as changed, not what is below it. -/
  carried : ∀ x, fs'.label? (dst ++ x) =
    (fs.label? (src ++ x)).map fun l => if x = [] then l.touched now else l
  /-- Of the other nodes the old and the new directory change, in their lists of names. -/
  beside : ∀ q, ¬ src <+: q → ¬ dst <+: q → fs'.label? q =
    ((fs.label? q).map fun l => if q = src.parent then l.without now src.name else l).map
      fun l => if q = dst.parent then l.withName now dst.name else l
  count : fs'.root.count = fs.root.count
  along : ∀ x, fs.cwd = src ++ x → fs'.cwd = dst ++ x
  stays : ¬ src <+: fs.cwd → fs'.cwd = fs.cwd

theorem count_detach (hnodup : (Table.keys d.children).Nodup) (hd : fs.at? p = some d)
    (hc : d.child? name = some c) (now : Time) :
    (fs.detach now p name).root.count + c.count = fs.root.count := by
  have hmodify : (fs.detach now p name).root.count + d.count =
      fs.root.count + (d.without now name).count := Node.count_modify hd
  have hleft := Node.count_without hnodup hc now
  omega

theorem count_insert (hd : fs.at? p = some d) (hdir : d.isDir = true)
    (hfree : d.child? name = none) (now : Time) (c : Node) :
    (fs.insert now p name c).root.count = fs.root.count + c.count := by
  have hmodify : (fs.insert now p name c).root.count + d.count =
      fs.root.count + (Node.withChild now name c d).count := Node.count_modify hd
  rw [Node.count_withChild hdir hfree] at hmodify
  omega

/-- A free place outside of a subtree has nothing to do with the places in it. -/
theorem apart_of_free (hn : fs.at? src = some n) (he : fs.at? parent = some e)
    (hfree : e.child? name = none) (hout : ¬ src <+: parent) (x : Place) :
    ¬ parent ++ [name] <+: src ++ x := by
  intro hbelow
  rcases List.prefix_or_prefix_of_prefix hbelow ⟨x, rfl⟩ with hsrc | hdst
  · exact not_below_free he hfree hn hsrc
  · rcases List.prefix_concat_iff.mp hdst with rfl | hparent
    · exact not_below_free he hfree hn List.prefix_rfl
    · exact hout hparent

theorem Moved.transferred (h : Moved a fs src dst target fs') (hfs : fs.WellFormed) :
    Transferred a.now fs src target fs' := by
  cases h with
  | @intro parent name n d e notRoot found above writable goal site valid outside =>
    have hout := not_below_source found site.found site.isDir outside
    have hchild : d.child? src.name = some n := by rw [← at?_of_parent notRoot above, found]
    have hnodup := (hfs.sound_at? above).self.nodup
    obtain ⟨e', he', hdir', hfree'⟩ :=
      detached_parent notRoot hout site.found site.isDir site.free a.now
    -- The working directory apart, the node is taken out and then put in.
    have hlabel (q : Place) (hq : ¬ parent ++ [name] <+: q) :
        (fs.relocated a.now src n parent name).label? q =
          ((fs.detach a.now src.parent src.name).label? q).map fun l =>
            if q = parent then l.withName a.now name else l :=
      label?_insert he' hdir' hfree' hq
    refine ⟨?_, fun x => ?_, fun x => ?_, fun q hsrc hdst => ?_, ?_, fun x hx => ?_, fun hcwd => ?_⟩
    · exact (Node.at?_snoc site.found name).trans site.free
    · have hleft : (fs.detach a.now src.parent src.name).at? (src ++ x) = none :=
        at?_append_eq_none (at?_detach_self notRoot a.now) x
      have hnone := hlabel (src ++ x) (apart_of_free found site.found site.free hout x)
      rw [label?, label?, hleft] at hnone
      exact Option.map_eq_none_iff.mp hnone
    · rw [List.append_assoc, List.singleton_append, label?_append found, ← Node.label_at?_touched]
      exact label?_insert_below he' hdir' x
    · rw [hlabel q hdst, label?_detach (by rwa [parent_append_name notRoot]), parent_concat,
        name_concat]
    · have hleft := count_detach hnodup above hchild a.now
      have hcame := count_insert he' hdir' hfree' a.now (n.touched a.now)
      rw [Node.count_touched] at hcame
      change ((fs.detach a.now src.parent src.name).insert a.now parent name _).root.count = _
      omega
    · change cwdAfterMove fs.cwd src _ = _
      rw [hx, cwdAfterMove_below]
    · exact cwdAfterMove_beside hcwd _

/-- A move that succeeds takes the node, with all below it, to the destination if nothing stood there,
and else into the directory that stands there, under its own name. -/
theorem Reachable.transferred_of_move (h : Reachable fs) {source dest : String}
    (hrun : (move a source dest).run fs = (.ok target, fs')) :
    target = fs.landing (fs.place source) (fs.place dest) ∧
      Transferred a.now fs (fs.place source) (fs.landing (fs.place source) (fs.place dest)) fs' := by
  have hmoved : Moved a fs (fs.place source) (fs.place dest) target fs' :=
    (ends_move source dest).value hrun
  have htarget : target = fs.landing (fs.place source) (fs.place dest) := by
    cases hmoved with
    | intro _ _ _ _ goal _ _ _ => exact goal.symm
  exact ⟨htarget, htarget ▸ hmoved.transferred h.wellFormed⟩

def nested : FileSystem :=
  let a : Actor := ⟨rootUser, {}, default⟩
  (empty default).after [(a, .makeDirectory "/a/b" true false), (a, .makeDirectory "/d" false false),
    (a, .enter "/a/b")]

/-- The directory above the working directory goes into another one. -/
theorem Reachable.transferred_of_move_along :
    let run := (move ⟨rootUser, {}, default⟩ ".." "/d").run nested
    run.1 = .ok ["d", "a"] ∧ nested.landing (nested.place "..") (nested.place "/d") = ["d", "a"] ∧
      Transferred default nested ["a"] ["d", "a"] run.2 ∧ run.2.cwd = ["d", "a", "b"] := by
  have hfs : Reachable nested := (Reachable.start default).after _
  have hok : ((move ⟨rootUser, {}, default⟩ ".." "/d").run nested).1 = .ok ["d", "a"] := by
    decide +kernel
  have hsource : nested.place ".." = ["a"] := by decide +kernel
  have hdest : nested.landing ["a"] (nested.place "/d") = ["d", "a"] := by decide +kernel
  have hcwd : nested.cwd = ["a", "b"] := by decide +kernel
  have hmoved := (Reachable.transferred_of_move hfs (Work.run_eq_of_ok hok)).2
  rw [hsource, hdest] at hmoved
  exact ⟨hok, hsource.symm ▸ hdest, hmoved, hmoved.along ["b"] hcwd⟩

end MemShell.FileSystem
