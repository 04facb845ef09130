import MemShell.Proofs.Shell.Builtins
import MemShell.Proofs.Shell.Registration
set_option autoImplicit false

namespace MemShell

structure Effect.Careful {α : Type} (x : Effect α) (s : Shell) : Prop where
  ends : x.Ends s (fun t => t.files.root = s.files.root) fun _ _ => True

namespace Note

def Careful (s : Shell) : Note → Prop
  | .command (.builtin b) c => (b.run c).Careful s
  | .command _ _ => True
  | .redirect caller target text => (Execute.writeRedirect caller target text).Careful s

/-- A command that works on one path at most, or a redirection into a directory that is there. -/
def isSimple (s : Shell) : Note → Bool
  | .command (.builtin .touch) c | .command (.builtin .mkdir) c | .command (.builtin .rm) c =>
    c.args.length ≤ 1
  | .command (.builtin .rmdir) c => c.paths.length ≤ 1
  | .command _ _ => true
  | .redirect _ target _ => s.files.isDirectory (Place.text (s.files.place target.path).parent)

end Note

namespace Care
variable {α : Type} {s : Shell} {c : Context}

theorem careful_of_ends {x : Effect α} {E : Shell → Prop} {Q : α → Shell → Prop}
    (h : x.Ends s E Q) (hE : ∀ t, E t → t.files.root = s.files.root) : x.Careful s :=
  ⟨(h.mono fun _ _ _ => trivial).mono_fault hE⟩

theorem careful_pure {a : α} : (pure a : Effect α).Careful s := ⟨Work.ends_pure trivial⟩

theorem careful_throw {f : Fault} : (throw f : Effect α).Careful s := ⟨Work.ends_throw rfl⟩

theorem careful_get_bind {f : Shell → Effect α} (h : (f s).Careful s) :
    ((get : Effect Shell) >>= f).Careful s := ⟨Work.ends_get_bind h.ends⟩

/-- Nothing fails behind a change. -/
theorem careful_bind_pure {β : Type} {x : Effect α} {f : α → β} (h : x.Careful s) :
    (x >>= fun a => pure (f a)).Careful s :=
  ⟨h.ends.bind fun _ _ _ => Work.ends_pure trivial⟩

theorem careful_changeFiles {user : String} {f : Actor → Update α} {carry : Place → Place}
    (h : FileSystem.Atomic (s.actor user) s.files carry (f (s.actor user))) :
    (Effect.changeFiles user f).Careful s :=
  careful_of_ends (Effect.ends_changeFiles_of_unchanged h) fun _ ht => by rw [ht]

theorem careful_changeOnce {f : Actor → Update Place} {carry : Place → Place}
    (h : FileSystem.Atomic (s.actor c.user) s.files carry (f (s.actor c.user))) :
    (Builtins.changeOnce c f).Careful s := careful_bind_pure (careful_changeFiles h)

theorem careful_forM {f : α → Effect PUnit} {xs : List α} {r : Result String}
    (hxs : xs.length ≤ 1) (h : ∀ x ∈ xs, (f x).Careful s) :
    (xs.forM f >>= fun _ => pure r).Careful s := by
  match xs, hxs with
  | [], _ => exact careful_pure
  | [x], _ => exact careful_bind_pure (careful_bind_pure (h x (List.mem_singleton_self x)))

theorem careful_changeEach {f : String → Actor → Update Place} (hargs : c.args.length ≤ 1)
    (h : ∀ path, FileSystem.Atomic (s.actor c.user) s.files id (f path (s.actor c.user))) :
    (Builtins.changeEach c f).Careful s :=
  careful_forM hargs fun path _ => careful_bind_pure (careful_changeFiles (h path))

theorem careful_removePath (path : String) : (Builtins.removePath c path).Careful s := by
  have hremoved : (Effect.changeFiles c.user fun a =>
      FileSystem.remove a path (c.hasFlag "recursive")).Careful s :=
    careful_changeFiles (FileSystem.atomic_remove path _)
  unfold Builtins.removePath
  generalize (Effect.changeFiles c.user fun a =>
    FileSystem.remove a path (c.hasFlag "recursive")) = x at hremoved
  cases hrun : x.run s with
  | mk r t =>
    refine ⟨Work.ends_bind_of_run (b := r) (t := t) (by rw [Work.run_outcome, hrun]) ?_⟩
    cases r with
    | ok _ => exact Work.ends_pure trivial
    | error f =>
      have hroot : t.files.root = s.files.root := hremoved.ends.fault hrun
      dsimp only
      split
      · exact Work.ends_throw hroot
      split
      · exact Work.ends_pure trivial
      · exact Work.ends_throw hroot

theorem careful_removeEmpty (p : CheckedPath) : (Builtins.removeEmpty c p).Careful s := by
  refine careful_get_bind ?_
  split
  · exact careful_throw
  · exact careful_changeFiles (FileSystem.atomic_remove _ _)

theorem careful_withTwo {f : String → String → Effect (Result String)}
    (h : ∀ x y, (f x y).Careful s) : (Builtins.withTwo c f).Careful s := by
  unfold Builtins.withTwo
  split
  · exact h _ _
  · exact careful_pure

theorem careful_useradd (hroot : s.files.root.isDir = true) : (Builtins.useradd c).Careful s := by
  by_cases hstranded : ∃ accounts, Registration.Stranded s c accounts
  · obtain ⟨accounts, hstranded⟩ := hstranded
    exact careful_of_ends (Registration.ends_useradd_of_stranded hroot hstranded)
      fun _ ht => by rw [ht]
  · exact careful_of_ends
      (Registration.ends_useradd_of_not_stranded hroot (not_exists.mp hstranded))
      fun _ ht => by rw [ht]

def Rooted (root : Node) (s t : Shell) : Prop := t = s ∧ s.files.root = root

theorem steadfast (root : Node) (job : Option JobId) : Steadfast (Rooted root) job where
  view h := by rw [h.1]
  cwd p h := ⟨by rw [h.1], h.2⟩
  environment e h _ := by
    obtain ⟨rfl, h⟩ := h
    cases job <;> exact ⟨rfl, h⟩
  aliases a h := ⟨by rw [h.1], h.2⟩
  accounts a h := ⟨by rw [h.1], h.2⟩
  jobs h _ _ := ⟨by rw [h.1], h.2⟩
  attached h := by rw [h.1]
  save := by
    rintro s _ ⟨rfl, h⟩
    exact Work.lockstep_self ⟨rfl, h⟩

theorem careful_of_steady {b : Builtin} (htree : b.changesTree = false) : (b.run c).Careful s := by
  have hrun : (b.run c).Lockstep (Rooted s.files.root) s s := by
    have hnot : b.changesTree ≠ true := by simp [htree]
    refine Builtin.lockstep_self (steadfast _ _) ⟨rfl, rfl⟩ (fun h => absurd h hnot) ?_ ?_
    · rintro - t ⟨session, environment, cwd, -, rfl⟩
      exact ⟨rfl, rfl⟩
    · exact fun history => ⟨rfl, rfl⟩
  cases hrun with
  | ok hx _ _ => exact ⟨Work.ends_of_run hx trivial⟩
  | error hx _ h => exact ⟨Work.ends_of_fault hx h.2⟩

theorem careful_writeRedirect {caller : Caller} {target : Redirect} {text : String}
    (hroot : s.files.root.isDir = true)
    (h : s.files.isDirectory (Place.text (s.files.place target.path).parent) = true) :
    (Execute.writeRedirect caller target text).Careful s := by
  have hthere (files : FileSystem) : ¬ Redirection.Prepared s caller target files := by
    intro hprepared
    rw [FileSystem.isDirectory, Redirection.place_parent, hprepared.at?_eq_none] at h
    cases h
  exact careful_of_ends (Redirection.ends_writeRedirect_of_not_prepared hroot hthere)
    fun _ ht => by rw [ht]

theorem careful_of_isSimple {n : Note} (hroot : s.files.root.isDir = true)
    (h : n.isSimple s = true) : n.Careful s := by
  cases n with
  | redirect caller target text => exact careful_writeRedirect hroot h
  | command action c =>
    cases action with
    | builtin b =>
      cases b with
      | touch =>
        exact careful_changeEach (by simpa [Note.isSimple] using h)
          fun path => (FileSystem.gentle_touch hroot path).atomic
      | mkdir =>
        exact careful_changeEach (by simpa [Note.isSimple] using h)
          fun path => (FileSystem.gentle_makeDirectory hroot path _ _).atomic
      | rm =>
        exact careful_forM (by simpa [Note.isSimple] using h) fun path _ => careful_removePath path
      | rmdir =>
        exact careful_forM (by simpa [Note.isSimple] using h) fun p _ => careful_removeEmpty p
      | mv => exact careful_withTwo fun _ _ => careful_changeOnce (FileSystem.atomic_move _ _)
      | cp =>
        exact careful_withTwo fun _ _ => careful_changeOnce (FileSystem.atomic_copy hroot _ _ _)
      | chmod =>
        exact careful_withTwo fun _ _ => careful_changeOnce (FileSystem.gentle_changeMode _ _).atomic
      | chown =>
        exact careful_withTwo fun _ _ => careful_changeOnce (FileSystem.gentle_changeOwner _ _).atomic
      | chgrp =>
        exact careful_withTwo fun _ _ => careful_changeOnce (FileSystem.gentle_changeGroup _ _).atomic
      | useradd => exact careful_useradd hroot
      | _ => exact careful_of_steady rfl
    | _ => trivial

end Care
end MemShell
