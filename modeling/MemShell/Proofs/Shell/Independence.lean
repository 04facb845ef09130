import MemShell.Proofs.Shell.Isolation
import MemShell.Proofs.Shell.Sharing
set_option autoImplicit false

namespace MemShell

def Note.usesForeground : Note → Bool
  | .command (.builtin b) _ => b.switchesUser || b = .history
  | _ => false

namespace Independence

structure Same (id : JobId) (s t : Shell) : Prop where
  started : id < s.jobs.next
  view : t.view (some id) = s.view (some id)
  storage : s.storage.Alike t.storage

def discipline (user : String) (id : JobId) : Discipline Unit where
  mine c := c.user = user ∧ c.job = some id
  same _ := Same id
  unsaved _ := Same id
  next _ _ e _ := e.usesForeground = false

variable {user : String} {id : JobId} {s t : Shell}

theorem Same.map {f : Shell → Shell} {g : Shell.View → Shell.View} (h : Same id s t)
    (hview : ∀ s, (f s).view (some id) = g (s.view (some id)))
    (hnext : ∀ s, (f s).jobs.next = s.jobs.next) (hstorage : ∀ s, (f s).storage = s.storage) :
    Same id (f s) (f t) := by
  refine ⟨?_, ?_, ?_⟩
  · rw [hnext]
    exact h.started
  · rw [hview, hview, h.view]
  · rw [hstorage, hstorage]
    exact h.storage

theorem lockstep_save (h : Same id s t) : Effect.save.Lockstep (Same id) s t := by
  have hfiles : t.files = s.files := Shell.View.files_eq h.view
  have hanswer : (Effect.save.run t).1 = (Effect.save.run s).1 := by
    change (t.storage.save t.files).1 = (s.storage.save s.files).1
    rw [hfiles, h.storage.answer]
  have hsame : Same id (Effect.save.run s).2 (Effect.save.run t).2 := by
    refine ⟨h.started, h.view, ?_⟩
    change (s.storage.save s.files).2.Alike (t.storage.save t.files).2
    rw [hfiles]
    exact h.storage.save s.files
  exact Work.lockstep_of_run hanswer hsame

theorem same_environment (e : Environment) (h : Same id s t) :
    Same id (s.setEnvironment (some id) e) (t.setEnvironment (some id) e) := by
  refine h.map (g := fun v => { v with environment := e }) (fun s => ?_) (fun _ => rfl) fun _ => rfl
  have hget := Shell.environmentOf_setEnvironment s (some id) e
  exact congrArg (fun e => { s.view (some id) with environment := e }) hget

theorem steadfast : Steadfast (Same id) (some id) where
  view h := h.view
  cwd p h := h.map (f := fun s => { s with files := { s.files with cwd := p } })
    (g := fun v => { v with files := { v.files with cwd := p } }) (fun _ => rfl) (fun _ => rfl)
    fun _ => rfl
  environment e h _ := same_environment e h
  aliases a h := h.map (f := fun s => { s with aliases := a })
    (g := fun v => { v with aliases := a }) (fun _ => rfl) (fun _ => rfl) fun _ => rfl
  accounts a h := h.map (f := fun s => { s with accounts := a })
    (g := fun v => { v with accounts := a }) (fun _ => rfl) (fun _ => rfl) fun _ => rfl
  jobs {_ _ j} h _ hj := ⟨hj ▸ h.started, congrArg (fun v => { v with jobs := j }) h.view, h.storage⟩
  attached h := h.storage.1
  save := lockstep_save

theorem malleable : Malleable (Same id) (some id) where
  view h := h.view
  files fs h := h.map (f := fun s => { s with files := fs })
    (g := fun v => { v with files := fs }) (fun _ => rfl) (fun _ => rfl) fun _ => rfl
  accounts a h := h.map (f := fun s => { s with accounts := a })
    (g := fun v => { v with accounts := a }) (fun _ => rfl) (fun _ => rfl) fun _ => rfl

theorem lockstep_builtin {b : Builtin} {c : Context} (hc : c.caller.job = some id)
    (hb : Note.usesForeground (.command (.builtin b) c) = false) (hs : Same id s t) :
    (b.run c).Lockstep (Same id) s t := by
  obtain ⟨hswitch, hhistory⟩ : b.switchesUser = false ∧ b ≠ .history := by
    simpa [Note.usesForeground] using hb
  exact Builtin.lockstep_run (hc ▸ steadfast) (hc ▸ malleable) hs hswitch hhistory

theorem same_startJob (p : Pipeline) (c : Caller) (h : Same id s t) :
    Same id (Execute.startJob p c s).2 (Execute.startJob p c t).2 := by
  have hjobs : t.jobs = s.jobs := Shell.View.jobs_eq h.view
  have hne : s.jobs.next ≠ id := Int.ne_of_gt h.started
  have hview (s : Shell) (hne : s.jobs.next ≠ id) :
      (Execute.startJob p c s).2.view (some id) =
        { s.view (some id) with jobs := (s.jobs.spawn p.describe).2 } := by
    have hkept : (Execute.startJob p c s).2.environmentOf (some id) = s.environmentOf (some id) := by
      simp [Execute.startJob, JobTable.spawn, JobTable.nextId, Shell.environmentOf, hne]
    exact congrArg (fun e => { s.view (some id) with
      jobs := (s.jobs.spawn p.describe).2, environment := e }) hkept
  refine ⟨Int.lt_trans h.started (Int.lt_succ s.jobs.next), ?_, h.storage⟩
  rw [hview s hne, hview t (hjobs ▸ hne), h.view, hjobs]

theorem lawful (huser : user ≠ "") : (discipline user id).Lawful where
  script _ h := h
  orSession {c _ _ _} hc _ := by
    have hnamed : c.user.isEmpty = false := by
      rw [hc.1]
      simpa using huser
    have hself (s : Shell) : c.orSession s = c := by simp [Caller.orSession, hnamed]
    rw [hself, hself]
    exact ⟨rfl, hc⟩
  view hc h := hc.2 ▸ h.view
  unsaved _ := .inr fun _ _ _ h => h
  save := lockstep_save
  notify line h := h.map (f := Shell.notify line) (g := fun v => v) (fun _ => rfl) (fun _ => rfl)
    fun _ => rfl
  record f h := h.map (f := fun s => { s with history := f s.history }) (g := fun v => v)
    (fun _ => rfl) (fun _ => rfl) fun _ => rfl
  environment e hc h := by
    rw [hc.2]
    exact same_environment e h
  launch p _ _ h := same_startJob p _ h
  next _ h := h
  builtin hc hnext h :=
    Discipline.parallel_of_lockstep (lockstep_builtin hc.2 hnext h) fun _ _ h => h
  redirect hc hnext h := Work.Parallel.mono
    (Malleable.lockstep_writeRedirect (hc.2 ▸ malleable) h _ _) (fun _ _ h => h)
    fun _ _ _ _ h => h.2

theorem same_refl (s : Shell) (hid : id < s.jobs.next) : Same id s s :=
  ⟨hid, rfl, Storage.alike_refl _⟩

/-- What the others do, and what a job is given in both runs, makes its states the same again. -/
theorem same_of_others {a b : Shell} (h : Same id s t)
    (ha : Relation.ReflTransGen (Isolation.Others id) s a)
    (hb : Relation.ReflTransGen (Isolation.Others id) t b) (hab : a.GivesSame b) : Same id a b := by
  have hjobs : t.jobs = s.jobs := Shell.View.jobs_eq h.view
  obtain ⟨hheld, hnext⟩ := Isolation.sameFor_of_others ha h.started
  obtain ⟨hheld', -⟩ := Isolation.sameFor_of_others hb (hjobs ▸ h.started)
  have hst : t.held id = s.held id := congrArg (fun v => ({ v with } : Shell.Held)) h.view
  have heq : b.held id = a.held id := by rw [hheld, hheld', hst]
  have hview (s : Shell) : s.view (some id) =
      { s.held id, s.shared with files := { s.shared with cwd := s.files.cwd } } := rfl
  refine ⟨Int.lt_of_lt_of_le h.started hnext, ?_, hab.1.2⟩
  rw [hview, hview, heq, hab.1.1, hab.2]

def routine (p : Pipeline) (c : Caller) (s : Shell) : Routine Shell (Outcome String) :=
  (Shell.jobRoutine ⟨s.jobs.next, p, { c with job := some s.jobs.next }⟩).2

def turns (p : Pipeline) (c : Caller) (s : Shell) (starts : List (Shell × Bool)) :
    List (Stint Shell Note) :=
  Step.stints (some fun t _ => routine p c s t) starts

def NotedAlike (user : String) (id : JobId) : List (Shell × Note) → List (Shell × Note) → Prop :=
  List.Forall₂ fun a b => b.2 = a.2 ∧ a.2.caller.user = user ∧ a.2.caller.job = some id ∧
    b.1.environmentOf (some id) = a.1.environmentOf (some id)

theorem notedAlike_of_along {noted noted' : List (Shell × Note)}
    (h : Step.Along (discipline user id).pact () noted noted' s t)
    (hown : ∀ n ∈ noted, n.2.usesForeground = false) : NotedAlike user id noted noted' := by
  induction noted generalizing noted' with
  | nil =>
    cases noted' with
    | nil => exact .nil
    | cons _ _ => cases h
  | cons n rest ih =>
    cases noted' with
    | nil => cases h
    | cons n' rest' =>
      obtain ⟨heq, ⟨hmine, -⟩, hsame, hrest⟩ := h
      refine .cons ⟨heq, hmine.1, hmine.2, Shell.View.environmentOf_eq hsame.view⟩ ?_
      exact ih (hrest () (hown n (List.mem_cons_self ..)))
        fun n hn => hown n (List.mem_cons_of_mem _ hn)

/-- Between the turns of a job its variables stay. -/
theorem linked_environment {Ts : List (Stint Shell Note)} (hid : id < s.jobs.next)
    (hTs : ∀ T ∈ Ts, id < T.finish.jobs.next)
    (h : Step.Linked (Relation.ReflTransGen (Isolation.Others id)) s Ts) :
    Step.Linked (fun s t => t.environmentOf (some id) = s.environmentOf (some id)) s Ts := by
  induction Ts generalizing s with
  | nil => trivial
  | cons T Ts ih =>
    refine ⟨congrArg Shell.Held.environment (Isolation.sameFor_of_others h.1 hid).1, ?_⟩
    exact ih (hTs T (List.mem_cons_self ..)) (fun T hT => hTs T (List.mem_cons_of_mem _ hT)) h.2

/-- What a job notes, on whose behalf and with which variables, does not depend on what others do,
as long as it is given the same. Its variables start as a copy of its caller's, and stay between its
turns. -/
theorem same_turns (p : Pipeline) (c : Caller) (s : Shell) (hc : c.user ≠ "")
    {starts starts' : List (Shell × Bool)}
    (hothers : Step.Linked (Relation.ReflTransGen (Isolation.Others s.jobs.next))
      (Execute.startJob p c s).2 (turns p c s starts))
    (hothers' : Step.Linked (Relation.ReflTransGen (Isolation.Others s.jobs.next))
      (Execute.startJob p c s).2 (turns p c s starts'))
    (hgiven : List.Forall₂ (fun a b => b.2 = a.2 ∧ a.1.GivesSame b.1) starts starts')
    (hown : ∀ T ∈ turns p c s starts, ∀ n ∈ T.noted, n.2.usesForeground = false) :
    List.Forall₂ (fun T T' => NotedAlike c.user s.jobs.next T.noted T'.noted)
      (turns p c s starts) (turns p c s starts') ∧
    (Execute.startJob p c s).2.environmentOf (some s.jobs.next) =
      .ofFrame (s.environmentOf c.job).top ∧
    Step.Linked
      (fun s' t' => t'.environmentOf (some s.jobs.next) = s'.environmentOf (some s.jobs.next))
      (Execute.startJob p c s).2 (turns p c s starts) := by
  have hid : s.jobs.next < (Execute.startJob p c s).2.jobs.next := Int.lt_succ s.jobs.next
  have hgo : Step.GoOn (discipline c.user s.jobs.next).pact
      (Run.Ending (discipline c.user s.jobs.next).same fun v _ =>
        (discipline c.user s.jobs.next).same v)
      (some fun t _ => routine p c s t) (some fun t _ => routine p c s t) :=
    .some fun v a b _ hs =>
      (lawful hc).steady_runPipeline (lawful hc).runs_execute p ⟨rfl, rfl⟩ hs
  have hturns := hgo.forall₂_stints (v := ()) (fun _ _ _ _ => Discipline.same_of_ending)
    (same_refl _ hid) (fun _ _ _ _ _ hst ha hb hab => ⟨(), same_of_others hst ha hb hab⟩)
    hothers hothers' hgiven fun T hT _ _ _ => ⟨(), Step.knows_self (hown T hT)⟩
  have hboth := (List.forall₂_and_left _ _).mpr ⟨hown, hturns⟩
  have hstarted : List.Forall₂ (fun T _ => s.jobs.next < T.finish.jobs.next ∧ True)
      (turns p c s starts) (turns p c s starts') := by
    refine hboth.imp ?_
    intro T T' ⟨hown, ⟨v, hv⟩, halong⟩
    exact ⟨((halong v hv).finish (Step.knows_self hown)).started, trivial⟩
  have hnext := ((List.forall₂_and_left _ _).mp hstarted).1
  refine ⟨hboth.imp ?_, ?_, linked_environment hid hnext hothers⟩
  · intro T T' ⟨hown, ⟨v, hv⟩, halong⟩
    exact notedAlike_of_along (halong v hv) hown
  · simp [Execute.startJob, JobTable.spawn, JobTable.nextId, Shell.environmentOf]

/-- A job of one user's that sleeps, and is resumed after root has become another user or not. -/
def sleeper : Pipeline :=
  { segments := [⟨"sleep", ["1"]⟩, ⟨"whoami", []⟩], background := true }

def household : Shell :=
  { Shell.bare (Catalogue.jobs ++ Catalogue.users) with
    accounts := { users := [("bob", { name := "bob", primaryGroup := "bob" })] } }

def started : Shell := (Execute.startJob sleeper { user := "ada" } household).2

def asleep : Shell := Step.finish (routine sleeper { user := "ada" } household started)

def switched : Shell := Step.finish (Shell.execute "su bob" { user := "root" } true asleep)

theorem same_turns_su :
    asleep.user = "root" ∧ switched.user = "bob" ∧
    (turns sleeper { user := "ada" } household
      [(started, false), (asleep, false)]).map (·.noted.length) = [1, 1] ∧
    List.Forall₂ (fun T T' => NotedAlike "ada" 1 T.noted T'.noted)
      (turns sleeper { user := "ada" } household [(started, false), (asleep, false)])
      (turns sleeper { user := "ada" } household [(started, false), (switched, false)]) := by
  refine ⟨by decide +kernel, by decide +kernel, by decide +kernel, ?_⟩
  have hsu : asleep.SharesSame switched :=
    Sharing.sharesSame_of_line "su bob" { user := "root" } true asleep rfl (by decide +kernel)
      (by decide +kernel)
  have hgiven : asleep.GivesSame switched := ⟨hsu, by decide +kernel⟩
  refine (same_turns sleeper { user := "ada" } household (by decide) ?_ ?_ ?_ (by decide +kernel)).1
  · refine Step.linked_cons .refl fun g hg => Step.linked_cons ?_ fun _ _ => Step.linked_nil _ _
    rw [← Option.some.inj hg]
    exact .refl
  · refine Step.linked_cons .refl fun g hg => Step.linked_cons ?_ fun _ _ => Step.linked_nil _ _
    rw [← Option.some.inj hg]
    exact .single (.turn (.start (.line "su bob" (by decide) true)) asleep)
  · refine .cons ⟨rfl, ⟨rfl, Storage.alike_refl _⟩, rfl⟩ (.cons ⟨rfl, ?_⟩ .nil)
    dsimp only
    exact hgiven

end Independence
end MemShell
