import MemShell.Proofs.Endings
import MemShell.Proofs.Jobs.Moves
import MemShell.Proofs.Shell.Discipline
set_option autoImplicit false

namespace MemShell

namespace Builtin

def changesTree : Builtin → Bool
  | touch | mkdir | rm | rmdir | mv | cp | chmod | chown | chgrp | useradd => true
  | _ => false

def switchesUser : Builtin → Bool
  | su | logout | login => true
  | _ => false

end Builtin

/-- A relation of states that survives what most commands of a job do. -/
structure Steadfast (R : Shell → Shell → Prop) (job : Option JobId) : Prop where
  view {s t : Shell} : R s t → t.view job = s.view job
  cwd {s t : Shell} (p : Place) : R s t →
    R { s with files := { s.files with cwd := p } } { t with files := { t.files with cwd := p } }
  environment {s t : Shell} (e : Environment) : R s t → e.below = (s.environmentOf job).below →
    R (s.setEnvironment job e) (t.setEnvironment job e)
  aliases {s t : Shell} (a : Aliases) : R s t → R { s with aliases := a } { t with aliases := a }
  accounts {s t : Shell} (a : Accounts) : R s t →
    R { s with accounts := a } { t with accounts := a }
  jobs {s t : Shell} {j : JobTable} : R s t → s.jobs.Move j → j.next = s.jobs.next →
    R { s with jobs := j } { t with jobs := j }
  attached {s t : Shell} : R s t → t.storage.attached = s.storage.attached
  save {s t : Shell} : R s t → Effect.save.Lockstep R s t

structure Malleable (R : Shell → Shell → Prop) (job : Option JobId) : Prop where
  view {s t : Shell} : R s t → t.view job = s.view job
  files {s t : Shell} (fs : FileSystem) : R s t → R { s with files := fs } { t with files := fs }
  accounts {s t : Shell} (a : Accounts) : R s t →
    R { s with accounts := a } { t with accounts := a }

namespace Effect
variable {α : Type} {R : Shell → Shell → Prop} {job : Option JobId} {s t : Shell}

theorem lockstep_readFiles (hview : t.view job = s.view job) (hs : R s t) (user : String)
    (f : FileSystem → Actor → Except Fault α) : (readFiles user f).Lockstep R s t := by
  have hanswer : f t.files (t.actor user) = f s.files (s.actor user) := by
    rw [Shell.View.files_eq hview, Shell.View.actor_eq hview]
  refine Work.parallel_ask (R := fun v w => w = v) ?_ hs fun _ _ _ _ hw => ⟨hw, hs⟩
  rw [hanswer]
  exact .self fun _ _ => rfl

theorem lockstep_changeFiles (hview : t.view job = s.view job) (user : String) (f : Actor → Update α)
    (hfiles : R { s with files := ((f (s.actor user)).run s.files).2 }
      { t with files := ((f (s.actor user)).run s.files).2 }) :
    (changeFiles user f).Lockstep R s t := by
  refine Work.parallel_get_bind ?_
  simp only [Shell.View.files_eq hview, Shell.View.actor_eq hview]
  exact Work.parallel_set_bind (Work.lockstep_lift hfiles)

end Effect

theorem FileSystem.run_enter (a : Actor) (fs : FileSystem) (path : String) :
    ∃ p, ((enter a path).run fs).2 = { fs with cwd := p } := by
  have hends : (enter a path).Ends fs (fun fs' => ∃ p, fs' = { fs with cwd := p })
      fun _ fs' => ∃ p, fs' = { fs with cwd := p } := by
    refine Work.ends_get_bind ?_
    refine Work.ends_ask_bind ⟨fs.cwd, rfl⟩ fun d _ => ?_
    refine Work.ends_lift_bind ⟨fs.cwd, rfl⟩ fun _ _ => ?_
    exact Work.ends_change ⟨_, rfl⟩
  exact hends.state

namespace Steadfast
open Builtins
variable {R : Shell → Shell → Prop} {s t : Shell} {c : Context}

theorem lockstep_requireRoot (hs : R s t) : (requireRoot c).Lockstep R s t := by
  unfold requireRoot
  split
  · exact Work.lockstep_pure hs
  · exact Work.lockstep_throw hs

theorem lockstep_jobId (hs : R s t) (text : String) : (jobId c text).Lockstep R s t := by
  unfold jobId
  split
  · exact Work.lockstep_pure hs
  · exact Work.lockstep_throw hs

section
variable (h : Steadfast R c.caller.job) (hs : R s t)
include h hs

theorem lockstep_pwd : (pwd c).Lockstep R s t := by
  refine Work.parallel_get_bind ?_
  rw [Shell.View.files_eq (h.view hs)]
  exact Work.lockstep_pure hs

theorem lockstep_listPath (several : Bool) (path : String) :
    (listPath c several path).Lockstep R s t := by
  refine (Effect.lockstep_readFiles (h.view hs) hs _ _).andThen fun entries s t hs => ?_
  exact (Work.lockstep_lift hs).andThen fun text s t hs => Work.lockstep_pure hs

theorem lockstep_ls : (ls c).Lockstep R s t := by
  refine Work.parallel_get_bind ?_
  rw [Shell.View.files_eq (h.view hs)]
  refine (Work.lockstep_mapM _ (fun path s t hs => h.lockstep_listPath hs _ path) hs).andThen ?_
  exact fun texts s t hs => Work.lockstep_pure hs

theorem lockstep_tree : (tree c).Lockstep R s t := by
  refine (Effect.lockstep_readFiles (h.view hs) hs _ _).andThen fun text s t hs => ?_
  exact Work.lockstep_pure hs

theorem lockstep_checkedSources : (checkedSources c).Lockstep R s t := by
  unfold checkedSources
  split
  · exact Work.lockstep_pure hs
  · refine Work.lockstep_mapM _ (fun p s t hs => ?_) hs
    refine (Effect.lockstep_readFiles (h.view hs) hs _ _).andThen fun text s t hs => ?_
    exact Work.lockstep_pure hs

theorem lockstep_namedSources (files : List String) : (namedSources c files).Lockstep R s t := by
  unfold namedSources
  split
  · exact Work.lockstep_pure hs
  · refine Work.lockstep_mapM _ (fun f s t hs => ?_) hs
    refine (Effect.lockstep_readFiles (h.view hs) hs _ _).andThen fun text s t hs => ?_
    exact Work.lockstep_pure hs

theorem lockstep_cat : (cat c).Lockstep R s t := by
  exact (h.lockstep_checkedSources hs).andThen fun _ s t hs => Work.lockstep_pure hs

theorem lockstep_wc : (wc c).Lockstep R s t := by
  exact (h.lockstep_checkedSources hs).andThen fun _ s t hs => Work.lockstep_pure hs

theorem lockstep_sort : (sort c).Lockstep R s t := by
  exact (h.lockstep_checkedSources hs).andThen fun _ s t hs => Work.lockstep_pure hs

theorem lockstep_cutSources (e : End) : (cutSources c e).Lockstep R s t := by
  refine (Work.lockstep_lift hs).andThen fun cut s t hs => ?_
  exact (h.lockstep_checkedSources hs).andThen fun _ s t hs => Work.lockstep_pure hs

theorem lockstep_grep : (grep c).Lockstep R s t := by
  unfold grep
  dsimp only
  split
  · exact Work.lockstep_throw hs
  · exact (h.lockstep_namedSources hs _).andThen fun _ s t hs => Work.lockstep_pure hs

theorem lockstep_enter (path : String) :
    (Effect.changeFiles c.user fun a => FileSystem.enter a path).Lockstep R s t := by
  refine Effect.lockstep_changeFiles (h.view hs) _ _ ?_
  obtain ⟨p, hp⟩ := FileSystem.run_enter (s.actor c.user) s.files path
  rw [hp]
  have := h.cwd p hs
  rwa [Shell.View.files_eq (h.view hs)] at this

theorem lockstep_cd : (cd c).Lockstep R s t := by
  refine Work.parallel_get_bind ?_
  rw [Shell.View.environmentOf_eq (h.view hs)]
  exact (h.lockstep_enter hs _).andThen fun _ s t hs => Work.lockstep_pure hs

theorem lockstep_env : (env c).Lockstep R s t := by
  refine Work.parallel_get_bind ?_
  rw [Shell.View.environmentOf_eq (h.view hs)]
  exact Work.lockstep_pure hs

theorem lockstep_setVariable : (setVariable c).Lockstep R s t := by
  refine Work.parallel_get_bind ?_
  rw [Shell.View.environmentOf_eq (h.view hs)]
  dsimp only
  split
  · exact Work.lockstep_pure hs
  split
  · next e he =>
    have hbelow := Environment.below_set he
    exact Work.parallel_modify_bind (Work.lockstep_pure (h.environment e hs hbelow))
  · exact Work.lockstep_pure hs

theorem lockstep_unset : (unset c).Lockstep R s t := by
  refine Work.parallel_modify_bind (Work.lockstep_pure ?_)
  rw [Shell.changeEnvironment, Shell.changeEnvironment, Shell.View.environmentOf_eq (h.view hs)]
  exact h.environment _ hs (Environment.below_foldl_unset _ _)

theorem lockstep_defineAlias : (defineAlias c).Lockstep R s t := by
  refine Work.parallel_get_bind ?_
  simp only [Shell.View.aliases_eq (h.view hs)]
  split
  · exact Work.lockstep_pure hs
  split
  · refine Work.parallel_lift_bind rfl hs fun aliases _ => ?_
    exact Work.parallel_set_bind (Work.lockstep_pure (h.aliases aliases hs))
  split
  · exact Work.lockstep_pure hs
  · exact Work.lockstep_throw hs

theorem lockstep_unalias : (unalias c).Lockstep R s t := by
  refine (Work.lockstep_mapM _ (fun name s t hs => ?_) hs).andThen fun removed s t hs => ?_
  · refine Work.parallel_get_bind ?_
    simp only [Shell.View.aliases_eq (h.view hs)]
    exact Work.parallel_set_bind (Work.lockstep_pure (h.aliases _ hs))
  · split
    · exact Work.lockstep_throw hs
    · exact Work.lockstep_pure hs

theorem lockstep_groupadd : (groupadd c).Lockstep R s t := by
  refine (lockstep_requireRoot hs).andThen fun _ s t hs => ?_
  refine Work.parallel_get_bind ?_
  rw [Shell.View.accounts_eq (h.view hs)]
  refine Work.parallel_lift_bind rfl hs fun accounts _ => ?_
  exact Work.parallel_modify_bind (Work.lockstep_pure (h.accounts accounts hs))

theorem lockstep_usermod : (usermod c).Lockstep R s t := by
  refine (lockstep_requireRoot hs).andThen fun _ s t hs => ?_
  simp only
  split
  · exact Work.lockstep_throw hs
  · refine Work.parallel_get_bind ?_
    rw [Shell.View.accounts_eq (h.view hs)]
    refine Work.parallel_lift_bind rfl hs fun accounts _ => ?_
    exact Work.parallel_modify_bind (Work.lockstep_pure (h.accounts accounts hs))

theorem lockstep_groups : (groups c).Lockstep R s t := by
  refine Work.parallel_get_bind ?_
  simp only [Shell.View.accounts_eq (h.view hs)]
  exact Work.parallel_lift_bind rfl hs fun _ _ => Work.lockstep_pure hs

theorem lockstep_ps : (ps c).Lockstep R s t := by
  refine Work.parallel_get_bind ?_
  simp only [Shell.View.jobs_eq (h.view hs)]
  split
  · exact Work.lockstep_pure hs
  · exact Work.lockstep_pure hs

theorem lockstep_changeJobs {f : JobTable → Except Fault JobTable}
    (hf : ∀ j j', f j = .ok j' → j.Move j' ∧ j'.next = j.next) : (changeJobs c f).Lockstep R s t := by
  refine Work.parallel_get_bind ?_
  rw [Shell.View.jobs_eq (h.view hs)]
  split
  · next j hj =>
    obtain ⟨hmove, hnext⟩ := hf _ _ hj
    exact Work.parallel_set ⟨rfl, h.jobs hs hmove hnext⟩
  · exact Work.lockstep_throw hs

theorem lockstep_kill : (kill c).Lockstep R s t := by
  refine (lockstep_jobId hs _).andThen fun id s t hs => ?_
  refine (h.lockstep_changeJobs hs fun j j' hj => ⟨.kill hj, JobTable.next_kill hj⟩).andThen
    fun _ s t hs => Work.lockstep_pure hs

theorem lockstep_postMessage : (postMessage c).Lockstep R s t := by
  refine (lockstep_jobId hs _).andThen fun id s t hs => ?_
  refine (h.lockstep_changeJobs hs fun j j' hj => ⟨.post hj, JobTable.next_post hj⟩).andThen
    fun _ s t hs => Work.lockstep_pure hs

theorem lockstep_readMessages : (readMessages c).Lockstep R s t := by
  unfold readMessages
  split
  · exact Work.lockstep_throw hs
  · refine Work.parallel_get_bind ?_
    simp only [Shell.View.jobs_eq (h.view hs)]
    exact Work.parallel_set_bind (Work.lockstep_pure (h.jobs hs (.drain _ _) rfl))

theorem lockstep_help : (help c).Lockstep R s t := by
  refine Work.parallel_get_bind ?_
  simp only [Shell.View.commands_eq (h.view hs)]
  split
  · split
    · exact Work.lockstep_throw hs
    · exact Work.lockstep_pure hs
  · exact Work.lockstep_pure hs

theorem lockstep_save : (Builtins.save c).Lockstep R s t := by
  refine Work.parallel_get_bind ?_
  rw [h.attached hs]
  split
  · exact Work.lockstep_throw hs
  · refine (h.save hs).andThen fun saved s t hs => ?_
    split
    · exact Work.lockstep_pure hs
    · exact Work.lockstep_pure hs

/-- The commands that only read, or change what a job shares with others by their words alone. -/
theorem lockstep_run {b : Builtin} (htree : b.changesTree = false)
    (huser : b.switchesUser = false) (hhistory : b ≠ .history) : (b.run c).Lockstep R s t := by
  cases b with
  | pwd => exact h.lockstep_pwd hs
  | cd => exact h.lockstep_cd hs
  | ls => exact h.lockstep_ls hs
  | tree => exact h.lockstep_tree hs
  | echo => exact Work.lockstep_pure hs
  | cat => exact h.lockstep_cat hs
  | wc => exact h.lockstep_wc hs
  | head => exact h.lockstep_cutSources hs .first
  | tail => exact h.lockstep_cutSources hs .last
  | grep => exact h.lockstep_grep hs
  | sort => exact h.lockstep_sort hs
  | set => exact h.lockstep_setVariable hs
  | unset => exact h.lockstep_unset hs
  | env => exact h.lockstep_env hs
  | defineAlias => exact h.lockstep_defineAlias hs
  | unalias => exact h.lockstep_unalias hs
  | whoami => exact Work.lockstep_pure hs
  | groupadd => exact h.lockstep_groupadd hs
  | usermod => exact h.lockstep_usermod hs
  | groups => exact h.lockstep_groups hs
  | ps => exact h.lockstep_ps hs
  | kill => exact h.lockstep_kill hs
  | postMessage => exact h.lockstep_postMessage hs
  | readMessages => exact h.lockstep_readMessages hs
  | help => exact h.lockstep_help hs
  | yes => exact Work.lockstep_pure hs
  | no => exact Work.lockstep_pure hs
  | save => exact h.lockstep_save hs
  | history => exact absurd rfl hhistory
  | touch | mkdir | rm | rmdir | mv | cp | chmod | chown | chgrp | useradd => cases htree
  | su | logout | login => cases huser

end

end Steadfast

namespace Malleable
open Builtins
variable {R : Shell → Shell → Prop} {s t : Shell} {c : Context}

def Changes (R : Shell → Shell → Prop) (x : Effect (Result String)) (s t : Shell) : Prop :=
  x.Parallel x s t R fun r r' s t => r' = r ∧ R s t ∧ (r.success && r.modified) = true

theorem changes_withTwo {f : String → String → Effect (Result String)} (hs : R s t)
    (hf : ∀ x y, Changes R (f x y) s t) : Changes R (withTwo c f) s t := by
  unfold withTwo
  split
  · exact hf _ _
  · exact Work.parallel_pure ⟨rfl, hs, rfl⟩

section
variable (h : Malleable R c.caller.job) (hs : R s t)
include h hs

theorem lockstep_changeFiles {α : Type} (user : String) (f : Actor → Update α) :
    (Effect.changeFiles user f).Lockstep R s t :=
  Effect.lockstep_changeFiles (h.view hs) user f (h.files _ hs)

theorem changes_changeOnce (f : Actor → Update Place) : Changes R (changeOnce c f) s t := by
  refine Work.Parallel.bind (h.lockstep_changeFiles hs _ f) fun _ _ s t hs => ?_
  exact Work.parallel_pure ⟨rfl, hs.2, rfl⟩

theorem changes_changeEach (f : String → Actor → Update Place) :
    Changes R (changeEach c f) s t := by
  have hall : (c.args.forM fun path => do
      let _ ← Effect.changeFiles c.user (f path)).Lockstep R s t :=
    Work.lockstep_forM _ (fun path s t hs => (h.lockstep_changeFiles hs _ _).andThen
      fun _ s t hs => Work.lockstep_pure hs) hs
  refine Work.Parallel.bind hall fun _ _ s t hs => ?_
  exact Work.parallel_pure ⟨rfl, hs.2, rfl⟩

theorem lockstep_removePath (path : String) : (removePath c path).Lockstep R s t := by
  refine (h.lockstep_changeFiles hs _ _).outcome.andThen fun r s t hs => ?_
  cases r with
  | ok _ => exact Work.lockstep_pure hs
  | error f =>
    dsimp only
    split
    · exact Work.lockstep_throw hs
    split
    · exact Work.lockstep_pure hs
    · exact Work.lockstep_throw hs

theorem changes_rm : Changes R (rm c) s t := by
  have hall := Work.lockstep_forM c.args (fun path s t hs => h.lockstep_removePath hs path) hs
  refine Work.Parallel.bind hall fun _ _ s t hs => ?_
  exact Work.parallel_pure ⟨rfl, hs.2, rfl⟩

theorem lockstep_removeEmpty (p : CheckedPath) : (removeEmpty c p).Lockstep R s t := by
  refine Work.parallel_get_bind ?_
  rw [Shell.View.files_eq (h.view hs)]
  split
  · exact Work.lockstep_throw hs
  · exact h.lockstep_changeFiles hs _ _

theorem changes_rmdir : Changes R (rmdir c) s t := by
  have hall := Work.lockstep_forM c.paths (fun p s t hs => h.lockstep_removeEmpty hs p) hs
  refine Work.Parallel.bind hall fun _ _ s t hs => ?_
  exact Work.parallel_pure ⟨rfl, hs.2, rfl⟩

theorem changes_useradd : Changes R (useradd c) s t := by
  refine Work.Parallel.bind (Steadfast.lockstep_requireRoot hs) fun _ _ s t hs => ?_
  replace hs := hs.2
  refine Work.parallel_get_bind ?_
  rw [Shell.View.accounts_eq (h.view hs)]
  refine Work.parallel_lift_bind rfl hs fun accounts _ => ?_
  refine Work.parallel_modify_bind ?_
  refine Work.Parallel.bind (h.lockstep_changeFiles (h.accounts accounts hs) _ _)
    fun home home' s t hs => ?_
  obtain ⟨rfl, hs⟩ := hs
  let owned (s : Shell) : FileSystem := s.files.modify home' (Node.mapAttrs fun at' =>
    { at' with
      owner := c.args.headD ""
      group := s.accounts.primaryGroup (c.args.headD "")
      mode := Mode.ofPrivateDirectory })
  have howned : owned t = owned s := by
    simp only [owned, Shell.View.files_eq (h.view hs), Shell.View.accounts_eq (h.view hs)]
  have hfiles := h.files (owned s) hs
  refine Work.parallel_modify_bind (Work.parallel_pure ⟨rfl, ?_, rfl⟩)
  change R { s with files := owned s } { t with files := owned t }
  rwa [howned]

theorem changes_run {b : Builtin} (hb : b.changesTree = true) : Changes R (b.run c) s t := by
  cases b with
  | touch => exact h.changes_changeEach hs _
  | mkdir => exact h.changes_changeEach hs _
  | rm => exact h.changes_rm hs
  | rmdir => exact h.changes_rmdir hs
  | mv => exact changes_withTwo hs fun _ _ => h.changes_changeOnce hs _
  | cp => exact changes_withTwo hs fun _ _ => h.changes_changeOnce hs _
  | chmod => exact changes_withTwo hs fun _ _ => h.changes_changeOnce hs _
  | chown => exact changes_withTwo hs fun _ _ => h.changes_changeOnce hs _
  | chgrp => exact changes_withTwo hs fun _ _ => h.changes_changeOnce hs _
  | useradd => exact h.changes_useradd hs
  | _ => cases hb

end

theorem lockstep_run {b : Builtin} (h : Malleable R c.caller.job) (hs : R s t)
    (hb : b.changesTree = true) : (b.run c).Lockstep R s t :=
  (h.changes_run hs hb).mono (fun _ _ h => h) fun _ _ _ _ h => ⟨h.1, h.2.1⟩

theorem lockstep_writeRedirect {caller : Caller} (h : Malleable R caller.job) (hs : R s t)
    (target : Redirect) (text : String) :
    (Execute.writeRedirect caller target text).Lockstep R s t := by
  refine Work.parallel_get_bind ?_
  rw [Shell.View.files_eq (h.view hs)]
  dsimp only
  split
  · exact Work.lockstep_throw hs
  · have hchange {α : Type} {s t : Shell} (hs : R s t) (f : Actor → Update α) :
        (Effect.changeFiles caller.user f).Lockstep R s t :=
      Effect.lockstep_changeFiles (h.view hs) _ f (h.files _ hs)
    refine (hchange hs _).andThen fun parent s t hs => ?_
    refine (Effect.lockstep_readFiles (h.view hs) hs _ _).andThen fun _ s t hs => ?_
    exact (hchange hs _).andThen fun _ s t hs => Work.lockstep_pure hs

end Malleable

theorem Builtin.lockstep_run {R : Shell → Shell → Prop} {s t : Shell} {c : Context} {b : Builtin}
    (hsteadfast : Steadfast R c.caller.job) (hmalleable : Malleable R c.caller.job) (hs : R s t)
    (hswitch : b.switchesUser = false) (hhistory : b ≠ .history) : (b.run c).Lockstep R s t := by
  by_cases htree : b.changesTree = true
  · exact hmalleable.lockstep_run hs htree
  · exact hsteadfast.lockstep_run hs (by simpa using htree) hswitch hhistory

namespace Builtins
variable {s : Shell} {c : Context}

/-- A change of the users and the variables of the foreground, by which it gains and loses no frame. -/
def Switched (s t : Shell) : Prop :=
  ∃ session environment cwd, environment.depth = s.environment.depth ∧
    t = { s with session, environment, files := { s.files with cwd } }

theorem switched_self (s : Shell) : Switched s s :=
  ⟨s.session, s.environment, s.files.cwd, rfl, rfl⟩

theorem enterHome_eq (s : Shell) :
    ∃ cwd, s.enterHome = { s with files := { s.files with cwd } } := by
  unfold Shell.enterHome
  obtain ⟨p, hp⟩ :=
    FileSystem.run_enter (s.actor s.user) s.files (s.environment.get "HOME")
  dsimp only
  split
  · split
    · next hrun =>
      rw [hrun] at hp
      exact ⟨p, by rw [← hp]⟩
    · exact ⟨[], rfl⟩
  · exact ⟨[], rfl⟩

theorem switched_enterHome (session : Session) {environment : Environment}
    (hdepth : environment.depth = s.environment.depth) :
    Switched s { s with session, environment }.enterHome := by
  obtain ⟨cwd, h⟩ := enterHome_eq { s with session, environment }
  exact ⟨session, environment, cwd, hdepth, h⟩

theorem depth_pop {session session' : Session} {config : Config} {e e' : Environment} {left : String}
    (h : session.pop config e = .ok (left, session', e')) : e'.depth = e.depth := by
  unfold Session.pop at h
  split at h
  · cases h
  · cases h
    exact Environment.depth_rebase _ _

theorem ends_requireUser (user : String) :
    (requireUser c user).Ends s (Switched s) fun _ => (· = s) := by
  refine Work.ends_get_bind ?_
  split
  · exact Work.ends_pure rfl
  · exact Work.ends_throw (switched_self s)

theorem ends_authenticate (user : String) (password : Option String) :
    (authenticate c user password).Ends s (Switched s) fun _ => (· = s) := by
  refine (ends_requireUser user).bind ?_
  rintro _ _ rfl
  refine Work.ends_get_bind ?_
  refine Work.ends_lift_bind (switched_self _) fun right _ => ?_
  split
  · exact Work.ends_pure rfl
  · exact Work.ends_throw (switched_self _)

def Switches (x : Effect (Result String)) (s : Shell) : Prop :=
  x.Ends s (Switched s) fun r t => r.modified = false ∧ Switched s t

theorem switches_su : Switches (su c) s := by
  unfold Switches su
  dsimp only
  split
  · refine (ends_requireUser _).bind ?_
    rintro _ _ rfl
    exact Work.ends_change_bind ⟨rfl, switched_enterHome _ (Environment.depth_rebase _ _)⟩
  · refine (ends_authenticate _ _).bind ?_
    rintro _ _ rfl
    exact Work.ends_change_bind ⟨rfl, switched_enterHome _ (Environment.depth_rebase _ _)⟩

theorem switches_logout : Switches (logout c) s := by
  refine Work.ends_get_bind ?_
  split
  · next hpop =>
    exact Work.ends_change_bind (g := fun _ => _) ⟨rfl, switched_enterHome _ (depth_pop hpop)⟩
  · exact Work.ends_throw (switched_self s)

theorem switches_login : Switches (login c) s := by
  refine (ends_authenticate _ _).bind ?_
  rintro _ _ rfl
  exact Work.ends_change_bind ⟨rfl, switched_enterHome _ (Environment.depth_rebase _ _)⟩

theorem switches_setVariable (hc : c.caller.job = none) : Switches (setVariable c) s := by
  refine Work.ends_get_bind ?_
  dsimp only
  split
  · exact Work.ends_pure ⟨rfl, switched_self s⟩
  split
  · next e he =>
    rw [hc] at he ⊢
    have hdepth : e.depth = s.environment.depth := by
      rw [Environment.depth, Environment.below_set he]
      rfl
    exact Work.ends_change_bind ⟨rfl, s.session, e, s.files.cwd, hdepth, rfl⟩
  · exact Work.ends_pure ⟨rfl, switched_self s⟩

theorem switches_unset (hc : c.caller.job = none) : Switches (unset c) s := by
  refine Work.ends_change_bind ?_
  rw [hc]
  have hdepth : (c.args.foldl Environment.unset s.environment).depth = s.environment.depth := by
    rw [Environment.depth, Environment.below_foldl_unset, Environment.depth]
  exact ⟨rfl, s.session, _, s.files.cwd, hdepth, rfl⟩

theorem switches_run {b : Builtin} (hb : b.switchesUser = true) : Switches (b.run c) s := by
  cases b with
  | su => exact switches_su
  | logout => exact switches_logout
  | login => exact switches_login
  | _ => cases hb

theorem Switches.state {x : Effect (Result String)} (h : Switches x s) : Switched s (x.run s).2 :=
  (h.mono fun _ _ h => h.2).state

theorem run_history : ∃ history, ((Builtins.history c).run s).2 = { s with history } := by
  have hends : (Builtins.history c).Ends s (fun t => ∃ history, t = { s with history })
      fun _ t => ∃ history, t = { s with history } := by
    refine Work.ends_get_bind ?_
    split
    · exact Work.ends_change_bind (g := fun _ => _) ⟨_, rfl⟩
    · exact Work.ends_pure ⟨s.history, rfl⟩
  exact hends.state

end Builtins

theorem Builtin.lockstep_self {R : Shell → Shell → Prop} {s : Shell} {c : Context} {b : Builtin}
    (hsteadfast : Steadfast R c.caller.job) (hs : R s s)
    (htree : b.changesTree = true → (b.run c).Lockstep R s s)
    (hswitch : b.switchesUser = true → ∀ t, Builtins.Switched s t → R t t)
    (hhistory : ∀ history, R { s with history } { s with history }) : (b.run c).Lockstep R s s := by
  by_cases hb : b.changesTree = true
  · exact htree hb
  by_cases huser : b.switchesUser = true
  · exact Work.lockstep_self (hswitch huser _ (Builtins.switches_run huser).state)
  by_cases hcleared : b = .history
  · subst hcleared
    obtain ⟨history, hrun⟩ := Builtins.run_history (s := s) (c := c)
    refine Work.lockstep_self ?_
    rw [run, hrun]
    exact hhistory history
  · exact hsteadfast.lockstep_run hs (by simpa using hb) (by simpa using huser) hcleared

end MemShell
