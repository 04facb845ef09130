import MemShell.Proofs.Shell.Isolation
set_option autoImplicit false

/-!
# Cancelled jobs

A job that was cancelled starts no further command and does not wait again: it comes to its end in
the turn in which it finds out. On its way there it may still write the output of a pipeline whose
commands have all been started, and start the background pipelines of its lines.
-/
namespace MemShell

namespace Note

def isCommand : Note → Bool
  | command .. => true
  | redirect .. => false

def isRedirect : Note → Bool
  | command .. => false
  | redirect .. => true

def isKill : Note → Bool
  | command (.builtin .kill) _ => true
  | _ => false

def changesFiles : Note → Bool
  | command (.builtin b) _ => b ≠ .kill
  | command .. => false
  | redirect .. => true

theorem changesFiles_of_isKill {e : Note} (h : e.isKill = true) : e.changesFiles = false := by
  unfold isKill at h
  split at h
  · rfl
  · cases h

end Note

namespace Cancellation

def StayCancelled (s t : Shell) : Prop :=
  ∀ id, s.jobs.isCancelled id = true → t.jobs.isCancelled id = true

instance : Trans StayCancelled StayCancelled StayCancelled where
  trans h h' id hid := h' id (h id hid)

instance : IsTrans (Shell × Option Note) fun a b => StayCancelled a.1 b.1 where
  trans _ _ _ h h' := Trans.trans h h'

def Started (s t : Shell) : Prop :=
  ∃ started, t.launches = s.launches ++ started ∧ ∀ l ∈ started, l.pipeline.background = true

structure Since (a : Shell × Option Note) (s : Shell) : Prop where
  cancelled : StayCancelled a.1 s
  files : a.2.any Note.changesFiles = false → s.files = a.1.files
  started : Started a.1 s

def Kept (a : Shell × Option Note) (s t : Shell) : Prop := t = s ∧ Since a s

def discipline (mine : Option JobId → Prop) : Discipline (Shell × Option Note) where
  mine c := mine c.job
  same := Kept
  unsaved := Kept
  next _ s e u := u = (s, some e)

variable {a : Shell × Option Note} {s t : Shell} {id : JobId}

theorem kept_self (a : Shell × Option Note) : Kept a a.1 a.1 :=
  ⟨rfl, fun _ h => h, fun _ => rfl, [], (List.append_nil _).symm, fun _ h => nomatch h⟩

theorem since_self (a : Shell × Option Note) : Since a a.1 := (kept_self a).2

theorem Since.of_eq (h : Since a s) (hjobs : t.jobs = s.jobs)
    (hfiles : a.2.any Note.changesFiles = false → t.files = s.files)
    (hlaunches : t.launches = s.launches) : Since a t := by
  refine ⟨?_, fun ha => (hfiles ha).trans (h.files ha), ?_⟩
  · intro id hid
    rw [hjobs]
    exact h.cancelled id hid
  · obtain ⟨started, hstarted, hbackground⟩ := h.started
    exact ⟨started, hlaunches.trans hstarted, hbackground⟩

theorem Since.startJob {p : Pipeline} (hp : p.background = true) (c : Caller) (h : Since a s) :
    Since a (Execute.startJob p c s).2 := by
  obtain ⟨started, hstarted, hbackground⟩ := h.started
  let launch : Launch := ⟨s.jobs.next, p, { c with job := some s.jobs.next }⟩
  have hlaunches : (Execute.startJob p c s).2.launches = a.1.launches ++ (started ++ [launch]) := by
    rw [← List.append_assoc, ← hstarted]
    rfl
  refine ⟨h.cancelled, h.files, _, hlaunches, fun l hl => ?_⟩
  rcases List.mem_append.mp hl with hl | hl
  · exact hbackground l hl
  · rw [List.mem_singleton.mp hl]
    exact hp

theorem Since.setEnvironment (h : Since a s) (job : Option JobId) (e : Environment) :
    Since a (s.setEnvironment job e) := by cases job <;> exact h.of_eq rfl (fun _ => rfl) rfl

theorem Since.jobs {j : JobTable} (h : Since a s) (hmove : s.jobs.Move j) :
    Since a { s with jobs := j } :=
  ⟨fun id hid => hmove.isCancelled (h.cancelled id hid), h.files, h.started⟩

theorem Since.changed (ha : a.2.any Note.changesFiles = true) (files : FileSystem) (h : Since a s) :
    Since a { s with files } := by
  refine h.of_eq rfl (fun hquiet => ?_) rfl
  rw [ha] at hquiet
  cases hquiet

theorem upheld (ha : a.2.any Note.changesFiles = true) (job : Option JobId) :
    Upheld (Since a) job where
  cwd _ h := h.changed ha _
  environment e h _ := h.setEnvironment job e
  aliases _ h := h.of_eq rfl (fun _ => rfl) rfl
  accounts _ h := h.of_eq rfl (fun _ => rfl) rfl
  jobs h hmove _ := h.jobs hmove
  save h := h.of_eq rfl (fun _ => rfl) rfl

theorem unmoved (ha : a.2.any Note.changesFiles = true) : Unmoved (Since a) where
  files fs h := h.changed ha fs
  accounts _ h := h.of_eq rfl (fun _ => rfl) rfl

theorem state_kill (c : Context) (s : Shell) : ((Builtins.kill c).run s).2 = s ∨
    ∃ jobs, s.jobs.Move jobs ∧ ((Builtins.kill c).run s).2 = { s with jobs } := by
  let E (t : Shell) : Prop := t = s ∨ ∃ jobs, s.jobs.Move jobs ∧ t = { s with jobs }
  have hid : (Builtins.jobId c (c.args.headD "")).Ends s E fun _ t => t = s := by
    unfold Builtins.jobId
    split
    · exact Work.ends_pure rfl
    · exact Work.ends_throw (.inl rfl)
  have hends : (Builtins.kill c).Ends s E fun _ => E := by
    refine hid.bind ?_
    rintro id _ rfl
    refine Work.Ends.bind (R := fun _ => E) ?_ fun _ t ht => Work.ends_pure ht
    refine Work.ends_get_bind ?_
    split
    · next jobs hjobs => exact Work.ends_change (f := fun _ => _) (.inr ⟨jobs, .kill hjobs, rfl⟩)
    · exact Work.ends_throw (.inl rfl)
  exact hends.state

theorem since_builtin {b : Builtin} {c : Context} (s : Shell) :
    Since (s, some (.command (.builtin b) c)) ((b.run c).run s).2 := by
  have hself := since_self (s, some (.command (.builtin b) c))
  by_cases hb : b = .kill
  · subst hb
    rcases state_kill c s with hsame | ⟨jobs, hmove, hkilled⟩
    · rw [Builtin.run, hsame]
      exact hself
    · rw [Builtin.run, hkilled]
      exact hself.jobs hmove
  · have ha : (some (Note.command (.builtin b) c)).any Note.changesFiles = true := by
      simpa [Note.changesFiles] using hb
    refine Builtin.upholds (upheld ha _) hself ((unmoved ha).run hself) ?_ ?_
    · rintro - t ⟨session, environment, cwd, -, rfl⟩
      exact (hself.changed ha { s.files with cwd }).of_eq rfl (fun _ => rfl) rfl
    · exact fun history => hself.of_eq rfl (fun _ => rfl) rfl

theorem upkeep (mine : Option JobId → Prop) : (discipline mine).Upkeep Since Since where
  same := .rfl
  unsaved := .rfl
  script _ h := h
  orSession {c _ s} h _ := by
    change mine (c.orSession s).job
    rwa [Caller.job_orSession]
  weaken _ := .inr fun _ _ h => h
  save h := h.of_eq rfl (fun _ => rfl) rfl
  notify _ h := h.of_eq rfl (fun _ => rfl) rfl
  record _ h := h.of_eq rfl (fun _ => rfl) rfl
  environment e _ h := h.setEnvironment _ e
  launch _ hp _ h := h.startJob hp _
  next := by
    rintro v _ s action c rfl -
    exact since_self (s, some (.command action c))
  builtin := by
    rintro b c v _ s - rfl -
    exact Discipline.ends_of_upholds (since_builtin s) fun _ h => h
  redirect := by
    rintro c target text v _ s - rfl -
    have hself := since_self (s, some (.redirect c target text))
    exact Work.ends_of_state ((unmoved rfl).writeRedirect hself c target text)

theorem lawful (mine : Option JobId → Prop) : (discipline mine).Lawful := (upkeep mine).lawful

theorem exists_next (mine : Option JobId → Prop) (v : Shell × Option Note) (s : Shell) (e : Note) :
    ∃ u, (discipline mine).next v s e u := ⟨(s, some e), rfl⟩

theorem isChain_of_along {mine : Option JobId → Prop} {T : Stint Shell Note}
    (h : Step.Along (discipline mine).pact (T.start, none) T.noted T.noted T.finish T.finish) :
    T.points.IsChain fun a b => Since a b.1 := by
  have hchain := h.isChain (k := fun a => a) fun _ _ _ => rfl
  exact hchain.imp fun _ _ h => h.2

theorem stayCancelled_of_along {mine : Option JobId → Prop} {T : Stint Shell Note}
    (h : Step.Along (discipline mine).pact (T.start, none) T.noted T.noted T.finish T.finish) :
    StayCancelled T.start T.finish := by
  have hpairs := List.isChain_iff_pairwise.mp
    ((isChain_of_along h).imp (S := fun a b => StayCancelled a.1 b.1) fun _ _ h => h.cancelled)
  exact List.rel_of_pairwise_cons hpairs (List.mem_append_right _ (List.mem_singleton_self _))

theorem stayCancelled_turn {run : Shell → Step Shell Note (Except Fault (Result String))}
    (h : Step.Rest (Isolation.Outside id) run) (s : Shell) : StayCancelled s (run s).finish := by
  have hlawful := lawful fun _ => True
  have hrun := h.lockstep (fun s => ⟨(s, none), kept_self (s, none)⟩)
    (Step.exists_knows (exists_next fun _ => True))
    (fun _ h _ _ _ hs => h.steady hlawful (fun _ _ => trivial) hs) _ s s (kept_self (s, none))
  exact stayCancelled_of_along (T := ⟨s, (run s).noted, (run s).finish⟩)
    (hrun.along fun _ _ _ _ => Discipline.same_of_ending)

theorem stayCancelled_of_others (h : Isolation.Others id s t) : StayCancelled s t := by
  cases h with
  | turn h => exact stayCancelled_turn h s
  | ended h r => exact fun _ h => h
  | taken => exact fun _ h => h
  | passed => exact fun _ h => h
  | shutDown => exact fun other h => (JobTable.isCancelled_cancelAll s.jobs other).mpr (.inr h)
  | shown => exact fun _ h => h
  | edited => exact fun _ h => h

def turns (id : JobId) (p : Pipeline) (caller : Caller) (starts : List (Shell × Bool)) :
    List (Stint Shell Note) :=
  Step.stints
    (some fun s _ => (Shell.jobRoutine ⟨id, p, { caller with job := some id }⟩).2 s) starts

variable {p : Pipeline} {caller : Caller} {starts : List (Shell × Bool)} {T : Stint Shell Note}

theorem goOn_job (id : JobId) (p : Pipeline) (caller : Caller) :
    let run := fun s (_ : Bool) =>
      (Shell.jobRoutine ⟨id, p, { caller with job := some id }⟩).2 s
    Step.GoOn (discipline (· = some id)).pact
      (Run.Ending (discipline (· = some id)).same fun v _ => (discipline (· = some id)).same v)
      (some run) (some run) :=
  .some fun _ _ _ _ hs => (lawful _).steady_runPipeline (lawful _).runs_execute p rfl hs

theorem along_of_turn (hT : T ∈ turns id p caller starts) :
    Step.Along (discipline (· = some id)).pact (T.start, none) T.noted T.noted T.finish T.finish :=
  (goOn_job id p caller).along_stints (fun _ _ _ _ => Discipline.same_of_ending)
    (fun s => ⟨(s, none), kept_self (s, none)⟩) (Step.exists_knows (exists_next (· = some id))) T hT
    _ (kept_self (T.start, none))

theorem isCancelled_of_job {c : Caller} (hc : c.job = some id) (s : Shell) :
    c.isCancelled s = s.jobs.isCancelled id := by
  rw [Caller.isCancelled, hc]

/-- A job that was cancelled starts no command. -/
theorem isCommand_of_turn (hT : T ∈ turns id p caller starts) {a : Shell × Option Note}
    (ha : a ∈ T.points) (hid : a.1.jobs.isCancelled id = true) :
    a.2.any Note.isCommand = false := by
  have hknows : ∃ u, Step.Knows (discipline (· = some id)).next (T.start, none) T.noted u :=
    Step.exists_knows (exists_next _) _ _
  obtain ⟨u, hu⟩ := hknows
  have hevent := (along_of_turn hT).event hu
  rcases a with ⟨s, _ | ⟨action, c⟩ | ⟨c, target, text⟩⟩
  · rfl
  · obtain ⟨hmine, htimely⟩ := hevent _ (Stint.mem_noted ha)
    have hnot : s.jobs.isCancelled id = false := (isCancelled_of_job hmine s).symm.trans htimely
    rw [hnot] at hid
    cases hid
  · rfl

theorem isChain_of_turn (hT : T ∈ turns id p caller starts) :
    T.points.IsChain fun a b => Since a b.1 := isChain_of_along (along_of_turn hT)

/-- In a turn of a job that was cancelled, or cancels itself, the files change only where an output
is written. -/
theorem files_of_turn (hT : T ∈ turns id p caller starts) :
    T.points.IsChain fun a b => a.1.jobs.isCancelled id = true ∨ a.2.any Note.isKill = true →
      a.2.any Note.isRedirect = true ∨ b.1.files = a.1.files := by
  refine (isChain_of_turn hT).imp_of_mem_imp fun a b ha _ hsince hcancelled => ?_
  have hquiet : a.2.any Note.isRedirect = true ∨ a.2.any Note.changesFiles = false := by
    rcases hcancelled with hid | hkill
    · have hcommand := isCommand_of_turn hT ha hid
      rcases a with ⟨s, _ | ⟨action, c⟩ | ⟨c, target, text⟩⟩
      · exact .inr rfl
      · cases hcommand
      · exact .inl rfl
    · obtain ⟨e, he, hkill⟩ := (Option.any_eq_true _ _).mp hkill
      rw [he]
      exact .inr (Note.changesFiles_of_isKill hkill)
  exact hquiet.imp_right hsince.files

/-- A turn that another one follows ends before the job is cancelled. -/
theorem isChain_turns (id : JobId) (p : Pipeline) (caller : Caller) (starts : List (Shell × Bool)) :
    (turns id p caller starts).IsChain fun T _ => T.finish.jobs.isCancelled id = false := by
  have hchain : (turns id p caller starts).IsChain fun T _ =>
      (discipline (· = some id)).pact.wait T.finish :=
    (goOn_job id p caller).isChain_stints (fun s => ⟨(s, none), kept_self (s, none)⟩)
      (Step.exists_knows (exists_next (· = some id)))
  refine hchain.imp fun T _ hwait => ?_
  obtain ⟨c, hc, hnot⟩ := hwait
  exact (isCancelled_of_job hc T.finish).symm.trans hnot

section
open Execute
variable {inner : LineRunner} {c : Caller} (hc : c.job = some id)
  (hid : s.jobs.isCancelled id = true)
include hc hid

theorem runSegments_cancelled (modified : Bool) (text : String) (input : Option String)
    (seg : Segment) (rest : List Segment) :
    runSegments inner c modified text input (seg :: rest) s =
      .done s (.ok (.fail (jobText c.job ++ " cancelled"))) := by
  have hcancelled : c.isCancelled s = true := (isCancelled_of_job hc s).trans hid
  simp only [runSegments]
  change (if c.isCancelled s = true then _ else _ : Run (Result String)) s = _
  rw [if_pos hcancelled]
  rfl

theorem runLines_cancelled (script : Script) (outputs : List String) (ls : List (String × Nat)) :
    ∃ r, runLines inner c script outputs ls s = .done s (.ok r) := by
  have hcancelled : c.isCancelled s = true := (isCancelled_of_job hc s).trans hid
  induction ls with
  | nil => exact ⟨_, rfl⟩
  | cons l rest ih =>
    obtain ⟨raw, i⟩ := l
    simp only [runLines]
    split
    · exact ih
    · change ∃ r, (if c.isCancelled s = true then _ else _ : Run (Result String)) s = _
      rw [if_pos hcancelled]
      exact ⟨_, rfl⟩

theorem runCommands_cancelled {k : Context} (hk : k.caller = c) (outputs : List String)
    (modified : Bool) (commands : List (List String)) :
    ∃ r, runCommands inner k outputs modified commands s = .done s r := by
  have hcancelled : c.isCancelled s = true := (isCancelled_of_job hc s).trans hid
  cases commands with
  | nil => exact ⟨_, rfl⟩
  | cons words rest =>
    simp only [runCommands, hk]
    change ∃ r, (if c.isCancelled s = true then _ else _ : Run (Result String)) s = _
    rw [if_pos hcancelled]
    exact ⟨_, rfl⟩

end

/-- What is left of a pipeline, of a script, and of the commands built from an input, ends without
another command or line. -/
structure Stops (inner : LineRunner) (c : Caller) (s : Shell) : Prop where
  pipeline : ∀ modified text input seg rest, ∃ r, r.success = false ∧
    Execute.runSegments inner c modified text input (seg :: rest) s = .done s (.ok r)
  script : ∀ script outputs ls, ∃ r, Execute.runLines inner c script outputs ls s = .done s (.ok r)
  fanOut : ∀ k : Context, k.caller = c → ∀ outputs modified commands, ∃ r,
    Execute.runCommands inner k outputs modified commands s = .done s r

theorem stops_of_cancelled {inner : LineRunner} {c : Caller} (hc : c.job = some id)
    (hid : s.jobs.isCancelled id = true) : Stops inner c s where
  pipeline modified text input seg rest :=
    ⟨_, rfl, runSegments_cancelled hc hid modified text input seg rest⟩
  script := runLines_cancelled hc hid
  fanOut _ hk := runCommands_cancelled hc hid hk

/-- What cancelling a job comes to in its turns, from the moment on in which its number is among the
cancelled ones. -/
structure Final (id : JobId) (s : Shell) (Ts : List (Stint Shell Note)) : Prop where
  /-- A job that was cancelled stays cancelled, and starts no command. -/
  commands : ((s, none) :: Ts.flatMap Stint.points).Pairwise fun a b =>
    a.1.jobs.isCancelled id = true →
      b.1.jobs.isCancelled id = true ∧ b.2.any Note.isCommand = false
  /-- From then on, or from its own command on, it changes the files only where it writes an
  output. -/
  files : ∀ T ∈ Ts, T.points.IsChain fun a b =>
    a.1.jobs.isCancelled id = true ∨ a.2.any Note.isKill = true →
      a.2.any Note.isRedirect = true ∨ b.1.files = a.1.files
  /-- The jobs that it starts are those of pipelines that run in the background. -/
  started : ∀ T ∈ Ts, T.points.IsChain fun a b => Started a.1 b.1
  /-- It does not wait again. -/
  last : Ts.IsChain fun T _ => T.finish.jobs.isCancelled id = false

theorem pairwise_points
    (hothers : Step.Linked (Relation.ReflTransGen (Isolation.Others id)) s
      (turns id p caller starts)) :
    ((s, none) :: (turns id p caller starts).flatMap Stint.points).Pairwise fun a b =>
      StayCancelled a.1 b.1 := by
  have hlinked : Step.Linked StayCancelled s (turns id p caller starts) := by
    refine hothers.imp fun s t hst => ?_
    induction hst with
    | refl => exact fun _ h => h
    | tail _ hlast ih => exact Trans.trans ih (stayCancelled_of_others hlast)
  have hchain := hlinked.isChain_points fun T hT => (isChain_of_turn hT).imp fun _ _ h => h.cancelled
  exact List.isChain_iff_pairwise.mp hchain

/-- Whatever others do between its turns, a job that was cancelled starts no command and does not
wait again. Of all that it can do to others, it may write an output whose commands have all been
started, and start what its lines run in the background. -/
theorem final_of_turns (id : JobId) (p : Pipeline) (caller : Caller) {s : Shell}
    {starts : List (Shell × Bool)}
    (hothers : Step.Linked (Relation.ReflTransGen (Isolation.Others id)) s
      (turns id p caller starts)) :
    (∀ j j' : JobTable, j.kill id = .ok j' → j'.isCancelled id = true) ∧
      Final id s (turns id p caller starts) ∧
      ∀ inner (c : Caller) (t : Shell), c.job = some id → t.jobs.isCancelled id = true →
        Stops inner c t := by
  have hcommand : ∀ b ∈ (s, none) :: (turns id p caller starts).flatMap Stint.points,
      b.1.jobs.isCancelled id = true → b.2.any Note.isCommand = false := by
    intro b hb hid
    rcases List.mem_cons.mp hb with rfl | hb
    · rfl
    · obtain ⟨T, hT, hb⟩ := List.mem_flatMap.mp hb
      exact isCommand_of_turn hT hb hid
  refine ⟨fun j j' => JobTable.isCancelled_kill j j' id,
    ⟨?_, fun T hT => files_of_turn hT, fun T hT => ?_, isChain_turns id p caller starts⟩,
    fun inner c t hc ht => stops_of_cancelled hc ht⟩
  · refine (pairwise_points hothers).imp_of_mem fun {a b} _ hb hstay hid => ?_
    exact ⟨hstay id hid, hcommand b hb (hstay id hid)⟩
  · exact (isChain_of_turn hT).imp fun _ _ h => h.started

/-- A job of a script that sleeps, and is cancelled meanwhile. -/
def scripted : Pipeline :=
  { segments := [⟨"run", ["/s.sh"]⟩], output := some { path := "k" }, background := true }

def attic : Shell :=
  let s := Shell.bare (Catalogue.jobs ++ Catalogue.scripting)
  let written := (FileSystem.makeFile (s.actor rootUser) "/s.sh" "sleep 1 || sleep 9 &").run s.files
  { s with files := written.2 }

def root : Caller := { user := rootUser }

def begun : Shell := (Execute.startJob scripted root attic).2

def asleep : Shell :=
  Step.finish ((Shell.jobRoutine ⟨1, scripted, { root with job := some 1 }⟩).2 begun)

def cancelled : Shell := Step.finish (Shell.execute "kill 1" root true asleep)

theorem linked_scripted : Step.Linked (Relation.ReflTransGen (Isolation.Others 1)) begun
    (turns 1 scripted root [(begun, false), (cancelled, true)]) := by
  refine Step.linked_cons .refl fun g hg => Step.linked_cons ?_ fun _ _ => Step.linked_nil _ _
  rw [← Option.some.inj hg]
  exact .single (.turn (.start (.line "kill 1" (by decide) true)) asleep)

theorem final_of_turns_scripted :
    cancelled.jobs.isCancelled 1 = true ∧
    (turns 1 scripted root [(begun, false), (cancelled, true)]).map (·.noted.length) = [2, 1] ∧
    Final 1 begun (turns 1 scripted root [(begun, false), (cancelled, true)]) :=
  ⟨by decide +kernel, by decide +kernel, (final_of_turns 1 scripted root linked_scripted).2.1⟩

/-- In the turn in which the job finds out it starts another job, and writes an output. -/
theorem starts_and_writes_when_cancelled :
    Step.Linked (Relation.ReflTransGen (Isolation.Others 1)) begun
      (turns 1 scripted root [(begun, false), (cancelled, true)]) ∧
    ∃ T ∈ turns 1 scripted root [(begun, false), (cancelled, true)],
      T.start.jobs.isCancelled 1 = true ∧
      T.start.jobs.active.keys = [] ∧ T.finish.jobs.active.keys = [2] ∧
      T.start.files.has "/k" = false ∧ T.finish.files.has "/k" = true :=
  ⟨linked_scripted, by decide +kernel⟩

end Cancellation
end MemShell
