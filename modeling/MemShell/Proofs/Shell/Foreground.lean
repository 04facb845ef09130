import MemShell.Shell.Terminal
import MemShell.Proofs.Shell.Upkeep
set_option autoImplicit false

namespace MemShell

def Note.switchesUser : Note → Bool
  | .command (.builtin b) _ => b.switchesUser
  | _ => false

def Shell.SameForeground (s t : Shell) : Prop :=
  t.environment = s.environment ∧ t.session = s.session

namespace Foreground

def Kept (v : Option Shell) (s t : Shell) : Prop := t = s ∧ ∀ s₀ ∈ v, s₀.SameForeground s

def discipline : Discipline (Option Shell) where
  mine c := c.job.isSome = true
  same := Kept
  unsaved := Kept
  next _ s e u := u = if e.switchesUser then none else some s

variable {v : Option Shell} {s t : Shell} {id : JobId}

theorem upheld (s₀ : Shell) (id : JobId) : Upheld s₀.SameForeground (some id) where
  cwd _ h := h
  environment _ h _ := h
  aliases _ h := h
  accounts _ h := h
  jobs h _ _ := h
  save h := h

theorem unmoved (s₀ : Shell) : Unmoved s₀.SameForeground where
  files _ h := h
  accounts _ h := h

theorem kept_none (s : Shell) : Kept none s s := ⟨rfl, fun _ h => nomatch h⟩

theorem kept_some (s : Shell) : Kept (some s) s s :=
  ⟨rfl, fun s₀ hs₀ => by obtain rfl : s = s₀ := Option.some.inj hs₀; exact ⟨rfl, rfl⟩⟩

theorem sameForeground_builtin {b : Builtin} {c : Context} (hc : c.caller.job = some id)
    (hb : b.switchesUser = false) : s.SameForeground ((b.run c).run s).2 := by
  have hself : s.SameForeground s := ⟨rfl, rfl⟩
  refine Builtin.upholds (hc ▸ upheld s id) hself ((unmoved s).run hself) (fun h => ?_) fun _ => hself
  rw [hb] at h
  cases h

theorem sameForeground_known {switches : Bool} (h : switches = false → s.SameForeground t) :
    ∀ s₀ ∈ if switches then none else some s, s₀.SameForeground t := by
  intro s₀ hs₀
  split at hs₀
  · cases hs₀
  · next hquiet =>
    obtain rfl : s = s₀ := Option.some.inj hs₀
    exact h (by simpa using hquiet)

theorem upkeep : discipline.Upkeep (fun v s => ∀ s₀ ∈ v, s₀.SameForeground s)
    fun v s => ∀ s₀ ∈ v, s₀.SameForeground s where
  same := .rfl
  unsaved := .rfl
  script _ h := h
  orSession {c _ s} h _ := by
    change (c.orSession s).job.isSome = true
    rwa [Caller.job_orSession]
  weaken _ := .inr fun _ _ h => h
  save h := h
  notify _ h := h
  record _ h := h
  environment {c _ _} e hc h := by
    obtain ⟨id, hid⟩ := Option.isSome_iff_exists.mp hc
    rw [hid]
    exact h
  launch _ _ _ h := h
  next := by
    rintro v _ s action c rfl -
    exact sameForeground_known fun _ => ⟨rfl, rfl⟩
  builtin := by
    rintro b c v _ s hc rfl -
    obtain ⟨id, hid⟩ := Option.isSome_iff_exists.mp hc
    refine Discipline.ends_of_upholds (sameForeground_known fun hb => ?_) fun _ h => h
    exact sameForeground_builtin hid hb
  redirect := by
    rintro c target text v _ s - rfl -
    have hwritten := (unmoved s).writeRedirect (s := s) ⟨rfl, rfl⟩ c target text
    exact Work.ends_of_state (sameForeground_known fun _ => hwritten)

theorem lawful : discipline.Lawful := upkeep.lawful

def knownAt (a : Shell × Option Note) : Option Shell :=
  if a.2.any Note.switchesUser then none else some a.1

theorem sameForeground_of_kept {a : Shell × Option Note} (hs : Kept (knownAt a) s s)
    (ha : a.2.any Note.switchesUser = false) : a.1.SameForeground s := by
  refine hs.2 a.1 ?_
  rw [knownAt, ha]
  rfl

/-- From one point of a job's turn to the next, the foreground stays as it is, unless a change of
users is noted at the first one. -/
theorem isChain_points_of_job (id : JobId) (p : Pipeline) (caller : Caller)
    (starts : List (Shell × Bool)) :
    ∀ T ∈ Step.stints
      (some fun s _ => (Shell.jobRoutine ⟨id, p, { caller with job := some id }⟩).2 s) starts,
      T.points.IsChain fun a b => a.2.any Note.switchesUser = false → a.1.SameForeground b.1 := by
  have hgo : Step.GoOn discipline.pact
      (Run.Ending discipline.same fun v _ => discipline.same v)
      (some fun s _ => (Shell.jobRoutine ⟨id, p, { caller with job := some id }⟩).2 s)
      (some fun s _ => (Shell.jobRoutine ⟨id, p, { caller with job := some id }⟩).2 s) :=
    .some fun v s t _ hs => lawful.steady_runPipeline lawful.runs_execute p rfl hs
  intro T hT
  have hturn := hgo.along_stints (fun _ _ _ _ => Discipline.same_of_ending)
    (fun s => ⟨none, kept_none s⟩) (Step.exists_knows fun _ _ _ => ⟨_, rfl⟩) T hT
  have hchain := (hturn (knownAt (T.start, none)) (kept_some T.start)).isChain fun _ _ _ => rfl
  exact hchain.imp fun a b hs ha => sameForeground_of_kept hs ha

/-- A job that sets a variable has one note between the start and the end of its turn. -/
theorem isChain_points_of_job_set :
    ∃ T ∈ Step.stints (some fun s _ => (Shell.jobRoutine
        ⟨1, { segments := [⟨"set", ["X=1"]⟩] }, { user := "ada", job := some 1 }⟩).2 s)
        [(.bare Catalogue.environment, false)],
      T.points.length = 3 ∧
      T.points.IsChain fun a b => a.2.any Note.switchesUser = false → a.1.SameForeground b.1 :=
  ⟨_, List.mem_cons_self .., by decide +kernel,
    isChain_points_of_job 1 { segments := [⟨"set", ["X=1"]⟩] } { user := "ada" }
      [(.bare Catalogue.environment, false)] _ (List.mem_cons_self ..)⟩

end Foreground
end MemShell
