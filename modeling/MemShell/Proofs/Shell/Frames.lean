import MemShell.Proofs.Shell.Conduct
import MemShell.Proofs.Shell.Foreground
import MemShell.Proofs.Shell.Interleaving
import MemShell.Proofs.Shell.Isolation
set_option autoImplicit false

namespace MemShell
open Execute

namespace Shell

def Numbers (s : Shell) (job : Option JobId) : Prop := ∀ id ∈ job, id < s.jobs.next

/-- The variables of a job, or of the foreground, are in as many frames as before. If all was quiet,
no frame below the top has changed. -/
structure KeepsFrames (job : Option JobId) (quiet : Prop) (s t : Shell) : Prop where
  next : s.jobs.next ≤ t.jobs.next
  depth : s.Numbers job → (t.environmentOf job).depth = (s.environmentOf job).depth
  below : s.Numbers job → quiet → (t.environmentOf job).below = (s.environmentOf job).below

theorem Numbers.mono {s t : Shell} {job : Option JobId} (h : s.Numbers job)
    (hnext : s.jobs.next ≤ t.jobs.next) : t.Numbers job :=
  fun id hid => Int.lt_of_lt_of_le (h id hid) hnext

theorem environmentOf_setEnvironment_of_ne {job other : Option JobId} (hne : other ≠ job)
    (e : Environment) (s : Shell) :
    (s.setEnvironment other e).environmentOf job = s.environmentOf job := by
  cases job with
  | none =>
    cases other with
    | none => exact absurd rfl hne
    | some id => rfl
  | some id =>
    cases other with
    | none => rfl
    | some id' =>
      have hids : id' ≠ id := fun heq => hne (by rw [heq])
      simp [setEnvironment, environmentOf, hids]

theorem jobs_setEnvironment (job : Option JobId) (e : Environment) (s : Shell) :
    (s.setEnvironment job e).jobs = s.jobs := by cases job <;> rfl

variable {job : Option JobId} {quiet : Prop} {s t u : Shell}

theorem keepsFrames_of_eq (henv : t.environmentOf job = s.environmentOf job)
    (hnext : t.jobs.next = s.jobs.next) : KeepsFrames job quiet s t where
  next := Int.le_of_eq hnext.symm
  depth _ := by rw [henv]
  below _ _ := by rw [henv]

theorem keepsFrames_refl (s : Shell) : KeepsFrames job quiet s s := keepsFrames_of_eq rfl rfl

theorem KeepsFrames.trans (h : KeepsFrames job quiet s t) (h' : KeepsFrames job quiet t u) :
    KeepsFrames job quiet s u where
  next := Int.le_trans h.next h'.next
  depth hs := (h'.depth (hs.mono h.next)).trans (h.depth hs)
  below hs hq := (h'.below (hs.mono h.next) hq).trans (h.below hs hq)

theorem KeepsFrames.mono {quiet' : Prop} (h : KeepsFrames job quiet s t) (hq : quiet' → quiet) :
    KeepsFrames job quiet' s t where
  next := h.next
  depth := h.depth
  below hs hquiet := h.below hs (hq hquiet)

end Shell

namespace Frames
open Shell
variable {job : Option JobId} {quiet : Prop} {s t : Shell}

theorem keepsFrames_setEnvironment {other : Option JobId} {e : Environment}
    (he : e.below = (s.environmentOf other).below) :
    KeepsFrames job quiet s (s.setEnvironment other e) := by
  have hnext : (s.setEnvironment other e).jobs.next = s.jobs.next := by rw [jobs_setEnvironment]
  by_cases hjob : other = job
  · subst hjob
    refine ⟨Int.le_of_eq hnext.symm, fun _ => ?_, fun _ _ => ?_⟩
    · rw [environmentOf_setEnvironment, Environment.depth, Environment.depth, he]
    · rw [environmentOf_setEnvironment, he]
  · exact keepsFrames_of_eq (environmentOf_setEnvironment_of_ne hjob e s) hnext

theorem keepsFrames_startJob (p : Pipeline) (c : Caller) (s : Shell) :
    KeepsFrames job quiet s (startJob p c s).2 := by
  have henv (hs : s.Numbers job) :
      (startJob p c s).2.environmentOf job = s.environmentOf job := by
    cases job with
    | none => rfl
    | some id =>
      have hne : s.jobs.next ≠ id := Int.ne_of_gt (hs id rfl)
      simp [startJob, JobTable.spawn, JobTable.nextId, environmentOf, hne]
  exact ⟨Int.le_of_lt (Int.lt_succ s.jobs.next), fun hs => by rw [henv hs],
    fun hs _ => by rw [henv hs]⟩

theorem keepsFrames_switched (hs : Builtins.Switched s t) (hq : ¬quiet) :
    KeepsFrames job quiet s t := by
  obtain ⟨session, environment, cwd, hdepth, rfl⟩ := hs
  refine ⟨Int.le_refl _, fun _ => ?_, fun _ hquiet => absurd hquiet hq⟩
  cases job with
  | none => exact hdepth
  | some id => rfl

def Kept (job : Option JobId) (v : Shell × Prop) (s t : Shell) : Prop :=
  t = s ∧ KeepsFrames job v.2 v.1 s

theorem upheld (job other : Option JobId) (quiet : Prop) (s : Shell) :
    Upheld (KeepsFrames job quiet s) other where
  cwd _ h := h.trans (keepsFrames_of_eq rfl rfl)
  environment _ h he := h.trans (keepsFrames_setEnvironment he)
  aliases _ h := h.trans (keepsFrames_of_eq rfl rfl)
  accounts _ h := h.trans (keepsFrames_of_eq rfl rfl)
  jobs h _ hnext := h.trans (keepsFrames_of_eq rfl hnext)
  save h := h.trans (keepsFrames_of_eq rfl rfl)

theorem unmoved (job : Option JobId) (quiet : Prop) (s : Shell) :
    Unmoved (KeepsFrames job quiet s) where
  files _ h := h.trans (keepsFrames_of_eq rfl rfl)
  accounts _ h := h.trans (keepsFrames_of_eq rfl rfl)

theorem keepsFrames_builtin {b : Builtin} {c : Context} (hquiet : quiet → b.switchesUser = false) :
    KeepsFrames job quiet s ((b.run c).run s).2 := by
  have hself : KeepsFrames job quiet s s := keepsFrames_refl s
  refine Builtin.upholds (upheld job _ quiet s) hself ((unmoved job quiet s).run hself) ?_ ?_
  · intro hb t ht
    exact keepsFrames_switched ht fun hq => by simp [hquiet hq] at hb
  · exact fun history => keepsFrames_of_eq rfl rfl

theorem keepsFrames_writeRedirect (c : Caller) (target : Redirect) (text : String) :
    KeepsFrames job quiet s ((writeRedirect c target text).run s).2 :=
  (unmoved job quiet s).writeRedirect (keepsFrames_refl s) c target text

def Quiet (notes : List (Shell × Note)) : Prop := ∀ n ∈ notes, n.2.switchesUser = false

theorem Quiet.of_append_left {notes more : List (Shell × Note)} (h : Quiet (notes ++ more)) :
    Quiet notes := fun n hn => h n (List.mem_append_left _ hn)

theorem Quiet.of_append_right {notes more : List (Shell × Note)} (h : Quiet (notes ++ more)) :
    Quiet more := fun n hn => h n (List.mem_append_right _ hn)

def discipline (job : Option JobId) : Discipline (Shell × Prop) where
  mine c := c.job ≠ job
  same := Kept job
  unsaved := Kept job
  next v _ e u := u = (v.1, v.2 ∧ e.switchesUser = false)

theorem upkeep (job : Option JobId) :
    (discipline job).Upkeep (fun v => KeepsFrames job v.2 v.1)
      fun v => KeepsFrames job v.2 v.1 where
  same := .rfl
  unsaved := .rfl
  script _ h := h
  orSession {c _ s} h _ := by
    change (c.orSession s).job ≠ job
    rwa [Caller.job_orSession]
  weaken _ := .inr fun _ _ h => h
  save h := h.trans (keepsFrames_of_eq rfl rfl)
  notify _ h := h.trans (keepsFrames_of_eq rfl rfl)
  record _ h := h.trans (keepsFrames_of_eq rfl rfl)
  environment {_ _ s} e hc h := h.trans
    (keepsFrames_of_eq (environmentOf_setEnvironment_of_ne hc e s) (by rw [jobs_setEnvironment]))
  launch p _ _ h := h.trans (keepsFrames_startJob p _ _)
  next := by
    rintro v _ s action c rfl h
    exact h.mono And.left
  builtin := by
    rintro b c v _ s - rfl h
    refine Discipline.ends_of_upholds ((h.mono And.left).trans ?_) fun _ h => h
    exact keepsFrames_builtin And.right
  redirect := by
    rintro c target text v _ s - rfl h
    exact Work.ends_of_state ((h.mono And.left).trans (keepsFrames_writeRedirect c target text))

theorem lawful (job : Option JobId) : (discipline job).Lawful := (upkeep job).lawful

theorem knows_noted (job : Option JobId) (v : Shell × Prop) (notes : List (Shell × Note)) :
    ∃ w, Step.Knows (discipline job).next v notes w ∧ w.1 = v.1 ∧ (v.2 → Quiet notes → w.2) := by
  induction notes generalizing v with
  | nil => exact ⟨v, rfl, rfl, fun hv _ => hv⟩
  | cons n rest ih =>
    obtain ⟨w, hw, hstart, hquiet⟩ := ih (v.1, v.2 ∧ n.2.switchesUser = false)
    refine ⟨w, ⟨_, rfl, hw⟩, hstart, fun hv hall => ?_⟩
    exact hquiet ⟨hv, hall n List.mem_cons_self⟩ fun m hm => hall m (List.mem_cons_of_mem _ hm)

theorem keepsFrames_turn {run : Shell → Step Shell Note (Except Fault (Result String))}
    (hrun : Step.Rest (Routines (· ≠ job)) run) (s : Shell) :
    KeepsFrames job (Quiet (run s).noted) s (run s).finish := by
  have halong := along_of_rest (lawful job) (fun _ hc => hc) hrun
    (fun s => ⟨(s, True), rfl, keepsFrames_refl s⟩) (fun _ _ _ => ⟨_, rfl⟩) (v := (s, True))
    ⟨rfl, keepsFrames_refl s⟩
  obtain ⟨⟨start, known⟩, hw, rfl, hquiet⟩ := knows_noted job (s, True) (run s).noted
  exact (halong.finish hw).2.mono (hquiet trivial)

theorem keepsFrames_meanwhile (h : Meanwhile (· ≠ job) s t) : KeepsFrames job quiet s t := by
  cases h with
  | @ended id hid r =>
    refine keepsFrames_of_eq ?_ rfl
    cases job with
    | none => rfl
    | some other =>
      have hne : id ≠ other := fun heq => hid (by rw [heq])
      simp [host, finishJob, notify, environmentOf, hne]
  | taken => exact keepsFrames_of_eq rfl rfl
  | passed => exact keepsFrames_of_eq rfl rfl
  | shutDown => exact keepsFrames_of_eq rfl (JobTable.next_cancelAll s.jobs)
  | shown => exact keepsFrames_of_eq rfl rfl

theorem keepsFrames_interleaves {notes : List (Shell × Note)}
    (h : Interleaves (· ≠ job) s notes t) : KeepsFrames job (Quiet notes) s t := by
  induction h with
  | refl => exact keepsFrames_refl _
  | turn _ hrun ih =>
    exact (ih.mono Quiet.of_append_left).trans ((keepsFrames_turn hrun _).mono Quiet.of_append_right)
  | meanwhile _ ht ih => exact ih.trans (keepsFrames_meanwhile ht)

def conduct (job : Option JobId) : Conduct where
  job := job
  between := Interleaves (· ≠ job)
  leads s notes t := KeepsFrames job (Quiet notes) s t

theorem depth_pop {e : Environment} {n : Nat} (h : e.depth = n + 2) : e.pop.depth = n + 1 := by
  obtain ⟨top, below⟩ := e
  cases below with
  | nil => simp [Environment.depth] at h
  | cons frame rest => simpa [Environment.depth, Environment.pop] using h

theorem pop_of_below {e e' : Environment} (h : e'.below = e.top :: e.below) : e'.pop = e := by
  rw [Environment.pop, h]

/-- What is done between a push and a pop leaves all frames as they were. -/
theorem environmentOf_pop (h : KeepsFrames job quiet (s.changeEnvironment job Environment.push) t)
    (hs : s.Numbers job) :
    ((t.changeEnvironment job Environment.pop).environmentOf job).depth =
      (s.environmentOf job).depth ∧
    (quiet → (t.changeEnvironment job Environment.pop).environmentOf job = s.environmentOf job) := by
  have hpushed : (s.changeEnvironment job Environment.push).Numbers job := by
    rwa [Numbers, changeEnvironment, jobs_setEnvironment]
  have hdepth := h.depth hpushed
  have hbelow := h.below hpushed
  rw [changeEnvironment, environmentOf_setEnvironment] at hdepth hbelow ⊢
  exact ⟨depth_pop hdepth, fun hq => pop_of_below (hbelow hq)⟩

theorem keepsFrames_pop (h : KeepsFrames job quiet (s.changeEnvironment job Environment.push) t) :
    KeepsFrames job quiet s (t.changeEnvironment job Environment.pop) where
  next := by
    have hnext := h.next
    rwa [changeEnvironment, jobs_setEnvironment] at hnext ⊢
  depth hs := (environmentOf_pop h hs).1
  below hs hq := by rw [(environmentOf_pop h hs).2 hq]

theorem lawful_conduct (job : Option JobId) : (conduct job).Lawful where
  refl := keepsFrames_refl
  trans h h' := (h.mono Quiet.of_append_left).trans (h'.mono Quiet.of_append_right)
  between := keepsFrames_interleaves
  notify _ _ := keepsFrames_of_eq rfl rfl
  record _ _ := keepsFrames_of_eq rfl rfl
  save _ := keepsFrames_of_eq rfl rfl
  launch p s _ := keepsFrames_startJob p _ s
  command _ _ s := keepsFrames_refl s
  builtin _ _ _ := keepsFrames_builtin fun hq => hq _ List.mem_cons_self
  redirect target text _ _ := keepsFrames_writeRedirect _ target text
  script := keepsFrames_pop

/-- However a script ends, and whatever others do while it waits, there are as many frames as before
it. If nobody changed users meanwhile, they are what they were. -/
theorem environmentOf_of_runScript {n : Nat} {path : String} {args : List String} {c : Caller}
    {notes : List (Shell × Note)} {r : Except Fault (Result String)} (hs : s.Numbers c.job)
    (hend : (runScript (nested n) path args c s).Completes (Interleaves (· ≠ c.job)) notes r t) :
    (t.environmentOf c.job).depth = (s.environmentOf c.job).depth ∧
    ((∀ n ∈ notes, n.2.switchesUser = false) →
      t.environmentOf c.job = s.environmentOf c.job) := by
  have hlawful := lawful_conduct c.job
  have hended := hlawful.ensures_runScript (hlawful.runs_nested n) path args rfl s _ _ _ hend
  rcases hended with ⟨-, rfl⟩ | ⟨u, hu, rfl⟩
  · exact ⟨rfl, fun _ => rfl⟩
  · exact environmentOf_pop hu hs

def scripted : Shell :=
  let commands := Catalogue.texts ++ Catalogue.environment ++ Catalogue.jobs ++ Catalogue.scripting
  let s := { Shell.bare commands with environment := ⟨[("X", "0")], [[("Y", "0")]]⟩ }
  (s.withFile "/inner" "unset X\nset Z=3\n").withFile "/outer"
    "set X=1; sleep 9 &\nrun /inner\nsleep 1\necho X=2 | xargs set\nwait\n"

theorem environmentOf_of_runScript_failing : ∃ notes r t,
    (runScript (nested 3) "/outer" [] { user := rootUser } scripted).Completes
      (Interleaves (· ≠ none)) notes r t ∧
    notes.length = 8 ∧ r.toOption.map (·.success) = some false ∧
    t.environment.depth = 2 ∧ t.environment = scripted.environment := by
  let outer := runScript (nested 3) "/outer" [] { user := rootUser }
  let pass := host.setElapsed .zero
  have hpass (s : Shell) : Interleaves (· ≠ none) s [] (pass s) :=
    interleaves_meanwhile (.passed .zero s)
  have hend := Step.completes_through hpass (outer scripted)
  have hrun : ((outer scripted).through pass).1.length = 8 ∧
      ((outer scripted).through pass).2.1.toOption.map (·.success) = some false ∧
      ∀ n ∈ ((outer scripted).through pass).1, n.2.switchesUser = false := by decide +kernel
  obtain ⟨hlength, hfailed, hquiet⟩ := hrun
  have hnumbers : scripted.Numbers none := fun id hid => nomatch hid
  obtain ⟨hdepth, hsame⟩ :=
    environmentOf_of_runScript (n := 3) (c := { user := rootUser }) hnumbers hend
  have htwo : (scripted.environmentOf none).depth = 2 := by decide +kernel
  exact ⟨_, _, _, hend, hlength, hfailed, hdepth.trans htwo, hsame hquiet⟩

end Frames
end MemShell
