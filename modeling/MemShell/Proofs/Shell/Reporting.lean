import MemShell.Proofs.FileSystem.Faults
import MemShell.Proofs.Routine.Alone
import MemShell.Proofs.Shell.Care
import MemShell.Proofs.Storage.Saving
set_option autoImplicit false

/-!
# What a line says about its changes

The result of a line tells whether the line changed the tree. It can be relied on as long as scripts
change nothing, and as long as nothing fails, or failures hide nothing: a script that changed the tree
does not say so, and neither does a pipeline that failed.
-/
namespace MemShell
open Execute

def Result.Speaks {α : Type} (r : Result α) : Prop := ∀ p, r.problem = some p → p.text ≠ ""

namespace Note

def Speaks (s : Shell) : Note → Prop
  | .command (.builtin b) c => ∀ r, ((b.run c).run s).1 = .ok r → r.Speaks
  | .command (.custom reply) c => ∀ r, (reply c).outcome = .ok r → r.Speaks
  | _ => True

def changesTree : Note → Bool
  | .command (.builtin b) _ => b.changesTree
  | .command _ _ => false
  | .redirect .. => true

def isFanOut : Note → Bool
  | .command .fanOut _ => true
  | _ => false

end Note

def Segment.isQuiet (commands : Table String Command) (seg : Segment) : Bool :=
  match commands.get? seg.name with
  | some ⟨_, .builtin b⟩ => !b.changesTree
  | _ => true

def Pipeline.changesLast (commands : Table String Command) (p : Pipeline) : Bool :=
  (if p.output.isSome then p.segments else p.segments.dropLast).all (Segment.isQuiet commands)

namespace Reporting

section
variable {α : Type}

theorem speaks_of_success {r : Result α} (h : r.problem = none) : r.Speaks :=
  fun p hp => by rw [h] at hp; cases hp

theorem speaks_fail {text : String} (h : text ≠ "") (kind : ErrorKind) :
    (Result.fail text kind : Result α).Speaks := by
  intro p hp
  obtain rfl := Option.some.inj hp
  exact h

theorem append_ne_empty {a b : String} (h : a ≠ "") : a ++ b ≠ "" :=
  fun hab => h (String.append_eq_empty_iff.mp hab).1

theorem append_ne_empty_right {a b : String} (h : b ≠ "") : a ++ b ≠ "" :=
  fun hab => h (String.append_eq_empty_iff.mp hab).2

theorem message_ne_empty (f : NodeFault) : f.message ≠ "" := by
  delta NodeFault.message
  cases f <;> dsimp only <;> simp

theorem speaks_report (name : String) (f : Fault) : (report name f).Speaks := by
  have hcolon : ": " ≠ "" := by decide
  have hnamed (rest : String) : name ++ ": " ++ rest ≠ "" :=
    append_ne_empty (append_ne_empty_right hcolon)
  unfold report
  dsimp only
  split
  · refine speaks_fail ?_ _
    split
    · next hstarts =>
      intro hmessage
      rw [hmessage] at hstarts
      simp at hstarts
    · exact hnamed _
  · exact speaks_fail (hnamed _) _

theorem speaks_withData {r : Result String} (h : r.Speaks) : (withData r).Speaks := by
  unfold withData
  split <;> exact h

theorem speaks_ofFault {before : String} {f : Fault} {r : Result α} (hf : f.IsNode)
    (hr : Result.ofFault before f = .ok r) : r.Speaks := by
  obtain ⟨n, -, hn⟩ := hf.ofFault α before
  rw [hn] at hr
  obtain rfl := Except.ok.inj hr
  exact speaks_fail (append_ne_empty_right (message_ne_empty n)) _

end

structure Later (s t : Shell) : Prop where
  commands : t.commands = s.commands
  console : s.console.length ≤ t.console.length
  accepts : s.storage.Accepts → t.storage.Accepts

def Shown (s t : Shell) : Prop := s.console.length < t.console.length

structure Goes (p : Prop) (s t : Shell) : Prop where
  later : Later s t
  root : t.files.root = s.files.root ∨ p

/-- What tells that the tree may have changed: the result says so or, where failures may hide changes,
there was a failure, which is that of the result or has been shown. -/
def Told (lossy : Prop) (s : Shell) (r : Result String) (t : Shell) : Prop :=
  r.modified = true ∨ lossy ∧ (r.success = false ∨ Shown s t)

variable {p q lossy : Prop} {s₀ s t u : Shell}

theorem later_refl (s : Shell) : Later s s := ⟨rfl, le_rfl, id⟩

theorem Later.trans (h : Later s t) (h' : Later t u) : Later s u :=
  ⟨h'.commands.trans h.commands, h.console.trans h'.console, h'.accepts ∘ h.accepts⟩

theorem Shown.later (h : Shown s t) (h' : Later t u) : Shown s u := Nat.lt_of_lt_of_le h h'.console

theorem Later.shown (h : Later s t) (h' : Shown t u) : Shown s u := Nat.lt_of_le_of_lt h.console h'

theorem goes_refl (s : Shell) : Goes p s s := ⟨later_refl s, .inl rfl⟩

theorem goes_of_eq (hcommands : t.commands = s.commands) (hconsole : t.console = s.console)
    (hstorage : t.storage = s.storage) (hroot : t.files.root = s.files.root) : Goes p s t :=
  ⟨⟨hcommands, by rw [hconsole], fun h => by rwa [hstorage]⟩, .inl hroot⟩

theorem Goes.mono (h : Goes p s t) (hp : p → q) : Goes q s t := ⟨h.later, h.root.imp_right hp⟩

theorem Goes.trans (h : Goes p s t) (h' : Goes p t u) : Goes p s u := by
  refine ⟨h.later.trans h'.later, ?_⟩
  rcases h'.root with hroot | hp
  · rw [hroot]
    exact h.root
  · exact .inr hp

/-- What is told of changes adds up. -/
theorem Goes.add {m : Prop} {r : Result String} (hs : Goes (p ∧ (m ∨ lossy ∧ Shown s₀ s)) s₀ s)
    (ht : Goes (p ∧ Told lossy s r t) s t) :
    Goes (p ∧ ((m ∨ r.modified = true) ∨ lossy ∧ (r.success = false ∨ Shown s₀ t))) s₀ t := by
  refine .trans (hs.mono fun h => ⟨h.1, ?before⟩) (ht.mono fun h => ⟨h.1, ?now⟩)
  case before => exact h.2.imp .inl fun h => ⟨h.1, .inr (h.2.later ht.later)⟩
  case now => exact h.2.imp .inr fun h => ⟨h.1, h.2.imp_right hs.later.shown⟩

theorem told_of_failure {r : Result String} (hr : r.success = false) (h : Goes (p ∧ lossy) s t) :
    Goes (p ∧ Told lossy s r t) s t := h.mono fun h => ⟨h.1, .inr ⟨h.2, .inl hr⟩⟩

/-- A failure hides earlier changes only where failures may do so. -/
theorem Goes.fail {r : Result String} (hr : r.success = false) (hs : Goes (p ∧ lossy) s₀ s)
    (ht : Goes (p ∧ Told lossy s r t) s t) : Goes (p ∧ Told lossy s₀ r t) s₀ t := by
  refine .trans (hs.mono fun h => ⟨h.1, .inr ⟨h.2, .inl hr⟩⟩) (ht.mono fun h => ⟨h.1, ?_⟩)
  exact h.2.imp_right fun h => ⟨h.1, .inl hr⟩

theorem goes_of_passes (h : Shell.host.Passes s t) : Goes False s t := by
  induction h with
  | refl => exact goes_refl _
  | taken _ ih => exact ih.trans (goes_of_eq rfl rfl rfl rfl)
  | elapsed time _ ih => exact ih.trans (goes_of_eq rfl rfl rfl rfl)

theorem goes_setEnvironment (job : Option JobId) (e : Environment) (s : Shell) :
    Goes False s (s.setEnvironment job e) := by
  cases job <;> exact goes_of_eq rfl rfl rfl rfl

theorem goes_save (s : Shell) : Goes False s (Effect.save.run s).2 :=
  ⟨⟨rfl, le_rfl, fun h => h.save s.files⟩, .inl rfl⟩

def Stays (s₀ s t : Shell) : Prop := t = s ∧ Goes False s₀ s

theorem Stays.map {f : Shell → Shell} (h : Stays s₀ s t) (hf : ∀ s, Goes False s (f s)) :
    Stays s₀ (f s) (f t) := by
  obtain ⟨rfl, h⟩ := h
  exact ⟨rfl, h.trans (hf t)⟩

theorem steadfast (s₀ : Shell) (job : Option JobId) : Steadfast (Stays s₀) job where
  view h := by rw [h.1]
  cwd p h := h.map (f := fun s => { s with files := { s.files with cwd := p } })
    fun _ => goes_of_eq rfl rfl rfl rfl
  environment e h _ := h.map (goes_setEnvironment job e)
  aliases a h := h.map (f := fun s => { s with aliases := a }) fun _ => goes_of_eq rfl rfl rfl rfl
  accounts a h := h.map (f := fun s => { s with accounts := a })
    fun _ => goes_of_eq rfl rfl rfl rfl
  jobs {_ _ j} h _ _ := h.map (f := fun s => { s with jobs := j })
    fun _ => goes_of_eq rfl rfl rfl rfl
  attached h := by rw [h.1]
  save {s t} h := by
    obtain ⟨rfl, h⟩ := h
    exact Work.lockstep_self ⟨rfl, h.trans (goes_save t)⟩

theorem malleable (s₀ : Shell) (job : Option JobId) :
    Malleable (fun s t => t = s ∧ Later s₀ s) job where
  view h := by rw [h.1]
  files fs h := ⟨by rw [h.1], h.2.trans ⟨rfl, le_rfl, id⟩⟩
  accounts a h := ⟨by rw [h.1], h.2.trans ⟨rfl, le_rfl, id⟩⟩

theorem goes_of_quiet {b : Builtin} {c : Context} (htree : b.changesTree = false) :
    Goes False s ((b.run c).run s).2 := by
  have hself : Stays s s s := ⟨rfl, goes_refl s⟩
  have hrun : (b.run c).Lockstep (Stays s) s s := by
    have hnot : b.changesTree ≠ true := by simp [htree]
    refine Builtin.lockstep_self (steadfast s _) hself (fun h => absurd h hnot) ?_ ?_
    · rintro - t ⟨session, environment, cwd, -, rfl⟩
      exact ⟨rfl, goes_of_eq rfl rfl rfl rfl⟩
    · exact fun history => ⟨rfl, goes_of_eq rfl rfl rfl rfl⟩
  cases hrun with
  | ok hx _ h => rw [hx]; exact h.2.2
  | error hx _ h => rw [hx]; exact h.2

def Allows (lossy : Prop) (s : Shell) (n : Note) : Prop :=
  (n.caller.script = none ∨ n.changesTree = false) ∧ (lossy → n.Speaks s) ∧
    (¬lossy → n.Careful s ∧ n.isFanOut = false)

variable {loose : Prop} {c : Caller} {inner : LineRunner}

def Loose (lossy : Prop) (c : Caller) (commands : Table String Command) (seg : Segment) : Prop :=
  c.script = none ∧ (¬lossy → seg.isQuiet commands = false)

theorem ends_builtin {b : Builtin} {k : Context} (hallow : Allows lossy s (.command (.builtin b) k))
    (hloose : k.caller.script = none → b.changesTree = true → loose) :
    (b.run k).Ends s (Goes (loose ∧ lossy) s) fun r t =>
      Goes (loose ∧ Told lossy s r t) s t ∧ (lossy → r.Speaks) := by
  obtain ⟨hscript, hspeaks, hcareful⟩ := hallow
  have hresult {r : Result String} {t : Shell} (hx : (b.run k).run s = (.ok r, t))
      (hlossy : lossy) : r.Speaks := hspeaks hlossy r (by rw [hx])
  cases htree : b.changesTree with
  | false =>
    have hgoes := goes_of_quiet (s := s) (c := k) htree
    cases hrun : (b.run k).run s with
    | mk r t =>
      rw [hrun] at hgoes
      cases r with
      | ok r => exact Work.ends_of_run hrun ⟨hgoes.mono False.elim, hresult hrun⟩
      | error f => exact Work.ends_of_fault hrun (hgoes.mono False.elim)
  | true =>
    have hnone : k.caller.script = none := hscript.resolve_right (by simp [Note.changesTree, htree])
    have hchanges := (malleable s k.caller.job).changes_run ⟨rfl, later_refl s⟩ htree
    cases hchanges with
    | ok hx _ h =>
      obtain ⟨rfl, ⟨-, hlater⟩, hr⟩ := h
      refine Work.ends_of_run hx ⟨⟨hlater, .inr ⟨hloose hnone htree, .inl ?_⟩⟩, hresult hx⟩
      exact (Bool.and_eq_true_iff.mp hr).2
    | error hx _ h =>
      refine Work.ends_of_fault hx ⟨h.2, ?_⟩
      by_cases hlossy : lossy
      · exact .inr ⟨hloose hnone htree, hlossy⟩
      · exact .inl ((hcareful hlossy).1.ends.fault hx)

theorem ends_wait (k : Context) (unitsPerSecond : Nat) :
    (wait k unitsPerSecond).Ends (Allows lossy) s (Goes False s) fun r t =>
      Goes False s t ∧ r.Speaks := by
  refine Run.ends_lift_bind (goes_refl s) fun n _ => ?_
  refine (Run.ends_pause (Q := fun _ => Goes False s) fun _ t => goes_of_passes).bind ?_
  intro woken t ht
  split
  · exact Run.ends_throw ht
  · exact Run.ends_pure ⟨ht, speaks_of_success rfl⟩

theorem ends_answer (reply : Reply) (hspeaks : lossy → ∀ r, reply.outcome = .ok r → r.Speaks) :
    (answer reply).Ends (Allows lossy) s (Goes False s) fun r t =>
      Goes False s t ∧ (lossy → r.Speaks) := by
  have hlift {t : Shell} (ht : Goes False s t) :
      (Run.lift reply.outcome).Ends (Allows lossy) t (Goes False s) fun r t =>
        Goes False s t ∧ (lossy → r.Speaks) := by
    refine Run.ends_lift ?_
    cases hr : reply.outcome with
    | ok r => exact ⟨ht, fun hlossy => hspeaks hlossy r hr⟩
    | error f => exact ht
  unfold answer
  split
  · next seconds _ =>
    refine (Run.ends_pause (Q := fun _ => Goes False s) fun _ t => goes_of_passes).bind ?_
    exact fun _ t ht => hlift ht
  · exact hlift (goes_refl s)

/-- A line on which failures hide nothing: saves succeed, and its pipelines change the tree at their
ends only. -/
def Plain (s : Shell) (line : String) (c : Caller) (record : Bool) : Prop :=
  s.storage.Accepts ∧ ∀ items, ((readLine line c record).run s).1 = .ok items →
    ∀ i ∈ items, i.pipeline.changesLast s.commands = true

def Runs (lossy : Prop) (inner : LineRunner) : Prop :=
  ∀ line c record s, (¬lossy → c.script = none → Plain s line c record) →
    (inner line c record).Ends (Allows lossy) s (Goes (c.script = none) s) fun r t =>
      Goes (c.script = none ∧ Told lossy s r t) s t

theorem Runs.script (h : Runs lossy inner) (line : String) (script : Script) (s : Shell) :
    (inner line { c with script := some script } true).Ends (Allows lossy) s (Goes False s)
      fun _ t => Goes False s t :=
  (h line { c with script := some script } true s fun _ hnone => nomatch hnone).mono
    (fun _ ht => ht.mono fun hnone => nomatch hnone) fun _ _ ht => ht.mono fun hp => nomatch hp.1

theorem speaks_failedScript (path : String) (i : Nat) (p : Problem) (outputs : List String) :
    (failedScript path i p outputs).Speaks := by
  rintro _ ⟨⟩
  simp

theorem speaks_cancelledScript (path : String) (i : Nat) (job : Option JobId)
    (outputs : List String) : (cancelledScript path i job outputs).Speaks := by
  rintro _ ⟨⟩
  simp

theorem ends_runLines (hinner : Runs lossy inner) (script : Script) (outputs : List String)
    (ls : List (String × Nat)) (hs : Goes False s₀ s) :
    (runLines inner c script outputs ls).Ends (Allows lossy) s (Goes False s₀) fun r t =>
      Goes False s₀ t ∧ r.Speaks := by
  induction ls generalizing outputs s with
  | nil => exact Run.ends_pure ⟨hs, speaks_of_success rfl⟩
  | cons l rest ih =>
    obtain ⟨raw, i⟩ := l
    simp only [runLines]
    split
    · exact ih outputs hs
    · refine Run.ends_get_bind ?_
      split
      · exact Run.ends_pure ⟨hs, speaks_cancelledScript _ _ _ _⟩
      · have hline := hinner.script (c := c) (Text.strip raw) { script with line := i } s
        refine (hline.mono (fun _ ht => hs.trans ht) fun _ _ ht => hs.trans ht).bind fun r t ht => ?_
        split
        · exact Run.ends_pure ⟨ht, speaks_failedScript _ _ _ _⟩
        · exact ih _ ht

theorem ends_runScript (hinner : Runs lossy inner) (path : String) (args : List String) :
    (runScript inner path args c).Ends (Allows lossy) s (Goes False s) fun r t =>
      Goes False s t ∧ r.Speaks := by
  refine Run.ends_get_bind ?_
  dsimp only
  split
  · exact Run.ends_pure ⟨goes_refl s, speaks_fail (by simp) _⟩
  split
  · next f hf =>
    have hnode := FileSystem.faultsAre_readText _ _ _ f hf
    refine Run.ends_lift ?_
    cases hr : (Result.ofFault "" f : Except Fault (Result String)) with
    | ok r => exact ⟨goes_refl s, speaks_ofFault hnode hr⟩
    | error f => exact goes_refl s
  · refine Run.ends_modify_bind ?_
    refine (ends_runLines hinner _ _ _ (goes_setEnvironment _ _ s)).outcome_bind fun r t hr => ?_
    refine Run.ends_modify_bind (Run.ends_lift ?_)
    cases r with
    | ok r => exact ⟨hr.1.trans (goes_setEnvironment _ _ t), hr.2⟩
    | error f => exact Goes.trans hr (goes_setEnvironment _ _ t)

theorem ends_runCommands (hlossy : lossy) (hinner : Runs lossy inner) (k : Context)
    (outputs : List String) (modified : Bool) (commands : List (List String))
    (hs : Goes (k.caller.script = none ∧ (modified = true ∨ lossy ∧ Shown s₀ s)) s₀ s) :
    (runCommands inner k outputs modified commands).Ends (Allows lossy) s
      (Goes (k.caller.script = none ∧ lossy) s₀) fun r t =>
        Goes (k.caller.script = none ∧ Told lossy s₀ r t) s₀ t ∧ r.Speaks := by
  induction commands generalizing outputs modified s with
  | nil =>
    refine Run.ends_pure ⟨hs.mono fun h => ⟨h.1, ?_⟩, speaks_of_success rfl⟩
    exact h.2.imp_right fun h => ⟨h.1, .inr h.2⟩
  | cons words rest ih =>
    have hsofar : Goes (k.caller.script = none ∧ lossy) s₀ s := hs.mono fun h => ⟨h.1, hlossy⟩
    simp only [runCommands]
    refine Run.ends_get_bind ?_
    split
    · exact Run.ends_throw hsofar
    · have hline := hinner (Text.quoteWords words) k.caller false s fun hnot => absurd hlossy hnot
      refine (hline.mono (fun t ht => ?_) fun _ _ ht => ht).bind fun r t ht => ?_
      · exact hsofar.trans (ht.mono fun hnone => ⟨hnone, hlossy⟩)
      split
      · next hr =>
        have hsuccess : r.success = true := by simp [Result.success, hr]
        refine ih _ _ ((hs.add ht).mono fun h => ⟨h.1, h.2.imp (fun hm => ?_) fun h => ⟨h.1, ?_⟩⟩)
        · simpa using hm
        · simpa [hsuccess] using h.2
      · refine Run.ends_pure ⟨?_, speaks_fail (by simp) _⟩
        exact told_of_failure rfl (hsofar.trans (ht.mono fun h => ⟨h.1, hlossy⟩))

end Reporting
end MemShell
