import MemShell.Proofs.Shell.Builtins
set_option autoImplicit false

/-!
# Upkeep

What lines keep of single states, each compared with no other. Such a discipline is lawful if every
action upholds what it says.
-/
namespace MemShell

namespace Work
variable {σ α : Type} {x : Work σ α} {s : σ} {E : σ → Prop} {Q : α → σ → Prop} {R : σ → σ → Prop}
  {S : α → α → σ → σ → Prop}

theorem Ends.parallel (h : x.Ends s E Q) (hE : ∀ t, E t → R t t)
    (hQ : ∀ a t, Q a t → S a a t t) : x.Parallel x s s R S := by
  unfold Ends at h
  cases hrun : x.run s with
  | mk out t =>
    rw [hrun] at h
    cases out with
    | ok a => exact .ok hrun hrun (hQ a t h)
    | error f => exact .error hrun hrun (hE t h)

theorem Parallel.ends (h : x.Parallel x s s R S) : x.Ends s (fun t => R t t) fun a t => S a a t t := by
  cases h with
  | ok hx hy h =>
    rw [hx] at hy
    cases hy
    exact ends_of_run hx h
  | error hx hy h =>
    rw [hx] at hy
    cases hy
    exact ends_of_fault hx h

theorem Lockstep.self (h : x.Lockstep R s s) : R (x.run s).2 (x.run s).2 :=
  (h.ends.mono fun _ _ h => h.2).state (E := fun t => R t t)

end Work

structure Upheld (P : Shell → Prop) (job : Option JobId) : Prop where
  cwd {s : Shell} (p : Place) : P s → P { s with files := { s.files with cwd := p } }
  environment {s : Shell} (e : Environment) : P s → e.below = (s.environmentOf job).below →
    P (s.setEnvironment job e)
  aliases {s : Shell} (a : Aliases) : P s → P { s with aliases := a }
  accounts {s : Shell} (a : Accounts) : P s → P { s with accounts := a }
  jobs {s : Shell} {j : JobTable} : P s → s.jobs.Move j → j.next = s.jobs.next →
    P { s with jobs := j }
  save {s : Shell} : P s → P (Effect.save.run s).2

structure Unmoved (P : Shell → Prop) : Prop where
  files {s : Shell} (fs : FileSystem) : P s → P { s with files := fs }
  accounts {s : Shell} (a : Accounts) : P s → P { s with accounts := a }

section
variable {P : Shell → Prop} {job : Option JobId} {s : Shell} {b : Builtin} {c : Context}

theorem Upheld.steadfast (h : Upheld P job) : Steadfast (fun s t => t = s ∧ P s) job where
  view hs := by rw [hs.1]
  cwd p hs := ⟨by rw [hs.1], h.cwd p hs.2⟩
  environment e hs he := ⟨by rw [hs.1], h.environment e hs.2 he⟩
  aliases a hs := ⟨by rw [hs.1], h.aliases a hs.2⟩
  accounts a hs := ⟨by rw [hs.1], h.accounts a hs.2⟩
  jobs hs hmove hnext := ⟨by rw [hs.1], h.jobs hs.2 hmove hnext⟩
  attached hs := by rw [hs.1]
  save := by
    rintro s _ ⟨rfl, hs⟩
    exact Work.lockstep_self ⟨rfl, h.save hs⟩

theorem Unmoved.malleable (h : Unmoved P) (job : Option JobId) :
    Malleable (fun s t => t = s ∧ P s) job where
  view hs := by rw [hs.1]
  files fs hs := ⟨by rw [hs.1], h.files fs hs.2⟩
  accounts a hs := ⟨by rw [hs.1], h.accounts a hs.2⟩

theorem Unmoved.run (h : Unmoved P) (hs : P s) (hb : b.changesTree = true) :
    P ((b.run c).run s).2 := ((h.malleable _).lockstep_run ⟨rfl, hs⟩ hb).self.2

theorem Unmoved.writeRedirect (h : Unmoved P) (hs : P s) (caller : Caller) (target : Redirect)
    (text : String) : P ((Execute.writeRedirect caller target text).run s).2 :=
  ((h.malleable _).lockstep_writeRedirect ⟨rfl, hs⟩ target text).self.2

theorem Builtin.upholds (h : Upheld P c.caller.job) (hs : P s)
    (htree : b.changesTree = true → P ((b.run c).run s).2)
    (hswitch : b.switchesUser = true → ∀ t, Builtins.Switched s t → P t)
    (hhistory : ∀ history, P { s with history }) : P ((b.run c).run s).2 := by
  have hrun : (b.run c).Lockstep (fun s t => t = s ∧ P s) s s :=
    lockstep_self h.steadfast ⟨rfl, hs⟩ (fun hb => Work.lockstep_self ⟨rfl, htree hb⟩)
      (fun hb t ht => ⟨rfl, hswitch hb t ht⟩) fun history => ⟨rfl, hhistory history⟩
  exact hrun.self.2

end

namespace Discipline
open Execute
variable {ι : Type} {d : Discipline ι} {P U : ι → Shell → Prop}

/-- Each action upholds what a discipline says of single states: `P` between actions, and `U` between
a change of the tree and its saving. -/
structure Upholds (d : Discipline ι) (P U : ι → Shell → Prop) : Prop where
  same {v : ι} {s t : Shell} : d.same v s t ↔ t = s ∧ P v s
  unsaved {v : ι} {s t : Shell} : d.unsaved v s t ↔ t = s ∧ U v s
  orSession {c : Caller} {v : ι} {s : Shell} : d.mine c → P v s → d.mine (c.orSession s)
  weaken {action : Action} {c : Context} {v u : ι} {s : Shell} :
    d.next v s (.command action c) u → (∃ b, action = .builtin b) ∨ ∀ v s, P v s → U v s
  save {v : ι} {s : Shell} : U v s → P v (Effect.save.run s).2
  notify {v : ι} {s : Shell} (line : String) : P v s → P v (s.notify line)
  record {v : ι} {s : Shell} (f : History → History) : P v s → P v { s with history := f s.history }
  environment {c : Caller} {v : ι} {s : Shell} (e : Environment) : d.mine c → P v s →
    P v (s.setEnvironment c.job e)
  next {v u : ι} {s : Shell} {action : Action} {c : Context} :
    d.next v s (.command action c) u → P v s → P u s
  builtin {b : Builtin} {c : Context} {v u : ι} {s : Shell} : d.mine c.caller →
    d.next v s (.command (.builtin b) c) u → P v s →
    (b.run c).Ends s (P u) fun r t => if r.success && r.modified then U u t else P u t
  redirect {c : Caller} {target : Redirect} {text : String} {v u : ι} {s : Shell} : d.mine c →
    d.next v s (.redirect c target text) u → P v s →
    (writeRedirect c target text).Ends s (P u) fun _ => U u

structure Upkeep (d : Discipline ι) (P U : ι → Shell → Prop) : Prop extends d.Upholds P U where
  script {c : Caller} (script : Option Script) : d.mine c → d.mine { c with script }
  launch {c : Caller} {v : ι} {s : Shell} (p : Pipeline) : p.background = true → d.mine c →
    P v s → P v (startJob p c s).2

theorem ends_of_upholds {P U : Shell → Prop} {s : Shell} {b : Builtin} {c : Context}
    (h : P ((b.run c).run s).2) (hU : ∀ t, P t → U t) :
    (b.run c).Ends s P fun r t => if r.success && r.modified then U t else P t := by
  refine (Work.ends_of_state h).mono fun r t ht => ?_
  split
  · exact hU t ht
  · exact ht

theorem Upholds.laws (h : d.Upholds P U) : d.Laws where
  orSession hc hs := by
    obtain ⟨rfl, hs⟩ := h.same.mp hs
    exact ⟨rfl, h.orSession hc hs⟩
  view _ hs := by rw [(h.same.mp hs).1]
  unsaved hnext := (h.weaken hnext).imp_right fun hweaken v s t hs => by
    obtain ⟨rfl, hs⟩ := h.same.mp hs
    exact h.unsaved.mpr ⟨rfl, hweaken v t hs⟩
  save hs := by
    obtain ⟨rfl, hs⟩ := h.unsaved.mp hs
    exact Work.lockstep_self (h.same.mpr ⟨rfl, h.save hs⟩)
  notify line hs := by
    obtain ⟨rfl, hs⟩ := h.same.mp hs
    exact h.same.mpr ⟨rfl, h.notify line hs⟩
  record f hs := by
    obtain ⟨rfl, hs⟩ := h.same.mp hs
    exact h.same.mpr ⟨rfl, h.record f hs⟩
  environment e hc hs := by
    obtain ⟨rfl, hs⟩ := h.same.mp hs
    exact h.same.mpr ⟨rfl, h.environment e hc hs⟩
  next hu hs := by
    obtain ⟨rfl, hs⟩ := h.same.mp hs
    exact h.same.mpr ⟨rfl, h.next hu hs⟩
  builtin hc hu hs := by
    obtain ⟨rfl, hs⟩ := h.same.mp hs
    refine (h.builtin hc hu hs).parallel (fun t ht => h.same.mpr ⟨rfl, ht⟩) fun r t ht => ?_
    refine ⟨rfl, ?_⟩
    unfold after
    split at ht
    · next hmodified =>
      rw [if_pos hmodified]
      exact h.unsaved.mpr ⟨rfl, ht⟩
    · next hmodified =>
      rw [if_neg hmodified]
      exact h.same.mpr ⟨rfl, ht⟩
  redirect hc hu hs := by
    obtain ⟨rfl, hs⟩ := h.same.mp hs
    exact (h.redirect hc hu hs).parallel (fun t ht => h.same.mpr ⟨rfl, ht⟩)
      fun _ t ht => h.unsaved.mpr ⟨rfl, ht⟩

theorem Upkeep.lawful (h : d.Upkeep P U) : d.Lawful where
  toLaws := h.laws
  script := h.script
  launch p hp hc hs := by
    obtain ⟨rfl, hs⟩ := h.same.mp hs
    exact h.same.mpr ⟨rfl, h.launch p hp hc hs⟩

end Discipline
end MemShell
