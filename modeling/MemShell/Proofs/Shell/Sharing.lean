import MemShell.Proofs.Shell.Upkeep
import MemShell.Proofs.Storage.Saving
set_option autoImplicit false

namespace MemShell

structure Shell.Shared where
  root : Node
  accounts : Accounts
  aliases : Aliases
  jobs : JobTable
  elapsed : Time

def Shell.shared (s : Shell) : Shell.Shared := { s with root := s.files.root }

/-- Clock and storage are shared as well: the tree shows the times of changes, and whether a save
succeeds is told. -/
def Shell.SharesSame (s t : Shell) : Prop := t.shared = s.shared ∧ s.storage.Alike t.storage

/-- The same for whoever does not ask who the user of the foreground is, nor for its variables. -/
def Shell.GivesSame (s t : Shell) : Prop := s.SharesSame t ∧ t.files.cwd = s.files.cwd

def Note.isPersonal : Note → Bool
  | .command (.builtin b) _ => b = .set || b = .unset || b.switchesUser
  | _ => false

namespace Sharing
variable {v s t : Shell}

def Kept (v s t : Shell) : Prop :=
  t = s ∧ v.jobs.next ≤ s.jobs.next ∧ (s.jobs.next = v.jobs.next → v.SharesSame s)

def discipline : Discipline Shell where
  mine c := c.job = none
  same := Kept
  unsaved _ _ _ := False
  next v _ e u := e.isPersonal = true ∧ u = v

theorem kept_self (s : Shell) : Kept s s s :=
  ⟨rfl, Int.le_refl _, fun _ => ⟨rfl, Storage.alike_refl _⟩⟩

theorem switches_builtin {b : Builtin} {c : Context} (hc : c.caller.job = none)
    (hb : Note.isPersonal (.command (.builtin b) c) = true) : Builtins.Switches (b.run c) s := by
  simp only [Note.isPersonal, Bool.or_eq_true, decide_eq_true_eq] at hb
  rcases hb with (rfl | rfl) | hb
  · exact Builtins.switches_setVariable hc
  · exact Builtins.switches_unset hc
  · exact Builtins.switches_run hb

theorem upkeep : discipline.Upkeep
    (fun v s => v.jobs.next ≤ s.jobs.next ∧ (s.jobs.next = v.jobs.next → v.SharesSame s))
    fun _ _ => False where
  same := .rfl
  unsaved := ⟨False.elim, fun h => h.2⟩
  script _ h := h
  orSession {c _ s} h _ := by
    change (c.orSession s).job = none
    rwa [Caller.job_orSession]
  weaken {action _ _ _ _} hnext := by
    cases action with
    | builtin b => exact .inl ⟨b, rfl⟩
    | _ => cases hnext.1
  save := False.elim
  notify _ h := h
  record _ h := h
  environment {c _ _} _ hc h := by
    rw [show c.job = none from hc]
    exact h
  launch {_ v s} _ _ _ h := by
    have hlater : v.jobs.next < s.jobs.next + 1 := Int.lt_add_one_of_le h.1
    exact ⟨Int.le_of_lt hlater, fun heq => absurd heq (Int.ne_of_gt hlater)⟩
  next := by
    rintro v _ s action c ⟨-, rfl⟩ h
    exact h
  builtin := by
    rintro b c v _ s hc ⟨hb, rfl⟩ h
    refine ((switches_builtin hc hb).mono_fault ?_).mono ?_
    · rintro t ⟨session, environment, cwd, -, rfl⟩
      exact h
    · rintro r t ⟨hmodified, session, environment, cwd, -, rfl⟩
      rw [hmodified, Bool.and_false]
      exact h
  redirect := by
    rintro c target text v u s - ⟨htarget, -⟩
    cases htarget

theorem lawful : discipline.Lawful := upkeep.lawful

theorem sharesSame_of_steady {run : Run (Result String)} (hrun : discipline.Steady s run run s s)
    (hnoted : ∀ n ∈ Step.noted (run s), n.2.isPersonal = true)
    (hjobs : (Step.finish (run s)).jobs.next = s.jobs.next) :
    s.SharesSame (Step.finish (run s)) := by
  have halong := Step.Lockstep.along hrun fun _ _ _ _ => Discipline.same_of_ending
  exact (halong.finish (Step.knows_self fun n hn => ⟨hnoted n hn, rfl⟩)).2.2 hjobs

theorem sharesSame_of_line (line : String) (c : Caller) (record : Bool) (s : Shell)
    (hc : c.job = none)
    (hnoted : ∀ n ∈ Step.noted (Shell.execute line c record s), n.2.isPersonal = true)
    (hjobs : (Step.finish (Shell.execute line c record s)).jobs.next = s.jobs.next) :
    s.SharesSame (Step.finish (Shell.execute line c record s)) :=
  sharesSame_of_steady (lawful.runs_execute line c record s s s hc (kept_self s)) hnoted hjobs

end Sharing
end MemShell
