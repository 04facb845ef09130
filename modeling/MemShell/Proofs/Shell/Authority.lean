import MemShell.Proofs.Shell.Upkeep
set_option autoImplicit false

namespace MemShell

def Note.KeepsUser (s : Shell) : Note → Prop
  | .command (.builtin b) c => ((b.run c).run s).2.user = s.user
  | _ => True

namespace Authority

def Kept (user : String) (current : Prop) (s t : Shell) : Prop :=
  t = s ∧ (current → s.user = user)

/-- What the lines of a user keep. If `current` holds, the user is the current one, and it is enough
to follow the lines as far as that is so. -/
def discipline (user : String) (current : Prop) : Discipline Unit where
  mine c := c.user = user ∧ c.job = none
  same _ := Kept user current
  unsaved _ := Kept user current
  next _ s e _ := current → e.KeepsUser s

variable {user : String} {current : Prop} {s t : Shell}

theorem unmoved : Unmoved fun s => s.user = user where
  files _ h := h
  accounts _ h := h

theorem upkeep (huser : user ≠ "" ∨ current) :
    (discipline user current).Upkeep (fun _ s => current → s.user = user)
      fun _ s => current → s.user = user where
  same := .rfl
  unsaved := .rfl
  script _ h := h
  orSession {c _ s} hc h := by
    refine ⟨?_, ?_⟩
    · unfold Caller.orSession
      split
      · next hempty =>
        rw [hc.1] at hempty
        rcases huser with hnamed | hcurrent
        · exact absurd (String.isEmpty_iff.mp hempty) hnamed
        · exact h hcurrent
      · exact hc.1
    · rw [Caller.job_orSession]
      exact hc.2
  weaken _ := .inr fun _ _ h => h
  save h := h
  notify _ h := h
  record _ h := h
  environment {c _ _} _ _ h := by cases c.job <;> exact h
  launch _ _ _ h := h
  next _ h := h
  builtin _ hnext h :=
    Discipline.ends_of_upholds (fun hcurrent => (hnext hcurrent).trans (h hcurrent)) fun _ h => h
  redirect _ _ h :=
    Work.ends_of_state fun hcurrent => unmoved.writeRedirect (h hcurrent) _ _ _

theorem lawful (huser : user ≠ "" ∨ current) : (discipline user current).Lawful :=
  (upkeep huser).lawful

def turns (line : String) (record : Bool) (s : Shell) (more : List (Shell × Bool)) :
    List (Stint Shell Note) :=
  Step.stints (some fun t _ => Shell.execute line { user := s.user } record t) ((s, false) :: more)

variable {line : String} {record : Bool} {more : List (Shell × Bool)}

theorem event_of_kept (current : Prop) (huser : s.user ≠ "" ∨ current)
    (hstart : ∀ T ∈ turns line record s more, current → T.start.user = s.user)
    {before after : List (Shell × Note)} {n : Shell × Note}
    (hnoted : (turns line record s more).flatMap Stint.noted = before ++ n :: after)
    (hbefore : ∀ m ∈ before, current → m.2.KeepsUser m.1) :
    (n.2.caller.user = s.user ∧ n.2.caller.job = none) ∧ (current → n.1.user = s.user) := by
  have hlawful := lawful huser
  have hgo : Step.GoOn (discipline s.user current).pact
      (Run.Ending (discipline s.user current).same fun v _ => (discipline s.user current).same v)
      (some fun t _ => Shell.execute line { user := s.user } record t)
      (some fun t _ => Shell.execute line { user := s.user } record t) :=
    .some fun v a b _ hs => hlawful.runs_execute line _ record v a b ⟨rfl, rfl⟩ hs
  have hevent := hgo.event_of_kept (v := ()) (fun _ _ _ _ => Discipline.same_of_ending)
    (fun T hT => ⟨rfl, hstart T hT⟩) hnoted hbefore
  exact ⟨hevent.1.1, hevent.2.2⟩

/-- A named user stays the one on whose behalf all of the line acts, whoever becomes the current
user. Whatever the user is called, it is the current one as long as no command changes users. -/
theorem acts_as_typed (line : String) (record : Bool) (s : Shell) (more : List (Shell × Bool)) :
    (s.user ≠ "" → ∀ T ∈ turns line record s more, ∀ n ∈ T.noted,
      n.2.caller.user = s.user ∧ n.2.caller.job = none) ∧
    ((∀ T ∈ turns line record s more, T.start.user = s.user) →
      ∀ before n after, (turns line record s more).flatMap Stint.noted = before ++ n :: after →
        (∀ m ∈ before, m.2.KeepsUser m.1) →
        n.2.caller.user = n.1.user ∧ n.2.caller.job = none) := by
  constructor
  · intro hnamed T hT n hn
    have hmem : n ∈ (turns line record s more).flatMap Stint.noted :=
      List.mem_flatMap.mpr ⟨T, hT, hn⟩
    obtain ⟨before, after, hnoted⟩ := List.append_of_mem hmem
    exact (event_of_kept False (.inl hnamed) (fun _ _ h => False.elim h) hnoted
      fun _ _ h => False.elim h).1
  · intro hstart before n after hnoted hbefore
    have hcurrent := event_of_kept True (.inr trivial) (fun T hT _ => hstart T hT) hnoted
      fun m hm _ => hbefore m hm
    obtain ⟨⟨huser, hjob⟩, hsession⟩ := hcurrent
    exact ⟨huser.trans (hsession trivial).symm, hjob⟩

/-- Root becomes another user, and goes on as root. -/
theorem acts_as_typed_su :
    let s := Shell.bare Catalogue.users
    let s := { s with accounts := { users := [("bob", { name := "bob", primaryGroup := "bob" })] } }
    (turns "su bob; whoami" true s []).map (fun T => T.noted.map fun n =>
      (n.1.user, n.2.caller.user)) = [[("root", "root"), ("bob", "root")]] ∧
    ∀ T ∈ turns "su bob; whoami" true s [], ∀ n ∈ T.noted,
      n.2.caller.user = s.user ∧ n.2.caller.job = none :=
  ⟨by decide +kernel, (acts_as_typed _ _ _ _).1 (by decide)⟩

end Authority
end MemShell
