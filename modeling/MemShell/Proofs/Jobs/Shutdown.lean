import MemShell.Proofs.Jobs.Scheduling
set_option autoImplicit false

/-!
# Settling and shutting down

What holds of the routines that are ready or wait holds until all have settled. A shutdown in addition
brings the jobs of the table to their end: none of them is ready or waits when it is over, if none of
them waits again once it is cancelled.
-/
namespace MemShell

def Turn.job? {σ ρ : Type} : Turn σ ρ → Option JobId
  | .foreground | .nobody => none
  | .job id .. => some id

namespace Runtime
variable {σ ρ α : Type} (h : Host σ ρ)

/-- The jobs that have not come to their end: those that are ready, those that wait, and those that
were started and have no routine yet. -/
def pending (rt : Runtime σ ρ) : List JobId :=
  rt.ready.filterMap (·.turn.job?) ++ rt.timers.filterMap Timer.job? ++
    (h.takeStarted rt.state).1.map Prod.fst

variable {h} {kept good : σ → Prop} {roster : Roster σ ρ} {rt rt' : Runtime σ ρ}

theorem job?_of_turn {t : Timer σ ρ} {woken : Bool} : (t.turn woken).job? = t.job? := by
  obtain ⟨deadline, waiting⟩ := t
  cases waiting <;> rfl

theorem IsOf.job? {jobs : JobId → (σ → Step σ Note (Outcome ρ)) → Prop} {turn : Turn σ ρ}
    {P : JobId → Prop} (hturn : IsOf jobs turn) (hjobs : ∀ id run, jobs id run → P id) :
    ∀ id ∈ turn.job?, P id := by
  cases turn with
  | foreground => exact fun id hid => nomatch hid
  | nobody => exact fun id hid => nomatch hid
  | job other started run =>
    intro id hid
    obtain rfl : other = id := Option.some.inj hid
    exact hjobs other run hturn

/-- A condition on all that is on the roster, and on all that was started, holds of what is pending. -/
theorem Runs.pending {P : JobId → Prop} (hrt : rt.Runs roster)
    (hready : ∀ id run, roster.ready id run → P id)
    (hwaiting : ∀ id run, roster.waiting id run → P id)
    (hstarted : ∀ j ∈ (h.takeStarted rt.state).1, P j.1) : ∀ id ∈ rt.pending h, P id := by
  intro id hid
  rcases List.mem_append.mp hid with hid | hid
  · rcases List.mem_append.mp hid with hid | hid
    · obtain ⟨r, hr, hid⟩ := List.mem_filterMap.mp hid
      exact (hrt.ready r hr).job? hready id hid
    · obtain ⟨t, ht, hid⟩ := List.mem_filterMap.mp hid
      rw [show t.job? = (t.turn false).job? from job?_of_turn.symm] at hid
      exact (hrt.timers t ht false).job? hwaiting id hid
  · obtain ⟨j, hj, rfl⟩ := List.mem_map.mp hid
    exact hstarted j hj

theorem Runs.mono {roster' : Roster σ ρ} (hrt : rt.Runs roster)
    (hready : ∀ id run, roster.ready id run → roster'.ready id run)
    (hwaiting : ∀ id run, roster.waiting id run → roster'.waiting id run) : rt.Runs roster' :=
  ⟨fun r hr => (hrt.ready r hr).mono hready, fun t ht woken => (hrt.timers t ht woken).mono hwaiting⟩

def Roster.among (own : JobId → (σ → Step σ Note (Outcome ρ)) → Prop) (ready waiting : JobId → Prop) :
    Roster σ ρ :=
  ⟨fun id run => own id run ∧ ready id, fun id run => own id run ∧ waiting id⟩

/-- Whoever is ready or waits is pending. -/
theorem Runs.among_pending {own : JobId → (σ → Step σ Note (Outcome ρ)) → Prop}
    {ready waiting : JobId → Prop} (hrt : rt.Runs (.among own ready waiting)) :
    rt.Runs (.among own (· ∈ rt.pending h) (· ∈ rt.pending h)) := by
  have hown {turn : Turn σ ρ} {P : JobId → Prop} (hpending : ∀ id ∈ turn.job?, id ∈ rt.pending h)
      (hturn : IsOf (fun id run => own id run ∧ P id) turn) :
      IsOf (fun id run => own id run ∧ id ∈ rt.pending h) turn := by
    cases turn with
    | foreground => trivial
    | nobody => trivial
    | job id started run => exact ⟨hturn.1, hpending id rfl⟩
  refine ⟨fun r hr => hown (fun id hid => ?_) (hrt.ready r hr), fun t ht woken =>
    hown (fun id hid => ?_) (hrt.timers t ht woken)⟩
  · exact List.mem_append_left _ (List.mem_append_left _ (List.mem_filterMap.mpr ⟨r, hr, hid⟩))
  · rw [job?_of_turn] at hid
    exact List.mem_append_left _ (List.mem_append_right _ (List.mem_filterMap.mpr ⟨t, ht, hid⟩))

section
variable (hinv : Invariant h kept good (fun _ _ => True) roster)
include hinv

theorem Sound.settleWithin {n : Nat} (hrt : rt.Sound good roster) :
    (rt.settleWithin h n).Sound good roster := by
  induction n generalizing rt with
  | zero => exact hrt
  | succ n ih =>
    have hprogress := Sound.progress hinv hrt fun _ _ => trivial
    unfold Runtime.settleWithin
    cases hp : rt.progress h with
    | idle rt₁ =>
      rw [hp] at hprogress
      exact hprogress
    | foreground rt₁ =>
      rw [hp] at hprogress
      exact ih hprogress
    | moved rt₁ =>
      rw [hp] at hprogress
      exact ih hprogress

/-- Once none of the jobs that are shut down is ready, the others have the roster to themselves. -/
theorem Sound.endWithin {left : Roster σ ρ} {listed : JobId → Bool} {n : Nat}
    (hleft : Invariant h kept good (fun _ _ => True) left)
    (hclosed : ∀ rt : Runtime σ ρ, rt.Runs roster → rt.ready.any (isEnding listed) = false →
      rt.Runs left)
    (hrt : rt.Sound good roster) (hend : rt.endWithin h listed n = some rt') :
    rt'.Sound good left := by
  induction n generalizing rt with
  | zero => cases hend
  | succ n ih =>
    have hprogress := Sound.progress hinv hrt fun _ _ => trivial
    unfold Runtime.endWithin at hend
    split at hend
    · cases hp : rt.progress h with
      | idle rt₁ =>
        rw [hp] at hend
        cases hend
      | foreground rt₁ =>
        rw [hp] at hprogress hend
        exact ih hprogress hend
      | moved rt₁ =>
        rw [hp] at hprogress hend
        exact ih hprogress hend
    · next hover =>
      have hothers := (hclosed rt hrt.1 (by simpa using hover)).push (r := ⟨1, .foreground⟩) trivial
      exact Sound.awaitWithin hleft ⟨hothers, hrt.2⟩ (fun _ _ => trivial) hend

end

variable {left : Roster σ ρ} {listed : JobId → Bool}

theorem isOf_cutShort {r r' : Ready σ ρ} (hr : IsOf roster.ready r.turn)
    (hready : ∀ id run, roster.ready id run → listed id = false → left.ready id run)
    (hcancelled : ∀ id, listed id = true → left.ready id fun s => .done s cancelledOutcome)
    (hcut : cutShort listed r = some r') : IsOf left.ready r'.turn := by
  obtain ⟨passes, turn⟩ := r
  cases turn with
  | foreground =>
    cases hcut
    trivial
  | nobody =>
    cases hcut
    trivial
  | job id started run =>
    unfold cutShort at hcut
    dsimp only at hcut
    split at hcut
    · next hid =>
      cases hcut
      exact hready id run hr (by simpa using hid)
    · next hid =>
      split at hcut
      · cases hcut
        trivial
      split at hcut
      · cases hcut
        exact hcancelled id (by simpa using hid)
      · cases hcut

theorem isOf_givingUp? {r : Ready σ ρ} {e : JobId × Turn σ ρ}
    (hcancelled : ∀ id, listed id = true → left.ready id fun s => .done s cancelledOutcome)
    (he : givingUp? listed r = some e) : IsOf left.ready e.2 := by
  obtain ⟨passes, turn⟩ := r
  cases turn with
  | foreground => cases he
  | nobody => cases he
  | job id started run =>
    unfold givingUp? at he
    dsimp only at he
    split at he
    · next hid =>
      cases he
      simp only [Bool.and_eq_true] at hid
      exact hcancelled id hid.1.1
    · cases he

theorem isOf_interrupted? {t : Timer σ ρ} {e : JobId × Turn σ ρ}
    (ht : ∀ woken, IsOf roster.waiting (t.turn woken))
    (hwoken : ∀ id run, roster.waiting id run → listed id = true → left.ready id run)
    (hcancelled : ∀ id, listed id = true → left.ready id fun s => .done s cancelledOutcome)
    (he : interrupted? listed t = some e) : IsOf left.ready e.2 := by
  obtain ⟨deadline, waiting⟩ := t
  cases waiting with
  | foreground => cases he
  | job id interruptible resume =>
    unfold interrupted? at he
    dsimp only [Timer.job?] at he
    split at he
    · cases he
    · next hid =>
      cases he
      have hlisted : listed id = true := by simpa using hid
      dsimp only
      split
      · exact hwoken id _ (ht true) hlisted
      · exact hcancelled id hlisted

theorem isOf_waiting_of_not_interrupted {t : Timer σ ρ} {woken : Bool}
    (ht : IsOf roster.waiting (t.turn woken))
    (hwaiting : ∀ id run, roster.waiting id run → listed id = false → left.waiting id run)
    (hnot : (interrupted? listed t).isNone = true) : IsOf left.waiting (t.turn woken) := by
  obtain ⟨deadline, waiting⟩ := t
  cases waiting with
  | foreground => trivial
  | job id interruptible resume =>
    unfold interrupted? at hnot
    dsimp only [Timer.job?] at hnot
    split at hnot
    · next hid => exact hwaiting id _ ht (by simpa using hid)
    · cases hnot

/-- Jobs that are shut down wait no longer. They are ready, or are given up. -/
theorem Runs.interrupt (hrt : rt.Runs roster)
    (hready : ∀ id run, roster.ready id run → listed id = false → left.ready id run)
    (hwaiting : ∀ id run, roster.waiting id run → listed id = false → left.waiting id run)
    (hwoken : ∀ id run, roster.waiting id run → listed id = true → left.ready id run)
    (hcancelled : ∀ id, listed id = true → left.ready id fun s => .done s cancelledOutcome) :
    (rt.interrupt listed).Runs left := by
  refine ⟨fun r hr => ?_, fun t ht woken => ?_⟩
  · rcases List.mem_append.mp hr with hr | hr
    · obtain ⟨r₀, hr₀, hcut⟩ := List.mem_filterMap.mp hr
      exact isOf_cutShort (hrt.ready r₀ hr₀) hready hcancelled hcut
    · obtain ⟨e, he, rfl⟩ := List.mem_map.mp hr
      rcases List.mem_append.mp (List.mem_mergeSort.mp he) with he | he
      · obtain ⟨r₀, -, he⟩ := List.mem_filterMap.mp he
        exact isOf_givingUp? hcancelled he
      · obtain ⟨t, ht, he⟩ := List.mem_filterMap.mp he
        exact isOf_interrupted? (hrt.timers t ht) hwoken hcancelled he
  · obtain ⟨ht, hnot⟩ := List.mem_filter.mp ht
    exact isOf_waiting_of_not_interrupted (hrt.timers t ht woken) hwaiting hnot

end Runtime
end MemShell
