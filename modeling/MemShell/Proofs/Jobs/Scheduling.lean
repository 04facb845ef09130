import MemShell.Jobs.Schedule
import MemShell.Proofs.Routine.Lockstep
set_option autoImplicit false

/-!
# Invariants of scheduling

A condition on the shared state that every turn of a routine keeps is kept by the foreground as it
waits, whichever jobs have their turns meanwhile. Within a turn a weaker condition is enough, if it
gives the stronger one back when the jobs that were started are taken in.
-/
namespace MemShell

/-- A routine whose turns leave `kept` states if they begin in `good` ones, as long as all that it
notes is allowed. -/
inductive Step.Keeps {σ ε α : Type} (kept good : σ → Prop) (allowed : σ → ε → Prop) :
    Step σ ε α → Prop
  | done {s : σ} {a : α} (h : kept s) : Keeps kept good allowed (.done s a)
  | wait {s : σ} {w : Wait} {resume : σ → Bool → Step σ ε α} (h : kept s)
    (hresume : ∀ t woken, good t → Keeps kept good allowed (resume t woken)) :
    Keeps kept good allowed (.wait s w resume)
  | note {s : σ} {e : ε} {next : Step σ ε α} (h : allowed s e → Keeps kept good allowed next) :
    Keeps kept good allowed (.note s e next)

/-- A routine that is in lockstep with itself, as long as what is known is enough. -/
theorem Step.Lockstep.keeps {ι σ ε α : Type} {p : Pact ι σ ε} {Q : ι → α → σ → σ → Prop} {v : ι}
    {x y : Step σ ε α} {kept good : σ → Prop} {allowed : σ → ε → Prop} (known : ι → Prop)
    (h : Step.Lockstep p Q v x y) (hv : known v) (hQ : ∀ v a s t, Q v a s t → p.same v s t)
    (hkept : ∀ v s t, known v → p.same v s t → kept s)
    (hgood : ∀ s, good s → ∃ v, known v ∧ p.same v s s)
    (hnext : ∀ v s e, known v → allowed s e → ∃ u, known u ∧ p.next v s e u) :
    x.Keeps kept good allowed := by
  induction h with
  | done h => exact .done (hkept _ _ _ hv (hQ _ _ _ _ h))
  | wait h _ _ ih =>
    refine .wait (hkept _ _ _ hv h) fun s woken hs => ?_
    obtain ⟨u, hu, hsame⟩ := hgood s hs
    exact ih u s s woken hsame hu
  | note _ _ _ ih =>
    refine .note fun hallowed => ?_
    obtain ⟨u, hu, hstep⟩ := hnext _ _ _ hv hallowed
    exact ih u hstep hu

namespace Runtime
variable {σ ρ α : Type} (h : Host σ ρ)

def nextNoted (rt : Runtime σ ρ) : List (σ × Note) :=
  match (rt.fireDue h).ready with
  | ⟨0, .job _ _ run⟩ :: _ => (run rt.state).noted
  | _ => []

def awaitNoted : Nat → Runtime σ ρ → List (σ × Note)
  | 0, _ => []
  | n + 1, rt =>
    rt.nextNoted h ++
      match rt.progress h with
      | .foreground _ => []
      | .moved rt => awaitNoted n rt
      | .idle rt =>
        match rt.nextDeadline with
        | none => []
        | some t => awaitNoted n { rt with state := h.setElapsed t rt.state }

def followNoted : Step σ Note α → Runtime σ ρ → List (σ × Note)
  | .done _ _, _ => []
  | .wait s w resume, rt =>
    awaitNoted h maxTurns (rt.giveWay h s w) ++
      match awaitWithin h maxTurns (rt.giveWay h s w) with
      | none => []
      | some rt => followNoted (resume rt.state false) rt
  | .note s e next, rt => (s, e) :: followNoted next rt

def IsOf (jobs : JobId → (σ → Step σ Note (Outcome ρ)) → Prop) : Turn σ ρ → Prop
  | .foreground | .nobody => True
  | .job id _ run => jobs id run

theorem IsOf.mono {jobs jobs' : JobId → (σ → Step σ Note (Outcome ρ)) → Prop} {turn : Turn σ ρ}
    (h : IsOf jobs turn) (hjobs : ∀ id run, jobs id run → jobs' id run) : IsOf jobs' turn := by
  cases turn with
  | foreground => trivial
  | nobody => trivial
  | job id started run => exact hjobs id run h

/-- Which jobs may be ready and which may wait for a timer, with what is left of them. -/
structure Roster (σ ρ : Type) where
  ready : JobId → (σ → Step σ Note (Outcome ρ)) → Prop
  waiting : JobId → (σ → Step σ Note (Outcome ρ)) → Prop

def Roster.of (routine : (σ → Step σ Note (Outcome ρ)) → Prop) : Roster σ ρ :=
  ⟨fun _ => routine, fun _ => routine⟩

structure Runs (roster : Roster σ ρ) (rt : Runtime σ ρ) : Prop where
  ready : ∀ r ∈ rt.ready, IsOf roster.ready r.turn
  timers : ∀ t ∈ rt.timers, ∀ woken, IsOf roster.waiting (t.turn woken)

/-- Conditions on the state that routines keep, and all that scheduling itself does: `good` ones
between turns, and `kept` ones where jobs may have been started. -/
structure Invariant (kept good : σ → Prop) (allowed : σ → Note → Prop) (roster : Roster σ ρ) :
    Prop where
  started {s : σ} : kept s → ∀ j ∈ (h.takeStarted s).1, roster.ready j.1 j.2
  woken {id : JobId} {run : σ → Step σ Note (Outcome ρ)} : roster.waiting id run →
    roster.ready id run
  resumed {id : JobId} {run : σ → Step σ Note (Outcome ρ)} {s : σ}
    {resume : σ → Bool → Step σ Note (Outcome ρ)} (woken : Bool) : roster.ready id run → good s →
    (run s).resume? = some resume → roster.waiting id fun t => resume t woken
  turn {id : JobId} {run : σ → Step σ Note (Outcome ρ)} {s : σ} : roster.ready id run → good s →
    (run s).Keeps kept good allowed
  taken {s : σ} : kept s → good (h.takeStarted s).2
  elapsed {s : σ} (t : Time) : good s → good (h.setElapsed t s)
  finish {s : σ} (id : JobId) (r : Outcome ρ) : kept s → kept (h.finish id r s)

variable {h} {kept good : σ → Prop} {allowed : σ → Note → Prop} {roster : Roster σ ρ}
  {rt rt' : Runtime σ ρ}

def Sound (good : σ → Prop) (roster : Roster σ ρ) (rt : Runtime σ ρ) : Prop :=
  rt.Runs roster ∧ good rt.state

theorem Runs.push {r : Ready σ ρ} (hrt : rt.Runs roster) (hr : IsOf roster.ready r.turn) :
    ({ rt with ready := rt.ready ++ [r] } : Runtime σ ρ).Runs roster := by
  refine ⟨fun r' hr' => ?_, hrt.timers⟩
  rcases List.mem_append.mp hr' with hr' | hr'
  · exact hrt.ready r' hr'
  · rw [List.mem_singleton.mp hr']
    exact hr

theorem Runs.park (hrt : rt.Runs roster) (w : Wait) {waiting : Waiting σ ρ}
    (hwaiting : ∀ deadline woken,
      IsOf roster.waiting ((⟨deadline, waiting⟩ : Timer σ ρ).turn woken)) :
    (rt.park h w waiting).Runs roster := by
  refine ⟨hrt.ready, fun t ht => ?_⟩
  rcases List.mem_append.mp ht with ht | ht
  · exact hrt.timers t ht
  · rw [List.mem_singleton.mp ht]
    exact hwaiting _

section
variable (hinv : Invariant h kept good allowed roster)
include hinv

theorem Sound.fireDue (hrt : rt.Sound good roster) : (rt.fireDue h).Sound good roster := by
  unfold Runtime.fireDue
  simp only [List.partition_eq_filter_filter]
  refine ⟨⟨fun r hr => ?_, fun t ht => hrt.1.timers t (List.mem_filter.mp ht).1⟩, hrt.2⟩
  rcases List.mem_append.mp hr with hr | hr
  · exact hrt.1.ready r hr
  · obtain ⟨t, ht, rfl⟩ := List.mem_map.mp hr
    have hwaiting := hrt.1.timers t (List.mem_filter.mp (List.mem_mergeSort.mp ht)).1 false
    exact hwaiting.mono fun _ _ => hinv.woken

theorem Sound.absorb (hrt : rt.Runs roster) (hs : kept rt.state) :
    (rt.absorb h).Sound good roster := by
  unfold Runtime.absorb
  simp only [List.partition_eq_filter_filter]
  refine ⟨⟨fun r hr => ?_, fun t ht => hrt.timers t (List.mem_filter.mp ht).1⟩, hinv.taken hs⟩
  rcases List.mem_append.mp hr with hr | hr
  · rcases List.mem_append.mp hr with hr | hr
    · exact hrt.ready r hr
    · obtain ⟨j, hj, rfl⟩ := List.mem_map.mp hr
      exact hinv.started hs j hj
  · obtain ⟨t, ht, rfl⟩ := List.mem_map.mp hr
    have hwaiting := hrt.timers t (List.mem_filter.mp (List.mem_mergeSort.mp ht)).1 true
    exact hwaiting.mono fun _ _ => hinv.woken

theorem Sound.take {x : Step σ Note (Outcome ρ)} (id : JobId) (hrt : rt.Runs roster)
    (hx : x.Keeps kept good allowed) (hnoted : ∀ n ∈ x.noted, allowed n.1 n.2)
    (hrest : ∀ resume, x.resume? = some resume → ∀ woken,
      roster.waiting id fun s => resume s woken) :
    (rt.take h id x).Sound good roster := by
  induction hx with
  | done hs => exact Sound.absorb hinv ⟨hrt.ready, hrt.timers⟩ (hinv.finish id _ hs)
  | note _ ih =>
    refine ih (hnoted _ (List.mem_cons_self ..)) ?_ hrest
    exact fun n hn => hnoted n (List.mem_cons_of_mem _ hn)
  | @wait s w resume hs _ _ =>
    have hrun : ({ rt with state := s } : Runtime σ ρ).Runs roster := ⟨hrt.ready, hrt.timers⟩
    have hresume := hrest resume rfl
    unfold Runtime.take
    dsimp only
    split
    · exact Sound.absorb hinv (hrun.push (hinv.woken (hresume false))) hs
    · exact Sound.absorb hinv (hrun.park w fun _ woken => hresume woken) hs

def Progress.runtime : Progress σ ρ → Runtime σ ρ
  | .idle rt | .foreground rt | .moved rt => rt

theorem Sound.progress (hrt : rt.Sound good roster)
    (hnoted : ∀ n ∈ rt.nextNoted h, allowed n.1 n.2) :
    (rt.progress h).runtime.Sound good roster := by
  have hstate : (rt.fireDue h).state = rt.state := rfl
  have hfired := Sound.fireDue hinv hrt
  unfold Runtime.progress
  unfold nextNoted at hnoted
  generalize rt.fireDue h = fired at hstate hfired hnoted
  obtain ⟨⟨hready, htimers⟩, hgood⟩ := hfired
  dsimp only
  cases hqueue : fired.ready with
  | nil => exact ⟨⟨hready, htimers⟩, hgood⟩
  | cons r rest =>
    rw [hqueue] at hready hnoted
    have hrest : ∀ r ∈ rest, IsOf roster.ready r.turn := fun r hr => hready r (List.mem_cons_of_mem _ hr)
    have hr := hready r (List.mem_cons_self ..)
    obtain ⟨passes, turn⟩ := r
    cases passes with
    | succ passes =>
      have hpassed : ({ fired with ready := rest } : Runtime σ ρ).Runs roster := ⟨hrest, htimers⟩
      exact ⟨hpassed.push (r := ⟨passes, turn⟩) hr, hgood⟩
    | zero =>
      cases turn with
      | foreground => exact ⟨⟨hrest, htimers⟩, hgood⟩
      | nobody => exact ⟨⟨hrest, htimers⟩, hgood⟩
      | job id started run =>
        rw [← hstate] at hnoted
        exact Sound.take hinv id ⟨hrest, htimers⟩ (hinv.turn hr hgood) hnoted
          fun resume hresume woken => hinv.resumed woken hr hgood hresume

theorem Sound.awaitWithin {n : Nat} (hrt : rt.Sound good roster)
    (hnoted : ∀ m ∈ rt.awaitNoted h n, allowed m.1 m.2) (hend : rt.awaitWithin h n = some rt') :
    rt'.Sound good roster := by
  induction n generalizing rt with
  | zero => cases hend
  | succ n ih =>
    have hprogress := Sound.progress hinv hrt fun m hm => hnoted m (List.mem_append_left _ hm)
    unfold Runtime.awaitWithin at hend
    unfold awaitNoted at hnoted
    cases hp : rt.progress h with
    | foreground rt'' =>
      rw [hp] at hend hprogress
      rw [← Option.some.inj hend]
      exact hprogress
    | moved rt'' =>
      rw [hp] at hend hprogress hnoted
      exact ih hprogress (fun m hm => hnoted m (List.mem_append_right _ hm)) hend
    | idle rt'' =>
      rw [hp] at hend hprogress hnoted
      dsimp only at hend hnoted
      cases hdeadline : rt''.nextDeadline with
      | none =>
        rw [hdeadline] at hend
        cases hend
      | some t =>
        rw [hdeadline] at hend hnoted
        have hlater : Sound good roster { rt'' with state := h.setElapsed t rt''.state } :=
          ⟨⟨hprogress.1.ready, hprogress.1.timers⟩, hinv.elapsed t hprogress.2⟩
        exact ih hlater (fun m hm => hnoted m (List.mem_append_right _ hm)) hend

theorem Sound.giveWay {s : σ} (w : Wait) (hrt : rt.Runs roster) (hs : kept s) :
    (rt.giveWay h s w).Sound good roster := by
  have habsorbed : (({ rt with state := s } : Runtime σ ρ).absorb h).Sound good roster :=
    Sound.absorb hinv ⟨hrt.ready, hrt.timers⟩ hs
  unfold Runtime.giveWay
  dsimp only
  split
  · exact ⟨habsorbed.1.push trivial, habsorbed.2⟩
  · exact ⟨habsorbed.1.park w fun _ _ => trivial, habsorbed.2⟩

/-- The condition holds when the foreground is done, if it and the jobs that had their turns meanwhile
noted nothing that is not allowed. -/
theorem Sound.follow {x : Step σ Note α} {a : α} (hrt : rt.Runs roster)
    (hx : x.Keeps kept good allowed) (hnoted : ∀ n ∈ rt.followNoted h x, allowed n.1 n.2)
    (hend : rt.follow h x = some (a, rt')) : rt'.Sound good roster := by
  induction hx generalizing rt with
  | done hs =>
    rw [← (Prod.mk.inj (Option.some.inj hend)).2]
    exact Sound.absorb hinv ⟨hrt.ready, hrt.timers⟩ hs
  | note _ ih =>
    exact ih (hnoted _ (List.mem_cons_self ..)) hrt
      (fun n hn => hnoted n (List.mem_cons_of_mem _ hn)) hend
  | @wait s w resume hs _ ih =>
    have hgiven := Sound.giveWay hinv w hrt hs
    unfold Runtime.follow at hend
    unfold followNoted at hnoted
    cases hawait : (rt.giveWay h s w).awaitWithin h maxTurns with
    | none =>
      rw [hawait] at hend
      cases hend
    | some rt'' =>
      rw [hawait] at hend hnoted
      have hback := Sound.awaitWithin hinv hgiven
        (fun n hn => hnoted n (List.mem_append_left _ hn)) hawait
      exact ih _ _ hback.2 hback.1 (fun n hn => hnoted n (List.mem_append_right _ hn)) hend

end

end Runtime
end MemShell
