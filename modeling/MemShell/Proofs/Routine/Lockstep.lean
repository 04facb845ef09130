import Mathlib.Data.List.Chain
import Mathlib.Data.List.Forall2
import MemShell.Routine
set_option autoImplicit false

/-!
# Routines in lockstep

A routine that is run twice, on two states that stay related. Both runs wait and end together, note
the same and say the same; between their turns anything may happen to the states that keeps them
related. The relation may depend on what is known since the turn began, which an event can change.
-/
namespace MemShell

/-- How two states are related by what is known, what is known after an event, and in which states
there are which events, and waits. -/
structure Pact (ι σ ε : Type) where
  same : ι → σ → σ → Prop
  next : ι → σ → ε → ι → Prop
  event : σ → ε → Prop
  wait : σ → Prop

/-- A turn of a routine: the state that it finds, what it notes and in which states, and the state
that it leaves. -/
structure Stint (σ ε : Type) where
  start : σ
  noted : List (σ × ε)
  finish : σ

def Stint.points {σ ε : Type} (T : Stint σ ε) : List (σ × Option ε) :=
  (T.start, none) :: (T.noted.map fun n => (n.1, some n.2)) ++ [(T.finish, none)]

theorem Stint.mem_noted {σ ε : Type} {T : Stint σ ε} {s : σ} {e : ε}
    (h : (s, some e) ∈ T.points) : (s, e) ∈ T.noted := by
  simpa [points] using h

namespace Step
variable {ι σ ε α β : Type} {p : Pact ι σ ε}

def noted : Step σ ε α → List (σ × ε)
  | done _ _ | wait _ _ _ => []
  | note s e next => (s, e) :: next.noted

def finish : Step σ ε α → σ
  | done s _ | wait s _ _ => s
  | note _ _ next => next.finish

def resume? : Step σ ε α → Option (σ → Bool → Step σ ε α)
  | done _ _ => none
  | wait _ _ resume => some resume
  | note _ _ next => next.resume?

def stints : Option (σ → Bool → Step σ ε α) → List (σ × Bool) → List (Stint σ ε)
  | some resume, (s, woken) :: more =>
    ⟨s, (resume s woken).noted, (resume s woken).finish⟩ :: stints (resume s woken).resume? more
  | _, _ => []

inductive Lockstep (p : Pact ι σ ε) (Q : ι → α → σ → σ → Prop) :
    ι → Step σ ε α → Step σ ε α → Prop
  | done {v : ι} {s t : σ} {a : α} (h : Q v a s t) : Lockstep p Q v (done s a) (done t a)
  | wait {v : ι} {s t : σ} {w : Wait} {f g : σ → Bool → Step σ ε α} (h : p.same v s t)
      (hw : p.wait s) (hf : ∀ u s t woken, p.same u s t → Lockstep p Q u (f s woken) (g t woken)) :
      Lockstep p Q v (wait s w f) (wait t w g)
  | note {v : ι} {s t : σ} {e : ε} {x y : Step σ ε α} (h : p.same v s t) (he : p.event s e)
      (hx : ∀ u, p.next v s e u → Lockstep p Q u x y) : Lockstep p Q v (note s e x) (note t e y)

variable {v : ι} {x y : Step σ ε α} {Q : ι → α → σ → σ → Prop} {Q' : ι → β → σ → σ → Prop}

theorem Lockstep.bind {f g : σ → α → Step σ ε β} (h : Lockstep p Q v x y)
    (hf : ∀ v a s t, Q v a s t → Lockstep p Q' v (f s a) (g t a)) :
    Lockstep p Q' v (x.bind f) (y.bind g) := by
  induction h with
  | done h => exact hf _ _ _ _ h
  | wait h hw _ ih => exact .wait h hw ih
  | note h he _ ih => exact .note h he ih

theorem Lockstep.mono {R : ι → α → σ → σ → Prop} (h : Lockstep p Q v x y)
    (hQ : ∀ v a s t, Q v a s t → R v a s t) : Lockstep p R v x y := by
  have := h.bind (f := .done) (g := .done) fun v a s t hs => .done (hQ v a s t hs)
  rwa [bind_pure, bind_pure] at this

def Knows (next : ι → σ → ε → ι → Prop) : ι → List (σ × ε) → ι → Prop
  | v, [], u => u = v
  | v, (s, e) :: rest, u => ∃ w, next v s e w ∧ Knows next w rest u

theorem exists_knows {next : ι → σ → ε → ι → Prop} (h : ∀ v s e, ∃ u, next v s e u) (v : ι)
    (noted : List (σ × ε)) : ∃ u, Knows next v noted u := by
  induction noted generalizing v with
  | nil => exact ⟨v, rfl⟩
  | cons n rest ih =>
    obtain ⟨w, hw⟩ := h v n.1 n.2
    obtain ⟨u, hu⟩ := ih w
    exact ⟨u, w, hw, hu⟩

theorem knows_self {next : ι → σ → ε → ι → Prop} {noted : List (σ × ε)}
    (h : ∀ n ∈ noted, next v n.1 n.2 v) : Knows next v noted v := by
  induction noted with
  | nil => rfl
  | cons n rest ih =>
    exact ⟨v, h n (List.mem_cons_self ..), ih fun n hn => h n (List.mem_cons_of_mem _ hn)⟩

/-- In a turn both runs note the same, and their states stay related up to its end, as long as
something is known. -/
def Along (p : Pact ι σ ε) : ι → List (σ × ε) → List (σ × ε) → σ → σ → Prop
  | v, [], [], s, t => p.same v s t
  | v, (a, e) :: xs, (b, e') :: ys, s, t =>
    e' = e ∧ p.event a e ∧ p.same v a b ∧ ∀ u, p.next v a e u → Along p u xs ys s t
  | _, _, _, _, _ => False

def GoOn (p : Pact ι σ ε) (Q : ι → α → σ → σ → Prop) :
    Option (σ → Bool → Step σ ε α) → Option (σ → Bool → Step σ ε α) → Prop :=
  Option.Rel fun f g => ∀ v s t woken, p.same v s t → Lockstep p Q v (f s woken) (g t woken)

theorem Lockstep.along (h : Lockstep p Q v x y) (hQ : ∀ v a s t, Q v a s t → p.same v s t) :
    Along p v x.noted y.noted x.finish y.finish := by
  induction h with
  | done h => exact hQ _ _ _ _ h
  | wait h _ _ _ => exact h
  | note h he _ ih => exact ⟨rfl, he, h, ih⟩

theorem Lockstep.goOn {u : ι} (h : Lockstep p Q v x y) (hu : Knows p.next v x.noted u) :
    GoOn p Q x.resume? y.resume? := by
  induction h with
  | done h => exact .none
  | wait h _ hf _ => exact .some hf
  | note h he _ ih =>
    obtain ⟨w, hw, hu⟩ := hu
    exact ih w hw hu

theorem Lockstep.wait_finish {f : σ → Bool → Step σ ε α} (h : Lockstep p Q v x y)
    (hf : x.resume? = some f) {u : ι} (hu : Knows p.next v x.noted u) : p.wait x.finish := by
  induction h with
  | done h => cases hf
  | wait h hw _ _ => exact hw
  | note h he _ ih =>
    obtain ⟨w, hw, hu⟩ := hu
    exact ih w hw hf hu

theorem Along.finish {u : ι} {xs ys : List (σ × ε)} {s t : σ} (h : Along p v xs ys s t)
    (hu : Knows p.next v xs u) : p.same u s t := by
  induction xs generalizing v ys with
  | nil =>
    cases ys with
    | nil =>
      obtain rfl := hu
      exact h
    | cons _ _ => cases h
  | cons x xs ih =>
    cases ys with
    | nil => cases h
    | cons y ys =>
      obtain ⟨w, hw, hu⟩ := hu
      obtain ⟨-, -, -, h⟩ := h
      exact ih (h w hw) hu

theorem Along.event {u : ι} {xs ys : List (σ × ε)} {s t : σ} (h : Along p v xs ys s t)
    (hu : Knows p.next v xs u) : ∀ n ∈ xs, p.event n.1 n.2 := by
  induction xs generalizing v ys with
  | nil => exact fun n hn => nomatch hn
  | cons x xs ih =>
    cases ys with
    | nil => cases h
    | cons y ys =>
      obtain ⟨w, hw, hu⟩ := hu
      obtain ⟨-, he, -, h⟩ := h
      intro n hn
      rcases List.mem_cons.mp hn with rfl | hn
      · exact he
      · exact ih (h w hw) hu n hn

/-- As long as nothing that is noted changes what is known. -/
theorem Along.event_of_kept {before after : List (σ × ε)} {n : σ × ε} {s t : σ}
    (h : Along p v (before ++ n :: after) (before ++ n :: after) s t)
    (hbefore : ∀ m ∈ before, p.next v m.1 m.2 v) : p.event n.1 n.2 ∧ p.same v n.1 n.1 := by
  induction before with
  | nil => exact ⟨h.2.1, h.2.2.1⟩
  | cons m rest ih =>
    obtain ⟨-, -, -, hrest⟩ := h
    have hm := hbefore m (List.mem_cons_self ..)
    exact ih (hrest v hm) fun m hm => hbefore m (List.mem_cons_of_mem _ hm)

/-- If what is known is what is known at the last point, it holds from each point to the next. -/
theorem Along.isChain {k : σ × Option ε → ι} (hk : ∀ v s e, p.next v s e (k (s, some e)))
    {a : σ × Option ε} {noted : List (σ × ε)} {t : σ} (h : Along p (k a) noted noted t t) :
    (a :: (noted.map fun n : σ × ε => (n.1, some n.2)) ++ [(t, none)]).IsChain
      fun a b => p.same (k a) b.1 b.1 := by
  induction noted generalizing a with
  | nil => exact .cons_cons h (.singleton _)
  | cons n rest ih =>
    obtain ⟨-, -, hn, hrest⟩ := h
    exact .cons_cons hn (ih (hrest _ (hk _ _ _)))

def Linked (L : σ → σ → Prop) : σ → List (Stint σ ε) → Prop
  | _, [] => True
  | s, T :: Ts => L s T.start ∧ Linked L T.finish Ts

theorem linked_nil {f : Option (σ → Bool → Step σ ε α)} (L : σ → σ → Prop) (s : σ) :
    Linked L s (stints f []) := by
  cases f <;> trivial

theorem linked_cons {f : Option (σ → Bool → Step σ ε α)} {L : σ → σ → Prop} {s a : σ} {woken : Bool}
    {more : List (σ × Bool)} (h : L s a)
    (hmore : ∀ g, f = some g → Linked L (g a woken).finish (stints (g a woken).resume? more)) :
    Linked L s (stints f ((a, woken) :: more)) := by
  cases f with
  | none => trivial
  | some g => exact ⟨h, hmore g rfl⟩

theorem Linked.imp {L L' : σ → σ → Prop} {s : σ} {Ts : List (Stint σ ε)} (h : Linked L s Ts)
    (hL : ∀ s t, L s t → L' s t) : Linked L' s Ts := by
  induction Ts generalizing s with
  | nil => trivial
  | cons T Ts ih => exact ⟨hL _ _ h.1, ih h.2⟩

/-- What holds from point to point in each turn, and between the turns, holds from point to point
all along. -/
theorem Linked.isChain_points {L : σ → σ → Prop} {s : σ} {Ts : List (Stint σ ε)} (h : Linked L s Ts)
    (hTs : ∀ T ∈ Ts, T.points.IsChain fun a b => L a.1 b.1) :
    ((s, none) :: Ts.flatMap Stint.points).IsChain fun a b => L a.1 b.1 := by
  induction Ts generalizing s with
  | nil => exact .singleton _
  | cons T Ts ih =>
    have hrest := ih h.2 fun T hT => hTs T (List.mem_cons_of_mem _ hT)
    have hturn := hTs T (List.mem_cons_self ..)
    rw [Stint.points] at hturn
    rw [List.flatMap_cons, Stint.points, List.append_assoc]
    exact .cons_cons h.1 (List.isChain_split.mpr ⟨hturn, hrest⟩)

/-- Two runs have the same turns if what happens between their turns leads from related states to
related ones. -/
theorem GoOn.forall₂_stints {f g : Option (σ → Bool → Step σ ε α)} {starts starts' : List (σ × Bool)}
    {L G : σ → σ → Prop} {s t : σ} (hf : GoOn p Q f g)
    (hQ : ∀ v a s t, Q v a s t → p.same v s t) (hst : p.same v s t)
    (hlink : ∀ v s t a b, p.same v s t → L s a → L t b → G a b → ∃ u, p.same u a b)
    (hs : Linked L s (stints f starts)) (ht : Linked L t (stints g starts'))
    (hstarts : List.Forall₂ (fun a b => b.2 = a.2 ∧ G a.1 b.1) starts starts')
    (hknows : ∀ T ∈ stints f starts, ∀ v t, p.same v T.start t → ∃ u, Knows p.next v T.noted u) :
    List.Forall₂
      (fun T T' => (∃ v, p.same v T.start T'.start) ∧ ∀ v, p.same v T.start T'.start →
        Along p v T.noted T'.noted T.finish T'.finish)
      (stints f starts) (stints g starts') := by
  induction hstarts generalizing f g v s t with
  | nil => cases hf <;> exact .nil
  | @cons a b more more' hab _ ih =>
    cases hf with
    | none => exact .nil
    | @some f g hf =>
      obtain ⟨a, woken⟩ := a
      obtain ⟨b, woken'⟩ := b
      obtain ⟨rfl, hG⟩ := hab
      obtain ⟨v, hv⟩ := hlink v s t a b hst hs.1 ht.1 hG
      obtain ⟨u, hu⟩ := hknows _ (List.mem_cons_self ..) v b hv
      have hstep (v : ι) (hv : p.same v a b) := (hf v a b woken' hv).along hQ
      refine .cons ⟨⟨v, hv⟩, hstep⟩ ?_
      exact ih ((hf v a b woken' hv).goOn hu) ((hstep v hv).finish hu) hs.2 ht.2
        fun T hT => hknows T (List.mem_cons_of_mem _ hT)

/-- A routine that is run twice on one state notes the same, whatever the states that it finds. -/
theorem GoOn.along_stints {f : Option (σ → Bool → Step σ ε α)} {starts : List (σ × Bool)}
    (hf : GoOn p Q f f) (hQ : ∀ v a s t, Q v a s t → p.same v s t)
    (hsame : ∀ s, ∃ v, p.same v s s) (hknows : ∀ v xs, ∃ u, Knows p.next v xs u) :
    ∀ T ∈ stints f starts, ∀ v, p.same v T.start T.start →
      Along p v T.noted T.noted T.finish T.finish := by
  induction starts generalizing f with
  | nil => cases hf <;> exact fun T hT => nomatch hT
  | cons start more ih =>
    cases hf with
    | none => exact fun T hT => nomatch hT
    | @some f _ hf =>
      obtain ⟨s, woken⟩ := start
      intro T hT
      rcases List.mem_cons.mp hT with rfl | hT
      · exact fun v hv => (hf v s s woken hv).along hQ
      · obtain ⟨v, hv⟩ := hsame s
        obtain ⟨u, hu⟩ := hknows v (f s woken).noted
        exact ih ((hf v s s woken hv).goOn hu) T hT

/-- All along the turns of a routine, as long as nothing that is noted changes what is known. -/
theorem GoOn.event_of_kept {f : Option (σ → Bool → Step σ ε α)} {starts : List (σ × Bool)}
    (hf : GoOn p Q f f) (hQ : ∀ v a s t, Q v a s t → p.same v s t)
    (hstart : ∀ T ∈ stints f starts, p.same v T.start T.start)
    {before after : List (σ × ε)} {n : σ × ε}
    (hnoted : (stints f starts).flatMap Stint.noted = before ++ n :: after)
    (hbefore : ∀ m ∈ before, p.next v m.1 m.2 v) : p.event n.1 n.2 ∧ p.same v n.1 n.1 := by
  have hempty : ([] : List (σ × ε)) ≠ before ++ n :: after := by simp
  induction starts generalizing f before with
  | nil => cases hf <;> exact absurd hnoted hempty
  | cons start more ih =>
    cases hf with
    | none => exact absurd hnoted hempty
    | @some f _ hf =>
      obtain ⟨s, woken⟩ := start
      have hturn := hf v s s woken (hstart _ (List.mem_cons_self ..))
      have hlater := fun T hT => hstart T (List.mem_cons_of_mem _ hT)
      have hsplit : (f s woken).noted ++ (stints (f s woken).resume? more).flatMap Stint.noted =
          before ++ n :: after := hnoted
      rcases List.append_eq_append_iff.mp hsplit with ⟨rest, rfl, hrest⟩ | ⟨rest, hfirst, hrest⟩
      · have hu := knows_self fun n hn => hbefore n (List.mem_append_left _ hn)
        exact ih (hturn.goOn hu) hlater hrest
          (fun m hm => hbefore m (List.mem_append_right _ hm)) (by simp)
      · cases rest with
        | nil =>
          rw [List.append_nil] at hfirst
          have hu : Knows p.next v (f s woken).noted v := by
            rw [hfirst]
            exact knows_self hbefore
          have hlast : (stints (f s woken).resume? more).flatMap Stint.noted = [] ++ n :: after :=
            hrest.symm
          exact ih (hturn.goOn hu) hlater hlast (fun _ h => nomatch h) (by simp)
        | cons m rest =>
          obtain ⟨rfl, -⟩ := List.cons.inj hrest
          have halong := hturn.along hQ
          rw [hfirst] at halong
          exact halong.event_of_kept hbefore

/-- A turn that another one follows ends with a wait. -/
theorem GoOn.isChain_stints {f : Option (σ → Bool → Step σ ε α)} {starts : List (σ × Bool)}
    (hf : GoOn p Q f f) (hsame : ∀ s, ∃ v, p.same v s s)
    (hknows : ∀ v xs, ∃ u, Knows p.next v xs u) :
    (stints f starts).IsChain fun T _ => p.wait T.finish := by
  induction starts generalizing f with
  | nil => cases hf <;> exact .nil
  | cons start more ih =>
    cases hf with
    | none => exact .nil
    | @some f _ hf =>
      obtain ⟨s, woken⟩ := start
      obtain ⟨v, hv⟩ := hsame s
      obtain ⟨u, hu⟩ := hknows v (f s woken).noted
      have hturn := hf v s s woken hv
      have hrest := ih (hturn.goOn hu)
      rw [stints]
      cases hresume : (f s woken).resume? with
      | none =>
        cases more with
        | nil => exact .singleton _
        | cons _ _ => exact .singleton _
      | some g =>
        rw [hresume] at hrest
        cases more with
        | nil => exact .singleton _
        | cons start more => exact .cons_cons (hturn.wait_finish hresume hu) hrest

/-- What is left of some routines behind their waits, and the routines themselves. -/
inductive Rest (start : (σ → Step σ ε α) → Prop) : (σ → Step σ ε α) → Prop
  | start {run : σ → Step σ ε α} (h : start run) : Rest start run
  | later {run : σ → Step σ ε α} {s : σ} {resume : σ → Bool → Step σ ε α} (h : Rest start run)
      (hs : (run s).resume? = some resume) (woken : Bool) : Rest start fun s => resume s woken

theorem Rest.lockstep {start : (σ → Step σ ε α) → Prop} {run : σ → Step σ ε α}
    (h : Rest start run) (hsame : ∀ s, ∃ v, p.same v s s)
    (hknows : ∀ v xs, ∃ u, Knows p.next v xs u)
    (hstart : ∀ run, start run → ∀ v s t, p.same v s t → Lockstep p Q v (run s) (run t)) :
    ∀ v s t, p.same v s t → Lockstep p Q v (run s) (run t) := by
  induction h with
  | start h => exact hstart _ h
  | @later run s resume _ hs woken ih =>
    obtain ⟨v, hv⟩ := hsame s
    obtain ⟨u, hu⟩ := hknows v (run s).noted
    have hgo := (ih v s s hv).goOn hu
    rw [hs] at hgo
    cases hgo with
    | some hresume => exact fun v s t hst => hresume v s t woken hst

end Step
end MemShell
