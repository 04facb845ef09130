import MemShell.Storage.Backend
set_option autoImplicit false

namespace MemShell

namespace Disk
variable {d d' : Disk} {p source : Path} {text : String}

theorem get?_put_self (e : DiskEntry) (h : d.get? p ≠ some .directory) :
    (d'.put p e).get? p = some e := by
  have hp : p.names.isEmpty = false :=
    Bool.eq_false_iff.mpr fun hempty => h (by simp [get?, hempty])
  simp [get?, put, hp]

theorem get?_of_write (h : d.write p text = some d') : d'.get? p = some (.text text) := by
  unfold write at h
  split at h
  · cases h
  · next hentry =>
    rw [← Option.some.inj h]
    exact get?_put_self _ hentry

theorem get?_of_replace (h : d.replace source p = some d') : d'.get? p = d.get? source := by
  unfold replace at h
  split at h
  · cases h
  · next hsource hentry =>
    rw [← Option.some.inj h, hsource]
    exact get?_put_self _ hentry
  · cases h

end Disk

namespace Storage
variable {s t : Storage} {fs : FileSystem}

theorem get?_of_writeText {d d' : Disk} {p : Path} {text : String}
    (h : writeText d p text = (.ok true, d')) : d'.get? p = some (.text text) := by
  unfold writeText at h
  split at h
  · cases congrArg Prod.fst h
  · next draft _ =>
    split at h
    · cases congrArg Prod.fst h
    · split at h
      · cases congrArg Prod.fst h
      · next hwrite =>
        split at h
        · cases congrArg Prod.fst h
        · next hreplace =>
          obtain rfl := (Prod.mk.inj h).2
          rw [Disk.get?_of_replace hreplace, Disk.get?_of_write hwrite]

def answers (s : Storage) : List FileSystem → List (Except Fault (Result Unit))
  | [] => []
  | fs :: rest => (s.save fs).1 :: answers (s.save fs).2 rest

def Alike (s t : Storage) : Prop :=
  t.attached = s.attached ∧ ∀ states, t.answers states = s.answers states

def Accepts (s : Storage) : Prop := ∀ states, ∀ r ∈ s.answers states, r = .ok .done

theorem attached_save (s : Storage) (fs : FileSystem) : (s.save fs).2.attached = s.attached := by
  cases hb : s.backend with
  | none => simp [save, attached, hb]
  | some b =>
    unfold save
    rw [hb]
    dsimp only
    split <;> simp [attached, hb]

theorem Alike.answer (h : s.Alike t) (fs : FileSystem) : (t.save fs).1 = (s.save fs).1 :=
  (List.cons.inj (h.2 [fs])).1

theorem Alike.save (h : s.Alike t) (fs : FileSystem) : (s.save fs).2.Alike (t.save fs).2 := by
  refine ⟨?_, fun states => (List.cons.inj (h.2 (fs :: states))).2⟩
  rw [attached_save, attached_save, h.1]

theorem alike_refl (s : Storage) : s.Alike s := ⟨rfl, fun _ => rfl⟩

theorem Accepts.answer (h : s.Accepts) (fs : FileSystem) : (s.save fs).1 = .ok .done :=
  h [fs] _ (List.mem_singleton_self _)

theorem Accepts.save (h : s.Accepts) (fs : FileSystem) : (s.save fs).2.Accepts :=
  fun states r hr => h (fs :: states) r (List.mem_cons_of_mem _ hr)

theorem accepts_memory {stored : Option Json} {saves : Nat} {disk : Disk} :
    Storage.Accepts ⟨some (.memory stored saves), disk⟩ := by
  intro states
  induction states generalizing stored saves with
  | nil => exact fun _ h => nomatch h
  | cons fs rest ih =>
    intro r hr
    rcases List.mem_cons.mp hr with rfl | hr
    · rfl
    · exact ih r hr

/-- Whether a backend holds a snapshot. One that always answers the same holds none. -/
def Has (disk : Disk) (v : Json) : Backend → Prop
  | .memory stored _ => stored = some v
  | .file p => disk.get? p = some (.text v.sorted.pretty)
  | .fixed _ _ => False

def Holds (s : Storage) (root : Node) : Prop :=
  ∃ b cwd, s.backend = some b ∧ Has s.disk (FileSystem.snapshot { root, cwd }) b

theorem Holds.save {root : Node} (h : s.Holds root) (hsave : (s.save fs).1 = .ok .done) :
    (s.save fs).2.Holds fs.root := by
  obtain ⟨b, cwd, hb, hhas⟩ := h
  cases b with
  | fixed _ _ => exact hhas.elim
  | memory stored saves =>
    refine ⟨.memory (some fs.snapshot) (saves + 1), fs.cwd, ?_, rfl⟩
    simp [Storage.save, put, hb]
  | file p =>
    have hput : put (.file p) s.disk fs.snapshot =
        ((writeText s.disk p fs.snapshot.sorted.pretty).1, .file p,
          (writeText s.disk p fs.snapshot.sorted.pretty).2) := rfl
    cases hwrite : writeText s.disk p fs.snapshot.sorted.pretty with
    | mk kept disk =>
      rw [hwrite] at hput
      simp only [Storage.save, hb, hput] at hsave ⊢
      cases kept with
      | error f =>
        simp only [Result.ofFault] at hsave
        split at hsave <;> cases hsave
      | ok kept =>
        cases kept with
        | false => cases hsave
        | true => exact ⟨.file p, fs.cwd, rfl, get?_of_writeText hwrite⟩

end Storage
end MemShell
