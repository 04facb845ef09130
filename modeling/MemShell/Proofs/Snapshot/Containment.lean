import Mathlib.Algebra.Group.Int.Defs
import MemShell.Proofs.Json.Keys
import MemShell.Proofs.FileSystem.Faults
import MemShell.Proofs.Snapshot.Names
import MemShell.Storage.Backend
set_option autoImplicit false

namespace MemShell.FileSystem
variable {name : String} {v : Json} {members : List (String × Json)} {fs : FileSystem}

inductive Oversized : Json → Prop
  | time {members : List (String × Json)} {key : String} {n : Int} {negative : Bool}
      (hkey : key = "ctime" ∨ key = "mtime") (h : Table.get? members key = some (.int n))
      (big : Binary64.ofInt n = .infinite negative) : Oversized (.obj members)
  | content {members : List (String × Json)} {v : Json}
      (h : Table.get? members "content" = some v) (long : v.isShowable = false) :
      Oversized (.obj members)
  | child {members entries : List (String × Json)} {name : String} {v : Json}
      (h : Table.get? members "children" = some (.obj entries)) (hv : (name, v) ∈ entries)
      (big : Oversized v) : Oversized (.obj members)

def Contained (big : Prop) (f : Fault) : Prop :=
  (∃ g, f = .storage g) ∨ big ∧ ∃ b, f = .breakdown b

theorem Contained.mono {big big' : Prop} (h : big → big') {f : Fault} (hf : Contained big f) :
    Contained big' f := hf.imp_right fun ⟨hbig, hb⟩ => ⟨h hbig, hb⟩

theorem faultsAre_storage_error {α : Type} {big : Prop} (g : StorageFault) :
    FaultsAre (Contained big) (.error (.storage g) : Except Fault α) :=
  faultsAre_error (.inl ⟨g, rfl⟩)

variable {big : Prop}

theorem faultsAre_fieldFault {α : Type} (name reason : String) :
    FaultsAre (Contained big) (fieldFault name reason : Except Fault α) :=
  faultsAre_storage_error _

theorem faultsAre_member (name : String) (members : List (String × Json)) (key : String) :
    FaultsAre (Contained big) (member name members key) := by
  unfold member
  split
  · exact faultsAre_ok _
  · exact faultsAre_fieldFault _ _

theorem faultsAre_readKind (name : String) (v : Json) :
    FaultsAre (Contained big) (readKind name v) := by
  unfold readKind
  split
  · exact faultsAre_ok _
  · exact faultsAre_ok _
  · split <;> exact faultsAre_fieldFault _ _

theorem faultsAre_readMode (name : String) (v : Json) :
    FaultsAre (Contained big) (readMode name v) := by
  unfold readMode
  split
  · split
    · exact faultsAre_ok _
    · exact faultsAre_fieldFault _ _
  · exact faultsAre_fieldFault _ _

theorem faultsAre_readOwner (name : String) (v : Json) :
    FaultsAre (Contained big) (readOwner name v) := by
  unfold readOwner
  split
  · exact faultsAre_ok _
  · exact faultsAre_fieldFault _ _

theorem faultsAre_timeOfInt (x : Binary64) (h : ∀ negative, x = .infinite negative → big) :
    FaultsAre (Contained big) (timeOfInt x) := by
  cases x with
  | infinite negative => exact faultsAre_error (.inr ⟨h negative rfl, _, rfl⟩)
  | nan => exact faultsAre_ok _
  | finite negative m s canonical => exact faultsAre_ok _

theorem faultsAre_readTime (name : String) (v : Json)
    (h : ∀ n negative, v = .int n → Binary64.ofInt n = .infinite negative → big) :
    FaultsAre (Contained big) (readTime name v) := by
  unfold readTime
  split
  · exact faultsAre_ok _
  · exact faultsAre_ok _
  · next n => exact faultsAre_timeOfInt _ fun negative hinf => h n negative rfl hinf
  · split
    · exact faultsAre_ok _
    · exact faultsAre_fieldFault _ _
  · exact faultsAre_fieldFault _ _

theorem get?_of_member {key : String} (h : member name members key = .ok v) :
    Table.get? members key = some v := by
  unfold member at h
  split at h
  · next hget =>
    cases h
    exact hget
  · cases h

theorem faultsAre_readAttributes (name : String) (members : List (String × Json)) :
    FaultsAre (Contained (Oversized (.obj members))) (readAttributes name members) := by
  have htime (key : String) (hkey : key = "ctime" ∨ key = "mtime") (v : Json)
      (hv : member name members key = .ok v) :
      FaultsAre (Contained (Oversized (.obj members))) (readTime name v) := by
    refine faultsAre_readTime name v fun n negative hn hinf => ?_
    subst hn
    exact .time hkey (get?_of_member hv) hinf
  unfold readAttributes
  refine (faultsAre_member _ _ _).bind fun kind _ => ?_
  refine (faultsAre_readKind _ _).bind fun isDir _ => ?_
  refine (faultsAre_member _ _ _).bind fun mode _ => ?_
  refine (faultsAre_readMode _ _).bind fun mode _ => ?_
  refine (faultsAre_member _ _ _).bind fun owner _ => ?_
  refine (faultsAre_readOwner _ _).bind fun owner _ => ?_
  refine (faultsAre_member _ _ _).bind fun group _ => ?_
  refine (faultsAre_readOwner _ _).bind fun group _ => ?_
  refine (faultsAre_member _ _ _).bind fun ctime hctime => ?_
  refine (htime _ (.inl rfl) ctime hctime).bind fun _ _ => ?_
  refine (faultsAre_member _ _ _).bind fun mtime hmtime => ?_
  exact (htime _ (.inr rfl) mtime hmtime).bind fun _ _ => faultsAre_ok _

theorem faultsAre_readContent (members : List (String × Json)) :
    FaultsAre (Contained (Oversized (.obj members))) (readContent members) := by
  unfold readContent
  split
  · exact faultsAre_ok _
  · next v hv =>
    split
    · exact faultsAre_ok _
    · next reason hreason =>
      refine faultsAre_error (.inr ⟨.content hv ?_, _, rfl⟩)
      unfold Json.plainText Json.shown at hreason
      split at hreason
      · cases hreason
      · split at hreason
        · cases hreason
        · next hlong => simpa using hlong

-- By induction on the entry. The names that are taken are names of siblings, none of which comes
-- again, so no name is refused.
mutual
theorem faultsAre_readNode (name : String) (v : Json) (h : v.Distinct) :
    FaultsAre (Contained (Oversized v)) (readNode name v) := by
  cases v with
  | obj members =>
    rw [readNode]
    refine (faultsAre_readAttributes name members).bind fun (isDir, attrs) _ => ?_
    dsimp only
    split
    · split
      · exact faultsAre_storage_error _
      · refine FaultsAre.bind ?_ fun cs _ => faultsAre_ok _
        have hread := faultsAre_readChildren name members (Json.eachDistinct_iff.mp h.2)
        exact fun f hf => (hread f hf).mono fun ⟨entries, other, w, hget, hw, big⟩ =>
          .child hget hw big
    · split
      · exact faultsAre_storage_error _
      · exact (faultsAre_readContent members).bind fun text _ => faultsAre_ok _
  | _ =>
    rw [readNode]
    · exact faultsAre_storage_error _
    · rintro members ⟨⟩

theorem faultsAre_readChildren (name : String) (members : List (String × Json))
    (h : ∀ key w, (key, w) ∈ members → w.Distinct) :
    FaultsAre (Contained (∃ entries other w, Table.get? members "children" = some (.obj entries) ∧
      (other, w) ∈ entries ∧ Oversized w)) (readChildren name members) := by
  cases members with
  | nil => exact faultsAre_ok _
  | cons m rest =>
    obtain ⟨key, v⟩ := m
    rw [readChildren, Table.get?]
    by_cases hkey : key = "children"
    · rw [if_pos hkey, if_pos hkey]
      have hread := faultsAre_readEntries name v (h key v (by simp))
      exact fun f hf => (hread f hf).mono fun ⟨entries, other, w, hv, hw, big⟩ =>
        ⟨entries, other, w, congrArg some hv, hw, big⟩
    · rw [if_neg hkey, if_neg hkey]
      exact faultsAre_readChildren name rest fun other w hw => h other w (by simp [hw])

theorem faultsAre_readEntries (name : String) (v : Json) (h : v.Distinct) :
    FaultsAre (Contained (∃ entries other w, v = .obj entries ∧ (other, w) ∈ entries ∧ Oversized w))
      (readEntries name v) := by
  cases v with
  | obj entries =>
    rw [readEntries]
    have hread := faultsAre_readAll [] entries h.1 (by simp) (Json.eachDistinct_iff.mp h.2)
    exact fun f hf => (hread f hf).mono fun ⟨other, w, hw, big⟩ => ⟨entries, other, w, rfl, hw, big⟩
  | _ =>
    rw [readEntries]
    · exact faultsAre_storage_error _
    · rintro entries ⟨⟩

theorem faultsAre_readAll (taken : List String) (entries : List (String × Json))
    (hnodup : (Table.keys entries).Nodup) (hfresh : ∀ name ∈ Table.keys entries, name ∉ taken)
    (h : ∀ name w, (name, w) ∈ entries → w.Distinct) :
    FaultsAre (Contained (∃ name w, (name, w) ∈ entries ∧ Oversized w)) (readAll taken entries) := by
  cases entries with
  | nil => exact faultsAre_ok _
  | cons entry rest =>
    obtain ⟨name, v⟩ := entry
    obtain ⟨hname, hrest⟩ := List.nodup_cons.mp hnodup
    have hnode := faultsAre_readNode name v (h name v (by simp))
    have hnew : taken.contains name = false := by
      simpa using hfresh name (by simp [Table.keys])
    have hall := faultsAre_readAll (name :: taken) rest hrest (fun other hother hmem => by
      rcases List.mem_cons.mp hmem with rfl | hmem
      · exact hname hother
      · exact hfresh other (List.mem_cons_of_mem _ hother) hmem) fun other w hw =>
        h other w (by simp [hw])
    rw [readAll]
    refine FaultsAre.bind ?_ fun n _ => ?_
    · exact fun f hf => (hnode f hf).mono fun big => ⟨name, v, by simp, big⟩
    · rw [hnew, if_neg Bool.false_ne_true]
      refine FaultsAre.bind ?_ fun _ _ => faultsAre_ok _
      exact fun f hf => (hall f hf).mono fun ⟨other, w, hw, big⟩ => ⟨other, w, by simp [hw], big⟩
end

/-- How an attempt to take a value for the state ends: it succeeds, is refused, or breaks off on an
oversized integer; only a success changes the state. -/
inductive Attempt {α : Type} (fs : FileSystem) (big : Prop) (success : α)
    (refused : StorageFault → Except Fault α) : Except Fault α × FileSystem → Prop
  | accepted (fs' : FileSystem) : Attempt fs big success refused (.ok success, fs')
  | refused (f : StorageFault) : Attempt fs big success refused (refused f, fs)
  | broken (b : Breakdown) (hbig : big) : Attempt fs big success refused (.error (.breakdown b), fs)

theorem distinct_rootEntry (h : v.Distinct) : (rootEntry v).Distinct := by
  cases v with
  | obj members =>
    change ((Table.get? members "root").getD .null).Distinct
    cases hget : Table.get? members "root" with
    | none => trivial
    | some w => exact Json.eachDistinct_iff.mp h.2 "root" w (Table.mem_of_get? hget)
  | _ => trivial

theorem attempt_restore (h : v.Distinct) (fs : FileSystem) :
    Attempt fs (Oversized (rootEntry v)) () (fun f => .error (.storage f))
      ((restore v).run fs) := by
  have hroot := faultsAre_readNode "" (rootEntry v) (distinct_rootEntry h)
  unfold restore
  rw [Work.run_bind, Work.run_lift, ← rootEntry]
  cases hread : readNode "" (rootEntry v) with
  | error f =>
    obtain ⟨g, rfl⟩ | ⟨big, b, rfl⟩ := hroot f hread
    · exact .refused g
    · exact .broken b big
  | ok root =>
    dsimp only
    split
    · exact .refused .rootNotDirectory
    · rw [Work.run_bind, Work.run_change]
      dsimp only
      split
      · exact .accepted _
      · exact .accepted _

theorem attempt_load {s : Storage} {b : Backend} (h : v.Distinct) (hs : s.backend = some b)
    (hstored : Storage.get b s.disk = .ok (some v)) (fs : FileSystem) :
    Attempt fs (Oversized (rootEntry v)) (Result.ok true)
      (fun f => .ok (.fail f.message .system)) (s.load.run fs) := by
  have hfetch : (Storage.fetch b s.disk).run fs =
      match (restore v).run fs with
      | (.ok _, t) => (.ok true, t)
      | (.error f, t) => (.error f, t) := by
    unfold Storage.fetch
    rw [Work.run_bind, Work.run_lift, hstored]
    dsimp only
    rw [Work.run_bind]
    cases (restore v).run fs with
    | mk out t => cases out <;> rfl
  unfold Storage.load
  rw [hs]
  dsimp only
  rw [Work.run_bind, Work.run_outcome, hfetch]
  have hrestore := attempt_restore h fs
  generalize (restore v).run fs = out at hrestore
  cases hrestore with
  | accepted fs' => exact .accepted fs'
  | refused f =>
    have hmessage : "" ++ f.message = f.message := by simp
    have hrun : Attempt fs (Oversized (rootEntry v)) (Result.ok true)
        (fun f => .ok (.fail f.message .system)) (.ok (.fail f.message .system), fs) := .refused f
    rw [← hmessage] at hrun
    exact hrun
  | broken b hbig => exact .broken b hbig

/-- A mapping is taken for the state, or it is refused with a fault of the storage and the state stays
as it was, unless an entry holds an oversized integer; that may break off, and again nothing changes.
So loading what a backend holds answers with a result, under the same exception. -/
theorem contained_unless_oversized (members : List (String × Json))
    (h : (Json.obj members).Distinct) (fs : FileSystem) :
    Attempt fs (Oversized (rootEntry (.obj members))) () (fun f => .error (.storage f))
      ((restore (.obj members)).run fs) ∧
    ∀ (s : Storage) (b : Backend), s.backend = some b →
      Storage.get b s.disk = .ok (some (.obj members)) →
      Attempt fs (Oversized (rootEntry (.obj members))) (Result.ok true)
        (fun f => .ok (.fail f.message .system)) (s.load.run fs) :=
  ⟨attempt_restore h fs, fun _ _ hs hstored => attempt_load h hs hstored fs⟩

def lateRoot : List (String × Json) :=
  [("root", .obj [("type", .str "d"), ("permissions", .str "rwxr-xr-x"), ("owner", .str "root"),
    ("group", .str "root"), ("ctime", .int (10 ^ 250 * 10 ^ 250)), ("mtime", .int 1)])]

theorem contained_unless_oversized_late :
    (Json.obj lateRoot).Distinct ∧
    Attempt (empty default) (Oversized (rootEntry (.obj lateRoot))) () (fun f => .error (.storage f))
      ((restore (.obj lateRoot)).run (empty default)) ∧
    faultOf ((restore (.obj lateRoot)).run (empty default)).1 =
      some (.breakdown (.overflow "int too large to convert to float")) := by
  have hdistinct : (Json.obj lateRoot).Distinct := by
    simp [lateRoot, Json.Distinct, Json.EachDistinct, Table.keys]
  exact ⟨hdistinct, (contained_unless_oversized lateRoot hdistinct (empty default)).1,
    by decide +kernel⟩

end MemShell.FileSystem
