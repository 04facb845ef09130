import Mathlib.Data.List.Destutter
import Mathlib.Data.List.DropRight
import MemShell.Proofs.Line.Resolving
import MemShell.Shell.Start
set_option autoImplicit false

namespace MemShell
open Text

section
variable {α : Type} {n : Nat}

theorem rtake_rtake_append (n : Nat) (l : List α) (a : α) :
    (l.rtake n ++ [a]).rtake n = (l ++ [a]).rtake n := by
  cases n with
  | zero => rw [List.rtake_zero, List.rtake_zero]
  | succ n =>
    have hinner : (l.rtake (n + 1)).rtake n = l.rtake n := by
      rw [List.rtake, List.rtake, List.rtake, List.drop_drop, List.length_drop]
      congr 1
      omega
    rw [List.rtake_concat_succ, List.rtake_concat_succ, hinner]

theorem getLast?_rtake (hn : n ≠ 0) (l : List α) : (l.rtake n).getLast? = l.getLast? := by
  rw [List.rtake, List.getLast?_drop]
  split
  · next h =>
    have hnil : l = [] := List.length_eq_zero_iff.mp (by omega)
    rw [hnil, List.getLast?_nil]
  · rfl

theorem length_rtake_le (n : Nat) (l : List α) : (l.rtake n).length ≤ n := by
  rw [List.rtake, List.length_drop]
  omega

variable [DecidableEq α]

theorem destutter'_concat (a b : α) (l : List α) :
    (l ++ [b]).destutter' (· ≠ ·) a =
      if (a :: l).getLast? = some b then l.destutter' (· ≠ ·) a
      else l.destutter' (· ≠ ·) a ++ [b] := by
  induction l generalizing a with
  | nil => simp [List.destutter'_singleton]
  | cons c l ih =>
    rw [List.getLast?_cons_cons]
    by_cases h : a ≠ c
    · rw [List.cons_append, List.destutter'_cons_pos _ h, List.destutter'_cons_pos _ h, ih]
      split <;> rfl
    · rw [List.cons_append, List.destutter'_cons_neg _ h, List.destutter'_cons_neg _ h, ih,
        not_not.mp h]

theorem destutter_concat (l : List α) (b : α) :
    (l ++ [b]).destutter (· ≠ ·) =
      if l.getLast? = some b then l.destutter (· ≠ ·) else l.destutter (· ≠ ·) ++ [b] := by
  cases l with
  | nil => rfl
  | cons a l => exact destutter'_concat a b l

theorem getLast?_destutter (l : List α) : (l.destutter (· ≠ ·)).getLast? = l.getLast? := by
  induction l using List.reverseRecOn with
  | nil => rfl
  | append_singleton l b ih =>
    rw [destutter_concat]
    split
    · next h => rw [ih, h, List.getLast?_concat]
    · rw [List.getLast?_concat, List.getLast?_concat]

end

namespace Text
variable {line : String}

theorem strip_eq_empty_iff : strip line = "" ↔ isBlankText line = true := by
  rw [← Aliases.trim_eq_nil_iff, strip, String.ofList_eq_empty_iff]

theorem strip_strip (line : String) : strip (strip line) = strip line := by
  obtain ⟨-, -, -, -, -, -, hsolid⟩ := Token.trim_split line.toList
  rw [strip, strip, String.toList_ofList, hsolid.trim]

theorem isBlankText_strip (line : String) : isBlankText (strip line) = isBlankText line := by
  rw [Bool.eq_iff_iff, ← strip_eq_empty_iff, strip_strip, strip_eq_empty_iff]

end Text

namespace History

inductive Call where
  | add (line : String)
  | clear
deriving DecidableEq

def Call.line? : Call → Option String
  | add line => some line
  | clear => none

def after (h : History) : Call → History
  | .add line => h.add line
  | .clear => h.clear

def run (h : History) (calls : List Call) : History := calls.foldl after h

def added (calls : List Call) : List String :=
  (calls.rtakeWhile (·.line?.isSome)).filterMap Call.line?

def log (lines : List String) : List String :=
  ((lines.map strip).filter (!isBlankText ·)).destutter (· ≠ ·)

variable {lines : List String}

theorem added_clear (calls : List Call) : added (calls ++ [.clear]) = [] := by
  rw [added, List.rtakeWhile_concat_neg _ _ _ (by decide), List.filterMap_nil]

theorem added_add (calls : List Call) (line : String) :
    added (calls ++ [.add line]) = added calls ++ [line] := by
  rw [added, List.rtakeWhile_concat_pos _ _ _ rfl, List.filterMap_append]
  rfl

theorem log_concat (lines : List String) (line : String) :
    log (lines ++ [line]) =
      if isBlankText line = true ∨ (log lines).getLast? = some (strip line) then log lines
      else log lines ++ [strip line] := by
  have hlast := getLast?_destutter ((lines.map strip).filter (!isBlankText ·))
  rw [log, log, List.map_append, List.map_singleton, List.filter_append, hlast]
  by_cases hblank : isBlankText line = true
  · simp [isBlankText_strip, hblank]
  · simp [isBlankText_strip, hblank, destutter_concat]

@[simp] theorem size_after (h : History) (c : Call) : (h.after c).size = h.size := by
  cases c with
  | add line =>
    simp only [after, add]
    split <;> rfl
  | clear => rfl

theorem entries_add (h : History) (line : String) :
    (h.add line).entries =
      if isBlankText line = true ∨ h.entries.getLast? = some (strip line) then h.entries
      else (h.entries ++ [strip line]).rtake h.size := by
  have hempty : (strip line).isEmpty = isBlankText line := by
    rw [Bool.eq_iff_iff, String.isEmpty_iff, strip_eq_empty_iff]
  simp only [add, hempty, Bool.or_eq_true, decide_eq_true_eq]
  split <;> rfl

/-- A line changes the end of a log as it changes the log. -/
theorem entries_add_of_end {h : History} {kept : List String} (hend : h.entries = kept.rtake h.size)
    (line : String) : (h.add line).entries =
      (if isBlankText line = true ∨ kept.getLast? = some (strip line) then kept
        else kept ++ [strip line]).rtake h.size := by
  rw [entries_add, hend]
  by_cases hsize : h.size = 0
  · -- Nothing is kept, whether the line repeats the last one of the log or not.
    simp only [hsize, List.rtake_zero, ite_self]
  · rw [getLast?_rtake hsize, rtake_rtake_append]
    split <;> rfl

theorem run_concat (h : History) (calls : List Call) (c : Call) :
    h.run (calls ++ [c]) = (h.run calls).after c := List.foldl_concat ..

theorem size_run (h : History) (calls : List Call) : (h.run calls).size = h.size := by
  induction calls using List.reverseRecOn with
  | nil => rfl
  | append_singleton calls c ih => rw [run_concat, size_after, ih]

theorem entries_run (h : History) (hempty : h.entries = []) (calls : List Call) :
    (h.run calls).entries = (log (added calls)).rtake h.size := by
  induction calls using List.reverseRecOn with
  | nil => exact hempty.trans (List.rtake_nil _).symm
  | append_singleton calls c ih =>
    rw [run_concat]
    cases c with
    | clear =>
      rw [added_clear]
      exact (List.rtake_nil _).symm
    | add line =>
      rw [← size_run h calls] at ih ⊢
      rw [added_add, log_concat]
      exact entries_add_of_end ih line

theorem of_mem_log {entry : String} (h : entry ∈ log lines) :
    isBlankText entry = false ∧ strip entry = entry := by
  have hmem := (List.destutter_sublist _ _).subset h
  obtain ⟨hstripped, hblank⟩ := List.mem_filter.mp hmem
  obtain ⟨line, -, rfl⟩ := List.mem_map.mp hstripped
  exact ⟨by simpa using hblank, strip_strip line⟩

/-- Whatever was added and cleared, a history is the end of the log of the lines that were added since
it was cleared; so it is within its bound, has no blank entry and does not repeat itself. -/
theorem keeps_end_of_log (n : Nat) (calls : List Call) :
    (n < 0x8000000000000000 → ofSize n = .ok { size := n }) ∧
    (run { size := n } calls).entries = (log (added calls)).rtake n ∧
    (run { size := n } calls).entries.length ≤ n ∧
    (∀ entry ∈ (run { size := n } calls).entries, isBlankText entry = false ∧ strip entry = entry) ∧
    (run { size := n } calls).entries.IsChain (· ≠ ·) := by
  have hmade (hn : n < 0x8000000000000000) : ofSize n = .ok { size := n } := by
    rw [ofSize, if_neg (by omega), if_neg (by omega), Int.toNat_natCast]
  have hentries := entries_run { size := n } rfl calls
  have hsuffix : (log (added calls)).rtake n <:+ log (added calls) := List.drop_suffix _ _
  refine ⟨hmade, hentries, ?_, ?_, ?_⟩
  · rw [hentries]
    exact length_rtake_le n _
  · intro entry hentry
    rw [hentries] at hentry
    exact of_mem_log (hsuffix.mem hentry)
  · rw [hentries]
    exact (List.isChain_destutter _ _).suffix hsuffix

/-- An entry let go is taken up again, and lines are compared without their blanks. -/
theorem keeps_end_of_log_bounded :
    let calls : List Call := [.add "cd /", .clear, .add "pwd", .add "ls", .add " ls\t", .add "  ",
      .add "ls", .add "echo a", .add "pwd"]
    (2 < 0x8000000000000000 ∧ ofSize (2 : Nat) = .ok { size := 2 }) ∧
    log (added calls) = ["pwd", "ls", "echo a", "pwd"] ∧
    (run { size := 2 } calls).entries = ["echo a", "pwd"] ∧
    ("pwd" ∈ (run { size := 2 } calls).entries ∧ isBlankText "pwd" = false) ∧
    (run { size := 0 } calls).entries = [] := by
  intro calls
  obtain ⟨hmade, hentries, -, hplain, -⟩ := keeps_end_of_log 2 calls
  obtain ⟨-, hnone, -⟩ := keeps_end_of_log 0 calls
  have hlog : log (added calls) = ["pwd", "ls", "echo a", "pwd"] := by decide +kernel
  rw [hlog] at hentries hnone
  have hmem : "pwd" ∈ (run { size := 2 } calls).entries := by
    rw [hentries]
    decide
  exact ⟨⟨by decide, hmade (by decide)⟩, hlog, hentries, ⟨hmem, (hplain _ hmem).1⟩, hnone⟩

end History
end MemShell
