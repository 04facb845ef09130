import MemShell.Proofs.Faults
import MemShell.Proofs.Line.Comments
set_option autoImplicit false

namespace MemShell
open Text

namespace Token

theorem FaultsAre.prepend {P : Fault → Prop} {r : Except Fault (List Token)} (h : FaultsAre P r)
    (ts : List Token) : FaultsAre P (prepend ts r) := by
  cases r with
  | ok us => exact faultsAre_ok _
  | error f => exact faultsAre_error (h f rfl)

section
variable {n column : Nat} {cs : List Char}
  (h : ∀ quote word fresh column, ∀ cs : List Char, cs.length ≤ n →
    FaultsAre Fault.IsGrammar (scan quote word fresh column cs))
  (hcs : cs.length ≤ n)
include h hcs

theorem faultsAre_scan_unquoted (word : Option Draft) (fresh : Bool) (column : Nat) (c : Char) :
    FaultsAre Fault.IsGrammar (scan none word fresh column (c :: cs)) := by
  rw [scan_unquoted]
  split
  · exact FaultsAre.prepend (h _ _ _ _ cs hcs) _
  split
  · exact faultsAre_ok _
  split
  · exact h _ _ _ _ cs hcs
  split
  · cases cs with
    | nil => exact faultsAre_ok _
    | cons d cs => exact h _ _ _ _ cs (Nat.le_of_succ_le hcs)
  split
  · cases cs with
    | nil => exact faultsAre_ok _
    | cons d cs =>
      dsimp only
      split
      · exact FaultsAre.prepend (h _ _ _ _ cs (Nat.le_of_succ_le hcs)) _
      · exact FaultsAre.prepend (h _ _ _ _ (d :: cs) hcs) _
  · exact h _ _ _ _ cs hcs

theorem faultsAre_scan_quoted (q : Char) (start : Nat) (word : Option Draft) (fresh : Bool)
    (column : Nat) (c : Char) :
    FaultsAre Fault.IsGrammar (scan (some (q, start)) word fresh column (c :: cs)) := by
  rw [scan_quoted]
  split
  · exact h _ _ _ _ cs hcs
  split
  · cases cs with
    | nil => exact faultsAre_error (Fault.isGrammar_grammar _)
    | cons d cs =>
      dsimp only
      split
      · exact h _ _ _ _ cs (Nat.le_of_succ_le hcs)
      · exact h _ _ _ _ (d :: cs) hcs
  · exact h _ _ _ _ cs hcs

end

theorem faultsAre_scan (n : Nat) (quote : Option (Char × Nat)) (word : Option Draft) (fresh : Bool)
    (column : Nat) (cs : List Char) (hcs : cs.length ≤ n) :
    FaultsAre Fault.IsGrammar (scan quote word fresh column cs) := by
  induction n generalizing quote word fresh column cs with
  | zero =>
    obtain rfl := List.length_eq_zero_iff.mp (Nat.le_zero.mp hcs)
    rcases quote with _ | ⟨q, start⟩
    · exact faultsAre_ok _
    · exact faultsAre_error (Fault.isGrammar_grammar _)
  | succ n ih =>
    cases cs with
    | nil => exact ih _ _ _ _ [] (Nat.zero_le n)
    | cons c cs =>
      replace hcs : cs.length ≤ n := Nat.le_of_succ_le_succ hcs
      rcases quote with _ | ⟨q, start⟩
      · exact faultsAre_scan_unquoted ih hcs word fresh column c
      · exact faultsAre_scan_quoted ih hcs q start word fresh column c

theorem faultsAre_ofLine (line : String) : FaultsAre Fault.IsGrammar (ofLine line) :=
  faultsAre_scan _ none none true 0 line.toList (Nat.le_refl _)

theorem ofLine_eq_ok_iff {line : String} {ts : List Token} :
    ofLine line = .ok ts ↔ Stand.start.read line.toList = some ts := by
  rw [← toOption_ofLine]
  cases ofLine line <;> simp [Except.toOption]

theorem ofLine_eq_error_iff {line : String} :
    (∃ f, ofLine line = .error (.grammar f)) ↔ Stand.start.read line.toList = none := by
  rw [← toOption_ofLine]
  cases hread : ofLine line with
  | ok ts => simp [Except.toOption]
  | error f =>
    obtain ⟨g, rfl⟩ := faultsAre_ofLine line f hread
    simp [Except.toOption]

namespace Stand
variable {s : Stand} {ts : List Token} {c : Char} {cs more : List Char}

theorem read_blanks_of_finish (hfinish : s.finish = some ts) (hcomment : s ≠ comment)
    (hescape : s.isEscape = false) (hne : cs ≠ []) (hblanks : ∀ c ∈ cs, isBlank c = true) :
    s.read (cs ++ more) = (start.read more).map (ts ++ ·) := by
  obtain ⟨c, cs, rfl⟩ := List.exists_cons_of_ne_nil hne
  have hstep : s.step c = (ts, start) := step_blank hfinish hcomment hescape (hblanks c (by simp))
  rw [List.cons_append, read_cons, hstep, read_blanks fun x hx => hblanks x (by simp [hx])]

end Stand

/-- A text behind another one and blanks is read as if it stood alone. -/
theorem ofLine_append_blanks {a w b : String} {ts : List Token} (ha : ofLine a = .ok ts)
    (hcomment : (Stand.start.run a.toList).2 ≠ .comment)
    (hescape : (Stand.start.run a.toList).2.isEscape = false)
    (hne : w ≠ "") (hblanks : ∀ c ∈ w.toList, isBlank c = true) :
    (∀ us, ofLine b = .ok us → ofLine (a ++ w ++ b) = .ok (ts ++ us)) ∧
      ((∃ f, ofLine (a ++ w ++ b) = .error (.grammar f)) ↔
        ∃ f, ofLine b = .error (.grammar f)) := by
  have hread : Stand.start.read (a ++ w ++ b).toList =
      (Stand.start.read b.toList).map (ts ++ ·) := by
    rw [ofLine_eq_ok_iff, Stand.read_eq_run] at ha
    obtain ⟨last, hfinish, rfl⟩ := Option.map_eq_some_iff.mp ha
    have hw : w.toList ≠ [] := by simpa using hne
    rw [String.toList_append, String.toList_append, List.append_assoc, Stand.read_append,
      Stand.read_blanks_of_finish hfinish hcomment hescape hw hblanks, Option.map_map]
    simp [Function.comp_def]
  refine ⟨fun us hb => ?_, ?_⟩
  · rw [ofLine_eq_ok_iff] at hb ⊢
    rw [hread, hb]
    rfl
  · rw [ofLine_eq_error_iff, ofLine_eq_error_iff, hread, Option.map_eq_none_iff]

theorem ofLine_append_blanks_mixed :
    let a := "x\\ y>>'a  #b'|&"
    let b := "& \"c \\\" d\"e # f"
    let ts := [word "x y" true, operator ">>", word "a  #b" true, operator "|", operator "&"]
    (ofLine a = .ok ts ∧ (Stand.start.run a.toList).2 ≠ .comment ∧
        (Stand.start.run a.toList).2.isEscape = false ∧ " \t " ≠ "" ∧
        ∀ c ∈ " \t ".toList, isBlank c = true) ∧
      (∀ us, ofLine b = .ok us → ofLine (a ++ " \t " ++ b) = .ok (ts ++ us)) ∧
        ((∃ f, ofLine (a ++ " \t " ++ b) = .error (.grammar f)) ↔
          ∃ f, ofLine b = .error (.grammar f)) := by
  intro a b ts
  have ha : ofLine a = .ok ts := by decide +kernel
  have hcomment : (Stand.start.run a.toList).2 ≠ .comment := by decide +kernel
  have hescape : (Stand.start.run a.toList).2.isEscape = false := by decide +kernel
  have hne : " \t " ≠ "" := by decide
  have hblanks : ∀ c ∈ " \t ".toList, isBlank c = true := by simp [isBlank]
  exact ⟨⟨ha, hcomment, hescape, hne, hblanks⟩,
    ofLine_append_blanks ha hcomment hescape hne hblanks⟩

end Token
end MemShell
