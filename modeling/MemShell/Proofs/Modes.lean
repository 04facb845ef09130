import Mathlib.Algebra.Group.Nat.Defs
import MemShell.Mode
import MemShell.FileSystem.Ownership
set_option autoImplicit false

namespace MemShell.Mode

def digitsFrom (b : Nat) (v : Char → Nat) (k : Nat) (s : List Char) : Nat :=
  s.foldl (fun n c => b * n + v c) k

variable {b : Nat} {v : Char → Nat}

theorem digitsFrom_eq (k : Nat) (s : List Char) :
    digitsFrom b v k s = k * b ^ s.length + digitsFrom b v 0 s := by
  induction s generalizing k with
  | nil => simp [digitsFrom]
  | cons c rest ih =>
    change digitsFrom b v (b * k + v c) rest = _ + digitsFrom b v (b * 0 + v c) rest
    rw [ih (b * k + v c), ih (b * 0 + v c), List.length_cons, Nat.pow_succ]
    rw [Nat.mul_zero, Nat.zero_add, Nat.add_mul, ← Nat.add_assoc]
    congr 2
    rw [Nat.mul_comm b k, Nat.mul_assoc, Nat.mul_comm b]

theorem digitsFrom_append (s t : List Char) :
    digitsFrom b v 0 (s ++ t) = digitsFrom b v 0 s * b ^ t.length + digitsFrom b v 0 t := by
  have happ : digitsFrom b v 0 (s ++ t) = digitsFrom b v (digitsFrom b v 0 s) t :=
    List.foldl_append
  rw [happ, digitsFrom_eq]

theorem digitsFrom_lt (s : List Char) (h : ∀ c ∈ s, v c < b) :
    digitsFrom b v 0 s < b ^ s.length := by
  induction s with
  | nil => simp [digitsFrom]
  | cons c rest ih =>
    have hc := h c (by simp)
    have hrest := ih fun c hc => h c (by simp [hc])
    change digitsFrom b v (b * 0 + v c) rest < _
    rw [digitsFrom_eq, Nat.mul_zero, Nat.zero_add, List.length_cons, Nat.pow_succ]
    calc v c * b ^ rest.length + digitsFrom b v 0 rest
        < v c * b ^ rest.length + b ^ rest.length := by omega
      _ = (v c + 1) * b ^ rest.length := by rw [Nat.add_mul, Nat.one_mul]
      _ ≤ b * b ^ rest.length := Nat.mul_le_mul_right _ hc
      _ = b ^ rest.length * b := Nat.mul_comm _ _

def bitOf (c : Char) : Nat := if c = '-' then 0 else 1

theorem symbolicValue_eq (s : List Char) : symbolicValue s = digitsFrom 2 bitOf 0 s := rfl

theorem octalValue_eq (s : List Char) :
    octalValue s = digitsFrom 8 (fun c => c.toNat - 48) 0 s := rfl

theorem symbolicValue_lt {s : List Char} (h : isSymbolic s = true) : symbolicValue s < 512 := by
  have hlength : s.length = 9 := by
    simp only [isSymbolic, Bool.and_eq_true, decide_eq_true_eq] at h
    exact h.1
  have hlt : digitsFrom 2 bitOf 0 s < 2 ^ s.length := by
    refine digitsFrom_lt s fun c _ => ?_
    unfold bitOf
    split <;> omega
  rw [hlength] at hlt
  exact hlt

theorem octalDigit_lt {c : Char} (h : isOctalDigit c = true) : c.toNat - 48 < 8 := by
  simp only [isOctalDigit, Bool.and_eq_true, decide_eq_true_eq] at h
  have hle : c.toNat ≤ '7'.toNat := h.2
  have hseven : '7'.toNat = 55 := rfl
  omega

theorem octalValue_lt_of_digits {a b c : Char} (h : [a, b, c].all isOctalDigit = true) :
    octalValue [a, b, c] < 512 := by
  have hlt : digitsFrom 8 (fun c => c.toNat - 48) 0 [a, b, c] < 8 ^ 3 :=
    digitsFrom_lt [a, b, c] fun _ hd => octalDigit_lt (List.all_eq_true.mp h _ hd)
  rw [octalValue_eq]
  omega

theorem octalValue_lt {s : List Char} (h : isOctal s = true) : octalValue s < 512 := by
  unfold isOctal at h
  split at h
  · exact octalValue_lt_of_digits h
  · -- The zero in front does not count.
    next a b c => exact octalValue_lt_of_digits (a := a) (b := b) (c := c) h
  · cases h

theorem ofText_le {s : String} {m : Nat} (h : ofText s = .ok m) : m ≤ 0o777 := by
  simp only [ofText] at h
  split at h
  · next hsym =>
    split at h
    · cases h
      exact Nat.le_of_lt_succ (symbolicValue_lt hsym)
    · cases h
  · split at h
    · next hoct =>
      cases h
      exact Nat.le_of_lt_succ (octalValue_lt hoct)
    · cases h

theorem symbolicValue_tripletLetters : ∀ bits < 8, symbolicValue (tripletLetters bits) = bits := by
  decide

theorem symbolicValue_letters {m : Nat} (h : m ≤ 0o777) : symbolicValue (letters m) = m := by
  have htriplet (bits : Nat) (hbits : bits < 8) :
      digitsFrom 2 bitOf 0 (tripletLetters bits) = bits :=
    symbolicValue_tripletLetters bits hbits
  have hlength (bits : Nat) : (tripletLetters bits).length = 3 := rfl
  rw [symbolicValue_eq, letters, digitsFrom_append, digitsFrom_append, htriplet _ (by omega),
    htriplet _ (by omega), htriplet _ (by omega), hlength, hlength]
  omega

theorem isLetterAt_ite {i : Nat} {c : Char} (hc : isLetterAt i c = true) (p : Prop) [Decidable p] :
    isLetterAt i (if p then c else '-') = true := by
  split
  · exact hc
  · rfl

theorem isSymbolic_letters (m : Nat) : isSymbolic (letters m) = true := by
  rw [isSymbolic, Bool.and_eq_true]
  refine ⟨rfl, ?_⟩
  simp only [letters, tripletLetters, List.cons_append, List.nil_append, List.zipIdx_cons,
    List.zipIdx_nil, List.all_cons, List.all_nil, Bool.and_true, Bool.and_eq_true]
  refine ⟨?_, ?_, ?_, ?_, ?_, ?_, ?_, ?_, ?_⟩ <;> exact isLetterAt_ite rfl _

theorem dropFinalNewline_letters (m : Nat) : Text.dropFinalNewline (letters m) = letters m := by
  have hlast : (letters m).getLast? ≠ some '\n' := by
    change some (if (m % 8).testBit 0 then 'x' else '-') ≠ _
    split <;> decide
  rw [Text.dropFinalNewline, if_neg hlast]

theorem ofText_text {m : Nat} (h : m ≤ 0o777) : ofText (text m) = .ok m := by
  have hletters : (text m).toList = letters m := String.toList_ofList
  simp only [ofText, hletters, dropFinalNewline_letters, isSymbolic_letters, if_true,
    symbolicValue_letters h]

end MemShell.Mode

namespace MemShell.FileSystem

theorem ModeSpec.value_le {spec : ModeSpec} {m : Nat} (h : spec.value = .ok m) : m ≤ 0o777 := by
  cases spec with
  | text s => exact Mode.ofText_le h
  | number n =>
    simp only [ModeSpec.value] at h
    split at h
    · cases h
      omega
    · cases h

end MemShell.FileSystem
