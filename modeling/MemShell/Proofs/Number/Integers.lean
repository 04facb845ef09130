import MemShell.Proofs.Json.Numerals
import MemShell.Proofs.Number.Decimals
set_option autoImplicit false

namespace MemShell.Number
open Text

theorem isDigit_toDigits (n : Nat) : ∀ c ∈ Nat.toDigits 10 n, isDigit c = true := by
  intro c hc
  have hascii : 48 ≤ c.toNat ∧ c.toNat ≤ 57 := by
    have hdigit := Nat.isDigit_of_mem_toDigits (by decide) (by decide) hc
    simpa [Char.isDigit, UInt32.le_iff_toNat_le] using hdigit
  rw [isDigit, digitValue?, Option.isSome_map, List.find?_isSome]
  exact ⟨48, by decide, by simpa using hascii⟩

theorem readInt?_toString {n : Nat} (h : (Nat.toDigits 10 n).length ≤ maxDigits) :
    readInt? (toString n) = some (n : Int) := by
  have hdigit := isDigit_toDigits n
  have htrim := trimNumeral_eq fun c hc => isBlank_of_isDigit (hdigit c hc)
  have hunderscores := dropUnderscores_eq fun hc => by cases hdigit '_' hc
  obtain ⟨first, rest, hfirst⟩ := List.exists_cons_of_ne_nil (Nat.toDigits_ne_nil (b := 10) (n := n))
  have hsign : readSign (Nat.toDigits 10 n) = (false, Nat.toDigits 10 n) := by
    rw [hfirst]
    exact readSign_of_isDigit (hdigit first (hfirst ▸ List.mem_cons_self)) rest
  have hempty : (Nat.toDigits 10 n).isEmpty = false := by rw [hfirst]; rfl
  have hall : (Nat.toDigits 10 n).all isDigit = true := List.all_eq_true.mpr hdigit
  rw [readInt?, Json.toList_toString, htrim, hunderscores]
  simp only [hsign, hempty, hall, digitsValue_toDigits, Nat.not_lt.mpr h, decide_false,
    Bool.not_true, Bool.or_false, Bool.false_eq_true, if_false]

end MemShell.Number
