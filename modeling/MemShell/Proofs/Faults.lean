import MemShell.Fault
set_option autoImplicit false

namespace MemShell

def FaultsAre (P : Fault → Prop) {α : Type} (r : Except Fault α) : Prop := ∀ f, r = .error f → P f

variable {P : Fault → Prop} {α β : Type}

theorem faultsAre_ok (a : α) : FaultsAre P (.ok a : Except Fault α) := fun _ h => by cases h

theorem faultsAre_error {f : Fault} (h : P f) : FaultsAre P (.error f : Except Fault α) :=
  fun _ hf => by cases hf; exact h

theorem FaultsAre.bind {r : Except Fault β} {g : β → Except Fault α} (hr : FaultsAre P r)
    (hg : ∀ b, r = .ok b → FaultsAre P (g b)) : FaultsAre P (r >>= g) := by
  cases r with
  | ok b => exact hg b rfl
  | error f => exact faultsAre_error (hr f rfl)

def Fault.IsGrammar (f : Fault) : Prop := ∃ g, f = .grammar g

theorem Fault.isGrammar_grammar (g : GrammarFault) : (Fault.grammar g).IsGrammar := ⟨g, rfl⟩

end MemShell
