import MemShell.Shell.State
import MemShell.Builtins.Files
set_option autoImplicit false

namespace MemShell.Builtins

def firstNonEmpty (texts : List String) : String := (texts.find? (!·.isEmpty)).getD ""

def helpRow (c : Contract) : String :=
  "  " ++ c.name ++ (if c.description.isEmpty then "" else " - " ++ c.description)

def help (c : Context) : Effect (Result String) := do
  let commands := (← get).commands
  match c.args with
  | name :: _ =>
    match commands.get? name with
    | none => throw (c.fault (.noHelp name))
    | some ⟨k, _⟩ => pure (.text (firstNonEmpty [k.help, k.description, k.name] ++ "\n"))
  | [] =>
    let rows := (sortByKey (·.1) commands).map fun (_, d) => helpRow d.contract
    pure (.text ("\n".intercalate ("Available commands:" :: rows) ++ "\n"))

def historyRow (line : String) (n : Nat) : String :=
  "  " ++ padLeft 3 (toString n) ++ "  " ++ line ++ "\n"

def history (c : Context) : Effect (Result String) := do
  let s ← get
  if c.hasFlag "clear" then
    set { s with history := s.history.clear }
    pure (.text "Command history cleared.\n")
  else
    pure (.text (String.join ((s.history.entries.zipIdx 1).map fun (line, n) => historyRow line n)))

def yes (_ : Context) : Effect (Result String) := pure .done

def no (_ : Context) : Effect (Result String) :=
  pure { data := some "", problem := some ⟨"", .execution⟩ }

def save (c : Context) : Effect (Result String) := do
  if !(← get).storage.attached then throw (c.fault .noStorage)
  else
    let saved ← Effect.save
    if saved.success then pure (.text "File system saved.\n")
    else pure (saved.map fun _ => "")

end MemShell.Builtins
