import MemShell.Shell.State
set_option autoImplicit false

namespace MemShell.Builtins

def splitAtEquals (s : String) : String × String :=
  let cs := s.toList
  (String.ofList (cs.takeWhile (· ≠ '=')), String.ofList ((cs.dropWhile (· ≠ '=')).drop 1))

def nameAndValue (args : List String) : String × String :=
  match args with
  | [] => ("", "")
  | first :: rest =>
    if first.toList.contains '=' then splitAtEquals (" ".intercalate args)
    else (first, " ".intercalate rest)

def tableText (row : String → String → String) (t : Table String String) : String :=
  String.join ((sortByKey (·.1) t).map fun (name, value) => row name value)

def setVariable (c : Context) : Effect (Result String) := do
  let env := (← get).environmentOf c.caller.job
  if c.args.isEmpty then
    pure (.text (tableText (fun name value => name ++ "=\"" ++ value ++ "\"\n") env.top))
  else
    let (name, value) := nameAndValue c.args
    match env.set name value with
    | .ok env =>
      modify (Shell.setEnvironment c.caller.job env)
      pure (.text "")
    | .error f => pure (.fail ("set: " ++ f.message) .validation)

def unset (c : Context) : Effect (Result String) := do
  modify (Shell.changeEnvironment c.caller.job fun e => c.args.foldl Environment.unset e)
  pure .done

def env (c : Context) : Effect (Result String) := do
  let env := (← get).environmentOf c.caller.job
  pure (.text (tableText (fun name value => name ++ "=" ++ value ++ "\n") env.top))

def aliasRow (name value : String) : String := "alias " ++ name ++ "='" ++ value ++ "'\n"

def defineAlias (c : Context) : Effect (Result String) := do
  let s ← get
  match c.args with
  | [] => pure (.text (tableText aliasRow s.aliases.entries))
  | first :: _ =>
    if first.toList.contains '=' then
      let (name, value) := nameAndValue c.args
      let aliases ← Work.lift (s.aliases.set name value)
      set { s with aliases }
      pure .done
    else
      match s.aliases.get? first with
      | some value => pure (.text (aliasRow first value))
      | none => throw (c.fault (.notFound first))

/-- Removes the aliases that there are; then the first one missing is reported. -/
def unalias (c : Context) : Effect (Result String) := do
  let removed ← c.args.mapM fun name => do
    let s ← get
    let (found, aliases) := s.aliases.remove name
    set { s with aliases }
    pure (name, found)
  match removed.find? (!·.2) with
  | some (name, _) => throw (c.fault (.notFound name))
  | none => pure .done

end MemShell.Builtins
