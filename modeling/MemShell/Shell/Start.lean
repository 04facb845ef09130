import MemShell.Builtins.Catalogue
set_option autoImplicit false

namespace MemShell

def History.ofSize (size : Int) : Except Fault History :=
  if size < 0 then .error (.breakdown (.value "maxlen must be non-negative"))
  else if 0x8000000000000000 ≤ size then
    .error (.breakdown (.overflow "Python int too large to convert to C ssize_t"))
  else .ok { size := size.toNat }

namespace Shell

def chooseBackend (config : Config) (given : Option Backend) : Option Backend :=
  match given with
  | some b => some b
  | none => config.storagePath.map .file

def start (config : Config) (given : Option Backend) (disk : Disk) (provided : List String)
    (startTime : Time) : Except Fault Shell := do
  let storage : Storage := { backend := chooseBackend config given, disk }
  let accounts ← Accounts.initial (some config.defaultUser)
  let fresh := FileSystem.fresh accounts startTime (some config.defaultUser)
  let (loaded, files) := storage.load.run fresh
  let _ ← loaded
  let history ← History.ofSize config.historySize
  let (session, environment) := Session.login config {}
  let aliases : Aliases := { limit := config.maxAliasDepth }
  let s : Shell := {
    config, files, accounts, storage, session, environment, aliases, history
    commands := Catalogue.table, provided, startTime }
  pure (s.resolveServices (Catalogue.all.flatMap (·.contract.requires)))

end Shell
end MemShell
