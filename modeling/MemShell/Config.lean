import MemShell.Table
import MemShell.Path
import MemShell.Number.Numeral
import MemShell.Fault
set_option autoImplicit false

namespace MemShell

structure Config where
  defaultUser : String := "Guest"
  hostName : String := "localhost"
  defaultPath : String := "/bin:/usr/bin"
  maxAliasDepth : Int := 10
  maxScriptDepth : Int := 10
  historySize : Int := 50
  storagePath : Option Path := none
  logLevel : String := "WARNING"

namespace Config

def variablePrefix : String := "VSHELL_"

def integer (outer : Table String String) (name : String) (default : Int) : Except Fault Int :=
  match outer.get? (variablePrefix ++ name) with
  | none => .ok default
  | some raw =>
    match Number.readInt? raw with
    | some n => .ok n
    | none => .error (.breakdown (.value (variablePrefix ++ name ++ " must be an integer")))

def setting (outer : Table String String) (name default : String) : String :=
  (outer.get? (variablePrefix ++ name)).getD default

/-- The settings that the variables of the outer system give. An empty storage path is none. -/
def ofVariables (outer : Table String String) : Except Fault Config := do
  let d : Config := {}
  let maxAliasDepth ← integer outer "MAX_ALIAS_DEPTH" d.maxAliasDepth
  let maxScriptDepth ← integer outer "MAX_SCRIPT_DEPTH" d.maxScriptDepth
  let historySize ← integer outer "HISTORY_SIZE" d.historySize
  let storage := setting outer "STORAGE_PATH" ""
  pure {
    defaultUser := setting outer "DEFAULT_USER" d.defaultUser
    hostName := setting outer "HOST_NAME" d.hostName
    defaultPath := setting outer "DEFAULT_PATH" d.defaultPath
    storagePath := if storage.isEmpty then none else some (Path.ofText storage)
    logLevel := setting outer "LOG_LEVEL" d.logLevel
    maxAliasDepth, maxScriptDepth, historySize }

def variableNames : List String :=
  ["DEFAULT_USER", "HOST_NAME", "DEFAULT_PATH", "MAX_ALIAS_DEPTH", "MAX_SCRIPT_DEPTH",
    "HISTORY_SIZE", "STORAGE_PATH", "LOG_LEVEL"].map (variablePrefix ++ ·)

structure Overrides where
  defaultUser : Option String := none
  hostName : Option String := none
  defaultPath : Option String := none
  maxAliasDepth : Option Int := none
  maxScriptDepth : Option Int := none
  historySize : Option Int := none
  storagePath : Option Path := none
  logLevel : Option String := none

def override (c : Config) (o : Overrides) : Config where
  defaultUser := o.defaultUser.getD c.defaultUser
  hostName := o.hostName.getD c.hostName
  defaultPath := o.defaultPath.getD c.defaultPath
  maxAliasDepth := o.maxAliasDepth.getD c.maxAliasDepth
  maxScriptDepth := o.maxScriptDepth.getD c.maxScriptDepth
  historySize := o.historySize.getD c.historySize
  storagePath := o.storagePath.orElse fun _ => c.storagePath
  logLevel := o.logLevel.getD c.logLevel

end Config
end MemShell
