import MemShell.Environment
import MemShell.Config
set_option autoImplicit false

namespace MemShell

structure Session where
  current : String
  outer : List String := []
deriving DecidableEq, Repr

namespace Session

def defaults (config : Config) (user : String) : Frame :=
  [("USER", user), ("HOME", "/home/" ++ user), ("HOST", config.hostName),
    ("PATH", config.defaultPath)]

def stack (s : Session) : List String := (s.current :: s.outer).reverse

def enter (config : Config) (s : Session) (env : Environment) : Session × Environment :=
  (s, env.rebase (defaults config s.current))

def login (config : Config) (env : Environment) : Session × Environment :=
  enter config ⟨config.defaultUser, []⟩ env

def push (config : Config) (s : Session) (user : String) (env : Environment) :
    Session × Environment :=
  enter config ⟨user, s.current :: s.outer⟩ env

/-- Goes back to the user before; the login user stays. -/
def pop (config : Config) (s : Session) (env : Environment) :
    Except Fault (String × Session × Environment) :=
  match s.outer with
  | [] => .error (.account .noOuterSession)
  | u :: us => .ok (s.current, enter config ⟨u, us⟩ env)

def replace (config : Config) (user : String) (env : Environment) : Session × Environment :=
  enter config ⟨user, []⟩ env

end Session
end MemShell
