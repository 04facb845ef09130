import MemShell.Shell.State
import MemShell.FileSystem.Create
set_option autoImplicit false

namespace MemShell.Builtins

def requireRoot (c : Context) : Effect Unit :=
  if c.user = rootUser then pure () else throw (c.fault .rootOnly)

def requireUser (c : Context) (user : String) : Effect Unit := do
  if (← get).accounts.hasUser user then pure () else throw (c.fault (.unknownUser user))

def authenticate (c : Context) (user : String) (password : Option String) : Effect Unit := do
  requireUser c user
  if ← Work.lift ((← get).accounts.checkPassword user password) then pure ()
  else throw (c.fault .authentication)

def switchTo (change : Session → Environment → Session × Environment) (s : Shell) : Shell :=
  let (session, environment) := change s.session s.environment
  { s with session, environment }.enterHome

def whoami (c : Context) : Effect (Result String) := pure (.text (c.user ++ "\n"))

/-- Root needs no password. -/
def su (c : Context) : Effect (Result String) := do
  let target := c.args.headD rootUser
  if c.user = rootUser then requireUser c target else authenticate c target c.args[1]?
  modify fun s => switchTo (fun session e => session.push s.config target e) s
  pure .done

def logout (c : Context) : Effect (Result String) := do
  let s ← get
  match s.session.pop s.config s.environment with
  | .ok (left, session, environment) =>
    set { s with session, environment }.enterHome
    pure (.text ("Logged out from " ++ left ++ ".\n"))
  | .error _ => throw (c.fault .noOuterSession)

def login (c : Context) : Effect (Result String) := do
  let target := c.args.headD ""
  authenticate c target c.args[1]?
  modify fun s => switchTo (fun _ e => Session.replace s.config target e) s
  pure .done

/-- Adds a user and a private home, which may stand already. -/
def useradd (c : Context) : Effect (Result String) := do
  requireRoot c
  let name := c.args.headD ""
  let accounts ← Work.lift ((← get).accounts.addUser name c.args[1]?)
  modify fun s => { s with accounts }
  let home ← Effect.changeFiles rootUser fun a =>
    FileSystem.makeDirectory a ("/home/" ++ name) true true
  modify fun s =>
    let group := s.accounts.primaryGroup name
    { s with files := s.files.modify home (Node.mapAttrs fun at' =>
        { at' with owner := name, group, mode := Mode.ofPrivateDirectory }) }
  pure (.ok ("User '" ++ name ++ "' registered.\n") true)

def groupadd (c : Context) : Effect (Result String) := do
  requireRoot c
  let name := c.args.headD ""
  let accounts ← Work.lift ((← get).accounts.addGroup name)
  modify fun s => { s with accounts }
  pure (.text ("Group '" ++ name ++ "' created.\n"))

def usermod (c : Context) : Effect (Result String) := do
  requireRoot c
  let user := c.args.headD ""
  let group := (c.flags.value? "group").getD ""
  if !c.hasFlag "append" || group.isEmpty then throw (c.fault .usermodUsage)
  else
    let accounts ← Work.lift ((← get).accounts.addToGroup user group)
    modify fun s => { s with accounts }
    pure (.text ("Added user '" ++ user ++ "' to group '" ++ group ++ "'.\n"))

def groups (c : Context) : Effect (Result String) := do
  let accounts := (← get).accounts
  let user := c.args.headD c.user
  let _ ← Work.lift (accounts.getUser user)
  pure (.text (" ".intercalate (accounts.groupsOf user) ++ "\n"))

end MemShell.Builtins
