import MemShell.Table
import MemShell.Text.Blank
import MemShell.Digest.Sha256
import MemShell.Fault
set_option autoImplicit false

namespace MemShell

def rootUser : String := "root"

structure User where
  name : String
  primaryGroup : String
  passwordDigest : Option String := none
deriving DecidableEq, Repr

structure Accounts where
  users : Table String User := []
  groups : Table String (List String) := []

namespace Accounts

def isNameChar (c : Char) : Bool := c.isAlphanum || c = '_' || c = '.' || c = '-'

/-- A letter or underscore first, and one line feed tolerated at the end. -/
def isAccountName (name : String) : Bool :=
  match Text.dropFinalNewline name.toList with
  | [] => false
  | c :: rest => (c.isAlpha || c = '_') && rest.all isNameChar

def checkName (what name : String) : Except Fault Unit :=
  if isAccountName name then .ok () else .error (.account (.invalidName what name))

def hasUser (a : Accounts) (name : String) : Bool := a.users.contains name

def hasGroup (a : Accounts) (name : String) : Bool := a.groups.contains name

def members (a : Accounts) (group : String) : List String := (a.groups.get? group).getD []

def join (a : Accounts) (user group : String) : Accounts :=
  let ms := a.members group
  { a with groups := a.groups.put group (if ms.contains user then ms else ms ++ [user]) }

/-- Adds a user; an empty password is none. -/
def addUser (a : Accounts) (name : String) (password : Option String := none) :
    Except Fault Accounts := do
  checkName "user" name
  if a.hasUser name then .error (.account (.exists "user" name))
  else
    let secret := password.filter (!·.isEmpty)
    let user : User := ⟨name, name, secret.map Sha256.hexDigest⟩
    let a := a.join name name
    .ok { a with users := a.users.put name user }

def getUser (a : Accounts) (name : String) : Except Fault User :=
  match a.users.get? name with
  | some u => .ok u
  | none => .error (.account (.unknown "user" name))

def userNames (a : Accounts) : List String := sortTexts a.users.keys

/-- A user without a password is let in with any. -/
def checkPassword (a : Accounts) (name : String) (password : Option String) :
    Except Fault Bool := do
  let u ← a.getUser name
  match u.passwordDigest with
  | none => pure true
  | some d => pure (password.map Sha256.hexDigest = some d)

def addGroup (a : Accounts) (name : String) : Except Fault Accounts := do
  checkName "group" name
  if a.hasGroup name then .error (.account (.exists "group" name))
  else .ok { a with groups := a.groups.put name [] }

def addToGroup (a : Accounts) (user group : String) : Except Fault Accounts := do
  let _ ← a.getUser user
  if a.hasGroup group then .ok (a.join user group)
  else .error (.account (.unknown "group" group))

/-- An unknown user counts as the only member of a group of that name. -/
def primaryGroup (a : Accounts) (user : String) : String :=
  ((a.users.get? user).map (·.primaryGroup)).getD user

def isMember (a : Accounts) (user group : String) : Bool :=
  (a.members group).contains user || a.primaryGroup user = group

def groupsOf (a : Accounts) (user : String) : List String :=
  sortTexts ((a.groups.filter fun g => g.2.contains user).map (·.1))

def initial (defaultUser : Option String) : Except Fault Accounts := do
  let a ← ({} : Accounts).addUser rootUser
  match defaultUser with
  | none => pure a
  | some name => if name.isEmpty ∨ name = rootUser then pure a else a.addUser name

end Accounts
end MemShell
