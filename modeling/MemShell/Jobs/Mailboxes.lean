import MemShell.Table
import MemShell.Fault
set_option autoImplicit false

namespace MemShell

abbrev JobId := Int

abbrev Mailboxes := Table JobId (List String)

namespace Mailboxes

/-- Opens a box; an open one keeps its messages. -/
def register (b : Mailboxes) (id : JobId) : Mailboxes :=
  if b.contains id then b else b.put id []

def unregister (b : Mailboxes) (id : JobId) : Mailboxes := b.erase id

def post (b : Mailboxes) (id : JobId) (message : String) : Except Fault Mailboxes :=
  match b.get? id with
  | some messages => .ok (b.put id (messages ++ [message]))
  | none => .error (.unknownJob id)

/-- The messages of a box, which is empty afterwards; without a box there are none. -/
def drain (b : Mailboxes) (id : JobId) : List String × Mailboxes :=
  match b.get? id with
  | some messages => (messages, b.put id [])
  | none => ([], b)

end Mailboxes
end MemShell
