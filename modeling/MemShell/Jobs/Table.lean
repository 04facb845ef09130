import MemShell.Jobs.Mailboxes
set_option autoImplicit false

namespace MemShell

structure JobTable where
  next : JobId := 1
  /-- What each job in the table runs, in the order of their numbers. -/
  active : Table JobId String := []
  boxes : Mailboxes := []
  cancelled : List JobId := []

namespace JobTable

def nextId (t : JobTable) : JobId × JobTable := (t.next, { t with next := t.next + 1 })

def spawn (t : JobTable) (text : String) : JobId × JobTable :=
  let (id, t) := t.nextId
  (id, { t with active := t.active.put id text, boxes := t.boxes.register id })

def forget (t : JobTable) (id : JobId) : JobTable :=
  { t with active := t.active.erase id, boxes := t.boxes.unregister id }

def isCancelled (t : JobTable) (id : JobId) : Bool := t.cancelled.contains id

def cancel (t : JobTable) (id : JobId) : JobTable :=
  { t.forget id with cancelled := id :: t.cancelled }

def kill (t : JobTable) (id : JobId) : Except Fault JobTable :=
  if t.active.contains id then .ok (t.cancel id) else .error (.unknownJob id)

def cancelAll (t : JobTable) : JobTable := t.active.keys.foldl cancel t

def post (t : JobTable) (id : JobId) (message : String) : Except Fault JobTable :=
  (t.boxes.post id message).map fun boxes => { t with boxes }

def drain (t : JobTable) (id : JobId) : List String × JobTable :=
  let (messages, boxes) := t.boxes.drain id
  (messages, { t with boxes })

theorem not_contains_forget (t : JobTable) (id : JobId) :
    (t.forget id).active.contains id = false := by
  simp [forget, Table.contains]

theorem isCancelled_kill (t t' : JobTable) (id : JobId) (h : t.kill id = .ok t') :
    t'.isCancelled id = true := by
  unfold kill at h
  split at h
  · obtain rfl : t.cancel id = t' := by simpa using h
    simp [isCancelled, cancel]
  · simp at h

end JobTable
end MemShell
