import MemShell.Table
import MemShell.Path
import MemShell.Number.Binary64
import MemShell.Fault
set_option autoImplicit false

/-!
# Nodes

A node is a file with a text or a directory with its children by name, in the order in which they
came in. A node bears no name itself: its name is the one under which its directory holds it, and the
root has none. Below a node, a list of names leads to at most one node.
-/
namespace MemShell

structure Attributes where
  owner : String
  group : String
  mode : Nat
  ctime : Time
  mtime : Time
deriving DecidableEq

inductive Node where
  | file (attrs : Attributes) (content : String)
  | dir (attrs : Attributes) (children : List (String × Node))

instance : Inhabited Node := ⟨.file ⟨"", "", 0, default, default⟩ ""⟩

namespace Node

def attrs : Node → Attributes
  | .file a _ => a
  | .dir a _ => a

def mapAttrs (f : Attributes → Attributes) : Node → Node
  | .file a c => .file (f a) c
  | .dir a cs => .dir (f a) cs

def isDir : Node → Bool
  | .dir .. => true
  | .file .. => false

def children : Node → List (String × Node)
  | .dir _ cs => cs
  | .file .. => []

def content : Node → String
  | .file _ c => c
  | .dir .. => ""

def child? (n : Node) (name : String) : Option Node := Table.get? n.children name

def mapChildren (f : List (String × Node) → List (String × Node)) : Node → Node
  | .dir a cs => .dir a (f cs)
  | n => n

def setContent (text : String) : Node → Node
  | .file a _ => .file a text
  | n => n

def touched (now : Time) : Node → Node := mapAttrs fun a => { a with mtime := now }

def withChild (now : Time) (name : String) (c n : Node) : Node :=
  (n.mapChildren fun cs => Table.put cs name c).touched now

def without (now : Time) (name : String) (n : Node) : Node :=
  (n.mapChildren fun cs => Table.erase cs name).touched now

def at? (n : Node) : Place → Option Node
  | [] => some n
  | name :: rest =>
    match n.child? name with
    | some c => c.at? rest
    | none => none

def modify (f : Node → Node) : Place → Node → Node
  | [], n => f n
  | name :: rest, n => n.mapChildren fun cs => Table.update (modify f rest) cs name

/-- The node that a list of names leads to from the place `above`; a name that is missing and a file
on the way are told apart. -/
def resolve (above : Place) (n : Node) : Place → Except Fault Node
  | [] => .ok n
  | name :: rest =>
    if n.isDir then
      match n.child? name with
      | some c => c.resolve (above ++ [name]) rest
      | none => .error (.node (.notFound (Place.text (above ++ [name]))))
    else .error (.node (.notDirectory (Place.text above)))

@[simp] theorem at?_nil (n : Node) : n.at? [] = some n := rfl

theorem at?_append (n : Node) (p q : Place) : n.at? (p ++ q) = (n.at? p).bind (·.at? q) := by
  induction p generalizing n with
  | nil => rfl
  | cons name rest ih =>
    simp only [List.cons_append, at?]
    cases n.child? name with
    | none => rfl
    | some c => exact ih c

theorem resolve_eq_ok_iff (above : Place) (n m : Node) (p : Place) :
    n.resolve above p = .ok m ↔ n.at? p = some m := by
  induction p generalizing n above with
  | nil => simp [resolve]
  | cons name rest ih =>
    cases n with
    | file a c => simp [resolve, at?, isDir, child?, children, Table.get?]
    | dir a cs =>
      simp only [resolve, at?, isDir, child?, children, if_true]
      cases Table.get? cs name with
      | none => simp
      | some c => exact ih (above ++ [name]) c

mutual
def count : Node → Nat
  | .file .. => 1
  | .dir _ cs => 1 + countAll cs

def countAll : List (String × Node) → Nat
  | [] => 0
  | (_, n) :: rest => count n + countAll rest
end

theorem ind {motive : Node → Prop} (file : ∀ a c, motive (.file a c))
    (dir : ∀ a cs, (∀ name n, (name, n) ∈ cs → motive n) → motive (.dir a cs)) (n : Node) :
    motive n := by
  refine @Node.rec motive (fun cs => ∀ name n, (name, n) ∈ cs → motive n) (fun e => motive e.2) file
    (fun a cs h => dir a cs h) ?_ ?_ ?_ n
  · intro _ _ h
    exact absurd h List.not_mem_nil
  · intro head tail hHead hTail name n h
    rcases List.mem_cons.mp h with rfl | h
    · exact hHead
    · exact hTail name n h
  · intro _ n h
    exact h

end Node
end MemShell
