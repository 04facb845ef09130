import MemShell.Mode
set_option autoImplicit false

namespace MemShell

structure FlagSpec where
  name : String
  short : Option String := none
  long : Option String := none
  takesValue : Bool := false
deriving DecidableEq, Repr

structure ArgSpec where
  exact : Option Int := none
  min : Option Int := none
  max : Option Int := none
  error : Option String := none
deriving DecidableEq, Repr

/-- The arguments that a path rule is about. A negative index counts from the last argument. -/
inductive ArgSelector where
  | all
  | index (i : Int)
deriving DecidableEq, Repr

inductive NodeKind where
  | file | directory
deriving DecidableEq, Repr

structure PathRule where
  select : ArgSelector
  kind : Option NodeKind := none
  permissions : List Permission := []
  owned : Bool := false
  allowMissing : Bool := false
  parentPermissions : List Permission := []
  required : Bool := true
deriving DecidableEq, Repr

structure Contract where
  name : String
  description : String := ""
  help : String := ""
  flags : List FlagSpec := []
  args : Option ArgSpec := none
  paths : List PathRule := []
  readsInput : Bool := false
  requires : List String := []
deriving DecidableEq, Repr

namespace ArgSpec

/-- The message for a count that is not accepted: the declared one, if any, or the first bound that
fails. -/
def check (s : ArgSpec) (count : Int) : Option String :=
  let report (bound : String) (n : Int) : String :=
    match s.error with
    | some e => if e.isEmpty then text bound n else e
    | none => text bound n
  match s.exact.filter (count ≠ ·), s.min.filter (count < ·), s.max.filter (· < count) with
  | some n, _, _ => some (report "exactly" n)
  | none, some n, _ => some (report "at least" n)
  | none, none, some n => some (report "at most" n)
  | none, none, none => none
where
  text (bound : String) (n : Int) : String :=
    "expected " ++ bound ++ " " ++ toString n ++ " argument(s), got " ++ toString count

end ArgSpec
end MemShell
