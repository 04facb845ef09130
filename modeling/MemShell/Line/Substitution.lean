import MemShell.Table
set_option autoImplicit false

/-!
# Substitution

A line is divided once, by itself alone, into literal characters and references; a substitution then
puts a value in the place of each reference. What a value contains is not looked at again.
-/
namespace MemShell.Line

inductive Piece (ρ : Type) where
  | char (c : Char)
  | ref (r : ρ)
deriving DecidableEq, Repr

def render {ρ : Type} (value : ρ → String) (pieces : List (Piece ρ)) : List Char :=
  pieces.flatMap fun
    | .char c => [c]
    | .ref r => (value r).toList

theorem render_congr {ρ : Type} (f g : ρ → String) (pieces : List (Piece ρ))
    (h : ∀ r, Piece.ref r ∈ pieces → f r = g r) : render f pieces = render g pieces := by
  induction pieces with
  | nil => rfl
  | cons p ps ih =>
    have tail := ih fun r hr => h r (List.mem_cons_of_mem _ hr)
    cases p with
    | char c => simpa [render] using tail
    | ref r =>
      have head := h r (List.mem_cons_self ..)
      simp only [render, List.flatMap_cons, head] at tail ⊢
      rw [tail]

inductive Positional where
  | all
  | count
  | nth (n : Nat)
deriving DecidableEq, Repr

def positional? (c : Char) : Option Positional :=
  if c = '@' then some .all
  else if c = '#' then some .count
  else if '1' ≤ c ∧ c ≤ '9' then some (.nth (c.toNat - 48))
  else none

def positionalPieces : List Char → List (Piece Positional)
  | [] => []
  | '$' :: c :: rest =>
    match positional? c with
    | some p => .ref p :: positionalPieces rest
    | none => .char '$' :: positionalPieces (c :: rest)
  | c :: rest => .char c :: positionalPieces rest

/-- Arguments are counted from one; a missing one is empty. -/
def positionalValue (args : List String) : Positional → String
  | .all => " ".intercalate args
  | .count => toString args.length
  | .nth n => (args[n - 1]?).getD ""

def substituteArgs (args : List String) (line : String) : String :=
  String.ofList (render (positionalValue args) (positionalPieces line.toList))

def isNameStart (c : Char) : Bool := c.isAlpha || c = '_'

def isNameChar (c : Char) : Bool := c.isAlphanum || c = '_'

def isName (s : List Char) : Bool :=
  match s with
  | [] => false
  | c :: rest => isNameStart c && rest.all isNameChar

def spanName (s : List Char) : List Char × List Char :=
  match s with
  | [] => ([], [])
  | c :: rest =>
    if isNameStart c then (c :: rest.takeWhile isNameChar, rest.dropWhile isNameChar)
    else ([], c :: rest)

theorem length_spanName_le (s : List Char) : (spanName s).2.length ≤ s.length := by
  unfold spanName
  cases s with
  | nil => simp
  | cons c rest =>
    by_cases h : isNameStart c
    · have := (List.dropWhile_sublist (p := isNameChar) (l := rest)).length_le
      simp only [h, if_true, List.length_cons]; omega
    · simp [h]

/-- The reference behind a dollar sign, with or without braces, and what follows it. -/
def reference? (s : List Char) : Option (String × List Char) :=
  match s with
  | '\x7b' :: rest =>
    match spanName rest with
    | ([], _) => none
    | (name, '\x7d' :: after) => some (String.ofList name, after)
    | _ => none
  | _ =>
    match spanName s with
    | ([], _) => none
    | (name, after) => some (String.ofList name, after)

theorem length_reference? {s : List Char} {name : String} {rest : List Char}
    (h : reference? s = some (name, rest)) : rest.length ≤ s.length := by
  unfold reference? at h
  split at h
  · rename_i t
    have := length_spanName_le t
    split at h
    · simp at h
    · rename_i _ after hs
      simp only [hs, List.length_cons] at this
      simp only [Option.some.injEq, Prod.mk.injEq] at h
      rw [← h.2]; simp; omega
    · simp at h
  · have := length_spanName_le s
    split at h
    · simp at h
    · rename_i _ after hs
      simp only [hs] at this
      simp only [Option.some.injEq, Prod.mk.injEq] at h
      rw [← h.2]; exact this

def variablePieces (s : List Char) : List (Piece String) :=
  match s with
  | [] => []
  | c :: rest =>
    if c = '$' then
      match _h : reference? rest with
      | some (name, after) => .ref name :: variablePieces after
      | none => .char c :: variablePieces rest
    else .char c :: variablePieces rest
termination_by s.length
decreasing_by
  · have := length_reference? _h
    simp; omega
  · simp
  · simp

def expandVariables (value : String → String) (line : String) : String :=
  String.ofList (render value (variablePieces line.toList))

end MemShell.Line
