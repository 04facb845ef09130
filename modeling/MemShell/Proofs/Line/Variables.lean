import Mathlib.Data.List.TakeWhile
import MemShell.Builtins.Catalogue
import MemShell.Proofs.Line.References
import MemShell.Proofs.Shell.Discipline
import MemShell.Proofs.Text.Lines
set_option autoImplicit false

namespace MemShell

namespace Line
variable {name rest : List Char}

theorem isNameChar_of_isNameStart {c : Char} (h : isNameStart c = true) : isNameChar c = true := by
  rw [isNameStart, Bool.or_eq_true] at h
  rw [isNameChar, Char.isAlphanum, Bool.or_eq_true, Bool.or_eq_true]
  exact h.imp_left .inl

theorem isNameChar_of_mem (h : isName name = true) : ∀ c ∈ name, isNameChar c = true := by
  cases name with
  | nil => cases h
  | cons c cs =>
    obtain ⟨hc, hcs⟩ := isName_cons.mp h
    exact List.forall_mem_cons.mpr ⟨isNameChar_of_isNameStart hc, hcs⟩

theorem ne_nil_of_isName (h : isName name = true) : name ≠ [] := by
  rintro rfl
  cases h

/-- A name goes on as long as what follows can be part of it. -/
theorem spanName_append_of_isName (h : isName name = true) (rest : List Char) :
    spanName (name ++ rest) = (name ++ rest.takeWhile isNameChar, rest.dropWhile isNameChar) := by
  cases name with
  | nil => cases h
  | cons c cs =>
    obtain ⟨hc, hcs⟩ := isName_cons.mp h
    rw [List.cons_append, spanName, if_pos hc, List.takeWhile_append_of_pos hcs,
      List.dropWhile_append_of_pos hcs, List.cons_append]

theorem takeWhile_dropWhile_name (hrest : ∀ c, rest.head? = some c → isNameChar c = false) :
    rest.takeWhile isNameChar = [] ∧ rest.dropWhile isNameChar = rest := by
  cases rest with
  | nil => exact ⟨rfl, rfl⟩
  | cons c rest => simp [hrest c rfl]

theorem spanName_of_isName (h : isName name = true)
    (hrest : ∀ c, rest.head? = some c → isNameChar c = false) :
    spanName (name ++ rest) = (name, rest) := by
  obtain ⟨htake, hdrop⟩ := takeWhile_dropWhile_name hrest
  rw [spanName_append_of_isName h, htake, hdrop, List.append_nil]

theorem reference?_append_of_isName (h : isName name = true) (rest : List Char) :
    reference? (name ++ rest) =
      some (String.ofList (name ++ rest.takeWhile isNameChar), rest.dropWhile isNameChar) := by
  have hne := ne_nil_of_isName h
  have hbrace (t : List Char) : name ++ rest ≠ '\x7b' :: t := by
    obtain ⟨c, cs, rfl⟩ := List.exists_cons_of_ne_nil hne
    rintro heq
    obtain ⟨rfl, -⟩ := List.cons.inj heq
    cases (isName_cons.mp h).1
  rw [reference?_bare hbrace, spanName_append_of_isName h,
    if_neg (List.append_ne_nil_of_left_ne_nil hne _)]

theorem reference?_of_isName (h : isName name = true)
    (hrest : ∀ c, rest.head? = some c → isNameChar c = false) :
    reference? (name ++ rest) = some (String.ofList name, rest) := by
  obtain ⟨htake, hdrop⟩ := takeWhile_dropWhile_name hrest
  rw [reference?_append_of_isName h, htake, hdrop, List.append_nil]

theorem reference?_braced_of_isName (h : isName name = true) (rest : List Char) :
    reference? ('\x7b' :: (name ++ '\x7d' :: rest)) = some (String.ofList name, rest) := by
  have hspan : spanName (name ++ '\x7d' :: rest) = (name, '\x7d' :: rest) :=
    spanName_of_isName h fun c hc => Option.some.inj hc ▸ rfl
  obtain ⟨c, cs, rfl⟩ := List.exists_cons_of_ne_nil (ne_nil_of_isName h)
  simp only [reference?, hspan]

/-- Braces hold nothing but a name. -/
theorem reference?_unclosed {c : Char} (h : isName name = true) (hc : isNameChar c = false)
    (hbrace : c ≠ '\x7d') (rest : List Char) : reference? ('\x7b' :: (name ++ c :: rest)) = none := by
  have hspan : spanName (name ++ c :: rest) = (name, c :: rest) :=
    spanName_of_isName h fun d hd => Option.some.inj hd ▸ hc
  obtain ⟨d, ds, rfl⟩ := List.exists_cons_of_ne_nil (ne_nil_of_isName h)
  simp only [reference?, hspan]
  split
  · next heq => cases heq
  · next heq => exact absurd (List.cons.inj (Prod.mk.inj heq).2).1 hbrace
  · rfl

theorem isName_of_mem_variablePieces {s : List Char} {name : String}
    (h : .ref name ∈ variablePieces s) : isName name.toList = true := by
  fun_induction variablePieces s with
  | case1 => cases h
  | case2 rest other after hr ih =>
    rcases List.mem_cons.mp h with h | h
    · cases h
      exact (reference?_eq_some hr).1
    · exact ih h
  | case3 rest hr ih => exact ih (by simpa using h)
  | case4 c rest hc ih => exact ih (by simpa using h)

section
variable (value : String → String)

theorem expandVariables_literal {text : String} (h : '$' ∉ text.toList) :
    expandVariables value text = text := by
  rw [expandVariables, divides_variablePieces.literal h, render_map_char, String.ofList_toList]

theorem expandVariables_of_some {text name after : String} {s : List Char}
    (htext : text.toList = '$' :: s) (h : reference? s = some (name, after.toList)) :
    expandVariables value text = value name ++ expandVariables value after := by
  rw [← String.toList_inj, expandVariables, htext, variablePieces_dollar, h]
  simp [render, expandVariables]

theorem expandVariables_of_none {text rest : String} (htext : text.toList = '$' :: rest.toList)
    (h : reference? rest.toList = none) :
    expandVariables value text = "$" ++ expandVariables value rest := by
  rw [← String.toList_inj, expandVariables, htext, variablePieces_dollar, h]
  simp [render, expandVariables]

variable {base : String} (h : isName base.toList = true)
include h

theorem expandVariables_braced :
    expandVariables value ("$\x7b" ++ base ++ "\x7d") = value base := by
  have htext : ("$\x7b" ++ base ++ "\x7d").toList = '$' :: '\x7b' :: (base.toList ++ '\x7d' :: []) := by
    simp
  have href : reference? ('\x7b' :: (base.toList ++ '\x7d' :: [])) = some (base, "".toList) := by
    rw [reference?_braced_of_isName h [], String.ofList_toList]
    rfl
  rw [expandVariables_of_some value htext href, expandVariables_literal value (by simp),
    String.append_empty]

theorem expandVariables_bare (rest : String) (hdollar : '$' ∉ rest.toList)
    (hrest : ∀ c, rest.toList.head? = some c → isNameChar c = false) :
    expandVariables value ("$" ++ base ++ rest) = value base ++ rest := by
  have htext : ("$" ++ base ++ rest).toList = '$' :: (base.toList ++ rest.toList) := by simp
  have href : reference? (base.toList ++ rest.toList) = some (base, rest.toList) := by
    rw [reference?_of_isName h hrest, String.ofList_toList]
  rw [expandVariables_of_some value htext href, expandVariables_literal value hdollar]

/-- A line feed behind the name leaves all of it as it is. -/
theorem expandVariables_braced_feed :
    expandVariables value ("$\x7b" ++ (base ++ "\n") ++ "\x7d") =
      "$\x7b" ++ (base ++ "\n") ++ "\x7d" := by
  have htext : ("$\x7b" ++ (base ++ "\n") ++ "\x7d").toList =
      '$' :: ("\x7b" ++ base ++ "\n\x7d").toList := by simp
  have hnone : reference? ("\x7b" ++ base ++ "\n\x7d").toList = none := by
    have hchars : ("\x7b" ++ base ++ "\n\x7d").toList =
        '\x7b' :: (base.toList ++ '\n' :: ['\x7d']) := by simp
    rw [hchars]
    exact reference?_unclosed h (by decide) (by decide) _
  have hdollar : '$' ∉ ("\x7b" ++ base ++ "\n\x7d").toList := by
    have hbase : '$' ∉ base.toList := fun hmem => absurd (isNameChar_of_mem h '$' hmem) (by decide)
    simp [hbase]
  rw [expandVariables_of_none value htext hnone, expandVariables_literal value hdollar]
  simp [← String.toList_inj]

end

/-- Whether some text is replaced by the value of a variable, whatever the values are. -/
def Recognised (name : String) : Prop :=
  ∃ text : String, ∀ value : String → String, expandVariables value text = value name

theorem recognised_iff {name : String} : Recognised name ↔ isName name.toList = true := by
  constructor
  · rintro ⟨text, htext⟩
    by_contra hname
    -- Two assignments that differ in this variable alone give the text the same form.
    let marked (other : String) : String := if other = name then "x" else ""
    have hsame : expandVariables marked text = expandVariables (fun _ => "") text := by
      refine congrArg String.ofList (render_congr _ _ _ fun other hother => if_neg ?_)
      rintro rfl
      exact hname (isName_of_mem_variablePieces hother)
    rw [htext, htext] at hsame
    exact absurd ((if_pos rfl).symm.trans hsame) (by decide)
  · exact fun h => ⟨_, fun value => expandVariables_braced value h⟩

end Line

namespace Environment
open Line

/-- A name may be set with a line feed behind it. -/
theorem isVariableName_iff {name : String} : isVariableName name = true ↔
    Recognised name ∨ ∃ base, Recognised base ∧ name = base ++ "\n" := by
  simp only [recognised_iff]
  rw [isVariableName]
  rcases Text.dropFinalNewline_cases name.toList with ⟨front, hfront, hdrop⟩ | ⟨hlast, hdrop⟩
  · rw [hdrop, hfront]
    constructor
    · intro h
      refine .inr ⟨String.ofList front, by rwa [String.toList_ofList], ?_⟩
      rw [← String.toList_inj, hfront]
      simp
    · rintro (h | ⟨base, h, rfl⟩)
      · exact absurd (isNameChar_of_mem h '\n' (by simp)) (by decide)
      · rw [String.toList_append] at hfront
        rwa [← (List.append_inj' hfront rfl).1]
  · rw [hdrop]
    constructor
    · exact .inl
    · rintro (h | ⟨base, -, rfl⟩)
      · exact h
      · exact absurd (by simp) hlast

theorem get_set {e e' : Environment} {name value : String} (h : e.set name value = .ok e')
    (other : String) : e'.get other = if name = other then value else e.get other := by
  unfold set at h
  split at h
  · cases h
    rw [get, Table.get?_put]
    split <;> rfl
  · cases h

theorem set_eq (e : Environment) (name value : String) : e.set name value =
    if isVariableName name then .ok { e with top := e.top.put name value }
    else .error (.invalidVariable name) := rfl

end Environment

namespace Builtins

/-- The command changes the environment of its caller if the name can be set, and nothing if not. -/
theorem run_set {c : Context} {s : Shell} {name value : String} (hargs : c.args ≠ [])
    (hname : nameAndValue c.args = (name, value)) :
    (Builtin.set.run c).run s = match (s.environmentOf c.caller.job).set name value with
      | .ok e => (.ok (.text ""), s.setEnvironment c.caller.job e)
      | .error f => (.ok (.fail ("set: " ++ f.message) .validation), s) := by
  change (setVariable c).run s = _
  have hempty : c.args.isEmpty = false := List.isEmpty_eq_false_iff.mpr hargs
  unfold setVariable
  rw [Work.run_bind, Work.run_get]
  dsimp only
  rw [hempty, hname]
  simp only [Bool.false_eq_true, if_false]
  cases (s.environmentOf c.caller.job).set name value with
  | ok e => rfl
  | error f => rfl

end Builtins

namespace Environment
open Line

/-- A variable that is set has its value in braces and without them, and nothing else changes; what
cannot be set changes nothing. The names that can be set are those that references have, and these with
a line feed behind them, which no reference has: such a name is left as it is between braces, and is
read without its line feed elsewhere. -/
theorem expands_to_set (e : Environment) (name value : String) :
    ((∃ e', e.set name value = .ok e') ↔
      Recognised name ∨ ∃ base, Recognised base ∧ name = base ++ "\n") ∧
    (Recognised name ↔ isName name.toList = true) ∧
    (∀ e', e.set name value = .ok e' →
      (∀ other, e'.get other = if name = other then value else e.get other) ∧
      e'.below = e.below ∧
      (Recognised name → expandVariables e'.get ("$\x7b" ++ name ++ "\x7d") = value ∧
        expandVariables e'.get ("$" ++ name) = value) ∧
      ∀ base, name = base ++ "\n" →
        expandVariables e'.get ("$\x7b" ++ name ++ "\x7d") = "$\x7b" ++ name ++ "\x7d" ∧
        expandVariables e'.get ("$" ++ name) = e.get base ++ "\n") ∧
    ∀ (c : Context) (s : Shell), c.args ≠ [] → Builtins.nameAndValue c.args = (name, value) →
      s.environmentOf c.caller.job = e →
      (Builtin.set.run c).run s = match e.set name value with
        | .ok e' => (.ok (.text ""), s.setEnvironment c.caller.job e')
        | .error f => (.ok (.fail ("set: " ++ f.message) .validation), s) := by
  have haccepted : (∃ e', e.set name value = .ok e') ↔ isVariableName name = true := by
    rw [set_eq]
    split
    · next h => exact ⟨fun _ => h, fun _ => ⟨_, rfl⟩⟩
    · next h => exact ⟨fun ⟨_, h'⟩ => (by cases h'), fun h' => absurd h' h⟩
  refine ⟨haccepted.trans isVariableName_iff, recognised_iff, fun e' hset => ?_,
    fun c s hargs hname henv => henv ▸ Builtins.run_set hargs hname⟩
  have hget := get_set hset
  refine ⟨hget, below_set hset, fun hname => ?_, fun base hbase => ?_⟩
  · have hname := recognised_iff.mp hname
    have hbare := expandVariables_bare e'.get hname "" (by simp) (by simp)
    rw [String.append_empty, String.append_empty, hget, if_pos rfl] at hbare
    exact ⟨by rw [expandVariables_braced e'.get hname, hget, if_pos rfl], hbare⟩
  · subst hbase
    have hname : isName base.toList = true := by
      rcases isVariableName_iff.mp (haccepted.mp ⟨e', hset⟩) with h | ⟨other, h, heq⟩
      · exact absurd (isNameChar_of_mem (recognised_iff.mp h) '\n' (by simp)) (by decide)
      · rw [(String.append_left_inj "\n").mp heq]
        exact recognised_iff.mp h
    have hother : base ++ "\n" ≠ base := fun h => by
      have hlength := congrArg String.length h
      rw [String.length_append] at hlength
      exact absurd hlength (by simp)
    have hbare := expandVariables_bare e'.get hname "\n" (by decide)
      fun c hc => Option.some.inj hc ▸ rfl
    rw [hget, if_neg hother, String.append_assoc] at hbare
    exact ⟨expandVariables_braced_feed e'.get hname, hbare⟩

/-- A name as it should be, one with a line feed behind it beside the variable without one, and one that
begins with a digit. -/
theorem expands_to_set_feed :
    let e : Environment := .ofFrame [("A", "1")]
    (∃ e', e.set "_B2" "x y" = .ok e' ∧ expandVariables e'.get "$\x7b_B2\x7d" = "x y" ∧
      expandVariables e'.get "$_B2" = "x y" ∧ e'.get "A" = "1") ∧
    (∃ e', e.set "A\n" "2" = .ok e' ∧ expandVariables e'.get "$\x7bA\n\x7d" = "$\x7bA\n\x7d" ∧
      expandVariables e'.get "$A\n" = "1\n") ∧
    (Builtin.set.run (.ofRoot "set" ["2B", "x"])).run (Shell.bare []) =
      (.ok (.fail ("set: " ++ (Fault.invalidVariable "2B").message) .validation), Shell.bare []) := by
  intro e
  refine ⟨?_, ?_, ?_⟩
  · obtain ⟨-, hname, hset, -⟩ := expands_to_set e "_B2" "x y"
    obtain ⟨hget, -, hexpands, -⟩ := hset _ rfl
    obtain ⟨hbraced, hbare⟩ := hexpands (hname.mpr (by decide))
    exact ⟨_, rfl, hbraced, hbare, hget "A"⟩
  · obtain ⟨-, -, hset, -⟩ := expands_to_set e "A\n" "2"
    obtain ⟨-, -, -, hfeed⟩ := hset _ rfl
    obtain ⟨hbraced, hbare⟩ := hfeed "A" rfl
    exact ⟨_, rfl, hbraced, hbare⟩
  · obtain ⟨-, -, -, hcommand⟩ := expands_to_set (Shell.bare []).environment "2B" "x"
    exact hcommand (.ofRoot "set" ["2B", "x"]) (Shell.bare []) (List.cons_ne_nil _ _) rfl rfl

end Environment
end MemShell
