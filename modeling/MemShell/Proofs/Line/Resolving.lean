import Mathlib.Data.Finset.Card
import MemShell.Proofs.Line.Gaps
set_option autoImplicit false

/-!
# Resolving aliases

The first word of a line may stand for a text, whose first word may stand for a text, and so on. What
a line is resolved to is read off this chain of texts, and so is whether it is resolved at all: the
chain has to end within the limit, as it does unless it comes back to a command or has more aliases
than that.
-/
namespace MemShell

namespace Aliases
open Text Written
variable {a : Aliases} {line text value rest : String} {parts : List String} {i j k n : Nat}

theorem joinParts_nil : joinParts [] = "" := rfl

theorem joinParts_cons_of_ne (hpart : text ≠ "") (parts : List String) :
    joinParts (text :: parts) =
      if joinParts parts = "" then text else text ++ " " ++ joinParts parts := by
  have hkeep : (text :: parts).filter (!·.isEmpty) = text :: parts.filter (!·.isEmpty) :=
    List.filter_cons_of_pos (by simpa using hpart)
  have hkept : ∀ part ∈ parts.filter (!·.isEmpty), part ≠ "" := by
    intro part hmem
    simpa using (List.mem_filter.mp hmem).2
  rw [joinParts, joinParts, hkeep]
  cases hfilter : parts.filter (!·.isEmpty) with
  | nil => simp
  | cons next rest =>
    rw [hfilter] at hkept
    have hnext : next ≠ "" := hkept next List.mem_cons_self
    have hjoined : " ".intercalate (next :: rest) ≠ "" := by cases rest <;> simp [hnext]
    rw [if_neg hjoined, String.intercalate_cons_cons]

theorem joinParts_cons_empty (parts : List String) : joinParts ("" :: parts) = joinParts parts := by
  simp [joinParts]

theorem joinParts_singleton (text : String) : joinParts [text] = text := by
  by_cases h : text = ""
  · rw [h]
    rfl
  · rw [joinParts_cons_of_ne h, joinParts_nil, if_pos rfl]

theorem joinParts_pair (text : String) (parts : List String) :
    joinParts [text, joinParts parts] = joinParts (text :: parts) := by
  by_cases h : text = ""
  · rw [h, joinParts_cons_empty, joinParts_cons_empty, joinParts_singleton]
  · rw [joinParts_cons_of_ne h, joinParts_cons_of_ne h, joinParts_singleton]

theorem solid_joinParts (h : ∀ part ∈ parts, Solid part.toList) : Solid (joinParts parts).toList := by
  induction parts with
  | nil => constructor <;> exact fun c hc => nomatch hc
  | cons part parts ih =>
    have hpart := h part List.mem_cons_self
    have hparts := ih fun other hother => h other (List.mem_cons_of_mem _ hother)
    by_cases hempty : part = ""
    · rwa [hempty, joinParts_cons_empty]
    · rw [joinParts_cons_of_ne hempty]
      split
      · exact hpart
      · next hrest =>
        have hjoined := hpart.append hparts (by simpa using hempty) (by simpa using hrest) [' ']
        simpa using hjoined

theorem splitFirst_eq (text : String) : splitFirst text =
    (leading (trim text.toList), String.ofList (Token.behindGap (trim text.toList))) := by
  obtain ⟨-, -, -, -, -, -, hsolid⟩ := Token.trim_split text.toList
  simp only [splitFirst, firstWord, trimStart_of_head hsolid.head, leading, Token.behindGap]

theorem solid_splitFirst (text : String) : Solid (splitFirst text).2.toList := by
  obtain ⟨-, -, -, -, -, -, hsolid⟩ := Token.trim_split text.toList
  rw [splitFirst_eq, String.toList_ofList]
  generalize trim text.toList = s at hsolid
  have hcut := Token.cut_at_firstGap (s := s)
  constructor
  · intro c hc
    have hhead := List.head?_dropWhile_not isBlank (s.dropWhile (!isBlank ·))
    rw [← trimStart, ← Token.behindGap, hc] at hhead
    simpa using hhead
  · intro c hc
    refine hsolid.last c ?_
    have hne : Token.behindGap s ≠ [] := by
      intro hnil
      rw [hnil] at hc
      cases hc
    rw [← hcut, ← List.append_assoc, List.getLast?_append_of_ne_nil _ hne]
    exact hc

theorem not_isBlank_of_mem_splitFirst {c : Char} (h : c ∈ (splitFirst text).1.toList) :
    isBlank c = false := by
  rw [splitFirst_eq, leading, String.toList_ofList] at h
  exact Token.not_isBlank_of_mem_takeWhile h

theorem trim_eq_nil_iff : trim text.toList = [] ↔ isBlankText text = true := by
  obtain ⟨before, after, htext, hbefore, hafter, -, hsolid⟩ := Token.trim_split text.toList
  rw [isBlankText, List.all_eq_true]
  constructor
  · intro hnil c hc
    rw [htext, hnil, List.nil_append] at hc
    exact (List.mem_append.mp hc).elim (hbefore c) (hafter c)
  · intro hall
    cases hs : trim text.toList with
    | nil => rfl
    | cons c s =>
      rw [hs] at htext hsolid
      have hblank := hall c (by simp [htext])
      rw [hsolid.head c rfl] at hblank
      cases hblank

theorem splitFirst_eq_empty_iff : (splitFirst text).1 = "" ↔ isBlankText text = true := by
  obtain ⟨-, -, -, -, -, -, hsolid⟩ := Token.trim_split text.toList
  rw [splitFirst_eq, leading_eq_empty_iff hsolid, trim_eq_nil_iff]

theorem splitFirst_of_blank (h : isBlankText text = true) : splitFirst text = ("", "") := by
  rw [splitFirst_eq, trim_eq_nil_iff.mpr h]
  rfl

theorem splitFirst_joinParts (hne : text ≠ "") (hword : ∀ c ∈ text.toList, isBlank c = false)
    (hrest : Solid rest.toList) : splitFirst (joinParts [text, rest]) = (text, rest) := by
  have htext : Solid text.toList := ⟨fun c hc => hword c (List.mem_of_mem_head? hc),
    fun c hc => hword c (List.mem_of_mem_getLast? hc)⟩
  have hsolid : Solid (joinParts [text, rest]).toList := by
    refine solid_joinParts fun part hpart => ?_
    rcases List.mem_pair.mp hpart with rfl | rfl
    · exact htext
    · exact hrest
  have htake : text.toList.takeWhile (!isBlank ·) = text.toList := by
    rw [List.takeWhile_eq_self_iff]
    intro c hc
    simp [hword c hc]
  have hdrop : text.toList.dropWhile (!isBlank ·) = [] := by
    rw [List.dropWhile_eq_nil_iff]
    intro c hc
    simp [hword c hc]
  rw [splitFirst_eq, hsolid.trim, joinParts_cons_of_ne hne, joinParts_singleton]
  by_cases hempty : rest = ""
  · rw [if_pos hempty, leading, htake, Token.behindGap, hdrop, hempty, String.ofList_toList]
    rfl
  · have hchars : (text ++ " " ++ rest).toList = text.toList ++ ' ' :: rest.toList := by simp
    have htrim : trimStart ([' '] ++ rest.toList) = rest.toList :=
      Token.trimStart_append (by simp [isBlank]) hrest.head
    rw [List.singleton_append] at htrim
    rw [if_neg hempty, hchars, leading, Line.takeWhile_append_cons rfl, htake, Token.behindGap,
      Line.dropWhile_append_cons rfl, hdrop, List.nil_append, htrim, String.ofList_toList,
      String.ofList_toList]

/-- The texts that a line leads to: the line itself, and what the first word of each of them stands
for. -/
def text? (a : Aliases) (line : String) : Nat → Option String
  | 0 => some line
  | i + 1 => (a.text? line i).bind fun text => a.get? (splitFirst text).1

/-- The commands that a line leads to: its first word, and the first word of each further text. A
blank text has the empty word. -/
def command? (a : Aliases) (line : String) (i : Nat) : Option String :=
  (a.text? line i).map fun text => (splitFirst text).1

def behind (a : Aliases) (line : String) : Nat → List String
  | 0 => [(splitFirst line).2]
  | k + 1 => ((a.text? line (k + 1)).map fun text => (splitFirst text).2).getD "" :: a.behind line k

def AliasAt (a : Aliases) (line : String) (i : Nat) : Prop :=
  ∃ command, a.command? line i = some command ∧ (a.get? command).isSome = true

def Cycles (a : Aliases) (line : String) : Prop :=
  ∃ i j command, i < j ∧ a.command? line i = some command ∧ a.command? line j = some command

theorem text?_succ : a.text? line (i + 1) = (a.command? line i).bind a.get? := by
  rw [text?, command?, Option.bind_map]
  rfl

theorem isSome_text?_succ : (a.text? line (i + 1)).isSome = true ↔ a.AliasAt line i := by
  rw [AliasAt, text?_succ]
  cases a.command? line i <;> simp

theorem isSome_text?_of_le (hj : (a.text? line j).isSome = true) (hij : i ≤ j) :
    (a.text? line i).isSome = true := by
  induction j with
  | zero => rwa [Nat.le_zero.mp hij]
  | succ j ih =>
    rcases Nat.lt_or_eq_of_le hij with hlt | rfl
    · have hprevious : (a.text? line j).isSome = true := by
        rw [text?] at hj
        cases htext : a.text? line j with
        | none => rw [htext] at hj; cases hj
        | some text => rfl
      exact ih hprevious (Nat.le_of_lt_succ hlt)
    · exact hj

theorem exists_last (h : a.text? line n = none) :
    ∃ k text, k < n ∧ a.text? line k = some text ∧ a.text? line (k + 1) = none := by
  induction n with
  | zero => cases h
  | succ n ih =>
    cases htext : a.text? line n with
    | some text => exact ⟨n, text, Nat.lt_succ_self n, htext, h⟩
    | none =>
      obtain ⟨k, text, hk, hlast⟩ := ih htext
      exact ⟨k, text, Nat.lt_succ_of_lt hk, hlast⟩

/-- Behind a command that comes back the chain repeats itself. -/
theorem text?_add_of_command?_eq (h : a.command? line i = a.command? line j) (n : Nat) :
    a.text? line (i + 1 + n) = a.text? line (j + 1 + n) := by
  induction n with
  | zero => rw [Nat.add_zero, Nat.add_zero, text?_succ, text?_succ, h]
  | succ n ih => rw [← Nat.add_assoc, ← Nat.add_assoc, text?, text?, ih]

theorem Cycles.isSome_text? (h : a.Cycles line) (n : Nat) : (a.text? line n).isSome = true := by
  obtain ⟨i, j, command, hij, hi, hj⟩ := h
  have hreached : (a.text? line j).isSome = true := by
    obtain ⟨text, htext, -⟩ := Option.map_eq_some_iff.mp hj
    rw [htext]
    rfl
  induction n using Nat.strongRecOn with
  | ind n ih =>
    by_cases hn : n ≤ j
    · exact isSome_text?_of_le hreached hn
    · obtain ⟨r, rfl⟩ : ∃ r, n = j + 1 + r := ⟨n - (j + 1), by omega⟩
      rw [← text?_add_of_command?_eq (hi.trans hj.symm)]
      exact ih (i + 1 + r) (by omega)

/-- More commands than names come back to one of them. -/
theorem cycles_of_names {names : List String} (hlength : names.length ≤ n)
    (hnames : ∀ i ≤ n, ∃ command ∈ names, a.command? line i = some command) : a.Cycles line := by
  have hcard : names.toFinset.card < (Finset.range (n + 1)).card := by
    have hnames := names.toFinset_card_le
    rw [Finset.card_range]
    omega
  have hmaps : ∀ i ∈ Finset.range (n + 1), (a.command? line i).getD "" ∈ names.toFinset := by
    intro i hi
    obtain ⟨command, hmem, hcommand⟩ := hnames i (Nat.lt_succ_iff.mp (Finset.mem_range.mp hi))
    rw [hcommand]
    exact List.mem_toFinset.mpr hmem
  obtain ⟨i, hi, j, hj, hne, hsame⟩ :=
    Finset.exists_ne_map_eq_of_card_lt_of_maps_to hcard hmaps
  have hat : ∀ i ∈ Finset.range (n + 1),
      a.command? line i = some ((a.command? line i).getD "") := by
    intro i hi
    obtain ⟨command, -, hcommand⟩ := hnames i (Nat.lt_succ_iff.mp (Finset.mem_range.mp hi))
    rw [hcommand]
    rfl
  rcases Nat.lt_or_gt_of_ne hne with hij | hij
  · exact ⟨i, j, _, hij, hat i hi, hsame ▸ hat j hj⟩
  · exact ⟨j, i, _, hij, hat j hj, hsame ▸ hat i hi⟩

theorem expand_of_get? {command : String} (h : a.get? command = some value) (n : Nat)
    (rest : String) : a.expand (n + 1) (command, rest) =
      a.expand n ((splitFirst value).1, joinParts [(splitFirst value).2, rest]) := by
  simp [expand, h]

/-- After some replacements the loop stands at the text with their number. -/
theorem expand_of_text? (htext : a.text? line i = some text) (n : Nat) :
    a.expand (n + i) (splitFirst line) =
      a.expand n ((splitFirst text).1, joinParts (a.behind line i)) := by
  induction i generalizing n text with
  | zero =>
    obtain rfl : line = text := Option.some.inj htext
    rw [Nat.add_zero, behind, joinParts_singleton]
  | succ i ih =>
    obtain ⟨previous, hprevious, hget⟩ := Option.bind_eq_some_iff.mp htext
    have hrest : a.behind line (i + 1) = (splitFirst text).2 :: a.behind line i := by
      rw [behind, htext]
      rfl
    calc a.expand (n + (i + 1)) (splitFirst line)
        = a.expand (n + 1 + i) (splitFirst line) := by rw [Nat.add_right_comm, Nat.add_assoc]
      _ = a.expand (n + 1) ((splitFirst previous).1, joinParts (a.behind line i)) :=
        ih hprevious (n + 1)
      _ = a.expand n ((splitFirst text).1, joinParts [(splitFirst text).2,
            joinParts (a.behind line i)]) := expand_of_get? hget n _
      _ = a.expand n ((splitFirst text).1, joinParts (a.behind line (i + 1))) := by
        rw [joinParts_pair, hrest]

/-- A chain that goes on behind the limit is refused. -/
theorem resolve_of_isSome (hline : (splitFirst line).1 ≠ "")
    (h : (a.text? line (a.limit.toNat + 1)).isSome = true) :
    a.resolve line = .error (.grammar (.aliasLoop (splitFirst line).1)) := by
  obtain ⟨value, hvalue⟩ := Option.isSome_iff_exists.mp h
  obtain ⟨text, htext, hget⟩ := Option.bind_eq_some_iff.mp hvalue
  have hexpand := expand_of_text? htext 0
  rw [Nat.zero_add] at hexpand
  have hempty : (splitFirst line).1.isEmpty = false := by simpa using hline
  simp [resolve, hempty, hexpand, expand, hget]

/-- The result is read off the last text of the chain. -/
theorem resolve_of_last (hline : (splitFirst line).1 ≠ "") (hk : k ≤ a.limit.toNat)
    (htext : a.text? line k = some text) (hlast : a.text? line (k + 1) = none) :
    a.resolve line = .ok (joinParts ((splitFirst text).1 :: a.behind line k)) := by
  have hget : a.get? (splitFirst text).1 = none := by
    rw [text?, htext] at hlast
    exact hlast
  have hexpand := expand_of_text? htext (a.limit.toNat - k)
  rw [Nat.sub_add_cancel hk, expand_of_get?_eq_none hget] at hexpand
  have hempty : (splitFirst line).1.isEmpty = false := by simpa using hline
  simp [resolve, hempty, hexpand, hget, joinParts_pair]

theorem resolve_of_blank (hline : (splitFirst line).1 = "") : a.resolve line = .ok line := by
  simp [resolve, hline]

/-- A line that is not blank is refused where all commands up to the limit are aliases, and is else
resolved to the first command that is none, with what stands behind the words in front of it. -/
theorem resolve_cases (hline : (splitFirst line).1 ≠ "") :
    ((a.text? line (a.limit.toNat + 1)).isSome = true ∧
      a.resolve line = .error (.grammar (.aliasLoop (splitFirst line).1))) ∨
    ∃ k text, k ≤ a.limit.toNat ∧ a.text? line k = some text ∧ a.text? line (k + 1) = none ∧
      a.resolve line = .ok (joinParts ((splitFirst text).1 :: a.behind line k)) := by
  cases hnext : a.text? line (a.limit.toNat + 1) with
  | some value => exact .inl ⟨rfl, resolve_of_isSome hline (by rw [hnext]; rfl)⟩
  | none =>
    obtain ⟨k, text, hk, htext, hlast⟩ := exists_last hnext
    have hk := Nat.lt_succ_iff.mp hk
    exact .inr ⟨k, text, hk, htext, hlast, resolve_of_last hline hk htext hlast⟩

/-- For every line that is not blank, let the commands be its first word and the first words of the
texts that follow. The line is refused just if all of them up to the limit are aliases. Else the first
one that is none comes out, followed by what stands behind the words before it, from the last text to
the line. A cycle is always refused, and without a cycle as many aliases as the limit are not. -/
theorem resolve_follows_chain (hline : isBlankText line = false) :
    (a.resolve line = .error (.grammar (.aliasLoop (splitFirst line).1)) ↔
      ∀ i ≤ a.limit.toNat, a.AliasAt line i) ∧
    ((¬ ∀ i ≤ a.limit.toNat, a.AliasAt line i) →
      ∃ k ≤ a.limit.toNat, ∃ command, (∀ i < k, a.AliasAt line i) ∧
        a.command? line k = some command ∧ a.get? command = none ∧
        a.resolve line = .ok (joinParts (command :: a.behind line k))) ∧
    (a.Cycles line → a.resolve line = .error (.grammar (.aliasLoop (splitFirst line).1))) ∧
    ∀ names : List String, names.length ≤ a.limit.toNat →
      (∀ i command, a.command? line i = some command → (a.get? command).isSome = true →
        command ∈ names) →
      ¬ a.Cycles line → ∃ resolved, a.resolve line = .ok resolved := by
  have hfirst : (splitFirst line).1 ≠ "" := by
    rw [Ne, splitFirst_eq_empty_iff, hline]
    exact Bool.false_ne_true
  have hall : (a.text? line (a.limit.toNat + 1)).isSome = true ↔
      ∀ i ≤ a.limit.toNat, a.AliasAt line i := by
    constructor
    · intro h i hi
      exact isSome_text?_succ.mp (isSome_text?_of_le h (Nat.succ_le_succ hi))
    · intro h
      exact isSome_text?_succ.mpr (h _ (Nat.le_refl _))
  rcases resolve_cases (a := a) hfirst with ⟨hnext, herror⟩ | ⟨k, text, hk, htext, hlast, hok⟩
  · have haliases := hall.mp hnext
    refine ⟨iff_of_true herror haliases, fun h => absurd haliases h, fun _ => herror, ?_⟩
    intro names hlength hnames hcycles
    refine absurd (cycles_of_names hlength fun i hi => ?_) hcycles
    obtain ⟨command, hcommand, halias⟩ := haliases i hi
    exact ⟨command, hnames i command hcommand halias, hcommand⟩
  · have hnot : ¬ ∀ i ≤ a.limit.toNat, a.AliasAt line i := by
      intro h
      have hnext := isSome_text?_succ.mpr (h k hk)
      rw [hlast] at hnext
      cases hnext
    have hfound : (a.text? line k).isSome = true := by rw [htext]; rfl
    have hcommand : a.command? line k = some (splitFirst text).1 := by rw [command?, htext]; rfl
    refine ⟨iff_of_false (by rw [hok]; exact nofun) hnot, fun _ => ?_, fun hcycles => ?_,
      fun _ _ _ _ => ⟨_, hok⟩⟩
    · refine ⟨k, hk, _, fun i hi => ?_, hcommand, ?_, hok⟩
      · exact isSome_text?_succ.mp (isSome_text?_of_le hfound hi)
      · rw [text?_succ, hcommand] at hlast
        exact hlast
    · have hnext := hcycles.isSome_text? (k + 1)
      rw [hlast] at hnext
      cases hnext

def listings : Aliases where
  limit := 2
  entries := [("ll", "ls  -l"), ("la", " ll\t-a "), ("ping", "pong -c"), ("pong", "ping")]

theorem resolve_follows_chain_listings :
    isBlankText "  la \t x  y " = false ∧ isBlankText "ping x" = false ∧
      (∃ k ≤ 2, ∃ command, (∀ i < k, listings.AliasAt "  la \t x  y " i) ∧
        listings.command? "  la \t x  y " k = some command ∧ listings.get? command = none ∧
        listings.resolve "  la \t x  y " =
          .ok (joinParts (command :: listings.behind "  la \t x  y " k))) ∧
      listings.resolve "ping x" = .error (.grammar (.aliasLoop "ping")) := by
  have hchain : isBlankText "  la \t x  y " = false := by decide +kernel
  have hcycle : isBlankText "ping x" = false := by decide +kernel
  have hstops : ¬ ∀ i ≤ 2, listings.AliasAt "  la \t x  y " i := by
    intro h
    have hnext := isSome_text?_succ.mpr (h 2 (Nat.le_refl 2))
    revert hnext
    decide +kernel
  have hback : listings.Cycles "ping x" :=
    ⟨0, 2, "ping", by decide, by decide +kernel, by decide +kernel⟩
  exact ⟨hchain, hcycle, (resolve_follows_chain (a := listings) hchain).2.1 hstops,
    (resolve_follows_chain hcycle).2.2.1 hback⟩

example : listings.resolve "  la \t x  y " = .ok "ls -l -a x  y" := by decide +kernel

def Settled (a : Aliases) (line : String) : Prop :=
  (splitFirst line).1 ≠ "" → a.get? (splitFirst line).1 = none

def BlankAt (a : Aliases) (line : String) (i : Nat) : Prop :=
  ∃ value ∈ a.text? line (i + 1), isBlankText value = true

instance (a : Aliases) (line : String) (i : Nat) : Decidable (a.BlankAt line i) :=
  inferInstanceAs (Decidable (∃ value ∈ a.text? line (i + 1), isBlankText value = true))

theorem eq_of_last (hi : (a.text? line i).isSome = true) (hi' : a.text? line (i + 1) = none)
    (hj : (a.text? line j).isSome = true) (hj' : a.text? line (j + 1) = none) : i = j := by
  have hle {i j : Nat} (hi' : a.text? line (i + 1) = none)
      (hj : (a.text? line j).isSome = true) : j ≤ i := by
    by_contra h
    have hnext := isSome_text?_of_le hj (Nat.lt_of_not_le h)
    rw [hi'] at hnext
    cases hnext
  exact Nat.le_antisymm (hle hj' hi) (hle hi' hj)

theorem solid_behind (a : Aliases) (line : String) (k : Nat) :
    ∀ part ∈ a.behind line k, Solid part.toList := by
  induction k with
  | zero =>
    intro part hpart
    rw [List.mem_singleton.mp hpart]
    exact solid_splitFirst line
  | succ k ih =>
    intro part hpart
    rcases List.mem_cons.mp hpart with rfl | hpart
    · cases a.text? line (k + 1) with
      | none => constructor <;> exact fun c hc => nomatch hc
      | some text => exact solid_splitFirst text
    · exact ih part hpart

/-- A word that is no alias is resolved to itself, with what stands behind it. -/
theorem settled_joinParts (hne : text ≠ "") (hword : ∀ c ∈ text.toList, isBlank c = false)
    (hget : a.get? text = none) (hparts : ∀ part ∈ parts, Solid part.toList) :
    a.Settled (joinParts (text :: parts)) ∧
      a.resolve (joinParts (text :: parts)) = .ok (joinParts (text :: parts)) := by
  have hsplit := splitFirst_joinParts hne hword (solid_joinParts hparts)
  rw [joinParts_pair] at hsplit
  have hfirst : (splitFirst (joinParts (text :: parts))).1 ≠ "" := by rwa [hsplit]
  have hends : a.text? (joinParts (text :: parts)) 1 = none := by
    rwa [text?_succ, command?, text?, Option.map_some, hsplit]
  constructor
  · intro _
    rw [hsplit]
    exact hget
  · rw [resolve_of_last hfirst (Nat.zero_le _) rfl hends, behind, hsplit, joinParts_pair]

/-- What a line is resolved to has no alias for its first word and is resolved to itself, if no alias
on the way there stands for a blank text. Such an alias leaves nothing of itself, and the result is
what stands behind it, whatever that begins with. The empty word cannot be made an alias. -/
theorem settled_of_resolve {resolved : String} (h : a.resolve line = .ok resolved) :
    ((∀ i < a.limit.toNat, ¬ a.BlankAt line i) →
      a.Settled resolved ∧ a.resolve resolved = .ok resolved) ∧
    (a.get? "" = none → ∀ i < a.limit.toNat, a.BlankAt line i →
      resolved = joinParts (a.behind line i)) := by
  by_cases hline : (splitFirst line).1 = ""
  · obtain rfl : line = resolved := Except.ok.inj ((resolve_of_blank hline).symm.trans h)
    refine ⟨fun _ => ⟨fun hne => absurd hline hne, h⟩, fun hnone i _ hblank => ?_⟩
    obtain ⟨value, hvalue, -⟩ := hblank
    have hnext : (a.text? line 1).isSome = true :=
      isSome_text?_of_le (by rw [hvalue]; rfl) (Nat.succ_le_succ (Nat.zero_le i))
    rw [text?_succ, command?, text?, Option.map_some, hline, Option.bind_some, hnone] at hnext
    cases hnext
  · rcases resolve_cases (a := a) hline with ⟨-, herror⟩ | ⟨k, text, hk, htext, hlast, hok⟩
    · rw [h] at herror
      cases herror
    · obtain rfl := Except.ok.inj (hok.symm.trans h)
      have hget : a.get? (splitFirst text).1 = none := by
        rw [text?, htext] at hlast
        exact hlast
      constructor
      · intro hblank
        have hne : (splitFirst text).1 ≠ "" := by
          intro hempty
          cases k with
          | zero =>
            obtain rfl : line = text := Option.some.inj htext
            exact hline hempty
          | succ k => exact hblank k hk ⟨text, htext, splitFirst_eq_empty_iff.mp hempty⟩
        exact settled_joinParts hne (fun c => not_isBlank_of_mem_splitFirst) hget
          (solid_behind a line k)
      · rintro hnone i - ⟨value, hvalue, hblank⟩
        have hvalue' : a.text? line (i + 1 + 1) = none := by
          rw [text?, hvalue, Option.bind_some, splitFirst_of_blank hblank]
          exact hnone
        obtain rfl : k = i + 1 := eq_of_last (by rw [htext]; rfl) hlast (by rw [hvalue]; rfl) hvalue'
        obtain rfl : text = value := Option.some.inj (htext.symm.trans hvalue)
        rw [behind, htext, Option.map_some, Option.getD_some, splitFirst_of_blank hblank,
          joinParts_cons_empty, joinParts_cons_empty]

theorem settled_of_resolve_listing :
    listings.resolve "  la \t x  y " = .ok "ls -l -a x  y" ∧
      listings.Settled "ls -l -a x  y" ∧
      listings.resolve "ls -l -a x  y" = .ok "ls -l -a x  y" := by
  have hresolve : listings.resolve "  la \t x  y " = .ok "ls -l -a x  y" := by decide +kernel
  have hblank : ∀ i < listings.limit.toNat, ¬ listings.BlankAt "  la \t x  y " i := by
    decide +kernel
  exact ⟨hresolve, (settled_of_resolve hresolve).1 hblank⟩

-- A blank text takes its word away, and an alias may come to stand first.
example : Aliases.resolve { entries := [("a", " \t"), ("b", "echo hi")] } "a b  c" = .ok "b  c" := by
  decide +kernel

end Aliases
end MemShell
