import Mathlib.Data.List.TakeWhile
import MemShell.Proofs.Builtins.Sources
import MemShell.Proofs.Number.Comparison
import MemShell.Proofs.Number.Decimals
import MemShell.Proofs.Shell.Discipline
import MemShell.Proofs.Sorting
import MemShell.Proofs.Text.Lines
set_option autoImplicit false

/-!
# Sorted lines

The lines of the texts are put in an order in which no two different lines are equal, so what comes
out depends on which lines there are and not on where they come from. Numbers in front of lines are
compared as they are rounded.
-/
namespace MemShell.Builtins
open Text

/-- A decimal: its sign, its digits, and how many of them stand behind the point. -/
structure Numeral where
  negative : Bool
  digits : Nat
  places : Nat
deriving DecidableEq, Repr

namespace Numeral

def nearest (n : Numeral) : Binary64 := .nearest n.negative n.digits (-(n.places : Int))

def le (m n : Numeral) : Prop :=
  Binary64.signed m.negative m.digits * (10 ^ n.places : Nat) ≤
    Binary64.signed n.negative n.digits * (10 ^ m.places : Nat)

instance (m n : Numeral) : Decidable (m.le n) := by
  unfold le
  infer_instance

theorem nearest_ne_nan (n : Numeral) : n.nearest ≠ .nan :=
  Binary64.nearest_ne_nan _ _ _

/-- Rounding keeps the order of the values. -/
theorem lt_nearest_of_le {m n : Numeral} (h : m.le n) : n.nearest.lt m.nearest = false := by
  rw [Bool.eq_false_iff, ne_eq, Binary64.lt_iff_rank_lt n.nearest_ne_nan m.nearest_ne_nan]
  exact Int.not_lt.mpr (Binary64.rank_nearest_mono h)

end Numeral

def fractionOf : List Char → List Char
  | '.' :: rest => rest.takeWhile Number.isDigit
  | _ => []

def numeralAt (negative : Bool) (cs : List Char) : Numeral :=
  let whole := cs.takeWhile Number.isDigit
  let fraction := fractionOf (cs.dropWhile Number.isDigit)
  if whole.isEmpty then ⟨false, 0, 0⟩
  else ⟨negative, Number.digitsValue (whole ++ fraction), fraction.length⟩

def numeralOf (line : String) : Numeral :=
  let cs := line.toList.dropWhile isBlank
  if cs.head? = some '-' then numeralAt true cs.tail else numeralAt false cs

theorem isDigit_of_mem_takeWhile (cs : List Char) :
    ∀ c ∈ cs.takeWhile Number.isDigit, Number.isDigit c = true :=
  fun _ hc => List.mem_takeWhile_imp hc

theorem readDecimal?_numeralAt (negative : Bool) (cs : List Char) :
    (let whole := cs.takeWhile Number.isDigit
      let fraction := match cs.dropWhile Number.isDigit with
        | '.' :: rest =>
          let ds := rest.takeWhile Number.isDigit
          if ds.isEmpty then [] else '.' :: ds
        | _ => []
      if whole.isEmpty then Binary64.zero
      else (Number.readDecimal? (String.ofList
        ((if negative then ['-'] else []) ++ whole ++ fraction))).getD .zero) =
      (numeralAt negative cs).nearest := by
  unfold numeralAt
  have hwhole := isDigit_of_mem_takeWhile cs
  generalize cs.takeWhile Number.isDigit = whole at hwhole
  generalize cs.dropWhile Number.isDigit = tail
  dsimp only
  by_cases hempty : whole.isEmpty = true
  · rw [if_pos hempty, if_pos hempty]
    exact Binary64.zero_eq.trans (Binary64.nearest_zero _).symm
  · have hne : whole ≠ [] := fun h => hempty (List.isEmpty_iff.mpr h)
    have hread {fraction : List Char} (h : ∀ c ∈ fraction, Number.isDigit c = true) :=
      Number.readDecimal?_decimalChars hne hwhole h negative
    simp only [Number.decimalChars] at hread
    rw [if_neg hempty, if_neg hempty, List.append_assoc, Numeral.nearest]
    generalize (if negative then ['-'] else []) = sign at hread ⊢
    split
    · next rest => rw [hread (isDigit_of_mem_takeWhile rest), Option.getD_some, fractionOf]
    · next hpoint =>
      have hfraction : fractionOf tail = [] := by
        unfold fractionOf
        split
        · next rest => exact (hpoint rest rfl).elim
        · rfl
      have hnone := hread fun c hc => absurd hc List.not_mem_nil
      rw [List.isEmpty_nil, if_pos rfl] at hnone
      rw [hfraction, hnone, Option.getD_some]

/-- A line is sorted by the number nearest to the decimal at its start. -/
theorem leadingNumber_eq (line : String) : leadingNumber line = (numeralOf line).nearest := by
  unfold leadingNumber numeralOf
  generalize line.toList.dropWhile isBlank = cs
  by_cases hsign : cs.head? = some '-'
  · obtain ⟨rest, rfl⟩ := List.head?_eq_some_iff.mp hsign
    exact readDecimal?_numeralAt true rest
  · dsimp only
    rw [if_neg hsign]
    split
    · exact absurd rfl hsign
    · exact readDecimal?_numeralAt false cs

theorem leadingNumber_ne_nan (line : String) : leadingNumber line ≠ .nan := by
  rw [leadingNumber_eq]
  exact (numeralOf line).nearest_ne_nan

namespace Order
variable {o : Order} {a b c : String} {xs ys : List String}

/-- Whether a line may stand in front of another: by the numbers that the lines begin with if these
count, and by the code points of the lines where the numbers are equal. -/
def Ascends (o : Order) (a b : String) : Prop :=
  if o.numeric then
    (leadingNumber a).lt (leadingNumber b) = true ∨
      (leadingNumber b).lt (leadingNumber a) = false ∧ a ≤ b
  else a ≤ b

instance (o : Order) (a b : String) : Decidable (o.Ascends a b) := by
  unfold Ascends
  infer_instance

theorem ascends_iff (h : o.numeric = true) :
    o.Ascends a b ↔ (leadingNumber a).rank < (leadingNumber b).rank ∨
      (leadingNumber a).rank ≤ (leadingNumber b).rank ∧ a ≤ b := by
  have hlt (x y : String) : (leadingNumber x).lt (leadingNumber y) = true ↔
      (leadingNumber x).rank < (leadingNumber y).rank :=
    Binary64.lt_iff_rank_lt (leadingNumber_ne_nan x) (leadingNumber_ne_nan y)
  rw [Ascends, if_pos h, ← Bool.not_eq_true, hlt, hlt, Int.not_lt]

theorem ascends_iff_le (h : o.numeric = false) : o.Ascends a b ↔ a ≤ b := by
  rw [Ascends, if_neg (by rw [h]; decide)]

theorem Ascends.trans (hab : o.Ascends a b) (hbc : o.Ascends b c) : o.Ascends a c := by
  cases hn : o.numeric with
  | false =>
    rw [ascends_iff_le hn] at hab hbc ⊢
    exact String.le_trans hab hbc
  | true =>
    rw [ascends_iff hn] at hab hbc ⊢
    rcases hab with hab | ⟨hab, hle⟩ <;> rcases hbc with hbc | ⟨hbc, hle'⟩
    · exact .inl (Int.lt_trans hab hbc)
    · exact .inl (Int.lt_of_lt_of_le hab hbc)
    · exact .inl (Int.lt_of_le_of_lt hab hbc)
    · exact .inr ⟨Int.le_trans hab hbc, String.le_trans hle hle'⟩

theorem ascends_total (o : Order) (a b : String) : o.Ascends a b ∨ o.Ascends b a := by
  cases hn : o.numeric with
  | false =>
    rw [ascends_iff_le hn, ascends_iff_le hn]
    exact String.le_total a b
  | true =>
    rw [ascends_iff hn, ascends_iff hn]
    rcases Int.lt_trichotomy (leadingNumber a).rank (leadingNumber b).rank with hlt | heq | hlt
    · exact .inl (.inl hlt)
    · rcases String.le_total a b with hle | hle
      · exact .inl (.inr ⟨Int.le_of_eq heq, hle⟩)
      · exact .inr (.inr ⟨Int.le_of_eq heq.symm, hle⟩)
    · exact .inr (.inl hlt)

/-- No two lines are equal in the order but the same line. -/
theorem Ascends.antisymm (hab : o.Ascends a b) (hba : o.Ascends b a) : a = b := by
  cases hn : o.numeric with
  | false =>
    rw [ascends_iff_le hn] at hab hba
    exact String.le_antisymm hab hba
  | true =>
    rw [ascends_iff hn] at hab hba
    rcases hab with hab | ⟨hab, hle⟩ <;> rcases hba with hba | ⟨hba, hle'⟩
    · omega
    · omega
    · omega
    · exact String.le_antisymm hle hle'

def ascending (o : Order) (xs : List String) : List String :=
  xs.mergeSort fun a b => decide (o.Ascends a b)

def kept (o : Order) (xs : List String) : List String := if o.unique then xs.eraseDups else xs

theorem ascending_perm (o : Order) (xs : List String) : (o.ascending xs).Perm xs :=
  List.mergeSort_perm _ _

theorem pairwise_ascending (o : Order) (xs : List String) :
    (o.ascending xs).Pairwise o.Ascends := by
  have hsorted : (o.ascending xs).Pairwise fun a b => decide (o.Ascends a b) = true := by
    refine List.pairwise_mergeSort (fun a b c hab hbc => ?_) (fun a b => ?_) xs
    · exact decide_eq_true ((of_decide_eq_true hab).trans (of_decide_eq_true hbc))
    · rw [Bool.or_eq_true, decide_eq_true_eq, decide_eq_true_eq]
      exact o.ascends_total a b
  exact hsorted.imp of_decide_eq_true

theorem ascending_eq (h : xs.Pairwise o.Ascends) : o.ascending xs = xs :=
  List.mergeSort_of_pairwise (h.imp decide_eq_true)

/-- What comes out depends only on which lines there are, and how often. -/
theorem ascending_congr (o : Order) (h : xs.Perm ys) : o.ascending xs = o.ascending ys :=
  List.Perm.eq_of_pairwise (fun _ _ _ _ => Ascends.antisymm) (o.pairwise_ascending xs)
    (o.pairwise_ascending ys)
    ((o.ascending_perm xs).trans (h.trans (o.ascending_perm ys).symm))

theorem sortTexts_eq (h : o.numeric = false) (xs : List String) : sortTexts xs = o.ascending xs := by
  have hle : (fun a b : String => decide (¬ id b < id a)) = fun a b => decide (o.Ascends a b) := by
    funext a b
    rw [decide_eq_decide, ascends_iff_le h]
    exact String.not_lt
  rw [sortTexts, sortByKey, hle, ascending]

theorem numericSort_eq (h : o.numeric = true) (xs : List String) :
    ((xs.map fun x => (leadingNumber x, x)).mergeSort numericLE).map (·.2) = o.ascending xs := by
  have hback : (xs.map fun x => (leadingNumber x, x)).map (·.2) = xs := by
    rw [List.map_map]
    exact List.map_id xs
  have hle (x : Binary64 × String) (hx : x ∈ xs.map fun x => (leadingNumber x, x))
      (y : Binary64 × String) (hy : y ∈ xs.map fun x => (leadingNumber x, x)) :
      numericLE x y = decide (o.Ascends x.2 y.2) := by
    obtain ⟨a, -, rfl⟩ := List.mem_map.mp hx
    obtain ⟨b, -, rfl⟩ := List.mem_map.mp hy
    rw [Bool.eq_iff_iff, decide_eq_true_eq, Ascends, if_pos h, numericLE]
    simp only [Bool.or_eq_true, Bool.and_eq_true, Bool.not_eq_true', decide_eq_false_iff_not,
      String.not_lt]
  rw [List.map_mergeSort (s := fun a b => decide (o.Ascends a b)) hle, hback, ascending]

theorem sort_eq (o : Order) (xs : List String) :
    o.sort xs = if o.reverse then (o.ascending (o.kept xs)).reverse
      else o.ascending (o.kept xs) := by
  cases hn : o.numeric with
  | false =>
    simp only [sort, hn, Bool.false_eq_true, if_false, sortTexts_eq hn]
    rfl
  | true =>
    simp only [sort, hn, if_true, numericSort_eq hn]
    rfl

theorem nodup_eraseDups (xs : List String) : xs.eraseDups.Nodup := by
  induction hn : xs.length using Nat.strongRecOn generalizing xs with
  | _ n ih =>
    cases xs with
    | nil => exact List.nodup_nil
    | cons x rest =>
      have hshort : (rest.filter fun y => !y == x).length < n := by
        have hle := List.length_filter_le (fun y => !y == x) rest
        rw [List.length_cons] at hn
        omega
      rw [List.eraseDups_cons, List.nodup_cons]
      exact ⟨by simp [List.mem_eraseDups], ih _ hshort _ rfl⟩

theorem mem_kept : a ∈ o.kept xs ↔ a ∈ xs := by
  unfold kept
  split
  · exact List.mem_eraseDups
  · exact Iff.rfl

theorem nodup_kept (h : o.unique = true) (xs : List String) : (o.kept xs).Nodup := by
  rw [kept, if_pos h]
  exact nodup_eraseDups xs

theorem kept_eq (h : o.unique = false) (xs : List String) : o.kept xs = xs :=
  if_neg (by rw [h]; decide)

theorem kept_perm (o : Order) (h : xs.Perm ys) : (o.kept xs).Perm (o.kept ys) := by
  cases hu : o.unique with
  | false => rwa [kept_eq hu, kept_eq hu]
  | true =>
    rw [List.perm_ext_iff_of_nodup (nodup_kept hu xs) (nodup_kept hu ys)]
    exact fun a => by rw [mem_kept, mem_kept, h.mem_iff]

/-- What is left of what was left is all of it. -/
theorem kept_kept_perm (o : Order) (xs : List String) : (o.kept (o.kept xs)).Perm (o.kept xs) := by
  cases hu : o.unique with
  | false => rw [kept_eq hu]
  | true =>
    rw [List.perm_ext_iff_of_nodup (nodup_kept hu _) (nodup_kept hu xs)]
    exact fun a => by rw [mem_kept]

theorem sort_perm (o : Order) (xs : List String) : (o.sort xs).Perm (o.kept xs) := by
  rw [sort_eq]
  split
  · exact (List.reverse_perm _).trans (o.ascending_perm _)
  · exact o.ascending_perm _

theorem sort_congr_kept (o : Order) (h : (o.kept xs).Perm (o.kept ys)) : o.sort xs = o.sort ys := by
  rw [sort_eq, sort_eq, o.ascending_congr h]

/-- Sorted lines are sorted already. -/
theorem sort_sort (o : Order) (xs : List String) : o.sort (o.sort xs) = o.sort xs :=
  o.sort_congr_kept ((o.kept_perm (o.sort_perm xs)).trans (o.kept_kept_perm xs))

/-- Turning the order round gives the same as sorting by the reversed order. -/
theorem reverse_ascending (o : Order) (xs : List String) :
    (o.ascending xs).reverse = xs.mergeSort fun a b => decide (o.Ascends b a) := by
  have hsorted : (xs.mergeSort fun a b => decide (o.Ascends b a)).Pairwise fun a b =>
      decide (o.Ascends b a) = true := by
    refine List.pairwise_mergeSort (fun a b c hab hbc => ?_) (fun a b => ?_) xs
    · exact decide_eq_true ((of_decide_eq_true hbc).trans (of_decide_eq_true hab))
    · rw [Bool.or_eq_true, decide_eq_true_eq, decide_eq_true_eq]
      exact o.ascends_total b a
  have hreverse := List.pairwise_reverse.mpr (o.pairwise_ascending xs)
  refine List.Perm.eq_of_pairwise (fun a b _ _ hab hba => Ascends.antisymm hba hab) hreverse
    (hsorted.imp of_decide_eq_true) ?_
  exact (List.reverse_perm _).trans ((o.ascending_perm xs).trans (List.mergeSort_perm xs _).symm)

def output (o : Order) (texts : List String) : String :=
  joinLines (o.sort (texts.flatMap lineBodies))

theorem lineBodies_output (o : Order) (texts : List String) :
    lineBodies (o.output texts) = o.sort (texts.flatMap lineBodies) := by
  refine lineBodies_join_feed fun x hx => ?_
  have hmem := mem_kept.mp ((o.sort_perm _).mem_iff.mp hx)
  obtain ⟨text, -, hx⟩ := List.mem_flatMap.mp hmem
  exact unbroken_of_mem_lineBodies hx

def ofFlags (c : Context) : Order := ⟨c.hasFlag "numeric", c.hasFlag "reverse", c.hasFlag "unique"⟩

end Order

theorem run_sort {c : Context} {s : Shell} {texts : List String} (h : Reads c s texts) :
    (sort c).run s = (.ok (.text ((Order.ofFlags c).output texts)), s) := by
  obtain ⟨sources, hrun, rfl⟩ := run_checkedSources h
  have hlines : (sources.map (·.text)).flatMap lineBodies =
      sources.flatMap fun source => lineBodies source.text := List.flatMap_map ..
  unfold sort Order.output
  rw [Work.run_bind, hrun, hlines]
  rfl

/-- Sorting makes of the texts that it reads a text with their lines, all of them or each one once, in
order or in the reversed order, and changes nothing. How the lines are ordered and divided among the
texts makes no difference, and sorted lines stay as they are. The numbers in front of lines are compared
as they are rounded to the nearest, which never turns the order of their values round. -/
theorem sort_sorts (o : Order) (texts : List String) :
    (∀ c s, Order.ofFlags c = o → Reads c s texts →
      (sort c).run s = (.ok (.text (o.output texts)), s)) ∧
    lineBodies (o.output texts) = o.sort (texts.flatMap lineBodies) ∧
    (o.unique = false → (o.sort (texts.flatMap lineBodies)).Perm (texts.flatMap lineBodies)) ∧
    (o.unique = true → (o.sort (texts.flatMap lineBodies)).Nodup ∧
      ∀ x, x ∈ o.sort (texts.flatMap lineBodies) ↔ x ∈ texts.flatMap lineBodies) ∧
    (o.reverse = false → (o.sort (texts.flatMap lineBodies)).Pairwise o.Ascends ∧
      lineBodies ({ o with reverse := true }.output texts) = (lineBodies (o.output texts)).reverse ∧
      { o with reverse := true }.sort (texts.flatMap lineBodies) =
        (o.kept (texts.flatMap lineBodies)).mergeSort fun x y => decide (o.Ascends y x)) ∧
    (∀ others : List String, (others.flatMap lineBodies).Perm (texts.flatMap lineBodies) →
      o.output others = o.output texts) ∧
    o.output [o.output texts] = o.output texts ∧
    (∀ x, leadingNumber x = (numeralOf x).nearest) ∧
    ∀ x y, (numeralOf x).le (numeralOf y) → (leadingNumber y).lt (leadingNumber x) = false := by
  have hsorted := o.lineBodies_output texts
  have hperm := o.sort_perm (texts.flatMap lineBodies)
  refine ⟨fun c s hc hread => hc ▸ run_sort hread, hsorted, fun hu => ?_, fun hu => ?_, fun hr => ?_,
    fun others h => ?_, ?_, leadingNumber_eq, fun x y hle => ?_⟩
  · rwa [Order.kept_eq hu] at hperm
  · exact ⟨hperm.nodup_iff.mpr (Order.nodup_kept hu _), fun x => hperm.mem_iff.trans Order.mem_kept⟩
  · have hforward : o.sort (texts.flatMap lineBodies) =
        o.ascending (o.kept (texts.flatMap lineBodies)) := by
      rw [Order.sort_eq, if_neg (by rw [hr]; decide)]
    have hback : { o with reverse := true }.sort (texts.flatMap lineBodies) =
        (o.ascending (o.kept (texts.flatMap lineBodies))).reverse := by
      rw [Order.sort_eq { o with reverse := true }, if_pos rfl]
      rfl
    rw [hsorted, Order.lineBodies_output, hback, hforward]
    exact ⟨o.pairwise_ascending _, rfl, o.reverse_ascending _⟩
  · rw [Order.output, Order.output, o.sort_congr_kept (o.kept_perm h)]
  · rw [Order.output, List.flatMap_singleton, hsorted, Order.sort_sort, Order.output]
  · rw [leadingNumber_eq, leadingNumber_eq]
    exact Numeral.lt_nearest_of_le hle

def halves : Shell := ((Shell.bare []).withFile "/a" "10\n9\n").withFile "/b" "100\r\n9"

def sortHalves (flags : Flags) : Context where
  name := "sort"
  args := ["/a", "/b"]
  flags := flags
  paths := [⟨"/a", ["a"], none⟩, ⟨"/b", ["b"], none⟩]
  input := none
  caller := { user := rootUser }
  services := []

theorem reads_halves (flags : Flags) :
    Reads (sortHalves flags) halves ["10\n9\n", "100\r\n9"] := by
  have ha : halves.files.readText (halves.actor rootUser) (Place.text ["a"]) = .ok "10\n9\n" := by
    decide +kernel
  have hb : halves.files.readText (halves.actor rootUser) (Place.text ["b"]) = .ok "100\r\n9" := by
    decide +kernel
  exact .cons ha (.cons hb .nil)

/-- By numbers all lines of both files come out. With each line once and turned round, the files come
out like one file with the same lines in another order. -/
theorem sort_sorts_divided :
    (∃ text, (sort (sortHalves [("numeric", .switch true)])).run halves =
        (.ok (.text text), halves) ∧
      (lineBodies text).Perm ["10", "9", "100", "9"] ∧
      (lineBodies text).Pairwise (Order.Ascends ⟨true, false, false⟩)) ∧
    ∃ text, (sort (sortHalves [("reverse", .switch true), ("unique", .switch true)])).run halves =
        (.ok (.text text), halves) ∧
      (lineBodies text).Nodup ∧ text = Order.output ⟨false, true, true⟩ ["9\n100\n10\n9\n"] := by
  constructor
  · have hlines : ["10\n9\n", "100\r\n9"].flatMap lineBodies = ["10", "9", "100", "9"] := by
      decide +kernel
    obtain ⟨hrun, hsorted, hperm, -, hforward, -⟩ :=
      sort_sorts ⟨true, false, false⟩ ["10\n9\n", "100\r\n9"]
    rw [← hsorted, hlines] at hperm
    rw [← hsorted] at hforward
    exact ⟨_, hrun _ halves rfl (reads_halves _), hperm rfl, (hforward rfl).1⟩
  · obtain ⟨hrun, hsorted, -, hdistinct, -, hdivided, -⟩ :=
      sort_sorts ⟨false, true, true⟩ ["10\n9\n", "100\r\n9"]
    rw [← hsorted] at hdistinct
    exact ⟨_, hrun _ halves rfl (reads_halves _), (hdistinct rfl).1,
      (hdivided ["9\n100\n10\n9\n"] (by decide +kernel)).symm⟩

/-- Numbers that are rounded to the same one come in the order of their lines, whatever their values. -/
theorem sort_against_values :
    ¬ ∀ (o : Order) (texts : List String), o.numeric = true → o.reverse = false → o.unique = false →
      (lineBodies (o.output texts)).Pairwise fun x y => (numeralOf x).le (numeralOf y) := by
  intro h
  have hpair := h ⟨true, false, false⟩ [" 9007199254740993\n9007199254740992\n"] rfl rfl rfl
  have hlines : [" 9007199254740993\n9007199254740992\n"].flatMap lineBodies =
      [" 9007199254740993", "9007199254740992"] := by decide +kernel
  have horder : Order.Ascends ⟨true, false, false⟩ " 9007199254740993" "9007199254740992" := by
    decide +kernel
  have hsort : Order.sort ⟨true, false, false⟩ [" 9007199254740993", "9007199254740992"] =
      [" 9007199254740993", "9007199254740992"] :=
    (Order.sort_eq _ _).trans (Order.ascending_eq (List.pairwise_pair.mpr horder))
  rw [Order.lineBodies_output, hlines, hsort] at hpair
  have hvalues : ¬ (numeralOf " 9007199254740993").le (numeralOf "9007199254740992") := by
    decide +kernel
  exact hvalues ((List.pairwise_cons.mp hpair).1 _ List.mem_cons_self)

end MemShell.Builtins
