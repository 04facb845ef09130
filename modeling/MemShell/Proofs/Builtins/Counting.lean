import Mathlib.Data.String.Basic
import MemShell.Proofs.Builtins.Cutting
set_option autoImplicit false

namespace MemShell.Builtins
open Text

section
variable {α : Type} {p : α → Bool} {xs : List α} {n : Nat}

/-- A beginning holds as many as it can if they come first. -/
theorem countP_take_eq_min_iff : (xs.take n).countP p = min n (xs.countP p) ↔
    (∀ x ∈ xs.take n, p x = true) ∨ ∀ x ∈ xs.drop n, p x = false := by
  have hsplit : xs.countP p = (xs.take n).countP p + (xs.drop n).countP p := by
    rw [← List.countP_append, List.take_append_drop]
  have hlength : (xs.take n).length = min n xs.length := List.length_take
  have hrest : (xs.drop n).length = xs.length - n := List.length_drop
  have hfront := List.countP_le_length (p := p) (l := xs.take n)
  have hback := List.countP_le_length (p := p) (l := xs.drop n)
  have hall : (∀ x ∈ xs.take n, p x = true) ↔ (xs.take n).countP p = (xs.take n).length :=
    List.countP_eq_length.symm
  have hnone : (∀ x ∈ xs.drop n, p x = false) ↔ (xs.drop n).countP p = 0 := by
    rw [List.countP_eq_zero]
    exact forall₂_congr fun x _ => by rw [Bool.not_eq_true]
  -- Either all of the beginning counts, or all that counts is in the beginning.
  rw [hall, hnone]
  omega

theorem forall_take_or_drop_iff :
    (∀ n, (∀ x ∈ xs.take n, p x = true) ∨ ∀ x ∈ xs.drop n, p x = false) ↔
      xs.Pairwise fun x y => p y = true → p x = true := by
  constructor
  · intro h
    rw [List.pairwise_iff_getElem]
    intro i j hi hj hij hy
    rcases h j with hfront | hback
    · exact hfront _ (List.mem_take_iff_getElem.mpr ⟨i, by omega, rfl⟩)
    · have hnone := hback _ (List.mem_drop_iff_getElem.mpr ⟨0, by omega, rfl⟩)
      simp [hy] at hnone
  · intro h n
    rw [← List.take_append_drop n xs, List.pairwise_append] at h
    by_cases hback : ∀ y ∈ xs.drop n, p y = false
    · exact .inr hback
    · simp only [not_forall, Bool.not_eq_false] at hback
      obtain ⟨y, hy, hpy⟩ := hback
      exact .inl fun x hx => h.2.2 x hx y hy hpy

end

theorem count_lines_eq (text : String) :
    Measure.lines.count text = (lines text.toList).countP Line.isFed := count_feed text.toList

theorem count_lines_cut (n : Nat) (text : String) :
    Measure.lines.count (Grain.lines.cut .first n text) =
      ((lines text.toList).take n).countP Line.isFed := by
  rw [count_lines_eq, Grain.cut, cutLines, String.toList_ofList, End.keep, lines_take]

/-- The bytes that characters take beyond one each. -/
def extraBytes : List Char → Nat
  | [] => 0
  | c :: cs => c.utf8Size - 1 + extraBytes cs

theorem utf8ByteSize_eq (cs : List Char) :
    (String.ofList cs).utf8ByteSize = cs.length + extraBytes cs := by
  rw [String.utf8ByteSize_ofList]
  induction cs with
  | nil => rfl
  | cons c cs ih =>
    have hpos := c.utf8Size_pos
    rw [String.utf8Len_cons, ih, List.length_cons, extraBytes]
    omega

theorem extraBytes_eq_zero_iff (cs : List Char) : extraBytes cs = 0 ↔ ∀ c ∈ cs, c.val ≤ 127 := by
  induction cs with
  | nil => exact iff_of_true rfl fun c hc => absurd hc List.not_mem_nil
  | cons c cs ih =>
    have hpos := c.utf8Size_pos
    rw [extraBytes, List.forall_mem_cons, ← ih, ← Char.utf8Size_eq_one_iff]
    omega

theorem count_bytes_cut (n : Nat) (text : String) :
    Measure.bytes.count (Grain.characters.cut .first n text) =
      min n text.length + extraBytes (text.toList.take n) := by
  have hlength : (text.toList.take n).length = min n text.length := by
    rw [List.length_take, String.length_toList]
  rw [Measure.count, Grain.cut, cutChars, End.keep, utf8ByteSize_eq, hlength]

theorem count_bytes_cut_le_iff {n : Nat} {text : String} :
    Measure.bytes.count (Grain.characters.cut .first n text) ≤ n ↔
      extraBytes (text.toList.take n) ≤ n - text.length := by
  rw [count_bytes_cut]
  omega

theorem forall_count_bytes_cut_le_iff {text : String} :
    (∀ n, Measure.bytes.count (Grain.characters.cut .first n text) ≤ n) ↔
      ∀ c ∈ text.toList, c.val ≤ 127 := by
  rw [← extraBytes_eq_zero_iff]
  constructor
  · intro h
    have hall := count_bytes_cut_le_iff.mp (h text.length)
    rw [Nat.sub_self, ← String.length_toList, List.take_length] at hall
    exact Nat.le_zero.mp hall
  · intro h n
    rw [extraBytes_eq_zero_iff] at h
    have hnone : extraBytes (text.toList.take n) = 0 :=
      (extraBytes_eq_zero_iff _).mpr fun c hc => h c (List.mem_of_mem_take hc)
    rw [count_bytes_cut_le_iff, hnone]
    exact Nat.zero_le _

def Counts (c : Context) (m : Measure) : Prop :=
  c.paths = [] ∧ ∀ other : Measure, c.hasFlag other.flag = decide (other = m)

theorem run_wc {c : Context} {m : Measure} (h : Counts c m) (s : Shell) :
    (Builtin.wc.run c).run s = (.ok (.text (toString (m.count c.inputText) ++ "\n")), s) := by
  obtain ⟨hpaths, hflags⟩ := h
  have hchosen : ([.lines, .words, .bytes] : List Measure).filter (fun m => c.hasFlag m.flag) = [m] := by
    simp only [hflags]
    cases m <;> rfl
  have hsources : checkedSources c = pure [inputSource c] := by
    rw [checkedSources, hpaths]
    rfl
  change (wc c).run s = _
  unfold wc
  rw [hsources]
  dsimp only
  rw [hchosen]
  rfl

/-- The first lines of a text hold as many line feeds as there can be just if they all end in one, or
no line behind them does; so they do for every number of lines just if no other line break stands in
front of a line feed. The first characters take no more bytes than they are asked to be just if the
characters that the text lacks make up for the further bytes; so they do for every number just if each
character takes one byte. -/
theorem counts_agree_iff (text : String) :
    (∀ n, Measure.lines.count (Grain.lines.cut .first n text) = min n (Measure.lines.count text) ↔
      (∀ l ∈ (lines text.toList).take n, l.isFed = true) ∨
        ∀ l ∈ (lines text.toList).drop n, l.isFed = false) ∧
    ((∀ n, Measure.lines.count (Grain.lines.cut .first n text) = min n (Measure.lines.count text)) ↔
      (lines text.toList).Pairwise fun l l' => l'.isFed = true → l.isFed = true) ∧
    (∀ n, Measure.bytes.count (Grain.characters.cut .first n text) ≤ n ↔
      extraBytes (text.toList.take n) ≤ n - text.length) ∧
    ((∀ n, Measure.bytes.count (Grain.characters.cut .first n text) ≤ n) ↔
      ∀ c ∈ text.toList, c.val ≤ 127) ∧
    (∀ (g : Grain) (n : Nat) (c : Context) (s : Shell), Asks c g n → Reads c s [text] →
      (Builtin.head.run c).run s = (.ok (.text (g.cut .first n text)), s)) ∧
    ∀ (m : Measure) (c : Context) (s : Shell), Counts c m →
      (Builtin.wc.run c).run s = (.ok (.text (toString (m.count c.inputText) ++ "\n")), s) := by
  have hlines (n : Nat) : Measure.lines.count (Grain.lines.cut .first n text) =
      min n (Measure.lines.count text) ↔ (∀ l ∈ (lines text.toList).take n, l.isFed = true) ∨
        ∀ l ∈ (lines text.toList).drop n, l.isFed = false := by
    rw [count_lines_cut, count_lines_eq]
    exact countP_take_eq_min_iff
  refine ⟨hlines, (forall_congr' hlines).trans forall_take_or_drop_iff,
    fun n => count_bytes_cut_le_iff, forall_count_bytes_cut_le_iff,
    fun g n c s hasks hread => run_cutSources hasks hread .first,
    fun m c s hcounts => run_wc hcounts s⟩

def countInput (m : Measure) (text : String) : Context :=
  { Context.ofRoot "wc" [] with flags := [(m.flag, .switch true)], input := some text }

theorem counts_countInput (m : Measure) (text : String) : Counts (countInput m text) m :=
  ⟨rfl, fun other => by cases m <;> cases other <;> rfl⟩

/-- Two lines with one line feed, of a text with two; five characters with seven bytes. -/
theorem counts_agree_iff_mixed :
    (∃ front, (Builtin.head.run (cutMixed [("lines", .value (some "2"))])).run mixed =
        (.ok (.text front), mixed) ∧
      (Builtin.wc.run (countInput .lines front)).run mixed = (.ok (.text "1\n"), mixed) ∧
      (Builtin.wc.run (countInput .lines "a\r\nb\u2028\nc")).run mixed =
        (.ok (.text "2\n"), mixed)) ∧
    (∃ front, (Builtin.head.run (cutMixed [("bytes", .value (some "5"))])).run mixed =
        (.ok (.text front), mixed) ∧
      (Builtin.wc.run (countInput .bytes front)).run mixed = (.ok (.text "7\n"), mixed)) ∧
    ¬ (∀ n, Measure.lines.count (Grain.lines.cut .first n "a\r\nb\u2028\nc") =
      min n (Measure.lines.count "a\r\nb\u2028\nc")) ∧
    ¬ ∀ n, Measure.bytes.count (Grain.characters.cut .first n "a\r\nb\u2028\nc") ≤ n := by
  obtain ⟨-, hlines, -, hbytes, hhead, hwc⟩ := counts_agree_iff "a\r\nb\u2028\nc"
  have hcount (m : Measure) (text answer : String) (h : toString (m.count text) ++ "\n" = answer) :
      (Builtin.wc.run (countInput m text)).run mixed = (.ok (.text answer), mixed) := by
    rw [hwc m _ mixed (counts_countInput m text), ← h]
    rfl
  refine ⟨⟨_, hhead .lines 2 _ _ ⟨rfl, .inr ⟨"2", rfl, by decide +kernel⟩⟩ (reads_mixed _),
      hcount _ _ _ (by decide +kernel), hcount _ _ _ (by decide +kernel)⟩,
    ⟨_, hhead .characters 5 _ _ ⟨"5", rfl, by decide +kernel⟩ (reads_mixed _),
      hcount _ _ _ (by decide +kernel)⟩, ?_, ?_⟩
  · rw [hlines]
    decide +kernel
  · rw [hbytes]
    exact fun h => absurd (h '\u2028' (by decide +kernel)) (by decide)

end MemShell.Builtins
