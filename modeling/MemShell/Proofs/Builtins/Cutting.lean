import MemShell.Proofs.Builtins.Sources
import MemShell.Proofs.Number.Integers
import MemShell.Proofs.Shell.Discipline
import MemShell.Proofs.Text.Lines
set_option autoImplicit false

namespace MemShell.Builtins
open Text

namespace End
variable {α β : Type} {xs : List α}

theorem keep_map (e : End) (n : Nat) (f : α → β) (xs : List α) :
    e.keep n (xs.map f) = (e.keep n xs).map f := by
  cases e with
  | first => exact List.map_take.symm
  | last =>
    rw [keep, List.length_map]
    exact List.map_drop.symm

theorem length_keep (e : End) (n : Nat) (xs : List α) : (e.keep n xs).length = min n xs.length := by
  cases e with
  | first => exact List.length_take
  | last =>
    rw [keep, List.length_drop]
    omega

theorem keep_of_le (e : End) {n : Nat} (h : xs.length ≤ n) : e.keep n xs = xs := by
  cases e with
  | first => exact List.take_of_length_le h
  | last => rw [keep, Nat.sub_eq_zero_of_le h, List.drop_zero]

theorem keep_append_keep {k m : Nat} (h : k + m = xs.length) :
    first.keep k xs ++ last.keep m xs = xs := by
  have hrest : xs.length - m = k := by omega
  rw [keep, keep, hrest, List.take_append_drop]

def command : End → Builtin
  | first => .head
  | last => .tail

end End

inductive Grain where
  | lines | characters
deriving DecidableEq, Repr

namespace Grain
variable {g : Grain} {text : String} {n : Nat}

def flag : Grain → String
  | lines => "-n"
  | characters => "-c"

def pieces (g : Grain) (text : String) : List (List Char) :=
  match g with
  | lines => (Text.lines text.toList).map Line.text
  | characters => text.toList.map ([·])

def count (g : Grain) (text : String) : Nat := (g.pieces text).length

def cut (g : Grain) (e : End) (n : Nat) (text : String) : String :=
  match g with
  | lines => cutLines e n text
  | characters => cutChars e n text

theorem count_lines (text : String) : Grain.lines.count text = (lineBodies text).length := by
  rw [count, pieces, List.length_map, lineBodies, List.length_map]

theorem count_characters (text : String) : Grain.characters.count text = text.length := by
  rw [count, pieces, List.length_map, String.length_toList]

theorem toList_cut (g : Grain) (e : End) (n : Nat) (text : String) :
    (g.cut e n text).toList = (e.keep n (g.pieces text)).flatten := by
  cases g with
  | lines =>
    rw [cut, cutLines, String.toList_ofList, pieces, End.keep_map, List.flatMap_def]
  | characters =>
    rw [cut, cutChars, String.toList_ofList, pieces, End.keep_map, ← List.flatMap_def,
      List.flatMap_singleton']

theorem flatten_pieces (g : Grain) (text : String) : (g.pieces text).flatten = text.toList := by
  cases g with
  | lines => exact List.flatMap_def.symm.trans (flatMap_text_lines text.toList)
  | characters => exact List.flatMap_def.symm.trans (List.flatMap_singleton' text.toList)

theorem pieces_cut (g : Grain) (e : End) (n : Nat) (text : String) :
    g.pieces (g.cut e n text) = e.keep n (g.pieces text) := by
  cases g with
  | lines =>
    have hkept : Text.lines ((e.keep n (Text.lines text.toList)).flatMap Line.text) =
        e.keep n (Text.lines text.toList) := by
      cases e with
      | first => exact lines_take text.toList n
      | last => exact lines_drop text.toList _
    rw [cut, cutLines, pieces, String.toList_ofList, hkept, pieces, End.keep_map]
  | characters => rw [cut, cutChars, pieces, String.toList_ofList, pieces, End.keep_map]

theorem count_cut (g : Grain) (e : End) (n : Nat) (text : String) :
    g.count (g.cut e n text) = min n (g.count text) := by
  rw [count, pieces_cut, End.length_keep, count]

theorem cut_of_le (e : End) (h : g.count text ≤ n) : g.cut e n text = text := by
  rw [← String.toList_inj, toList_cut, End.keep_of_le e h, flatten_pieces]

theorem cut_append_cut {k m : Nat} (h : k + m = g.count text) :
    g.cut .first k text ++ g.cut .last m text = text := by
  rw [← String.toList_inj, String.toList_append, toList_cut, toList_cut, ← List.flatten_append,
    End.keep_append_keep h, flatten_pieces]

end Grain

/-- Whether the flags of a command ask for a number of pieces: of characters if their flag is set, else
of lines, and of ten lines if no flag is. -/
def Asks (c : Context) (g : Grain) (n : Nat) : Prop :=
  match g with
  | .lines => c.flags.value? "bytes" = none ∧
      (c.flags.value? "lines" = none ∧ n = 10 ∨
        ∃ raw, c.flags.value? "lines" = some raw ∧ Number.readInt? raw = some (n : Int))
  | .characters => ∃ raw, c.flags.value? "bytes" = some raw ∧ Number.readInt? raw = some (n : Int)

/-- A numeral behind the flag asks for its number. -/
theorem exists_asks (g : Grain) {n : Nat} (h : (Nat.toDigits 10 n).length ≤ Number.maxDigits) :
    ∃ flags, Flags.read Catalogue.rangeFlags [g.flag, toString n] = .ok (flags, []) ∧
      ∀ c : Context, c.flags = flags → Asks c g n := by
  have hread := Number.readInt?_toString h
  cases g with
  | lines =>
    refine ⟨[("lines", .value (some (toString n))), ("bytes", .value none)], rfl, fun c hc => ?_⟩
    rw [Asks, hc]
    exact ⟨rfl, .inr ⟨toString n, rfl, hread⟩⟩
  | characters =>
    refine ⟨[("lines", .value none), ("bytes", .value (some (toString n)))], rfl, fun c hc => ?_⟩
    rw [Asks, hc]
    exact ⟨toString n, rfl, hread⟩

theorem countFlag_of_value {c : Context} {flag raw : String} {n : Nat}
    (h : c.flags.value? flag = some raw) (hread : Number.readInt? raw = some (n : Int)) :
    countFlag c flag = .ok (some n) := by
  unfold countFlag
  simp only [h, hread]

theorem cutter_of_asks {c : Context} {g : Grain} {n : Nat} (h : Asks c g n) (e : End) :
    cutter c e = .ok (g.cut e n) := by
  cases g with
  | lines =>
    obtain ⟨hbytes, ⟨hlines, rfl⟩ | ⟨raw, hlines, hread⟩⟩ := h
    · have hcount : countFlag c "lines" = .ok none := by unfold countFlag; rw [hlines]
      unfold cutter
      simp only [hbytes, hcount]
      rfl
    · unfold cutter
      simp only [hbytes, countFlag_of_value hlines hread]
      rfl
  | characters =>
    obtain ⟨raw, hbytes, hread⟩ := h
    unfold cutter
    simp only [hbytes, countFlag_of_value hbytes hread]
    rfl

theorem run_cutSources {c : Context} {s : Shell} {g : Grain} {n : Nat} {text : String}
    (h : Asks c g n) (hread : Reads c s [text]) (e : End) :
    (e.command.run c).run s = (.ok (.text (g.cut e n text)), s) := by
  obtain ⟨sources, hrun, htexts⟩ := run_checkedSources hread
  obtain ⟨source, rfl, rfl⟩ := exists_source htexts
  have hcommand : e.command.run c = cutSources c e := by cases e <;> rfl
  rw [hcommand, cutSources, Work.run_bind, Work.run_lift, cutter_of_asks h]
  dsimp only
  rw [Work.run_bind, hrun]
  rfl

/-- A text falls into its lines, with their endings, or into its characters. For every number of them
the one command gives so many from the front, or as many as there are, and the other one so many from
the end. Where both numbers make up that of the text, both answers make up the text; a number that is
not less than that of the text gives all of it. -/
theorem front_append_back (g : Grain) (text : String) :
    (∀ (e : End) (n : Nat) (c : Context) (s : Shell), Asks c g n → Reads c s [text] →
      (e.command.run c).run s = (.ok (.text (g.cut e n text)), s)) ∧
    (∀ k m, k + m = g.count text →
      g.cut .first k text ++ g.cut .last m text = text ∧
      g.count (g.cut .first k text) = k ∧ g.count (g.cut .last m text) = m) ∧
    (∀ e n, g.count text ≤ n → g.cut e n text = text) ∧
    (Grain.lines.count text = (lineBodies text).length ∧
      Grain.characters.count text = text.length) ∧
    ∀ n, (Nat.toDigits 10 n).length ≤ Number.maxDigits →
      ∃ flags, Flags.read Catalogue.rangeFlags [g.flag, toString n] = .ok (flags, []) ∧
        ∀ c : Context, c.flags = flags → Asks c g n := by
  refine ⟨fun e n c s hasks hread => run_cutSources hasks hread e, fun k m h => ?_,
    fun e n h => g.cut_of_le e h, ⟨Grain.count_lines text, Grain.count_characters text⟩,
    fun n h => exists_asks g h⟩
  have hk : min k (g.count text) = k := by omega
  have hm : min m (g.count text) = m := by omega
  exact ⟨Grain.cut_append_cut h, (g.count_cut .first k text).trans hk,
    (g.count_cut .last m text).trans hm⟩

def mixed : Shell := (Shell.bare []).withFile "/t" "a\r\nb\u2028\nc"

def cutMixed (flags : Flags) : Context :=
  { Context.ofRoot "cut" ["/t"] with flags, paths := [⟨"/t", ["t"], none⟩] }

theorem reads_mixed (flags : Flags) : Reads (cutMixed flags) mixed ["a\r\nb\u2028\nc"] := by
  have hread : mixed.files.readText (mixed.actor rootUser) (Place.text ["t"]) =
      .ok "a\r\nb\u2028\nc" := by decide +kernel
  exact .cons hread .nil

/-- One line from the front and three from the end, five characters from the front and two from the end,
and ten of four lines. -/
theorem front_append_back_mixed :
    (∃ front back,
      (Builtin.head.run (cutMixed [("lines", .value (some "1"))])).run mixed =
        (.ok (.text front), mixed) ∧
      (Builtin.tail.run (cutMixed [("lines", .value (some " +3 "))])).run mixed =
        (.ok (.text back), mixed) ∧
      front ++ back = "a\r\nb\u2028\nc") ∧
    (∃ front back,
      (Builtin.head.run (cutMixed [("bytes", .value (some "5"))])).run mixed =
        (.ok (.text front), mixed) ∧
      (Builtin.tail.run (cutMixed [("bytes", .value (some "2"))])).run mixed =
        (.ok (.text back), mixed) ∧
      front ++ back = "a\r\nb\u2028\nc") ∧
    (Builtin.tail.run (cutMixed [])).run mixed = (.ok (.text "a\r\nb\u2028\nc"), mixed) := by
  obtain ⟨hrun, hsplit, hall, -⟩ := front_append_back .lines "a\r\nb\u2028\nc"
  obtain ⟨hrun', hsplit', -⟩ := front_append_back .characters "a\r\nb\u2028\nc"
  have hread (flags : Flags) := reads_mixed flags
  refine ⟨⟨_, _, hrun .first 1 _ _ ⟨rfl, .inr ⟨"1", rfl, by decide +kernel⟩⟩ (hread _),
      hrun .last 3 _ _ ⟨rfl, .inr ⟨" +3 ", rfl, by decide +kernel⟩⟩ (hread _),
      (hsplit 1 3 (by decide +kernel)).1⟩,
    ⟨_, _, hrun' .first 5 _ _ ⟨"5", rfl, by decide +kernel⟩ (hread _),
      hrun' .last 2 _ _ ⟨"2", rfl, by decide +kernel⟩ (hread _),
      (hsplit' 5 2 (by decide +kernel)).1⟩, ?_⟩
  have hten := hrun .last 10 _ _ ⟨rfl, .inl ⟨rfl, rfl⟩⟩ (hread [])
  rwa [hall .last 10 (by decide +kernel)] at hten

end MemShell.Builtins
