set_option autoImplicit false

namespace MemShell.Text

/-- The separators of words: controls used as separators, and every space of the character set. -/
def isBlank (c : Char) : Bool :=
  let n := c.toNat
  (9 ≤ n && n ≤ 13) || (28 ≤ n && n ≤ 32) || n == 0x85 || n == 0xA0 || n == 0x1680 ||
    (0x2000 ≤ n && n ≤ 0x200A) || n == 0x2028 || n == 0x2029 || n == 0x202F || n == 0x205F ||
    n == 0x3000

def isLineBreak (c : Char) : Bool :=
  let n := c.toNat
  (10 ≤ n && n ≤ 13) || (28 ≤ n && n ≤ 30) || n == 0x85 || n == 0x2028 || n == 0x2029

theorem isBlank_of_isLineBreak (c : Char) (h : isLineBreak c = true) : isBlank c = true := by
  simp only [isLineBreak, isBlank, Bool.or_eq_true, Bool.and_eq_true, decide_eq_true_eq,
    beq_iff_eq] at h ⊢
  omega

def trimStart (s : List Char) : List Char := s.dropWhile isBlank

def trimEnd (s : List Char) : List Char := (s.reverse.dropWhile isBlank).reverse

def trim (s : List Char) : List Char := trimEnd (trimStart s)

def firstWord (s : List Char) : List Char × List Char :=
  let t := trimStart s
  (t.takeWhile (!isBlank ·), trimStart (t.dropWhile (!isBlank ·)))

/-- Puts one character in front of a list of words: a blank closes a word, and opens none. -/
def pushWord (c : Char) (closed : Bool) : List (List Char) → List (List Char)
  | [] => [[c]]
  | w :: ws => if closed then [c] :: w :: ws else (c :: w) :: ws

def words (s : List Char) : List (List Char) :=
  (s.foldr (fun c (closed, ws) => if isBlank c then (true, ws) else (false, pushWord c closed ws))
    (true, [])).2

structure Line where
  body : List Char
  ending : List Char
deriving DecidableEq, Repr

def Line.text (l : Line) : List Char := l.body ++ l.ending

/-- Carriage return and line feed end a line together; the last line may have no ending. -/
def lines : List Char → List Line
  | [] => []
  | '\r' :: '\n' :: rest => ⟨[], ['\r', '\n']⟩ :: lines rest
  | c :: rest =>
    if isLineBreak c then ⟨[], [c]⟩ :: lines rest
    else match lines rest with
      | [] => [⟨[c], []⟩]
      | l :: ls => ⟨c :: l.body, l.ending⟩ :: ls

theorem flatMap_text_lines (s : List Char) : (lines s).flatMap Line.text = s := by
  fun_induction lines s with
  | case1 => rfl
  | case2 rest ih => simp [Line.text, ih]
  | case3 c rest _ h ih => simp [Line.text, ih]
  | case4 c rest _ h hl ih => simp [hl] at ih; simp [Line.text, ← ih]
  | case5 c rest _ h l ls hl ih => simp [hl] at ih; simp [Line.text, ← ih]

def strip (s : String) : String := String.ofList (trim s.toList)

def wordsOf (s : String) : List String := (words s.toList).map String.ofList

def lineBodies (s : String) : List String := (lines s.toList).map fun l => String.ofList l.body

def isBlankText (s : String) : Bool := s.toList.all isBlank

/-- One final line feed is overlooked where a whole text is tested. -/
def dropFinalNewline (s : List Char) : List Char :=
  if s.getLast? = some '\n' then s.dropLast else s

end MemShell.Text
