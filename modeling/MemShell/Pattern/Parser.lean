import MemShell.Pattern.Source
import MemShell.Pattern.Width
import MemShell.Number.Numeral
import MemShell.Table
import MemShell.Text.Literal
import MemShell.Text.WordChar
set_option autoImplicit false

/-!
# Reading patterns

A pattern is alternatives of sequences of parts, and parts may be repeated. The reader keeps the
groups met so far: a group may be referred to once it is closed. Each step uses up a symbol or leaves
a part, so a bound on the number of steps never cuts a reading short.
-/
namespace MemShell.Pattern
open MemShell.Text MemShell.Number

inductive Setting where
  | ignoreCase | multiline | dotAll | verbose | ascii | unicode | locale | template
deriving DecidableEq, Repr

namespace Setting

def ofLetter? : Char → Option Setting
  | 'i' => some .ignoreCase
  | 'm' => some .multiline
  | 's' => some .dotAll
  | 'x' => some .verbose
  | 'a' => some .ascii
  | 'u' => some .unicode
  | 'L' => some .locale
  | 't' => some .template
  | _ => none

def ofSymbol? : List Char → Option Setting
  | [c] => ofLetter? c
  | _ => none

def isScript (s : Setting) : Bool := s = .ascii || s = .unicode || s = .locale

end Setting

abbrev Settings := List Setting

namespace Settings

def change (s : Settings) (on off : List Setting) : Settings :=
  let kept := if on.any Setting.isScript then s.filter (!·.isScript) else s
  (kept ++ on).filter (!off.contains ·)

def fold (s : Settings) : Fold :=
  if !s.contains .ignoreCase then .exact else if s.contains .ascii then .ascii else .full

def isAscii (s : Settings) : Bool := s.contains .ascii

end Settings

structure Progress where
  source : Source
  settings : Settings
  names : Table String Nat := []
  /-- The widths of the groups, by number; a group that is open has none yet. -/
  widths : List (Option Width) := []
  /-- Within a look behind, the number of groups in front of it. -/
  groupsBefore : Option Nat := none
  /-- Groups that conditions ask about, each with the place of the first question. -/
  asked : List (Nat × Nat) := []

abbrev Reader := StateT Progress (Except PatternFault)

namespace Reader

def failAt {α : Type} (place : Nat) (text : String) : Reader α :=
  throw (.invalid text (some place))

def fail {α : Type} (text : String) (back : Nat := 0) : Reader α := do
  failAt ((← get).source.place - back) text

def next? : Reader (Option (List Char)) := do return (← get).source.next?

def nextChar? : Reader (Option Char) := do return (← get).source.nextChar?

def place : Reader Nat := do return (← get).source.place

def advance : Reader Unit := do
  let p ← get
  let source ← p.source.advance
  set { p with source }

def take : Reader (Option (List Char)) := do
  let t ← next?
  advance
  return t

def eat (c : Char) : Reader Bool := do
  if (← nextChar?) = some c then
    advance
    return true
  else return false

def takeSome (ok : Char → Bool) : Nat → Reader (List Char)
  | 0 => return []
  | n + 1 => do
    match ← nextChar? with
    | some c =>
      if ok c then do
        advance
        return c :: (← takeSome ok n)
      else return []
    | none => return []

def symbolsLeft : Reader Nat := do return (← get).source.rest.length

def takeAll (ok : Char → Bool) : Reader (List Char) := do takeSome ok (← symbolsLeft)

def takeNameFrom (final : Char) (what : String) : Nat → List Char → Reader (List Char)
  | 0, name => return name
  | n + 1, name => do
    match ← take with
    | none =>
      if name.isEmpty then fail ("missing " ++ what)
      else fail ("missing " ++ final.toString ++ ", unterminated name") name.length
    | some t =>
      if t = [final] then
        if name.isEmpty then fail ("missing " ++ what) 1 else return name
      else takeNameFrom final what n (name ++ t)

def takeName (final : Char) (what : String) : Reader String := do
  return String.ofList (← takeNameFrom final what ((← symbolsLeft) + 1) [])

end Reader
open Reader

/-! ## Names and numbers -/

def isNameStart (c : Char) : Bool := c = '_' || (isWordChar c && !isDigit c)

def isGroupName (s : String) : Bool :=
  match s.toList with
  | [] => false
  | c :: cs => isNameStart c && cs.all isWordChar

def isLetter (t : List Char) : Bool :=
  match t with
  | [c] => c ≠ '_' && isNameStart c
  | _ => false

def isAsciiLetter (c : Char) : Bool := c.isAlpha

def isAsciiDigit (c : Char) : Bool := c.isDigit

def isOctal (c : Char) : Bool := '0' ≤ c && c ≤ '7'

def isHex (c : Char) : Bool :=
  c.isDigit || ('a' ≤ c && c ≤ 'f') || ('A' ≤ c && c ≤ 'F')

def hexDigit (c : Char) : Nat :=
  if c.isDigit then c.toNat - 48 else if 'a' ≤ c then c.toNat - 87 else c.toNat - 55

def inBase (base : Nat) (ds : List Char) : Nat := ds.foldl (fun n c => base * n + hexDigit c) 0

/-! ## Escapes -/

def badEscape {α : Type} (t : List Char) : Reader α := fail ("bad escape " ++ String.ofList t) t.length

def hexEscape (t : List Char) (count : Nat) : Reader Nat := do
  let ds ← takeSome isHex count
  if ds.length ≠ count then
    fail ("incomplete escape " ++ String.ofList (t ++ ds)) (t ++ ds).length
  else if 0x10FFFF < inBase 16 ds then badEscape (t ++ ds)
  else return inBase 16 ds

/-- Characters have numbers here and no names. -/
def namedEscape : Reader Nat := do
  if ← eat '\x7b' then
    let name ← takeName '\x7d' "character name"
    fail ("undefined character name " ++ literal name) (name.length + 4)
  else fail "missing \x7b"

def octalEscape (t : List Char) : Reader Nat := do
  let value := inBase 8 (t.drop 1)
  if 0o377 < value then
    fail ("octal escape value " ++ String.ofList t ++ " outside of range 0-0o377") t.length
  else return value

def controlEscape? : Char → Option Nat
  | 'a' => some 7
  | 'b' => some 8
  | 'f' => some 12
  | 'n' => some 10
  | 'r' => some 13
  | 't' => some 9
  | 'v' => some 11
  | '\\' => some 92
  | _ => none

def classEscape? (ascii : Bool) : Char → Option SetItem
  | 'd' => some (.kind .digit false ascii)
  | 'D' => some (.kind .digit true ascii)
  | 's' => some (.kind .space false ascii)
  | 'S' => some (.kind .space true ascii)
  | 'w' => some (.kind .word false ascii)
  | 'W' => some (.kind .word true ascii)
  | _ => none

def edgeEscape? (ascii : Bool) : Char → Option Edge
  | 'A' => some .textStart
  | 'Z' => some .textEnd
  | 'b' => some (.boundary false ascii)
  | 'B' => some (.boundary true ascii)
  | _ => none

def charEscape (c : Char) : Reader Nat := do
  let t := ['\\', c]
  match c with
  | 'x' => hexEscape t 2
  | 'u' => hexEscape t 4
  | 'U' => hexEscape t 8
  | 'N' => namedEscape
  | _ =>
    if isOctal c then octalEscape (t ++ (← takeSome isOctal 2))
    else if isAsciiDigit c || isAsciiLetter c then badEscape t
    else return c.toNat

def setEscape (ascii : Bool) (c : Char) : Reader SetItem := do
  match controlEscape? c, classEscape? ascii c with
  | some n, _ => return .char n
  | none, some item => return item
  | none, none => return .char (← charEscape c)

/-! ## Groups -/

def groupWidth? (p : Progress) (number : Nat) : Option Width := (p.widths[number - 1]?).join

/-- Whether a group is closed; no group has the number zero. -/
def isClosed (p : Progress) (number : Nat) : Bool := number ≠ 0 && (groupWidth? p number).isSome

/-- Within a look behind only groups in front of it may be referred to. -/
def checkBehind (number : Nat) : Reader Unit := do
  let p ← get
  match p.groupsBefore with
  | none => return ()
  | some count =>
    if !isClosed p number then fail "cannot refer to an open group"
    else if count < number then
      fail "cannot refer to group defined in the same lookbehind subpattern"
    else return ()

def openGroup (name : Option String) : Reader Nat := do
  let p ← get
  let number := p.widths.length + 1
  match name with
  | none => set { p with widths := p.widths ++ [none] }
  | some n =>
    match p.names.get? n with
    | some old =>
      fail ("redefinition of group name " ++ literal n ++ " as group " ++ toString number ++
        "; was group " ++ toString old) (n.length + 1)
    | none => set { p with widths := p.widths ++ [none], names := p.names.put n number }
  return number

def widthsOf (p : Progress) (number : Nat) : Width := (groupWidth? p number).getD .empty

def closeGroup (number : Nat) (part : Pattern) : Reader Unit :=
  modify fun p => { p with widths := p.widths.set (number - 1) (some (part.width (widthsOf p))) }

def checkName (name : String) : Reader Unit := do
  if isGroupName name then return ()
  else fail ("bad character in group name " ++ literal name) (name.length + 1)

def numberOf (name : String) : Reader Nat := do
  match (← get).names.get? name with
  | some number => return number
  | none => fail ("unknown group name " ++ literal name) (name.length + 1)

def namedReference (settings : Settings) : Reader Pattern := do
  let name ← takeName ')' "group name"
  checkName name
  let number ← numberOf name
  if !isClosed (← get) number then fail "cannot refer to an open group" (name.length + 1)
  checkBehind number
  return .sameAs settings.fold number

/-- A number behind a backslash: a group, or a character if it has three octal digits. -/
def numberEscape (settings : Settings) (c : Char) : Reader Pattern := do
  let second ← takeSome isAsciiDigit 1
  let third ← if isOctal c && !second.isEmpty && second.all isOctal then takeSome isOctal 1 else pure []
  let t := '\\' :: c :: second ++ third
  if !third.isEmpty then return .char settings.fold (← octalEscape t)
  else
    let number := inBase 10 (c :: second)
    let p ← get
    if p.widths.length < number then
      fail ("invalid group reference " ++ toString number) (t.length - 1)
    else if !isClosed p number then fail "cannot refer to an open group" t.length
    else
      checkBehind number
      return .sameAs settings.fold number

def escape (settings : Settings) (c : Char) : Reader Pattern := do
  let ascii := settings.isAscii
  match edgeEscape? ascii c, classEscape? ascii c, controlEscape? c with
  | some a, _, _ => return .edge a
  | none, some item, _ => return .oneOf settings.fold false [item]
  | none, none, some n => return .char settings.fold n
  | none, none, none =>
    if c = '0' then
      return .char settings.fold (inBase 8 (← takeSome isOctal 2))
    else if isAsciiDigit c then numberEscape settings c
    else return .char settings.fold (← charEscape c)

/-! ## Sets -/

def setItem (ascii : Bool) (t : List Char) : Reader SetItem :=
  match t with
  | ['\\', c] => setEscape ascii c
  | c :: _ => return .char c.toNat
  | [] => return .char 0

def badRange {α : Type} (first last : List Char) : Reader α :=
  fail ("bad character range " ++ String.ofList first ++ "-" ++ String.ofList last)
    (first.length + 1 + last.length)

def setItems (start : Nat) (ascii : Bool) : Nat → List SetItem → Reader (List SetItem)
  | 0, items => return items
  | n + 1, items => do
    match ← take with
    | none => failAt start "unterminated character set"
    | some t =>
      if t = [']'] && !items.isEmpty then return items
      else
        let item ← setItem ascii t
        if ← eat '-' then
          match ← take with
          | none => failAt start "unterminated character set"
          | some [']'] => return items ++ [item, .char '-'.toNat]
          | some t' =>
            match item, ← setItem ascii t' with
            | .char lo, .char hi =>
              if hi < lo then badRange t t' else setItems start ascii n (items ++ [.range lo hi])
            | _, _ => badRange t t'
        else setItems start ascii n (items ++ [item])

def charSet (settings : Settings) : Reader Pattern := do
  let start := (← place) - 1
  let inverted ← eat '^'
  let items ← setItems start settings.isAscii ((← symbolsLeft) + 1) []
  match items.eraseDups with
  | [.char c] => return if inverted then .notChar settings.fold c else .char settings.fold c
  | distinct => return .oneOf settings.fold inverted distinct

/-! ## Repetition -/

/-- Counts of this size are not counted. -/
def countLimit : Nat := 0xFFFFFFFF

def countOf (ds : List Char) : Reader (Option Nat) :=
  if ds.isEmpty then return none
  else if countLimit ≤ inBase 10 ds then throw .countTooLarge
  else return some (inBase 10 ds)

def bracedCounts : Reader (Option (Nat × Option Nat)) := do
  let start ← get
  if (← nextChar?) = some '\x7d' then return none
  else
    let lo ← takeAll isAsciiDigit
    let hi ← if ← eat ',' then takeAll isAsciiDigit else pure lo
    if ← eat '\x7d' then
      let least ← countOf lo
      let most ← countOf hi
      match most with
      | some m =>
        if m < least.getD 0 then
          failAt start.source.place "min repeat greater than max repeat"
        else return some (least.getD 0, most)
      | none => return some (least.getD 0, most)
    else
      set start
      return none

def counts (c : Char) : Reader (Option (Nat × Option Nat)) :=
  match c with
  | '?' => return some (0, some 1)
  | '*' => return some (0, none)
  | '+' => return some (1, none)
  | _ => bracedCounts

/-- A part of a sequence. A plain group is kept together only until it has been repeated. -/
inductive Part where
  | one (p : Pattern)
  | bundle (ps : List Pattern)

def Part.unpack : Part → List Pattern
  | .one p => [p]
  | .bundle ps => ps

def greedMark : Reader Greed := do
  match ← nextChar? with
  | some '?' =>
    advance
    return .lazy
  | some '+' =>
    advance
    return .possessive
  | _ => return .greedy

def repeatLast (place : Nat) (least : Nat) (most : Option Nat) : List Part → Reader (List Part)
  | [] => failAt place "nothing to repeat"
  | .one (.edge _) :: _ => failAt place "nothing to repeat"
  | .one (.many ..) :: _ => failAt place "multiple repeat"
  | last :: parts => do
    return .one (.many (← greedMark) least most (.seq last.unpack)) :: parts

/-! ## Alternatives -/

/-- Whether both are the same part and match one text at most at any place. -/
def sameLeaf : Pattern → Pattern → Bool
  | .char f c, .char f' c' | .notChar f c, .notChar f' c' => f = f' && c = c'
  | .any a, .any b => a = b
  | .oneOf f i items, .oneOf f' i' items' => f = f' && i = i' && items = items'
  | .edge a, .edge b => a = b
  | .sameAs f n, .sameAs f' n' => f = f' && n = n'
  | _, _ => false

/-- Divides what alternatives have in common at their beginning from the rest of each. -/
def sharedStart : List Pattern → List (List Pattern) → List Pattern × List (List Pattern)
  | [], others => ([], [] :: others)
  | p :: ps, others =>
    if sameLeaf p p && others.all (fun o => o.head?.any (sameLeaf p)) then
      let (shared, rest) := sharedStart ps (others.map List.tail)
      (p :: shared, rest)
    else ([], (p :: ps) :: others)

def asSetItems : List Pattern → Option (List SetItem)
  | [.char _ c] => some [.char c]
  | [.oneOf _ false items] => some items
  | _ => none

def joinAlternatives (fold : Fold) : List (List Pattern) → List Pattern
  | [] => []
  | [only] => only
  | first :: others =>
    let (shared, rest) := sharedStart first others
    match rest.mapM asSetItems with
    | some sets => shared ++ [.oneOf fold false sets.flatten.eraseDups]
    | none => shared ++ [.either (rest.map .seq)]

/-! ## Settings inside of a pattern -/

def unknownSetting {α : Type} (t : List Char) (expected : String) : Reader α :=
  fail (if isLetter t then "unknown flag" else "missing " ++ expected) t.length

def settingsOn : Nat → List Setting → Setting → Reader (List Setting × Char)
  | 0, on, _ => return (on, ')')
  | n + 1, on, s => do
    if s = .locale then fail "bad inline flags: cannot use 'L' flag with a str pattern"
    let on := on ++ [s]
    if s.isScript && on.any (fun o => o.isScript && o ≠ s) then
      fail "bad inline flags: flags 'a', 'u' and 'L' are incompatible"
    match ← take with
    | none => fail "missing -, : or )"
    | some t =>
      match t, Setting.ofSymbol? t with
      | [')'], _ => return (on, ')')
      | ['-'], _ => return (on, '-')
      | [':'], _ => return (on, ':')
      | _, some s => settingsOn n on s
      | _, none => unknownSetting t "-, : or )"

def settingsOff : Nat → List Setting → Setting → Reader (List Setting)
  | 0, off, _ => return off
  | n + 1, off, s => do
    if s.isScript then fail "bad inline flags: cannot turn off flags 'a', 'u' and 'L'"
    let off := off ++ [s]
    match ← take with
    | none => fail "missing :"
    | some t =>
      match t, Setting.ofSymbol? t with
      | [':'], _ => return off
      | _, some s => settingsOff n off s
      | _, none => unknownSetting t ":"

def groupSettings (first : List Char) : Reader (Option (List Setting × List Setting)) := do
  let (on, final) ←
    match Setting.ofSymbol? first with
    | some s => settingsOn ((← symbolsLeft) + 1) [] s
    | none => pure ([], '-')
  if final = ')' then
    modify fun p => { p with settings := p.settings ++ on }
    return none
  else
    if on.contains .template then fail "bad inline flags: cannot turn on global flag" 1
    let off ←
      if final = '-' then
        match ← take with
        | none => fail "missing flag"
        | some t =>
          match Setting.ofSymbol? t with
          | some s => settingsOff ((← symbolsLeft) + 1) [] s
          | none => unknownSetting t "flag"
      else pure []
    if off.contains .template then fail "bad inline flags: cannot turn off global flag" 1
    if on.any off.contains then fail "bad inline flags: flag turned on and off" 1
    return some (on, off)

/-! ## Conditions and comments -/

def skipComment (start : Nat) : Nat → Reader Unit
  | 0 => return ()
  | n + 1 => do
    match ← next? with
    | none => failAt start "missing ), unterminated comment"
    | some t =>
      advance
      if t = [')'] then return () else skipComment start n

def skipLine : Nat → Reader Unit
  | 0 => return ()
  | n + 1 => do
    match ← take with
    | none => return ()
    | some t => if t = ['\n'] then return () else skipLine n

def conditionGroup : Reader Nat := do
  let name ← takeName ')' "group name"
  let number ←
    if isGroupName name then numberOf name
    else
      match readInt? name with
      | some (.ofNat 0) => fail "bad group number" (name.length + 1)
      | some (.ofNat number) => do
        let at' := (← place) - name.length - 1
        modify fun p =>
          if p.asked.any (·.1 = number) then p else { p with asked := p.asked ++ [(number, at')] }
        pure number
      | _ => fail ("bad character in group name " ++ literal name) (name.length + 1)
  checkBehind number
  return number

def closeBracket (start : Nat) : Reader Unit := do
  if ← eat ')' then return () else failAt start "missing ), unterminated subpattern"

def unexpectedEnd {α : Type} : Reader α := fail "unexpected end of pattern"

/-! ## Sequences and groups -/

inductive Level where
  | first | later | inner
deriving DecidableEq

def skipsBlank (settings : Settings) (t : List Char) : Bool :=
  settings.contains .verbose && [[' '], ['\t'], ['\n'], ['\r'], ['\x0b'], ['\x0c']].contains t

mutual

def sequence (steps : Nat) (settings : Settings) (level : Level) (parts : List Part) :
    Reader (List Pattern) :=
  match steps with
  | 0 => return parts.reverse.flatMap Part.unpack
  | n + 1 => do
    match ← next? with
    | none | some ['|'] | some [')'] => return parts.reverse.flatMap Part.unpack
    | some t => do
      let start ← place
      advance
      if skipsBlank settings t then sequence n settings level parts
      else if settings.contains .verbose && t = ['#'] then do
        skipLine ((← symbolsLeft) + 1)
        sequence n settings level parts
      else
        match t with
        | ['\\', c] => do
          let p ← escape settings c
          sequence n settings level (.one p :: parts)
        | ['['] => do
          let p ← charSet settings
          sequence n settings level (.one p :: parts)
        | ['.'] => sequence n settings level (.one (.any (settings.contains .dotAll)) :: parts)
        | ['^'] =>
          let a := if settings.contains .multiline then .lineStart else .textStart
          sequence n settings level (.one (.edge a) :: parts)
        | ['$'] =>
          let a := if settings.contains .multiline then .lineEnd else .lastLineEnd
          sequence n settings level (.one (.edge a) :: parts)
        | ['('] => do
          match ← bracket n settings (level = .first && parts.isEmpty) start with
          | some part => sequence n settings level (part :: parts)
          | none =>
            let outer := (← get).settings
            sequence n (if level = .inner then settings else outer) level parts
        | [c] =>
          if c = '?' || c = '*' || c = '+' || c = '\x7b' then do
            match ← counts c with
            | some (least, most) => do
              let parts ← repeatLast start least most parts
              sequence n settings level parts
            | none => sequence n settings level (.one (.char settings.fold c.toNat) :: parts)
          else sequence n settings level (.one (.char settings.fold c.toNat) :: parts)
        | _ => sequence n settings level parts
termination_by structural steps

def alternatives (steps : Nat) (settings : Settings) (level : Level) :
    Reader (List (List Pattern)) :=
  match steps with
  | 0 => return []
  | n + 1 => do
    let ps ← sequence n settings level []
    if ← eat '|' then do
      if level = .inner then return ps :: (← alternatives n settings .inner)
      else return ps :: (← alternatives n (← get).settings .later)
    else return [ps]
termination_by structural steps

def bracket (steps : Nat) (settings : Settings) (atStart : Bool) (start : Nat) :
    Reader (Option Part) :=
  match steps with
  | 0 => return none
  | n + 1 => do
    if !(← eat '?') then some <$> numbered n settings none start
    else
      match ← take with
      | none => unexpectedEnd
      | some ['P'] =>
        if ← eat '<' then do
          let name ← takeName '>' "group name"
          checkName name
          some <$> numbered n settings (some name) start
        else if ← eat '=' then return some (.one (← namedReference settings))
        else
          match ← take with
          | none => unexpectedEnd
          | some t => fail ("unknown extension ?P" ++ String.ofList t) (t.length + 2)
      | some [':'] => do
        let ps ← inside n settings start
        return some (.bundle ps)
      | some ['#'] => do
        skipComment start ((← symbolsLeft) + 1)
        return none
      | some ['='] => some <$> looking n settings .ahead false start
      | some ['!'] => some <$> looking n settings .ahead true start
      | some ['<'] => do
        match ← take with
        | none => unexpectedEnd
        | some ['='] => some <$> looking n settings (.behind 0) false start
        | some ['!'] => some <$> looking n settings (.behind 0) true start
        | some t => fail ("unknown extension ?<" ++ String.ofList t) (t.length + 2)
      | some ['('] => some <$> condition n settings start
      | some ['>'] => do
        let ps ← inside n settings start
        return some (.one (.atomic (.seq ps)))
      | some t =>
        if t = ['-'] || (Setting.ofSymbol? t).isSome then do
          match ← groupSettings t with
          | none =>
            if atStart then return none
            else failAt start "global flags not at the start of the expression"
          | some (on, off) => do
            let ps ← inside n (settings.change on off) start
            return some (if on.isEmpty && off.isEmpty then .bundle ps else .one (.seq ps))
        else fail ("unknown extension ?" ++ String.ofList t) (t.length + 1)
termination_by structural steps

def inside (steps : Nat) (settings : Settings) (start : Nat) : Reader (List Pattern) :=
  match steps with
  | 0 => return []
  | n + 1 => do
    let ps ← alternatives n settings .inner
    closeBracket start
    return joinAlternatives settings.fold ps
termination_by structural steps

def numbered (steps : Nat) (settings : Settings) (name : Option String) (start : Nat) :
    Reader Part :=
  match steps with
  | 0 => return .bundle []
  | n + 1 => do
    let number ← openGroup name
    let ps ← inside n settings start
    closeGroup number (.seq ps)
    return .one (.group number (.seq ps))
termination_by structural steps

def looking (steps : Nat) (settings : Settings) (side : Side) (inverted : Bool) (start : Nat) :
    Reader Part :=
  match steps with
  | 0 => return .bundle []
  | n + 1 => do
    let before := (← get).groupsBefore
    if side ≠ .ahead && before.isNone then
      modify fun p => { p with groupsBefore := some p.widths.length }
    let ps ← alternatives n settings .inner
    modify fun p => { p with groupsBefore := before }
    closeBracket start
    let part : Pattern := .seq (joinAlternatives settings.fold ps)
    let p ← get
    let side := if side = .ahead then side else .behind (part.width (widthsOf p)).least
    return .one (.look side inverted part)
termination_by structural steps

def condition (steps : Nat) (settings : Settings) (start : Nat) : Reader Part :=
  match steps with
  | 0 => return .bundle []
  | n + 1 => do
    let number ← conditionGroup
    let yes ← sequence n settings .inner []
    let no ← if ← eat '|' then sequence n settings .inner [] else pure []
    if (← nextChar?) = some '|' then
      fail "conditional backref with more than two branches"
    closeBracket start
    return .one (.ifMatched number (.seq yes) (.seq no))
termination_by structural steps

end

/-! ## Whole patterns -/

def unknownAsked (p : Progress) : Option (Nat × Nat) := p.asked.find? (p.widths.length < ·.1)

def whole (steps : Nat) : Reader Pattern := do
  let settings := (← get).settings
  let options ← alternatives steps settings .first
  let p ← get
  let part : Pattern := .seq (joinAlternatives p.settings.fold options)
  if p.settings.contains .ascii && p.settings.contains .unicode then throw .clashingSettings
  if p.source.next?.isSome then fail "unbalanced parenthesis"
  match unknownAsked p with
  | some (number, at') => failAt at' ("invalid group reference " ++ toString number)
  | none =>
    match part.unusable (widthsOf p) (p.settings.contains .template) with
    | some text => throw (.invalid text none)
    | none => return part

/-- Reads a pattern. Each symbol takes six steps at most. -/
def read (ignoreCase : Bool) (text : String) : Except PatternFault Pattern := do
  let source ← Source.ofText text
  let settings := if ignoreCase then [Setting.ignoreCase] else []
  (whole (6 * source.rest.length + 8)).run' { source, settings }

end MemShell.Pattern
