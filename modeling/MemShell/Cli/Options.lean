import MemShell.Config
import MemShell.Text.LetterCase
import MemShell.Text.Literal
set_option autoImplicit false

namespace MemShell.Cli

inductive Mode where
  | exec | shell
deriving DecidableEq, Repr

def Mode.word : Mode → String
  | .exec => "exec"
  | .shell => "shell"

inductive Opt where
  | help | user | storage | logLevel
deriving DecidableEq, Repr

def Opt.display : Opt → String
  | .help => "-h/--help"
  | .user => "--user"
  | .storage => "--storage"
  | .logLevel => "--log-level"

def helpSpellings : List (String × Opt) := [("-h", .help), ("--help", .help)]

def modeSpellings : List (String × Opt) :=
  helpSpellings ++ [("--user", .user), ("--storage", .storage), ("--log-level", .logLevel)]

inductive Request where
  | run (mode : Mode) (overrides : Config.Overrides) (line : String)
  | help
  /-- A fault of the words, found while those of the program or of a mode were read. -/
  | misuse (program text : String)

inductive Halt where
  | help
  | misuse (text : String)

def program : String := "vshell"

def Mode.program (m : Mode) : String := Cli.program ++ " " ++ m.word

def usage : String :=
  "usage: " ++ program ++ " exec [OPTION...] COMMAND\n" ++
  "       " ++ program ++ " shell [OPTION...]\n\n" ++
  "options:\n" ++
  "  -h, --help         show this text\n" ++
  "  --user NAME        log in as this user\n" ++
  "  --storage FILE     keep the file system in this file\n" ++
  "  --log-level LEVEL  DEBUG, INFO, WARNING or ERROR\n"

/-- A text given inside of an option's word, behind an equals sign or directly behind a letter. -/
structure Inline where
  marked : Bool
  text : String
deriving Repr

inductive Word where
  | plain (text : String)
  /-- An option, as it was spelled out; none if it is unknown. -/
  | option (raw : String) (known : Option (Opt × String)) (inline : Option Inline)
  | dashes
deriving Repr

def splitEquals (w : String) : String × Option Inline :=
  let cs := w.toList
  (String.ofList (cs.takeWhile (· ≠ '=')),
    match cs.dropWhile (· ≠ '=') with
    | [] => none
    | _ :: value => some ⟨true, String.ofList value⟩)

def candidates (spellings : List (String × Opt)) (w : String) :
    List ((String × Opt) × Option Inline) :=
  match w.toList with
  | '-' :: '-' :: _ =>
    let (start, inline) := splitEquals w
    (spellings.filter fun s => s.1.startsWith start).map fun s => (s, inline)
  | '-' :: c :: rest =>
    spellings.filterMap fun s =>
      if s.1 = String.ofList ['-', c] then some (s, some ⟨false, String.ofList rest⟩)
      else if s.1.startsWith w then some (s, none)
      else none
  | _ => []

/-- A negative number is a word by itself. -/
def isNegativeNumber (w : String) : Bool :=
  match w.toList with
  | '-' :: rest =>
    match rest.dropWhile Char.isDigit with
    | [] => !rest.isEmpty
    | '.' :: fraction => !fraction.isEmpty && fraction.all Char.isDigit
    | _ => false
  | _ => false

def classify (spellings : List (String × Opt)) (w : String) : Except Halt Word :=
  if w = "--" then .ok .dashes
  else if !w.startsWith "-" || w = "-" then .ok (.plain w)
  else
    match spellings.find? (·.1 = w) with
    | some s => .ok (.option w (some (s.2, s.1)) none)
    | none =>
      let (start, inline) := splitEquals w
      match spellings.find? (·.1 = start), inline with
      | some s, some _ => .ok (.option w (some (s.2, s.1)) inline)
      | _, _ =>
        match candidates spellings w with
        | [(s, inline)] => .ok (.option w (some (s.2, s.1)) inline)
        | [] =>
          if isNegativeNumber w || w.toList.contains ' ' then .ok (.plain w)
          else .ok (.option w none none)
        | several =>
          .error (.misuse ("ambiguous option: " ++ w ++ " could match " ++
            ", ".intercalate (several.map (·.1.1))))

/-- Behind two dashes all words are plain. -/
def classifyAll (spellings : List (String × Opt)) : List String → Except Halt (List Word)
  | [] => .ok []
  | w :: ws => do
    match ← classify spellings w with
    | .dashes => pure (.dashes :: ws.map .plain)
    | word => pure (word :: (← classifyAll spellings ws))

def argumentFault (o : Opt) (text : String) : Halt :=
  .misuse ("argument " ++ o.display ++ ": " ++ text)

def logLevels : List String := ["DEBUG", "INFO", "WARNING", "ERROR"]

def upperChar (c : Char) : Char :=
  if c.isLower then c.toUpper
  else
    match Text.capitalsOf c.toNat with
    | n :: _ => Char.ofNat n
    | [] => c

def upperText (s : String) : String := s.map upperChar

def invalidChoice (value : String) (choices : List String) : String :=
  "invalid choice: " ++ Text.literal value ++ " (choose from " ++
    ", ".intercalate (choices.map Text.literal) ++ ")"

def applyValue (o : Config.Overrides) (opt : Opt) (value : String) :
    Except Halt Config.Overrides :=
  match opt with
  | .help => .error .help
  | .user => .ok { o with defaultUser := some value }
  | .storage => .ok { o with storagePath := some (Path.ofText value) }
  | .logLevel =>
    let level := upperText value
    if logLevels.contains level then .ok { o with logLevel := some level }
    else .error (argumentFault .logLevel (invalidChoice level logLevels))

def ignored (text : String) : Halt := argumentFault .help ("ignored explicit argument " ++ Text.literal text)

/-- What follows the short form of help in its word; the form may be repeated, and other letters do
not matter. -/
def helpTail (marked : Bool) : List Char → Halt
  | [] => ignored ""
  | c :: rest =>
    if marked || c = '-' then ignored (String.ofList (c :: rest))
    else if c ≠ 'h' then .help
    else
      match rest with
      | [] => .help
      | '=' :: value => helpTail true value
      | other => helpTail false other

/-- Help takes no value. -/
def helpWith (spelling : String) (inline : Inline) : Halt :=
  if spelling.startsWith "--" then ignored inline.text
  else helpTail inline.marked inline.text.toList

structure Draft where
  overrides : Config.Overrides := {}
  line : Option String := none
  unknown : List String := []

/-- Whether a command line is still to come, was the last word, or lies behind or does not belong to
the mode. -/
inductive Place where
  | ahead | here | behind
deriving DecidableEq

/-- Reads the words of a mode. Two dashes in front of the command line or right behind it mean
nothing. -/
def readWords (line : Place) (d : Draft) : List Word → Except Halt Draft
  | [] =>
    if line = .ahead then .error (.misuse "the following arguments are required: command")
    else .ok d
  | .plain text :: rest =>
    if line = .ahead then readWords .here { d with line := some text } rest
    else readWords .behind { d with unknown := d.unknown ++ [text] } rest
  | .dashes :: rest =>
    if line = .behind then readWords .behind { d with unknown := d.unknown ++ ["--"] } rest
    else if line = .ahead then readWords .ahead d rest
    else readWords .behind d rest
  | .option raw known inline :: rest =>
    let line := if line = .here then .behind else line
    match known with
    | none => readWords line { d with unknown := d.unknown ++ [raw] } rest
    | some (opt, spelling) =>
      match inline with
      | some value =>
        if opt = .help then .error (helpWith spelling value)
        else
          match applyValue d.overrides opt value.text with
          | .ok overrides => readWords line { d with overrides } rest
          | .error h => .error h
      | none =>
        if opt = .help then .error .help
        else
          match rest with
          | .plain value :: rest =>
            match applyValue d.overrides opt value with
            | .ok overrides => readWords line { d with overrides } rest
            | .error h => .error h
          | .option .. :: _ | .dashes :: _ | [] => .error (argumentFault opt "expected one argument")

def modeOf? (w : String) : Option Mode := [Mode.exec, .shell].find? (·.word = w)

def unrecognized (ws : List String) : String := "unrecognized arguments: " ++ " ".intercalate ws

def ofHalt (name : String) : Halt → Request
  | .help => .help
  | .misuse text => .misuse name text

def readMode (unknown : List String) (mode : Mode) (ws : List String) : Request :=
  let read := do readWords (if mode = Mode.exec then .ahead else .behind) {} (← classifyAll modeSpellings ws)
  match read with
  | .error h => ofHalt mode.program h
  | .ok d =>
    let unknown := unknown ++ d.unknown
    if unknown.isEmpty then .run mode d.overrides (d.line.getD "")
    else .misuse program (unrecognized unknown)

def readFrom (unknown : List String) : List String → Request
  | [] | ["--"] => .misuse program "the following arguments are required: command_name"
  | w :: ws =>
    match classify helpSpellings w with
    | .error h => ofHalt program h
    | .ok (.option raw none _) => readFrom (unknown ++ [raw]) ws
    | .ok (.option _ (some (_, spelling)) (some inline)) =>
      ofHalt program (helpWith spelling inline)
    | .ok (.option _ (some _) none) => .help
    | .ok _ =>
      match modeOf? w with
      | some mode => readMode unknown mode ws
      | none =>
        .misuse program ("argument command_name: " ++
          invalidChoice w [Mode.exec.word, Mode.shell.word])

def read (ws : List String) : Request := readFrom [] ws

end MemShell.Cli
