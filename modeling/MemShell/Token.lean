import MemShell.Text.Blank
import MemShell.Fault
set_option autoImplicit false

/-!
# Tokens

A command line is cut into words and operators. Quoted runs are literal and glue onto the runs
beside them, a backslash outside single quotes takes the next character as it is, and `#` where a
token could begin after a blank opens a comment.
-/
namespace MemShell

inductive TokenKind where
  | word | operator
deriving DecidableEq, Repr

/-- A word is quoted if a part of it was quoted or escaped. -/
structure Token where
  kind : TokenKind
  text : String
  quoted : Bool := false
deriving DecidableEq, Repr

namespace Token
open Text

def word (text : String) (quoted : Bool := false) : Token := ⟨.word, text, quoted⟩

def operator (text : String) : Token := ⟨.operator, text, false⟩

def isWord (t : Token) : Bool := t.kind = .word

def isOperator (t : Token) : Bool := t.kind = .operator

structure Draft where
  text : List Char := []
  quoted : Bool := false
deriving DecidableEq, Repr

namespace Draft

def push (d : Option Draft) (c : Char) : Draft :=
  let d := d.getD {}
  { d with text := d.text ++ [c] }

def quote (d : Option Draft) : Draft := { d.getD {} with quoted := true }

def close : Option Draft → List Token
  | none => []
  | some d => [word (String.ofList d.text) d.quoted]

end Draft

def isQuote (c : Char) : Bool := c = '\'' || c = '"'

def isOperatorChar (c : Char) : Bool := c = '|' || c = '<' || c = '>' || c = ';' || c = '&'

/-- Operators of two characters; of two readings the longer one counts. -/
def isDouble (c d : Char) : Bool := c = d && (c = '&' || c = '|' || c = '>')

def isEscapable (c : Char) : Bool := c = '"' || c = '\\' || c = '$'

def prepend (ts : List Token) : Except Fault (List Token) → Except Fault (List Token)
  | .ok rest => .ok (ts ++ rest)
  | .error f => .error f

/-- Reads on from `column`, inside the quote that was opened, with the word read so far; `fresh`
says that the line starts here or the last character was a blank. -/
def scan (quote : Option (Char × Nat)) (word : Option Draft) (fresh : Bool) (column : Nat) :
    List Char → Except Fault (List Token)
  | [] =>
    match quote with
    | some (q, start) => .error (.grammar (.unterminatedQuote q (start + 1)))
    | none => .ok (Draft.close word)
  | c :: rest =>
    match quote with
    | some (q, start) =>
      if c = q then scan none word false (column + 1) rest
      else if c = '\\' && q = '"' then
        match rest with
        | d :: rest =>
          if isEscapable d then scan quote (some (Draft.push word d)) false (column + 2) rest
          else scan quote (some (Draft.push word c)) false (column + 1) (d :: rest)
        | [] => .error (.grammar (.unterminatedQuote q (start + 1)))
      else scan quote (some (Draft.push word c)) false (column + 1) rest
    | none =>
      if isBlank c then prepend (Draft.close word) (scan none none true (column + 1) rest)
      else if c = '#' && word.isNone && fresh then .ok []
      else if isQuote c then
        scan (some (c, column)) (some (Draft.quote word)) false (column + 1) rest
      else if c = '\\' then
        match rest with
        | d :: rest =>
          scan none (some (Draft.push (some (Draft.quote word)) d)) false (column + 2) rest
        | [] => .ok (Draft.close (some (word.getD {})))
      else if isOperatorChar c then
        match rest with
        | d :: rest =>
          if isDouble c d then
            prepend (Draft.close word ++ [operator (String.ofList [c, d])])
              (scan none none false (column + 2) rest)
          else
            prepend (Draft.close word ++ [operator c.toString])
              (scan none none false (column + 1) (d :: rest))
        | [] => .ok (Draft.close word ++ [operator c.toString])
      else scan none (some (Draft.push word c)) false (column + 1) rest

theorem scan_unquoted (word : Option Draft) (fresh : Bool) (column : Nat) (c : Char)
    (rest : List Char) :
    scan none word fresh column (c :: rest) =
      if isBlank c then prepend (Draft.close word) (scan none none true (column + 1) rest)
      else if c = '#' && word.isNone && fresh then .ok []
      else if isQuote c then
        scan (some (c, column)) (some (Draft.quote word)) false (column + 1) rest
      else if c = '\\' then
        match rest with
        | d :: rest =>
          scan none (some (Draft.push (some (Draft.quote word)) d)) false (column + 2) rest
        | [] => .ok (Draft.close (some (word.getD {})))
      else if isOperatorChar c then
        match rest with
        | d :: rest =>
          if isDouble c d then
            prepend (Draft.close word ++ [operator (String.ofList [c, d])])
              (scan none none false (column + 2) rest)
          else
            prepend (Draft.close word ++ [operator c.toString])
              (scan none none false (column + 1) (d :: rest))
        | [] => .ok (Draft.close word ++ [operator c.toString])
      else scan none (some (Draft.push word c)) false (column + 1) rest := by
  cases rest <;> rfl

theorem scan_quoted (q : Char) (start : Nat) (word : Option Draft) (fresh : Bool) (column : Nat)
    (c : Char) (rest : List Char) :
    scan (some (q, start)) word fresh column (c :: rest) =
      if c = q then scan none word false (column + 1) rest
      else if c = '\\' && q = '"' then
        match rest with
        | d :: rest =>
          if isEscapable d then
            scan (some (q, start)) (some (Draft.push word d)) false (column + 2) rest
          else scan (some (q, start)) (some (Draft.push word c)) false (column + 1) (d :: rest)
        | [] => .error (.grammar (.unterminatedQuote q (start + 1)))
      else scan (some (q, start)) (some (Draft.push word c)) false (column + 1) rest := by
  cases rest <;> rfl

def ofLine (line : String) : Except Fault (List Token) := scan none none true 0 line.toList

end Token
end MemShell
