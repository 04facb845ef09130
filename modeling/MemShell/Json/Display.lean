import MemShell.Json.Value
import MemShell.Number.Numeral
import MemShell.Number.Shortest
import MemShell.Text.Literal
set_option autoImplicit false

namespace MemShell.Json

mutual
def display : Json → String
  | .null => "None"
  | .bool b => if b then "True" else "False"
  | .int n => toString n
  | .real x => x.text
  | .str s => Text.literal s
  | .arr items => "[" ++ ", ".intercalate (displayItems items) ++ "]"
  | .obj members => "\x7b" ++ ", ".intercalate (displayMembers members) ++ "\x7d"

def displayItems : List Json → List String
  | [] => []
  | v :: vs => display v :: displayItems vs

def displayMembers : List (String × Json) → List String
  | [] => []
  | (k, v) :: ms => (Text.literal k ++ ": " ++ display v) :: displayMembers ms
end

mutual
def isShowable : Json → Bool
  | .int n => (Nat.toDigits 10 n.natAbs).length ≤ Number.maxDigits
  | .arr items => areShowable items
  | .obj members => haveShowable members
  | _ => true

def areShowable : List Json → Bool
  | [] => true
  | v :: vs => isShowable v && areShowable vs

def haveShowable : List (String × Json) → Bool
  | [] => true
  | (_, v) :: ms => isShowable v && haveShowable ms
end

def shown (v : Json) : Except String String :=
  if v.isShowable then .ok v.display
  else .error ("Exceeds the limit (4300 digits) for integer string conversion; " ++
    "use sys.set_int_max_str_digits() to increase the limit")

def plainText : Json → Except String String
  | .str s => .ok s
  | v => v.shown

def kindName : Json → String
  | .null => "NoneType"
  | .bool _ => "bool"
  | .int _ => "int"
  | .real _ => "float"
  | .str _ => "str"
  | .arr _ => "list"
  | .obj _ => "dict"

end MemShell.Json
