set_option autoImplicit false

namespace MemShell.Text

def isBareChar (c : Char) : Bool :=
  ('a' ≤ c && c ≤ 'z') || ('A' ≤ c && c ≤ 'Z') || ('0' ≤ c && c ≤ '9') ||
    ['_', '@', '%', '+', '=', ':', ',', '.', '/', '-'].contains c

def quoteChar (c : Char) : List Char :=
  if c = '\'' then ['\'', '"', '\'', '"', '\''] else [c]

def quoteWord (s : String) : String :=
  let cs := s.toList
  if cs.isEmpty then "''"
  else if cs.all isBareChar then s
  else String.ofList ('\'' :: cs.flatMap quoteChar ++ ['\''])

def quoteWords (ws : List String) : String := String.intercalate " " (ws.map quoteWord)

end MemShell.Text
