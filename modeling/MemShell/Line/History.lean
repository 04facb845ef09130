import MemShell.Text.Blank
set_option autoImplicit false

namespace MemShell
open Text

structure History where
  size : Nat
  entries : List String := []
deriving DecidableEq, Repr

namespace History

def add (h : History) (line : String) : History :=
  let line := strip line
  if line.isEmpty || h.entries.getLast? = some line then h
  else
    let entries := h.entries ++ [line]
    { h with entries := entries.drop (entries.length - h.size) }

def clear (h : History) : History := { h with entries := [] }

end History
end MemShell
