import MemShell.Fault
import MemShell.Number.Binary64
set_option autoImplicit false

namespace MemShell

structure Date where
  year : Int
  month : Nat
  day : Nat
deriving DecidableEq, Repr

namespace Date

def ofDays (days : Int) : Date :=
  let shifted := days + 719468
  let era := shifted.fdiv 146097
  let ofEra := (shifted.fmod 146097).toNat
  let yearOfEra := (ofEra - ofEra / 1460 + ofEra / 36524 - ofEra / 146096) / 365
  let ofYear := ofEra - (365 * yearOfEra + yearOfEra / 4 - yearOfEra / 100)
  let fromMarch := (5 * ofYear + 2) / 153
  let day := ofYear - (153 * fromMarch + 2) / 5 + 1
  let month := if fromMarch < 10 then fromMarch + 3 else fromMarch - 9
  { year := yearOfEra + era * 400 + (if month ≤ 2 then 1 else 0), month, day }

end Date

def twoDigits (n : Nat) : String := if n < 10 then "0" ++ toString n else toString n

def yearText (year : Int) : String := toString year

def minuteText (seconds : Int) : String :=
  let date := Date.ofDays (seconds.fdiv 86400)
  let ofDay := (seconds.fmod 86400).toNat
  yearText date.year ++ "-" ++ twoDigits date.month ++ "-" ++ twoDigits date.day ++ " " ++
    twoDigits (ofDay / 3600) ++ ":" ++ twoDigits (ofDay / 60 % 60)

/-- Times and years are counted in 64 and 32 bits. -/
def timestampText (time : Binary64) : Except Fault String :=
  match time.floor? with
  | none =>
    match time with
    | .nan => .error (.breakdown (.value "Invalid value NaN (not a number)"))
    | _ => .error (.breakdown (.overflow "timestamp out of range for platform time_t"))
  | some s =>
    if s < -0x8000000000000000 ∨ 0x8000000000000000 ≤ s then
      .error (.breakdown (.overflow "timestamp out of range for platform time_t"))
    else if 0x80000000 ≤ (Date.ofDays (s.fdiv 86400)).year - 1900 ∨
        (Date.ofDays (s.fdiv 86400)).year - 1900 < -0x80000000 then
      .error (.breakdown (.system "[Errno 75] Value too large for defined data type"))
    else .ok (minuteText s)

end MemShell
