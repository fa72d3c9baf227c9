import Perimeter.Text.Numeral

/-!
Dates and times in the TOML format: a date, a time of day, or both, in which
case an offset from universal time may follow.
-/

namespace Perimeter.Toml

/-- A number of exactly so many digits, and what follows it. -/
def field? (width : Nat) (cs : List Char) : Option (Nat × List Char) :=
  if width ≤ cs.length then (Text.readNat? 10 (cs.take width)).map (·, cs.drop width) else none

/-- What follows a character. -/
def after? (c : Char) : List Char → Option (List Char)
  | d :: rest => if c = d then some rest else none
  | [] => none

def isLeapYear (year : Nat) : Bool := year % 4 == 0 && (year % 100 != 0 || year % 400 == 0)

def daysIn (year month : Nat) : Nat :=
  if month = 2 then (if isLeapYear year then 29 else 28)
  else if month ∈ [4, 6, 9, 11] then 30
  else 31

/-- What follows a date of the calendar. -/
def dropDate? (cs : List Char) : Option (List Char) := do
  let (year, cs) ← field? 4 cs
  let (month, cs) ← field? 2 (← after? '-' cs)
  let (day, cs) ← field? 2 (← after? '-' cs)
  if 1 ≤ month ∧ month ≤ 12 ∧ 1 ≤ day ∧ day ≤ daysIn year month then some cs else none

/-- An hour, a minute and what follows them. -/
def hourMinute? (cs : List Char) : Option (Nat × Nat × List Char) := do
  let (hour, cs) ← field? 2 cs
  let (minute, cs) ← field? 2 (← after? ':' cs)
  return (hour, minute, cs)

/-- How a moment is written: as a bare word, or in a string that is marked as a
moment, where more hours and offsets are allowed. -/
inductive Style where
  | bare
  | marked
deriving DecidableEq

namespace Style

def lastHour : Style → Nat
  | bare => 23
  | marked => 24

/-- Whether a clock may be so many hours and minutes off. In marked strings it
may be up to one day off. -/
def allowsOffset : Style → Nat → Nat → Bool
  | bare, hour, minute => hour < 24 && minute < 60
  | marked, hour, minute => 60 * hour + minute ≤ 1440

end Style

/-- What follows a time of day, in which a minute may have a leap second. -/
def dropTime? (style : Style) (cs : List Char) : Option (List Char) := do
  let (hour, minute, cs) ← hourMinute? cs
  let (second, cs) ← field? 2 (← after? ':' cs)
  if style.lastHour < hour ∨ 59 < minute ∨ 60 < second then none
  else match cs with
    | '.' :: d :: rest => if d.isDigit then some (rest.dropWhile Char.isDigit) else none
    | _ => some cs

/-- Whether a text is an offset from universal time, or nothing. -/
def isOffset (style : Style) : List Char → Bool
  | [] | ['Z'] | ['z'] => true
  | '+' :: rest | '-' :: rest =>
    match hourMinute? rest with
    | some (hour, minute, []) => style.allowsOffset hour minute
    | _ => false
  | _ => false

def isDate (cs : List Char) : Bool := dropDate? cs == some []

/-- Whether a text writes a date, a time or both. In marked strings an offset may
also follow a date alone. -/
def isMoment (style : Style) (cs : List Char) : Bool :=
  match dropDate? cs with
  | some [] => true
  | some (c :: rest) =>
    if c = 'T' ∨ c = 't' ∨ c = ' ' then ((dropTime? style rest).map (isOffset style)).getD false
    else style == .marked && isOffset style (c :: rest)
  | none => dropTime? style cs == some []

end Perimeter.Toml
