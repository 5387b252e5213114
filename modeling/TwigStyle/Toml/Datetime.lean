import TwigStyle.Text.Natural
import TwigStyle.Toml.Text

/-!
# Dates and times of TOML

A date, a time of day, or both, and with both the distance of the clock from universal time.  All
of them are checked against the calendar and the clock: there is no hour 24, and a distance has fewer
than 24 hours.  `datetime?` reads one at the start of a text, and `Datetime.read?` one that takes up
the whole text.

`text` writes a date in one form: a `T` before the time, no zeros at the end of a fraction, and a
sign and two numbers for a distance.
-/

namespace TwigStyle.Toml

/-- A day of the calendar. -/
structure Date where
  year : Nat
  month : Nat
  day : Nat
deriving DecidableEq, Repr

/-- A time of day. -/
structure ClockTime where
  hour : Nat
  minute : Nat
  second : Nat
  nanosecond : Nat := 0
deriving DecidableEq, Repr

/-- The distance of a clock from universal time. -/
inductive Offset where
  /-- It is universal time itself. -/
  | universal
  | minutes (n : Int)
deriving DecidableEq, Repr

/-- A date, a time of day, or both. -/
structure Datetime where
  date : Option Date := none
  time : Option ClockTime := none
  offset : Option Offset := none
deriving DecidableEq, Repr

/-! ### Writing -/

/-- A number in decimal, with zeros in front up to a width. -/
def padded (width n : Nat) : List Char :=
  let digits := Text.natText n
  List.replicate (width - digits.length) '0' ++ digits

/-- The text of a date. -/
def Date.text (d : Date) : List Char :=
  padded 4 d.year ++ '-' :: padded 2 d.month ++ '-' :: padded 2 d.day

/-- The text of a fraction of a second. -/
def nanosecondText (n : Nat) : List Char :=
  if n = 0 then [] else '.' :: ((padded 9 n).reverse.dropWhile (· == '0')).reverse

/-- The text of a time of day. -/
def ClockTime.text (t : ClockTime) : List Char :=
  padded 2 t.hour ++ ':' :: padded 2 t.minute ++ ':' :: padded 2 t.second ++
    nanosecondText t.nanosecond

/-- The text of a distance. -/
def Offset.text : Offset → List Char
  | universal => ['Z']
  | minutes n =>
    (if n < 0 then '-' else '+') :: padded 2 (n.natAbs / 60) ++ ':' :: padded 2 (n.natAbs % 60)

/-- The text of a date, a time, or both. -/
def Datetime.text (d : Datetime) : List Char :=
  (d.date.map Date.text).getD [] ++
    (if d.date.isSome && d.time.isSome then ['T'] else []) ++
    (d.time.map ClockTime.text).getD [] ++
    (d.offset.map Offset.text).getD []

/-! ### Reading -/

/-- A number of exactly `n` digits between `low` and `high`. -/
def field? (n low high : Nat) (t : List Char) : Option (Nat × List Char) :=
  let ds := t.take n
  let v := Text.digitsValue ds
  if ds.length = n ∧ ds.all Char.isDigit ∧ low ≤ v ∧ v ≤ high then some (v, t.drop n) else none

/-- The text after a given character. -/
def past? (c : Char) : List Char → Option (List Char)
  | d :: t => if d == c then some t else none
  | [] => none

/-- The number of days of a month. -/
def monthLength (year month : Nat) : Nat :=
  if month == 2 then
    if year % 4 == 0 && (year % 100 != 0 || year % 400 == 0) then 29 else 28
  else if [4, 6, 9, 11].contains month then 30
  else 31

/-- A day of the calendar. -/
def date? (t : List Char) : Option (Date × List Char) := do
  let (year, t) ← field? 4 0 9999 t
  let (month, t) ← field? 2 1 12 (← past? '-' t)
  let (day, t) ← field? 2 1 (monthLength year month) (← past? '-' t)
  some ({ year, month, day }, t)

/-- The digits of a fraction as nanoseconds; digits beyond the ninth do not count. -/
def nanosecondsOf (ds : List Char) : Nat :=
  let kept := ds.take 9
  Text.digitsValue kept * Nat.pow 10 (9 - kept.length)

/-- The fraction of a second, if there is one. -/
def nanoseconds (t : List Char) : Nat × List Char :=
  match t with
  | '.' :: rest =>
    match rest.span Char.isDigit with
    | ([], _) => (0, t)
    | (ds, rest) => (nanosecondsOf ds, rest)
  | t => (0, t)

/-- A time of day. -/
def time? (t : List Char) : Option (ClockTime × List Char) := do
  let (hour, t) ← field? 2 0 23 t
  let (minute, t) ← field? 2 0 59 (← past? ':' t)
  let (second, t) ← field? 2 0 60 (← past? ':' t)
  let (nanosecond, t) := nanoseconds t
  some ({ hour, minute, second, nanosecond }, t)

/-- May the character stand between a date and a time? -/
def isTimeMark (c : Char) : Bool := c == 'T' || c == 't' || c == ' '

/-- The time of day after a date. -/
def timeAfterDate? : List Char → Option (ClockTime × List Char)
  | c :: t => if isTimeMark c then time? t else none
  | [] => none

/-- The minutes of a distance, which is less than a day. -/
def offsetMinutes? (t : List Char) : Option (Nat × List Char) := do
  let (hours, t) ← field? 2 0 23 t
  let (minutes, t) ← field? 2 0 59 (← past? ':' t)
  some (hours * 60 + minutes, t)

/-- The distance from universal time. -/
def offset? : List Char → Option (Offset × List Char)
  | [] => none
  | c :: t =>
    if c == 'Z' || c == 'z' then some (.universal, t)
    else if c == '+' then (offsetMinutes? t).map fun (n, t) => (.minutes n, t)
    else if c == '-' then (offsetMinutes? t).map fun (n, t) => (.minutes (-(n : Int)), t)
    else none

/-- A date, a time of day, or both, at the start of a text. -/
def datetime? (t : List Char) : Read Datetime :=
  match date? t with
  | none => (time? t).map fun (time, rest) => ({ time := some time }, rest)
  | some (date, rest) =>
    match timeAfterDate? rest with
    | none => some ({ date := some date }, rest)
    | some (time, rest) =>
      match offset? rest with
      | none => some ({ date := some date, time := some time }, rest)
      | some (offset, rest) =>
        some ({ date := some date, time := some time, offset := some offset }, rest)

/-- A date, a time of day, or both, that take up a whole text. -/
def Datetime.read? (t : List Char) : Option Datetime :=
  match datetime? t with
  | some (d, []) => some d
  | _ => none

end TwigStyle.Toml
