import ConfigGraft.Decimal

/-!
# TOML dates and times

A date, a time of day, or both with an offset from universal time if it is known. They are read
from the text of a document by its grammar, and from a string of their own, where midnight may be
written as the hour 24 and an offset is only bounded as a whole.
-/

namespace ConfigGraft.Toml

structure Date where
  year : Nat
  month : Nat
  day : Nat
  deriving DecidableEq, Repr

structure Time where
  hour : Nat
  minute : Nat
  second : Nat
  nanosecond : Nat
  deriving DecidableEq, Repr

/-- How far a time is from universal time. -/
inductive Offset where
  | zulu
  | minutes (n : Int)
  deriving DecidableEq, Repr

/-- A date, a time, or both. -/
structure Datetime where
  date? : Option Date := none
  time? : Option Time := none
  offset? : Option Offset := none
  deriving DecidableEq, Repr

/-! ### Reading parts -/

/-- Reads a number of exactly so many digits. -/
def readDigits? : Nat → List Char → Option (Nat × List Char)
  | count, cs =>
    let digits := cs.take count
    if digits.length = count ∧ digits.all Char.isDigit then
      some (Decimal.natOfDigits digits, cs.drop count)
    else none

/-- Passes over a character that has to stand next. -/
def pass? (c : Char) : List Char → Option (List Char)
  | d :: rest => if d = c then some rest else none
  | [] => none

def isLeapYear (year : Nat) : Bool := year % 4 == 0 && (year % 100 != 0 || year % 400 == 0)

def daysInMonth (year month : Nat) : Nat :=
  if month = 2 then if isLeapYear year then 29 else 28
  else if month = 4 ∨ month = 6 ∨ month = 9 ∨ month = 11 then 30
  else 31

/-- Reads a date of the calendar. -/
def Date.read? (cs : List Char) : Option (Date × List Char) := do
  let (year, cs) ← readDigits? 4 cs
  let cs ← pass? '-' cs
  let (month, cs) ← readDigits? 2 cs
  let cs ← pass? '-' cs
  let (day, cs) ← readDigits? 2 cs
  if 1 ≤ month ∧ month ≤ 12 ∧ 1 ≤ day ∧ day ≤ daysInMonth year month then
    some (⟨year, month, day⟩, cs)
  else none

/-- Reads a fraction of a second in nanoseconds, if there is one; digits behind the ninth are
dropped. -/
def readFraction? : List Char → Option (Nat × List Char)
  | '.' :: rest =>
    let digits := rest.takeWhile Char.isDigit
    if digits = [] then none
    else
      let kept := digits.take 9
      some (Decimal.natOfDigits kept * tenTo (9 - kept.length), rest.dropWhile Char.isDigit)
  | cs => some (0, cs)

/-- Reads a time of day with an hour up to a last one. A minute may have a sixty-first second. -/
def Time.read? (lastHour : Nat) (cs : List Char) : Option (Time × List Char) := do
  let (hour, cs) ← readDigits? 2 cs
  let cs ← pass? ':' cs
  let (minute, cs) ← readDigits? 2 cs
  let cs ← pass? ':' cs
  let (second, cs) ← readDigits? 2 cs
  let (nanosecond, cs) ← readFraction? cs
  if hour ≤ lastHour ∧ minute ≤ 59 ∧ second ≤ 60 then
    some (⟨hour, minute, second, nanosecond⟩, cs)
  else none

/-- Reads an offset. -/
def Offset.read? (lastHour lastMinute : Nat) : List Char → Option (Offset × List Char)
  | [] => none
  | c :: cs =>
    if c = 'Z' ∨ c = 'z' then some (.zulu, cs)
    else if c = '+' ∨ c = '-' then do
      let (hour, cs) ← readDigits? 2 cs
      let cs ← pass? ':' cs
      let (minute, cs) ← readDigits? 2 cs
      if hour ≤ lastHour ∧ minute ≤ lastMinute ∧ hour * 60 + minute ≤ 24 * 60 then
        let n : Int := hour * 60 + minute
        some (.minutes (if c = '-' then -n else n), cs)
      else none
    else none

namespace Datetime

def isDelimiter (c : Char) : Bool := c == 'T' || c == 't' || c == ' '

/-! ### Reading -/

/-- Reads a date or time at the start of a text. What follows a date and is no time does not
belong to it. -/
def read? (cs : List Char) : Option (Datetime × List Char) :=
  match Date.read? cs with
  | none => (Time.read? 23 cs).map fun (time, rest) => ({ time? := some time }, rest)
  | some (date, rest) =>
    match (match rest with
      | c :: rest => if isDelimiter c then Time.read? 23 rest else none
      | [] => none) with
    | none => some ({ date? := some date }, rest)
    | some (time, rest) =>
      match Offset.read? 23 59 rest with
      | some (offset, rest) => some (⟨some date, some time, some offset⟩, rest)
      | none => some (⟨some date, some time, none⟩, rest)

/-- Reads a text that is a date or time as a whole. -/
def ofText? (cs : List Char) : Option Datetime :=
  if cs[2]? = some ':' then
    match Time.read? 24 cs with
    | some (time, []) => some { time? := some time }
    | _ => none
  else match Date.read? cs with
    | none => none
    | some (date, []) => some { date? := some date }
    | some (date, c :: rest) =>
      if isDelimiter c then
        match Time.read? 24 rest with
        | none => none
        | some (time, []) => some ⟨some date, some time, none⟩
        | some (time, rest) =>
          match Offset.read? 99 99 rest with
          | some (offset, []) => some ⟨some date, some time, some offset⟩
          | _ => none
      else none

/-! ### Writing -/

/-- A number with zeros before it to a width. -/
def padded (width n : Nat) : List Char :=
  let digits := Decimal.digits n
  List.replicate (width - digits.length) '0' ++ digits

def dateText (d : Date) : List Char :=
  padded 4 d.year ++ '-' :: (padded 2 d.month ++ '-' :: padded 2 d.day)

/-- A time, with the digits of its fraction that are not zeros at the end. -/
def timeText (t : Time) : List Char :=
  padded 2 t.hour ++ ':' :: (padded 2 t.minute ++ ':' :: padded 2 t.second) ++
    (if t.nanosecond = 0 then []
    else '.' :: ((padded 9 t.nanosecond).reverse.dropWhile (· == '0')).reverse)

def offsetText : Offset → List Char
  | .zulu => ['Z']
  | .minutes n =>
    (if n < 0 then '-' else '+') :: (padded 2 (n.natAbs / 60) ++ ':' :: padded 2 (n.natAbs % 60))

/-- The text of a date or time. -/
def text (d : Datetime) : List Char :=
  ((d.date?.map dateText).getD []) ++
    (if d.date?.isSome ∧ d.time?.isSome then ['T'] else []) ++
    ((d.time?.map timeText).getD []) ++ ((d.offset?.map offsetText).getD [])

end Datetime

end ConfigGraft.Toml
