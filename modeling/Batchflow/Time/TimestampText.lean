import Batchflow.Decimal.Natural
import Batchflow.Text.Blank
import Batchflow.Time.Timestamp

/-!
# Timestamps as text

A timestamp is written in UTC, as in `2024-01-01T00:00:00.250Z`: the fraction has 0, 3, 6 or 9
digits, the fewest that are exact, and a year that has not four digits carries its sign.
Nanoseconds past a full second count as a second more, so a leap second at the end of a minute is
second 60.

More is read than is written.  Blanks may stand before every number and mark, the date and the
time may be separated by a space, and any offset from UTC may be given.
-/

namespace Batchflow.Timestamp

open Decimal

/-- Why a text is no timestamp. -/
inductive Fault where
  | tooShort
  | invalid
  | outOfRange
  /-- The point in time lies outside of the calendar. -/
  | impossible
  | tooLong
  deriving DecidableEq, Repr

def Fault.message : Fault → String
  | .tooShort => "premature end of input"
  | .invalid => "input contains invalid characters"
  | .outOfRange => "input is out of range"
  | .impossible => "no possible date and time matching input"
  | .tooLong => "trailing input"

def yearText (year : Int) : List Char :=
  if 0 ≤ year ∧ year ≤ 9999 then padded 4 year.toNat
  else (if 0 ≤ year then '+' else '-') :: padded 4 year.natAbs

def fractionText (nanos : Nat) : List Char :=
  if nanos = 0 then []
  else if nanos % 1000000 = 0 then '.' :: padded 3 (nanos / 1000000)
  else if nanos % 1000 = 0 then '.' :: padded 6 (nanos / 1000)
  else '.' :: padded 9 nanos

/-- Hours, minutes and seconds; nanoseconds past a full second make it a second more. -/
def clockText (second nanos : Nat) : List Char :=
  padded 2 (second / 3600) ++ ':' :: padded 2 (second / 60 % 60) ++ ':' ::
    padded 2 (second % 60 + nanos / 1000000000) ++ fractionText (nanos % 1000000000)

def text (t : Timestamp) : List Char :=
  yearText t.date.year ++ '-' :: padded 2 t.date.month ++ '-' :: padded 2 t.date.day ++ 'T' ::
    clockText t.second t.nanos ++ ['Z']

/-- What reading a part gives: a value and the rest of the text. -/
abbrev Part (α : Type) := Except Fault (α × List Char)

def readNumber (width : Nat) (cs : List Char) : Part Nat :=
  match (cs.take width).takeWhile Char.isDigit with
  | [] => .error (if cs.isEmpty then .tooShort else .invalid)
  | ds => .ok (ofDigits 0 ds, cs.drop ds.length)

/-- A number of at most two digits within bounds, after blanks. -/
def readField (min max : Nat) (cs : List Char) : Part Nat :=
  match readNumber 2 (Text.trimStart cs) with
  | .error e => .error e
  | .ok (n, cs) => if min ≤ n ∧ n ≤ max then .ok (n, cs) else .error .outOfRange

def readMark (mark : Char) (cs : List Char) : Except Fault (List Char) :=
  match Text.trimStart cs with
  | [] => .error .tooShort
  | c :: cs => if c = mark then .ok cs else .error .invalid

/-- Years past 32 bits are refused at once. -/
def checkYear (year : Int) (cs : List Char) : Part Int :=
  if -2147483648 ≤ year ∧ year < 2147483648 then .ok (year, cs) else .error .outOfRange

/-- A year of at most four digits, or of any length after a sign. -/
def readYear (cs : List Char) : Part Int :=
  match Text.trimStart cs with
  | '-' :: cs =>
    match readNumber cs.length cs with
    | .error e => .error e
    | .ok (n, cs) => checkYear (-(n : Int)) cs
  | '+' :: cs =>
    match readNumber cs.length cs with
    | .error e => .error e
    | .ok (n, cs) => checkYear n cs
  | cs =>
    match readNumber 4 cs with
    | .error e => .error e
    | .ok (n, cs) => .ok (n, cs)

/-- Digits of a fraction of a second; past the ninth they do not count. -/
def readFraction : List Char → Part Nat
  | '.' :: cs =>
    match (cs.take 9).takeWhile Char.isDigit with
    | [] => .error (if cs.isEmpty then .tooShort else .invalid)
    | ds =>
      let rest := cs.drop ds.length
      .ok (ofDigits 0 ds * Nat.pow 10 (9 - ds.length),
        if ds.length = 9 then rest.dropWhile Char.isDigit else rest)
  | cs => .ok (0, cs)

def readTwo : List Char → Part (Nat × Nat)
  | [] => .error .tooShort
  | [c] => .error (if c.toNat < 128 then .tooShort else .invalid)
  | a :: b :: cs =>
    match digitValue? a, digitValue? b with
    | some a, some b => .ok ((a, b), cs)
    | _, _ => .error .invalid

def readHourMinute (cs : List Char) : Part Nat :=
  match readTwo cs with
  | .error e => .error e
  | .ok ((a, b), cs) =>
    match readTwo (cs.dropWhile fun c => c == ':' || Text.isBlank c) with
    | .error e => .error e
    | .ok ((c, d), cs) =>
      if c < 6 then .ok (60 * (10 * a + b) + 10 * c + d, cs) else .error .outOfRange

/-- The rest of a text behind the letters of UTC. -/
def afterUtc? : List Char → Option (List Char)
  | u :: t :: c :: cs =>
    if u.toUpper = 'U' ∧ t.toUpper = 'T' ∧ c.toUpper = 'C' then some cs else none
  | _ => none

/-- How many minutes the clock is ahead of UTC. -/
def readOffset (cs : List Char) : Part Int :=
  match afterUtc? cs with
  | some cs => .ok (0, cs)
  | none =>
    match cs with
    | [] => .error .tooShort
    | c :: cs =>
      if c = 'Z' ∨ c = 'z' then .ok (0, cs)
      else if c = '+' then (readHourMinute cs).map fun (n, cs) => ((n : Int), cs)
      else if c = '-' ∨ c = '−' then (readHourMinute cs).map fun (n, cs) => (-(n : Int), cs)
      else .error .invalid

def readSeparator : List Char → Except Fault (List Char)
  | [] => .error .tooShort
  | c :: cs => if c = 'T' ∨ c = 't' ∨ c = ' ' then .ok cs else .error .invalid

/-- The parts of a timestamp as they are written. -/
structure Fields where
  year : Int
  month : Nat
  day : Nat
  hour : Nat
  minute : Nat
  second : Nat
  nanos : Nat
  offset : Int

/-- Reads the parts from left to right; the first that is wrong counts. -/
def readFields (cs : List Char) : Except Fault (Fields × List Char) := do
  let (year, cs) ← readYear cs
  let cs ← readMark '-' cs
  let (month, cs) ← readField 1 12 cs
  let cs ← readMark '-' cs
  let (day, cs) ← readField 1 31 cs
  let cs ← readSeparator cs
  let (hour, cs) ← readField 0 23 cs
  let cs ← readMark ':' cs
  let (minute, cs) ← readField 0 59 cs
  let cs ← readMark ':' cs
  let (second, cs) ← readField 0 60 cs
  let (nanos, cs) ← readFraction cs
  let (offset, cs) ← readOffset (Text.trimStart cs)
  return ({ year, month, day, hour, minute, second, nanos, offset }, cs)

/-- The point in time that the parts stand for. -/
def ofFields (f : Fields) : Except Fault Timestamp :=
  match Date.of? f.year f.month f.day with
  | none => .error .outOfRange
  | some date =>
    if 1440 ≤ f.offset.natAbs then .error .outOfRange
    else
      let (second, nanos) := if f.second = 60 then (59, f.nanos + 1000000000) else (f.second, f.nanos)
      match ofLocal? date (3600 * f.hour + 60 * f.minute + second) nanos f.offset with
      | some t => .ok t
      | none => .error .impossible

def read (cs : List Char) : Except Fault Timestamp :=
  match readFields cs with
  | .error e => .error e
  | .ok (f, cs) => if (Text.trimStart cs).isEmpty then ofFields f else .error .tooLong

end Batchflow.Timestamp
