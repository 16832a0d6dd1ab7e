/-!
# Points in calendar time

A timestamp is a date of the proleptic Gregorian calendar in UTC, a second of that day and
nanoseconds.  The nanoseconds may run past a full second: this is how a leap second is kept.  It
need not follow the last second of a minute.
-/

namespace Batchflow

def isLeapYear (year : Int) : Bool := year % 4 = 0 ∧ (year % 100 ≠ 0 ∨ year % 400 = 0)

def daysInMonth (year : Int) (month : Nat) : Nat :=
  if month = 2 then (if isLeapYear year then 29 else 28)
  else if month = 4 ∨ month = 6 ∨ month = 9 ∨ month = 11 then 30
  else 31

def minYear : Int := -262143
def maxYear : Int := 262142

def isDate (year : Int) (month day : Nat) : Prop :=
  minYear ≤ year ∧ year ≤ maxYear ∧ 1 ≤ month ∧ month ≤ 12 ∧ 1 ≤ day ∧ day ≤ daysInMonth year month

instance (year : Int) (month day : Nat) : Decidable (isDate year month day) := by
  unfold isDate; infer_instance

structure Date where
  year : Int
  month : Nat
  day : Nat
  valid : isDate year month day
  deriving DecidableEq

namespace Date

def of? (year : Int) (month day : Nat) : Option Date :=
  if valid : isDate year month day then some { year, month, day, valid } else none

/-- The day after, unless the calendar ends. -/
def next? (d : Date) : Option Date :=
  match of? d.year d.month (d.day + 1) with
  | some d => some d
  | none =>
    match of? d.year (d.month + 1) 1 with
    | some d => some d
    | none => of? (d.year + 1) 1 1

/-- The day before, unless the calendar begins. -/
def previous? (d : Date) : Option Date :=
  if 1 < d.day then of? d.year d.month (d.day - 1)
  else if 1 < d.month then of? d.year (d.month - 1) (daysInMonth d.year (d.month - 1))
  else of? (d.year - 1) 12 31

def rank (d : Date) : Int := 372 * d.year + 31 * d.month + d.day

end Date

structure Timestamp where
  date : Date
  second : Nat
  nanos : Nat
  second_lt : second < 86400
  nanos_lt : nanos < 2000000000
  deriving DecidableEq

namespace Timestamp

/-- A number that grows with time. -/
def rank (t : Timestamp) : Int := (86400 * t.date.rank + t.second) * 2000000000 + t.nanos

/-- Whether one point in time is not after another. -/
def le (a b : Timestamp) : Bool := a.rank ≤ b.rank

def of? (date : Date) (second nanos : Nat) : Option Timestamp :=
  if h : second < 86400 ∧ nanos < 2000000000 then
    some { date, second, nanos, second_lt := h.1, nanos_lt := h.2 }
  else none

/-- The point in time that a clock shows which is `offset` minutes ahead of UTC, by less than a
day. -/
def ofLocal? (date : Date) (second nanos : Nat) (offset : Int) : Option Timestamp :=
  let s := (second : Int) - 60 * offset
  if s < 0 then date.previous?.bind fun date => of? date (s + 86400).toNat nanos
  else if 86400 ≤ s then date.next?.bind fun date => of? date (s - 86400).toNat nanos
  else of? date s.toNat nanos

end Timestamp

end Batchflow
