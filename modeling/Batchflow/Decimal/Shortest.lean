import Batchflow.Decimal.Binary64
import Batchflow.Decimal.Natural

/-!
# The shortest decimal that reads back

Among the decimals that round to a given binary number, the one with the fewest digits is
written; among those, the nearest.  For each count of digits the two neighbours of the number on
that decimal grid are tried in exact arithmetic.
-/

namespace Batchflow.Decimal

/-- The decimals that round to a number: bounds in quarters of its last binary place. -/
structure Interval where
  low : Nat
  mid : Nat
  high : Nat
  /-- The bounds themselves round to the number. -/
  closed : Bool

/-- What rounds to a nonzero number.  Below a power of two the places are half as wide. -/
def Interval.around (x : Binary64) : Interval :=
  let narrow := x.mantissa = 1 <<< 52 ∧ Binary64.minExponent < x.exponent
  { low := 4 * x.mantissa - (if narrow then 1 else 2), mid := 4 * x.mantissa,
    high := 4 * x.mantissa + 2, closed := x.mantissa % 2 = 0 }

def powerQuotient (base : Nat) (e : Int) : Nat × Nat :=
  if 0 ≤ e then (base.pow e.toNat, 1) else (1, base.pow (-e).toNat)

/-- A grid of decimals beside the binary places of a number: comparing `d` grid steps with `b`
quarter places means comparing `d * step` with `b * place`. -/
structure Grid where
  step : Nat
  place : Nat

def Grid.of (x : Binary64) (power : Int) : Grid :=
  let (p, q) := powerQuotient 10 power
  let (r, t) := powerQuotient 2 (x.exponent - 2)
  { step := p * t, place := r * q }

/-- Whether so many grid steps round to the number. -/
def Grid.hits (g : Grid) (i : Interval) (d : Nat) : Bool :=
  if i.closed then i.low * g.place ≤ d * g.step && d * g.step ≤ i.high * g.place
  else i.low * g.place < d * g.step && d * g.step < i.high * g.place

/-- The nearer of the two neighbours on the grid that rounds to the number. -/
def Grid.best? (g : Grid) (i : Interval) : Option Nat :=
  let d := i.mid * g.place / g.step
  match g.hits i d, g.hits i (d + 1) with
  | true, true =>
    let below := i.mid * g.place - d * g.step
    let above := (d + 1) * g.step - i.mid * g.place
    some (if above < below ∨ (above = below ∧ d % 2 = 1) then d + 1 else d)
  | true, false => some d
  | false, true => some (d + 1)
  | false, false => none

def leadingExponent (num den : Nat) : Int :=
  if den ≤ num then ((digits (num / den)).length : Int) - 1
  else
    let guess := (digits (den / num)).length
    if den ≤ num * Nat.pow 10 (guess - 1) then -((guess - 1 : Nat) : Int) else -(guess : Int)

/-- Tries grids from the coarsest on. -/
def searchGrids (x : Binary64) (i : Interval) (top : Int) : Nat → Nat → Nat × Int
  | 0, _ => (x.mantissa, 0)
  | fuel + 1, count =>
    let power := top - (count : Int) + 1
    match (Grid.of x power).best? i with
    | some d => (d, power)
    | none => searchGrids x i top fuel (count + 1)

/-- Digits and power of ten of the shortest decimal for a number that is not zero. -/
def shortest (x : Binary64) : Nat × Int :=
  let (num, den) := x.magnitude
  searchGrids x (.around x) (leadingExponent num den) 17 1

/-- How numbers are laid out. -/
structure Layout where
  /-- Exponents of the leading digit from here to there are written without a power of ten. -/
  minPlain : Int
  maxPlain : Int
  /-- A power of ten has a sign and at least so many digits. -/
  exponentWidth : Nat

/-- The power of ten of a number that is written with one. -/
def Layout.exponent (l : Layout) (e : Int) : List Char :=
  'e' :: (if 0 ≤ e then '+' else '-') :: padded l.exponentWidth e.natAbs

/-- Digits with a point after the first. -/
def scientific : List Char → List Char
  | [] => []
  | [d] => [d]
  | d :: ds => d :: '.' :: ds

/-- Digits that stand for `0.ddd · 10 ^ (e + 1)`, written without a power of ten. -/
def plain (ds : List Char) (e : Int) : List Char :=
  if e < 0 then '0' :: '.' :: (List.replicate ((-e).toNat - 1) '0' ++ ds)
  else
    let whole := e.toNat + 1
    if ds.length ≤ whole then ds ++ List.replicate (whole - ds.length) '0' ++ ['.', '0']
    else ds.take whole ++ '.' :: ds.drop whole

def significant (d : Nat) (power : Int) : List Char × Int :=
  let ds := digits d
  ((ds.reverse.dropWhile (· == '0')).reverse, power + ds.length - 1)

/-- A number as text; a whole number keeps a zero after the point. -/
def Layout.text (l : Layout) (x : Binary64) : List Char :=
  let body :=
    if x.mantissa = 0 then ['0', '.', '0']
    else
      let (d, power) := shortest x
      let (ds, e) := significant d power
      if l.minPlain ≤ e ∧ e ≤ l.maxPlain then plain ds e else scientific ds ++ l.exponent e
  if x.negative then '-' :: body else body

end Batchflow.Decimal
