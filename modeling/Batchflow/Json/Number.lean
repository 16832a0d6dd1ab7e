import Batchflow.Decimal.Shortest

/-!
# Numbers of JSON text

A numeral is the text of a number taken apart.  Whole numbers that fit in 64 bits are kept exactly;
every other numeral stands for a binary floating-point number.
-/

namespace Batchflow.Json

open Decimal

inductive Number where
  | natural (n : Nat)
  /-- The number `- n`, where `n` is not zero. -/
  | negative (n : Nat)
  | double (x : Binary64)
  deriving DecidableEq, Repr

namespace Number

/-- Floating-point numbers are written plainly from `0.0001` up to sixteen digits; a power of ten
has a sign and two digits at least. -/
def layout : Layout := { minPlain := -4, maxPlain := 15, exponentWidth := 2 }

def text : Number → List Char
  | .natural n => digits n
  | .negative n => '-' :: digits n
  | .double x => layout.text x

/-- Equality as values of one kind: a whole number is not a floating-point number. -/
def same : Number → Number → Bool
  | .natural m, .natural n => m == n
  | .negative m, .negative n => m == n
  | .double x, .double y => x.same y
  | _, _ => false

end Number

/-- The parts of a numeral. -/
structure Numeral where
  negative : Bool
  whole : List Char
  /-- The digits after the point; none if there is no point. -/
  fraction : List Char
  /-- The sign and the digits of the power of ten. -/
  exponent : Option (Bool × List Char)

namespace Numeral

def isDigit (c : Char) : Bool := c.isDigit

def takeDigits (cs : List Char) : List Char × List Char := (cs.takeWhile isDigit, cs.dropWhile isDigit)

def scanWhole? (cs : List Char) : Option (List Char × List Char) :=
  match takeDigits cs with
  | ([], _) => none
  | ('0' :: _ :: _, _) => none
  | r => some r

def scanFraction? : List Char → Option (List Char × List Char)
  | '.' :: cs =>
    match takeDigits cs with
    | ([], _) => none
    | r => some r
  | cs => some ([], cs)

def scanPower? (negative : Bool) (cs : List Char) :
    Option (Option (Bool × List Char) × List Char) :=
  match takeDigits cs with
  | ([], _) => none
  | (ds, rest) => some (some (negative, ds), rest)

def scanExponent? : List Char → Option (Option (Bool × List Char) × List Char)
  | 'e' :: '+' :: cs => scanPower? false cs
  | 'e' :: '-' :: cs => scanPower? true cs
  | 'e' :: cs => scanPower? false cs
  | 'E' :: '+' :: cs => scanPower? false cs
  | 'E' :: '-' :: cs => scanPower? true cs
  | 'E' :: cs => scanPower? false cs
  | cs => some (none, cs)

/-- Takes a numeral apart, up to the first character that does not belong to it. -/
def scan? (cs : List Char) : Option (Numeral × List Char) :=
  let (negative, cs) := match cs with
    | '-' :: cs => (true, cs)
    | cs => (false, cs)
  match scanWhole? cs with
  | none => none
  | some (whole, cs) =>
    match scanFraction? cs with
    | none => none
    | some (fraction, cs) =>
      match scanExponent? cs with
      | none => none
      | some (exponent, cs) => some ({ negative, whole, fraction, exponent }, cs)

def wordLimit : Nat := UInt64.size
def powerLimit : Nat := 1 <<< 31

/-- Appends digits to a number as long as it stays below the limit, and returns the rest. -/
def appendDigits : Nat → List Char → Nat × List Char
  | n, [] => (n, [])
  | n, c :: cs =>
    let next := 10 * n + (c.toNat - '0'.toNat)
    if next < wordLimit then appendDigits next cs else (n, c :: cs)

def scaled? (x : Numeral) (significand : Nat) (power : Int) : Option Number :=
  match x.exponent with
  | none => (Binary64.ofParts? x.negative significand power).map .double
  | some (down, ds) =>
    let n := ofDigits 0 ds
    if n < powerLimit then
      (Binary64.ofParts? x.negative significand (if down then power - n else power + n)).map .double
    else if significand = 0 ∨ down then some (.double (.zero x.negative))
    else none

/-- A whole number; a negative zero or one past 64 bits is a floating-point number. -/
def wholeNumber? (negative : Bool) (n : Nat) : Option Number :=
  if !negative then some (.natural n)
  else if 0 < n ∧ n ≤ 1 <<< 63 then some (.negative n)
  else (Binary64.ofQuotient? true n 1).map .double

/-- What a numeral stands for, if that is not past the largest number.  Digits that do not fit in
the significand count as zeros. -/
def value? (x : Numeral) : Option Number :=
  match appendDigits 0 x.whole with
  | (n, []) =>
    if x.fraction.isEmpty ∧ x.exponent.isNone then wholeNumber? x.negative n
    else
      let (m, left) := appendDigits n x.fraction
      x.scaled? m (-((x.fraction.length - left.length : Nat) : Int))
  | (n, skipped) =>
    let (m, left) := appendDigits n x.fraction
    x.scaled? m ((skipped.length : Int) - ((x.fraction.length - left.length : Nat) : Int))

end Numeral

end Batchflow.Json
