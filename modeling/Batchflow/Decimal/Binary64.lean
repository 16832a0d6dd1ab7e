/-!
# Binary floating point of 64 bits

A finite number of the format is `± mantissa · 2 ^ exponent` with fewer than 54 bits in the
mantissa.  Every operation here is exact arithmetic on natural numbers followed by one rounding
to the nearest number of the format, a tie going to the even mantissa.
-/

namespace Batchflow.Decimal

structure Binary64 where
  negative : Bool
  mantissa : Nat
  exponent : Int
  deriving DecidableEq, Repr

/-- The natural number nearest to a quotient; a tie goes to the even one. -/
def roundQuotient (num den : Nat) : Nat :=
  let q := num / den
  let r := num % den
  if 2 * r < den then q
  else if den < 2 * r then q + 1
  else if q % 2 = 0 then q
  else q + 1

def roundScaled (num den : Nat) (e : Int) : Nat :=
  if 0 ≤ e then roundQuotient num (den <<< e.toNat) else roundQuotient (num <<< (-e).toNat) den

namespace Binary64

def zero (negative : Bool) : Binary64 := { negative, mantissa := 0, exponent := -1074 }

/-- The least and the greatest exponent of the format. -/
def minExponent : Int := -1074
def maxExponent : Int := 971

def belowPower (num den : Nat) (e : Int) : Bool :=
  if 0 ≤ e then num < den <<< e.toNat else num <<< (-e).toNat < den

/-- The number of the format nearest to a quotient, if that is not past the largest. -/
def ofQuotient? (negative : Bool) (num den : Nat) : Option Binary64 :=
  if num = 0 then some (zero negative)
  else
    let top : Int := (Nat.log2 num : Int) - (Nat.log2 den : Int)
    let top := if belowPower num den top then top - 1 else top
    let e := max (top - 52) minExponent
    let m := roundScaled num den e
    let (m, e) := if m = 1 <<< 53 then (1 <<< 52, e + 1) else (m, e)
    if maxExponent < e then none else some { negative, mantissa := m, exponent := e }

def magnitude (x : Binary64) : Nat × Nat :=
  if 0 ≤ x.exponent then (x.mantissa <<< x.exponent.toNat, 1)
  else (x.mantissa, 1 <<< (-x.exponent).toNat)

def powerOfTen (n : Nat) : Nat × Nat :=
  match ofQuotient? false (Nat.pow 10 n) 1 with
  | some x => x.magnitude
  | none => (Nat.pow 10 n, 1)

def times? (x : Binary64) (n : Nat) : Option Binary64 :=
  let (a, b) := x.magnitude
  let (p, q) := powerOfTen n
  ofQuotient? x.negative (a * p) (b * q)

def over? (x : Binary64) (n : Nat) : Option Binary64 :=
  let (a, b) := x.magnitude
  let (p, q) := powerOfTen n
  ofQuotient? x.negative (a * q) (b * p)

/-- The largest power of ten that has a number of the format. -/
def maxPower : Nat := 308

def shrink? : Nat → Binary64 → Nat → Option Binary64
  | 0, x, n => x.over? n
  | fuel + 1, x, n =>
    if n ≤ maxPower then x.over? n
    else if x.mantissa = 0 then some x
    else (x.over? maxPower).bind fun x => shrink? fuel x (n - maxPower)

/-- A whole number times a power of ten, the number rounded first and the product after that.
There is none past the largest number of the format. -/
def ofParts? (negative : Bool) (significand : Nat) (exponent : Int) : Option Binary64 :=
  (ofQuotient? negative significand 1).bind fun x =>
    if 0 ≤ exponent then
      if exponent.toNat ≤ maxPower then x.times? exponent.toNat
      else if x.mantissa = 0 then some x else none
    else shrink? 8 x (-exponent).toNat

/-- Equality as numbers: the two zeros are equal. -/
def same (x y : Binary64) : Bool := x == y || (x.mantissa == 0 && y.mantissa == 0)

end Binary64

end Batchflow.Decimal
