/-!
# Natural numbers in decimal

Writing a number takes the fewest digits.  Reading one goes from left to right and reports the
first thing that is wrong: a character that is no digit, or a value past 64 bits.
-/

namespace Batchflow.Decimal

/-- The decimal digits of a number, most significant first. -/
def digits (n : Nat) : List Char := Nat.toDigits 10 n

/-- A number as text. -/
def text (n : Nat) : String := String.ofList (digits n)

def digitValue? (c : Char) : Option Nat :=
  if c.isDigit then some (c.toNat - '0'.toNat) else none

def ofDigits (read : Nat) (cs : List Char) : Nat := Nat.ofDigitChars 10 cs read

theorem ofDigits_digits (n : Nat) : ofDigits 0 (digits n) = n :=
  Nat.ofDigitChars_ten_toDigits

theorem digits_injective {m n : Nat} (h : digits m = digits n) : m = n := by
  rw [← ofDigits_digits m, h, ofDigits_digits]

/-- At least so many digits, filled with zeros in front. -/
def padded (width n : Nat) : List Char :=
  List.replicate (width - (digits n).length) '0' ++ digits n

/-- Why a text is not a number. -/
inductive NumberFault where
  | empty
  | invalidDigit
  | tooLarge
  deriving DecidableEq, Repr

/-- The wording of a fault. -/
def NumberFault.message : NumberFault → String
  | .empty => "cannot parse integer from empty string"
  | .invalidDigit => "invalid digit found in string"
  | .tooLarge => "number too large to fit in target type"

/-- Reads digits after `read`; every intermediate value has to fit. -/
def readDigits : UInt64 → List Char → Except NumberFault UInt64
  | read, [] => .ok read
  | read, c :: cs =>
    match digitValue? c with
    | none => .error .invalidDigit
    | some d =>
      if h : 10 * read.toNat + d < UInt64.size then readDigits (.ofNatLT _ h) cs
      else .error .tooLarge

/-- Reads an optional plus sign and at least one digit. -/
def readNatural : List Char → Except NumberFault UInt64
  | [] => .error .empty
  | ['+'] => .error .invalidDigit
  | '+' :: cs => readDigits 0 cs
  | cs => readDigits 0 cs

end Batchflow.Decimal
