import Batchflow.Decimal.Natural

/-!
# Durations

A span of time as whole seconds and nanoseconds.  The bounds are those of the wire format: the
seconds fit in 64 bits and the nanoseconds are less than a second, so a duration has one form
only and durations are ordered by their total.
-/

namespace Batchflow

structure Duration where
  secs : Nat
  nanos : Nat
  secs_lt : secs < UInt64.size
  nanos_lt : nanos < 1000000000
  deriving DecidableEq, Repr

namespace Duration

def total (d : Duration) : Nat := 1000000000 * d.secs + d.nanos

/-- A number of whole seconds. -/
def ofSecs (n : UInt64) : Duration :=
  { secs := n.toNat, nanos := 0, secs_lt := n.toNat_lt_size, nanos_lt := by decide }

def zero : Duration := .ofSecs 0

instance : Inhabited Duration := ⟨zero⟩

/-- Nanoseconds past a second are carried; there is no duration for a total past the bound. -/
def ofParts? (secs nanos : Nat) : Option Duration :=
  if h : secs + nanos / 1000000000 < UInt64.size then
    some { secs := secs + nanos / 1000000000, nanos := nanos % 1000000000, secs_lt := h,
           nanos_lt := Nat.mod_lt _ (by decide) }
  else none

theorem thousandth_lt {n : Nat} (h : n < UInt64.size) : n / 1000 < UInt64.size :=
  Nat.lt_of_le_of_lt (Nat.div_le_self n 1000) h

theorem millis_nanos_lt (n : Nat) : n % 1000 * 1000000 < 1000000000 := by
  have := Nat.mod_lt n (show 0 < 1000 by decide)
  omega

/-- A number of milliseconds. -/
def ofMillis (n : UInt64) : Duration :=
  { secs := n.toNat / 1000, nanos := n.toNat % 1000 * 1000000,
    secs_lt := thousandth_lt n.toNat_lt_size, nanos_lt := millis_nanos_lt n.toNat }

@[simp] theorem total_ofSecs (n : UInt64) : (ofSecs n).total = 1000000000 * n.toNat := rfl

@[simp] theorem total_ofMillis (n : UInt64) : (ofMillis n).total = 1000000 * n.toNat := by
  simp only [total, ofMillis]
  omega

theorem ext_total {a b : Duration} (h : a.total = b.total) : a = b := by
  obtain ⟨as, an, ha, ha'⟩ := a
  obtain ⟨bs, bn, hb, hb'⟩ := b
  simp only [total] at h
  have hs : as = bs := by omega
  have hn : an = bn := by omega
  subst hs hn
  rfl

/-- Digits of a fraction, without the zeros at the end. -/
def fraction (width n : Nat) : List Char :=
  match (Decimal.padded width n).reverse.dropWhile (· == '0') with
  | [] => []
  | cs => '.' :: cs.reverse

def inUnits (whole width part : Nat) (unit : String) : String :=
  String.ofList (Decimal.digits whole ++ fraction width part) ++ unit

/-- The duration in the largest unit it reaches, among seconds, milliseconds, microseconds and
nanoseconds. -/
def text (d : Duration) : String :=
  if 0 < d.secs then inUnits d.secs 9 d.nanos "s"
  else if 1000000 ≤ d.nanos then inUnits (d.nanos / 1000000) 6 (d.nanos % 1000000) "ms"
  else if 1000 ≤ d.nanos then inUnits (d.nanos / 1000) 3 (d.nanos % 1000) "µs"
  else inUnits d.nanos 0 0 "ns"

end Duration

end Batchflow
