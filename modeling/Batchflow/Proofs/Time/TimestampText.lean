import Mathlib.Tactic.SplitIfs
import Batchflow.Time.TimestampText
import Batchflow.Proofs.Decimal.Digits
import Batchflow.Proofs.Text.Trimming

/-!
# Timestamps, written and read

Every part of a timestamp is read as it was written: the year with its sign, if it has one, the
fields of two digits, the fraction with as many digits as it needs, and the mark of UTC.  A leap
second at the end of a minute is written as second 60 and read as such.  One that follows any other
second is written as the second after, and what is read is that second.
-/

namespace Batchflow.Timestamp

open Decimal Text

variable {c : Char} {ds rest : List Char} {n width low high nanos : Nat} {year : Int}

theorem readNumber_append (hds : ∀ c ∈ ds, c.isDigit = true) (hne : ds ≠ [])
    (hlength : ds.length ≤ width) (hstop : Stops (rest.take (width - ds.length))) :
    readNumber width (ds ++ rest) = .ok (ofDigits 0 ds, rest) := by
  have hrun : ((ds ++ rest).take width).takeWhile Char.isDigit = ds := by
    rw [List.take_append, List.take_of_length_le hlength]
    exact takeWhile_digits_append hds hstop
  rw [readNumber, hrun]
  split
  · exact absurd rfl hne
  · rw [List.drop_left]

theorem readNumber_padded (hwidth : 0 < width) (h : n < Nat.pow 10 width) (rest : List Char) :
    readNumber width (padded width n ++ rest) = .ok (n, rest) := by
  have hlength := length_padded hwidth h
  rw [readNumber_append (fun _ => isDigit_of_mem_padded) (padded_ne_nil _ _)
    (Nat.le_of_eq hlength)
    (by rw [hlength, Nat.sub_self, List.take_zero]; exact stops_nil), ofDigits_padded]

theorem readField_padded (hlow : low ≤ n) (hhigh : n ≤ high) (h : high < 100)
    (rest : List Char) : readField low high (padded 2 n ++ rest) = .ok (n, rest) := by
  rw [readField, trimStart_digits (fun _ => isDigit_of_mem_padded) (padded_ne_nil _ _),
    readNumber_padded (by decide) (show n < 100 by omega)]
  simp [hlow, hhigh]

theorem readMark_cons (mark : Char) (h : Text.isBlank mark = false) (rest : List Char) :
    readMark mark (mark :: rest) = .ok rest := by
  simp [readMark, trimStart_cons h]

theorem checkYear_eq (hlow : minYear ≤ year) (hhigh : year ≤ maxYear) (rest : List Char) :
    checkYear year rest = .ok (year, rest) := by
  simp only [minYear, maxYear] at hlow hhigh
  exact if_pos (by omega)

theorem readNumber_year (n : Nat) (hrest : Stops rest) :
    readNumber (padded 4 n ++ rest).length (padded 4 n ++ rest) = .ok (n, rest) := by
  have hstop : Stops (rest.take ((padded 4 n ++ rest).length - (padded 4 n).length)) := by
    rwa [List.length_append, Nat.add_sub_cancel_left, List.take_length]
  rw [readNumber_append (fun _ => isDigit_of_mem_padded) (padded_ne_nil _ _)
    (by rw [List.length_append]; omega) hstop, ofDigits_padded]

theorem readYear_yearText (hlow : minYear ≤ year) (hhigh : year ≤ maxYear) (rest : List Char) :
    readYear (yearText year ++ '-' :: rest) = .ok (year, '-' :: rest) := by
  have hrest : Stops ('-' :: rest) := stops_cons rfl
  unfold yearText
  split
  · rename_i hplain
    have hnumber := readNumber_padded (show 0 < 4 by decide) (show year.toNat < 10000 by omega)
      ('-' :: rest)
    have hdigit {c : Char} {cs : List Char} (h : padded 4 year.toNat ++ '-' :: rest = c :: cs) :
        c.isDigit = true :=
      isDigit_of_append (fun _ => isDigit_of_mem_padded) (padded_ne_nil _ _) h
    rw [readYear, trimStart_digits (fun _ => isDigit_of_mem_padded) (padded_ne_nil _ _)]
    split
    · exact absurd (hdigit ‹_›) (by decide)
    · exact absurd (hdigit ‹_›) (by decide)
    · simp only [hnumber, Int.toNat_of_nonneg hplain.1]
  · rename_i hsigned
    rw [List.cons_append]
    split
    · rename_i hpositive
      rw [readYear, trimStart_cons (by decide)]
      simp only [readNumber_year _ hrest, Int.natAbs_of_nonneg hpositive]
      exact checkYear_eq hlow hhigh _
    · rename_i hnegative
      rw [readYear, trimStart_cons (by decide)]
      have hvalue : -(year.natAbs : Int) = year := by omega
      simp only [readNumber_year _ hrest, hvalue]
      exact checkYear_eq hlow hhigh _

theorem readFraction_point {width : Nat} (hwidth : 0 < width) (hmax : width ≤ 9)
    (h : n < Nat.pow 10 width) (rest : List Char) :
    readFraction ('.' :: padded width n ++ 'Z' :: rest) =
      .ok (n * Nat.pow 10 (9 - width), 'Z' :: rest) := by
  have hlength := length_padded hwidth h
  have hstop : Stops ('Z' :: rest) := stops_cons rfl
  have hrun : ((padded width n ++ 'Z' :: rest).take 9).takeWhile Char.isDigit = padded width n := by
    rw [List.take_append, List.take_of_length_le (by omega)]
    exact takeWhile_digits_append (fun _ => isDigit_of_mem_padded) (stops_take hstop _)
  rw [List.cons_append, readFraction, hrun]
  split
  · exact absurd ‹_› (padded_ne_nil _ _)
  · have hdrop : (padded width n ++ 'Z' :: rest).drop width = 'Z' :: rest :=
      List.drop_left' hlength
    simp only [ofDigits_padded, hlength, hdrop, dropWhile_of_stops hstop, ite_self]

theorem readFraction_fractionText (h : nanos < 1000000000) (rest : List Char) :
    readFraction (fractionText nanos ++ 'Z' :: rest) = .ok (nanos, 'Z' :: rest) := by
  unfold fractionText
  split_ifs with hnone hmillis hmicros
  · rw [hnone]
    rfl
  · have hvalue : nanos / 1000000 * Nat.pow 10 (9 - 3) = nanos :=
      Nat.div_mul_cancel (Nat.dvd_of_mod_eq_zero hmillis)
    rw [readFraction_point (by decide) (by decide) (show nanos / 1000000 < 1000 by omega), hvalue]
  · have hvalue : nanos / 1000 * Nat.pow 10 (9 - 6) = nanos :=
      Nat.div_mul_cancel (Nat.dvd_of_mod_eq_zero hmicros)
    rw [readFraction_point (by decide) (by decide) (show nanos / 1000 < 1000000 by omega), hvalue]
  · have hvalue : nanos * Nat.pow 10 (9 - 9) = nanos := Nat.mul_one nanos
    rw [readFraction_point (by decide) (by decide) h, hvalue]

/-- The parts of a timestamp in UTC, as its text shows them. -/
def fields (t : Timestamp) : Fields where
  year := t.date.year
  month := t.date.month
  day := t.date.day
  hour := t.second / 3600
  minute := t.second / 60 % 60
  second := t.second % 60 + t.nanos / 1000000000
  nanos := t.nanos % 1000000000
  offset := 0

theorem daysInMonth_le (year : Int) (month : Nat) : daysInMonth year month ≤ 31 := by
  unfold daysInMonth
  split_ifs <;> decide

theorem readOffset_utc : readOffset ['Z'] = .ok (0, []) := rfl

theorem readFields_text (t : Timestamp) : readFields t.text = .ok (t.fields, []) := by
  obtain ⟨hlow, hhigh, hmonth, hmonth', hday, hday'⟩ := t.date.valid
  have hdays := daysInMonth_le t.date.year t.date.month
  have hsecond := t.second_lt
  have hnanos := t.nanos_lt
  have hhour : t.second / 3600 ≤ 23 := by omega
  have hminute : t.second / 60 % 60 ≤ 59 := by omega
  have hclock : t.second % 60 + t.nanos / 1000000000 ≤ 60 := by omega
  have hfraction : t.nanos % 1000000000 < 1000000000 := by omega
  simp only [text, clockText, List.append_assoc, List.cons_append]
  simp only [readFields, bind, Except.bind, readYear_yearText hlow hhigh, readMark_cons '-' rfl,
    readMark_cons ':' rfl, readField_padded hmonth hmonth' (by decide),
    readField_padded hday (Nat.le_trans hday' hdays) (by decide), readSeparator, if_pos,
    readField_padded (Nat.zero_le _) hhour (by decide),
    readField_padded (Nat.zero_le _) hminute (by decide),
    readField_padded (Nat.zero_le _) hclock (by decide), readFraction_fractionText hfraction,
    trimStart_cons (c := 'Z') rfl, readOffset_utc, true_or]
  rfl

theorem ofLocal?_utc (t : Timestamp) : ofLocal? t.date t.second t.nanos 0 = some t := by
  have hof : of? t.date t.second t.nanos = some t := dif_pos ⟨t.second_lt, t.nanos_lt⟩
  have hsecond := t.second_lt
  unfold ofLocal?
  simp only [Int.mul_zero, Int.sub_zero]
  rw [if_neg (by omega), if_neg (by omega), Int.toNat_natCast, hof]

/-- If the time is in a leap second, this is the sixty-first second of a minute. -/
def OnMinute (t : Timestamp) : Prop := 1000000000 ≤ t.nanos → t.second % 60 = 59

instance (t : Timestamp) : Decidable t.OnMinute :=
  inferInstanceAs (Decidable (1000000000 ≤ t.nanos → t.second % 60 = 59))

variable {t : Timestamp}

theorem clock_fields (h : t.OnMinute) :
    (if t.fields.second = 60 then (59, t.fields.nanos + 1000000000)
      else (t.fields.second, t.fields.nanos)) = (t.second % 60, t.nanos) := by
  have hnanos := t.nanos_lt
  by_cases hpast : 1000000000 ≤ t.nanos
  · have hlast := h hpast
    have hsecond : t.fields.second = 60 := by simp only [fields]; omega
    have hwhole : t.fields.nanos + 1000000000 = t.nanos := by simp only [fields]; omega
    rw [if_pos hsecond, hwhole, hlast]
  · have hsecond : t.fields.second = t.second % 60 := by simp only [fields]; omega
    have hwhole : t.fields.nanos = t.nanos := by simp only [fields]; omega
    rw [if_neg (by omega), hsecond, hwhole]

theorem ofFields_fields (h : t.OnMinute) : ofFields t.fields = .ok t := by
  have hdate : Date.of? t.date.year t.date.month t.date.day = some t.date := dif_pos t.date.valid
  have hsecond : 3600 * (t.second / 3600) + 60 * (t.second / 60 % 60) + t.second % 60 = t.second := by
    omega
  simp only [ofFields, clock_fields h]
  simp [fields, hdate, hsecond, ofLocal?_utc]

theorem read_text (h : t.OnMinute) : read t.text = .ok t := by
  rw [read, readFields_text]
  exact ofFields_fields h

theorem succ_second_lt (h : ¬ t.OnMinute) : t.second + 1 < 86400 := by
  have hsecond := t.second_lt
  simp only [OnMinute, Classical.not_imp] at h
  omega

theorem nanos_sub_lt (t : Timestamp) : t.nanos - 1000000000 < 2000000000 :=
  Nat.lt_of_le_of_lt (Nat.sub_le _ _) t.nanos_lt

/-- The time that the text shows: a leap second in the middle of a minute is the second after. -/
def carried (t : Timestamp) : Timestamp :=
  if h : t.OnMinute then t
  else { date := t.date, second := t.second + 1, nanos := t.nanos - 1000000000,
         second_lt := succ_second_lt h, nanos_lt := t.nanos_sub_lt }

theorem carried_of_onMinute (h : t.OnMinute) : t.carried = t := dif_pos h

theorem onMinute_carried (t : Timestamp) : t.carried.OnMinute := by
  by_cases h : t.OnMinute
  · rwa [carried_of_onMinute h]
  · have hnanos := t.nanos_lt
    rw [carried, dif_neg h]
    intro hpast
    dsimp only at hpast
    omega

theorem carried_eq_self_iff : t.carried = t ↔ t.OnMinute := by
  refine ⟨fun h => ?_, carried_of_onMinute⟩
  rw [← h]
  exact t.onMinute_carried

theorem text_carried (t : Timestamp) : t.carried.text = t.text := by
  by_cases h : t.OnMinute
  · rw [carried_of_onMinute h]
  · have hnanos := t.nanos_lt
    rw [carried, dif_neg h]
    simp only [OnMinute, Classical.not_imp] at h
    have hhour : (t.second + 1) / 3600 = t.second / 3600 := by omega
    have hminute : (t.second + 1) / 60 % 60 = t.second / 60 % 60 := by omega
    have hclock : (t.second + 1) % 60 + (t.nanos - 1000000000) / 1000000000 =
        t.second % 60 + t.nanos / 1000000000 := by omega
    have hfraction : (t.nanos - 1000000000) % 1000000000 = t.nanos % 1000000000 := by omega
    simp only [text, clockText, hhour, hminute, hclock, hfraction]

end Batchflow.Timestamp
