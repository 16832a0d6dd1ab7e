import Mathlib.Tactic.SplitIfs
import Batchflow.Json.Shape
import Batchflow.Proofs.Decimal.Digits

/-!
# The smallest parts of JSON text, written and read

A string is read as it was written, character by character: every escape that is written stands
for its character, and a character that is not escaped stands for itself.  A whole number below
2⁶⁴ is read as it was written when no digit, point or power of ten follows.
-/

namespace Batchflow.Json

open Decimal

variable {c : Char} {cs rest s tail : List Char} {n : Nat}

theorem skipSpace_cons (h : isSpace c = false) : skipSpace (c :: cs) = c :: cs :=
  List.dropWhile_cons_of_neg (by simp [h])

theorem isSpace_of_isDigit (h : c.isDigit = true) : isSpace c = false := by
  refine Bool.eq_false_iff.mpr fun hspace => ?_
  simp only [isSpace, Bool.or_eq_true, beq_iff_eq] at hspace
  rcases hspace with ((rfl | rfl) | rfl) | rfl <;> contradiction

theorem hexValue?_digitChar : ∀ {n : Nat}, n < 16 → Text.hexValue? n.digitChar = some n := by
  decide

theorem codeUnit?_control (h : c.toNat < 0x20) :
    codeUnit? '0' '0' (Nat.digitChar (c.toNat / 16)) (Nat.digitChar (c.toNat % 16)) =
      some c.toNat := by
  have hzero : Text.hexValue? '0' = some 0 := rfl
  rw [codeUnit?, hzero, hexValue?_digitChar (by omega), hexValue?_digitChar (by omega)]
  simp only [Option.some.injEq]
  omega

/-- A character is written behind a backslash, as a code unit or as it is. -/
inductive Escaped (c : Char) : List Char → Prop
  | letter {e : Char} : e ≠ 'u' → unescape? e = some c → Escaped c ['\\', e]
  | control : c.toNat < 0x20 →
      Escaped c ['\\', 'u', '0', '0', Nat.digitChar (c.toNat / 16), Nat.digitChar (c.toNat % 16)]
  | plain : c ≠ '"' → c ≠ '\\' → ¬ c.toNat < 0x20 → Escaped c [c]

theorem escaped_escapeChar (c : Char) : Escaped c (escapeChar c) := by
  unfold escapeChar
  split_ifs with hquote hslash hb hf hn hr ht hcontrol
  · exact .letter (by decide) (by rw [hquote]; rfl)
  · exact .letter (by decide) (by rw [hslash]; rfl)
  · exact .letter (by decide) (by rw [hb]; rfl)
  · exact .letter (by decide) (by rw [hf]; rfl)
  · exact .letter (by decide) (by rw [hn]; rfl)
  · exact .letter (by decide) (by rw [hr]; rfl)
  · exact .letter (by decide) (by rw [ht]; rfl)
  · exact .control hcontrol
  · exact .plain hquote hslash hcontrol

theorem Escaped.read (h : Escaped c cs) (hrest : readString? rest = some (s, tail)) :
    readString? (cs ++ rest) = some (c :: s, tail) := by
  cases h with
  | letter hu he => simp [readString?, hu, he, hrest]
  | control h =>
    have hunit := codeUnit?_control h
    have htrailing : isTrailing c.toNat = false := by simp [isTrailing]; omega
    have hleading : isLeading c.toNat = false := by simp [isLeading]; omega
    simp [readString?, hunit, htrailing, hleading, hrest]
  | plain _ hslash hcontrol => simp [readString?, hslash, hcontrol, hrest]

theorem readString?_flatMap (s rest : List Char) :
    readString? (s.flatMap escapeChar ++ '"' :: rest) = some (s, rest) := by
  induction s with
  | nil => simp [readString?]
  | cons c s ih =>
    rw [List.flatMap_cons, List.append_assoc]
    exact (escaped_escapeChar c).read ih

/-- Nothing follows that would belong to a number: the text is at its end, or goes on with a blank or
one of the marks that stand behind a value. -/
def Delimited (rest : List Char) : Prop :=
  ∀ c ∈ rest.head?, (c = ',' ∨ c = ']' ∨ c = '}') ∨ isSpace c = true

theorem delimited_nil : Delimited [] := by simp [Delimited]

theorem delimited_cons (h : c = ',' ∨ c = ']' ∨ c = '}') : Delimited (c :: rest) := by
  intro d hd
  obtain rfl := Option.some.inj hd
  exact .inl h

theorem delimited_blank (h : isSpace c = true) : Delimited (c :: rest) := by
  intro d hd
  obtain rfl := Option.some.inj hd
  exact .inr h

/-- A character that is neither a mark nor a blank does not follow. -/
theorem Delimited.not_cons (h : Delimited (c :: rest)) {p : Char → Bool}
    (hp : [',', ']', '}', ' ', '\n', '\t', '\r'].any p = false) : p c = false := by
  simp only [List.any_cons, List.any_nil, Bool.or_eq_false_iff] at hp
  rcases h c rfl with (rfl | rfl | rfl) | hspace
  · exact hp.1
  · exact hp.2.1
  · exact hp.2.2.1
  · simp only [isSpace, Bool.or_eq_true, beq_iff_eq] at hspace
    rcases hspace with ((rfl | rfl) | rfl) | rfl <;> simp only [hp]

theorem Delimited.stops (h : Delimited rest) : Stops rest := by
  cases rest with
  | nil => exact stops_nil
  | cons c cs =>
    exact stops_cons (h.not_cons (p := Char.isDigit) rfl)

namespace Numeral

theorem scanWhole?_digits (n : Nat) (hrest : Stops rest) :
    scanWhole? (digits n ++ rest) = some (digits n, rest) := by
  have htake : takeDigits (digits n ++ rest) = (digits n, rest) :=
    Prod.ext (takeWhile_digits_append (fun _ => isDigit_of_mem_digits) hrest)
      (dropWhile_digits_append (fun _ => isDigit_of_mem_digits) hrest)
  rw [scanWhole?, htake]
  split
  · rename_i heq
    exact absurd (Prod.mk.inj heq).1 (digits_ne_nil n)
  · rename_i heq
    exact absurd (eq_nil_of_digits (Prod.mk.inj heq).1) (by simp)
  · rfl

theorem scanFraction?_of_delimited (hrest : Delimited rest) :
    scanFraction? rest = some ([], rest) := by
  unfold scanFraction?
  split
  · exact absurd (hrest.not_cons (p := (· == '.')) rfl) (by decide)
  · rfl

theorem scanExponent?_of_delimited (hrest : Delimited rest) :
    scanExponent? rest = some (none, rest) := by
  unfold scanExponent?
  split
  case h_7 => rfl
  all_goals exact absurd (hrest.not_cons (p := fun c => c == 'e' || c == 'E') rfl) (by decide)

def ofNat (n : Nat) : Numeral :=
  { negative := false, whole := digits n, fraction := [], exponent := none }

theorem scan?_digits (n : Nat) (hrest : Delimited rest) :
    scan? (digits n ++ rest) = some (ofNat n, rest) := by
  unfold scan?
  split
  rename_i negative cs hscan
  split at hscan
  · exact absurd (isDigit_of_append (fun _ => isDigit_of_mem_digits) (digits_ne_nil n) ‹_›)
      (by decide)
  · obtain ⟨rfl, rfl⟩ := Prod.mk.inj hscan
    simp [scanWhole?_digits n hrest.stops, scanFraction?_of_delimited hrest,
      scanExponent?_of_delimited hrest, ofNat]

theorem appendDigits_eq {m : Nat} (h : ofDigits m cs < wordLimit) :
    appendDigits m cs = (ofDigits m cs, []) := by
  induction cs generalizing m with
  | nil => rfl
  | cons c cs ih =>
    have hnext : ofDigits m (c :: cs) = ofDigits (10 * m + (c.toNat - '0'.toNat)) cs :=
      Nat.ofDigitChars_cons
    rw [hnext] at h ⊢
    rw [appendDigits, if_pos (Nat.lt_of_le_of_lt (le_ofDigits _ _) h)]
    exact ih h

theorem value?_ofNat (h : n < wordLimit) : (ofNat n).value? = some (.natural n) := by
  have hall : appendDigits 0 (digits n) = (n, []) := by
    rw [appendDigits_eq (by rwa [ofDigits_digits]), ofDigits_digits]
  simp [value?, ofNat, hall, wholeNumber?]

end Numeral

end Batchflow.Json
