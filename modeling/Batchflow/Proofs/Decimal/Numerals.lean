import Batchflow.Proofs.Decimal.Digits

/-!
# Numbers that are read

Reading a number from a text accepts just the texts that are digits, with a plus sign in front of
them or not, as long as the number fits.  Every digit makes the number larger, so it is enough to
compare in the end.
-/

namespace Batchflow.Decimal

variable {c : Char} {cs ds sign : List Char} {limit n : Nat}

def Denotes (limit : Nat) (cs : List Char) (n : Nat) : Prop :=
  ∃ sign ds, cs = sign ++ ds ∧ (sign = [] ∨ sign = ['+']) ∧ ds ≠ [] ∧
    (∀ c ∈ ds, c.isDigit = true) ∧ ofDigits 0 ds = n ∧ n < limit

theorem ofDigits_cons (read : Nat) (c : Char) (cs : List Char) :
    ofDigits read (c :: cs) = ofDigits (10 * read + (c.toNat - '0'.toNat)) cs :=
  Nat.ofDigitChars_cons

theorem readDigits_eq_ok {read value : UInt64} :
    readDigits read cs = .ok value ↔
      (∀ c ∈ cs, c.isDigit = true) ∧ ofDigits read.toNat cs = value.toNat := by
  induction cs generalizing read with
  | nil =>
    have hnil : ofDigits read.toNat [] = read.toNat := rfl
    simp [readDigits, hnil, UInt64.toNat_inj]
  | cons c cs ih =>
    rw [readDigits, ofDigits_cons, List.forall_mem_cons]
    by_cases hdigit : c.isDigit = true
    · simp only [digitValue?, if_pos hdigit]
      by_cases hfits : 10 * read.toNat + (c.toNat - '0'.toNat) < UInt64.size
      · simp only [dif_pos hfits, ih, UInt64.toNat_ofNatLT, hdigit, true_and]
      · have hover := le_ofDigits (10 * read.toNat + (c.toNat - '0'.toNat)) cs
        have hvalue := value.toNat_lt_size
        simp only [dif_neg hfits, reduceCtorEq, false_iff]
        rintro ⟨-, heq⟩
        omega
    · simp [digitValue?, hdigit]

theorem readNatural_plus (hne : ds ≠ []) : readNatural ('+' :: ds) = readDigits 0 ds := by
  cases ds with
  | nil => exact absurd rfl hne
  | cons => rfl

theorem readNatural_unsigned (hc : c ≠ '+') (cs : List Char) :
    readNatural (c :: cs) = readDigits 0 (c :: cs) := by
  unfold readNatural
  split
  · contradiction
  · simp_all
  · simp_all
  · rfl

theorem readNatural_eq_ok {value : UInt64} :
    readNatural cs = .ok value ↔ Denotes UInt64.size cs value.toNat := by
  constructor
  · intro h
    cases cs with
    | nil => contradiction
    | cons c cs =>
      by_cases hplus : c = '+'
      · subst hplus
        have hne : cs ≠ [] := by
          rintro rfl
          contradiction
        rw [readNatural_plus hne] at h
        obtain ⟨hdigits, heq⟩ := readDigits_eq_ok.mp h
        exact ⟨['+'], cs, rfl, .inr rfl, hne, hdigits, heq, value.toNat_lt_size⟩
      · rw [readNatural_unsigned hplus] at h
        obtain ⟨hdigits, heq⟩ := readDigits_eq_ok.mp h
        exact ⟨[], c :: cs, rfl, .inl rfl, List.cons_ne_nil c cs, hdigits, heq,
          value.toNat_lt_size⟩
  · rintro ⟨sign, ds, rfl, hsign, hne, hdigits, heq, -⟩
    have hread : readDigits 0 ds = .ok value := readDigits_eq_ok.mpr ⟨hdigits, heq⟩
    rcases hsign with rfl | rfl
    · obtain ⟨c, ds, rfl⟩ := List.exists_cons_of_ne_nil hne
      have hplus : c ≠ '+' := by
        rintro rfl
        exact absurd (hdigits '+' List.mem_cons_self) (by decide)
      exact (readNatural_unsigned hplus ds).trans hread
    · exact (readNatural_plus hne).trans hread

theorem denotes_digits (h : n < limit) : Denotes limit (digits n) n :=
  ⟨[], digits n, rfl, .inl rfl, digits_ne_nil n, fun _ => isDigit_of_mem_digits,
    ofDigits_digits n, h⟩

end Batchflow.Decimal
