import Mathlib.Data.List.TakeWhile
import Batchflow.Text.Blank
import Batchflow.Text.Utf8

/-!
# Texts without the blanks around them

What is trimmed off a text is blank, and what has no blanks in it is all that is left between
blanks.  A text and its bytes determine each other.
-/

namespace Batchflow.Text

variable {c : Char} {cs front mid back rest ds : List Char}

theorem isBlank_of_isDigit (h : c.isDigit = true) : isBlank c = false := by
  have hdigit : 48 ≤ c.toNat ∧ c.toNat ≤ 57 := by
    simpa [Char.isDigit, UInt32.le_iff_toNat_le] using h
  simp only [isBlank, Bool.or_eq_false_iff, Bool.and_eq_false_iff, decide_eq_false_iff_not,
    beq_eq_false_iff_ne]
  omega

theorem trimStart_cons (h : isBlank c = false) : trimStart (c :: rest) = c :: rest :=
  List.dropWhile_cons_of_neg (by simp [h])

theorem trimStart_digits (hds : ∀ c ∈ ds, c.isDigit = true) (hne : ds ≠ []) (rest : List Char) :
    trimStart (ds ++ rest) = ds ++ rest := by
  obtain ⟨c, cs, rfl⟩ := List.exists_cons_of_ne_nil hne
  exact trimStart_cons (isBlank_of_isDigit (hds c List.mem_cons_self))

/-- All of a text is blank. -/
def Blank (cs : List Char) : Prop := ∀ c ∈ cs, isBlank c = true

theorem Blank.reverse (h : Blank cs) : Blank cs.reverse := fun c hc => h c (List.mem_reverse.mp hc)

theorem Blank.trimStart_append (h : Blank front) (cs : List Char) :
    trimStart (front ++ cs) = trimStart cs :=
  List.dropWhile_append_of_pos h

theorem Blank.trimStart (h : Blank front) : trimStart front = [] := List.dropWhile_eq_nil_iff.mpr h

theorem trim_append (hfront : Blank front) (hmid : ∀ c ∈ mid, isBlank c = false)
    (hback : Blank back) : trim (front ++ mid ++ back) = mid := by
  have hkept (cs rest : List Char) (hcs : ∀ c ∈ cs, isBlank c = false) (hne : cs ≠ []) :
      trimStart (cs ++ rest) = cs ++ rest := by
    obtain ⟨c, cs, rfl⟩ := List.exists_cons_of_ne_nil hne
    exact trimStart_cons (hcs c List.mem_cons_self)
  rw [trim, List.append_assoc, hfront.trimStart_append]
  by_cases hne : mid = []
  · rw [hne, List.nil_append, hback.trimStart]
    rfl
  · have hreverse : ∀ c ∈ mid.reverse, isBlank c = false := fun c hc =>
      hmid c (List.mem_reverse.mp hc)
    have hend := hkept mid.reverse [] hreverse (by simpa using hne)
    rw [List.append_nil] at hend
    rw [hkept mid back hmid hne, List.reverse_append, hback.reverse.trimStart_append, hend,
      List.reverse_reverse]

theorem exists_trimStart (cs : List Char) : ∃ front, Blank front ∧ cs = front ++ trimStart cs :=
  ⟨cs.takeWhile isBlank, fun _ => List.mem_takeWhile_imp, List.takeWhile_append_dropWhile.symm⟩

theorem exists_trim (cs : List Char) :
    ∃ front back, Blank front ∧ Blank back ∧ cs = front ++ trim cs ++ back := by
  obtain ⟨front, hfront, hcs⟩ := exists_trimStart cs
  obtain ⟨back, hback, hrest⟩ := exists_trimStart (trimStart cs).reverse
  refine ⟨front, back.reverse, hfront, hback.reverse, ?_⟩
  have hmid : trimStart cs = trim cs ++ back.reverse := by
    rw [trim, ← List.reverse_append, ← hrest, List.reverse_reverse]
  rw [List.append_assoc, ← hmid]
  exact hcs

theorem toList_loop (bytes : ByteArray) (i : Nat) (seen : List UInt8) :
    ByteArray.toList.loop bytes i seen = seen.reverse ++ bytes.data.toList.drop i := by
  fun_induction ByteArray.toList.loop bytes i seen with
  | case1 i seen hlt ih =>
    have hget : bytes.get! i = bytes.data.toList[i] := getElem!_pos bytes.data i hlt
    rw [ih, List.reverse_cons, List.append_assoc, hget, List.singleton_append,
      List.getElem_cons_drop]
  | case2 i seen hle => simpa using Nat.le_of_not_lt hle

/-- Bytes are a text just when they are its encoding. -/
theorem utf8Decode?_eq_some {bytes : List UInt8} {s : String} :
    utf8Decode? bytes = some s ↔ bytes = utf8Encode s := by
  have hencode : utf8Encode s = s.toByteArray.data.toList := toList_loop s.toByteArray 0 []
  rw [hencode]
  unfold utf8Decode? String.fromUTF8?
  constructor
  · intro h
    split at h
    · rw [← Option.some.inj h]
      rfl
    · contradiction
  · intro h
    subst h
    exact dif_pos s.isValidUTF8

end Batchflow.Text
