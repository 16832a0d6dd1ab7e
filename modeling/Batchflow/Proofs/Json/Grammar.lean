import Batchflow.Proofs.Json.Reading

/-!
# Which texts are JSON

The grammar of values, read from the front of a text: each rule says what stands there and what is
left behind it.  Between the parts there may be blanks.  The grammar says nothing of what a value
means: a numeral may be too large for any number, and an escaped surrogate may stand alone.
-/

namespace Batchflow.Json

variable {c : Char} {cs cs₁ cs₂ rest text : List Char}

inductive Gap : List Char → List Char → Prop
  | none {rest : List Char} : Gap rest rest
  | blank {c : Char} {cs rest : List Char} : isSpace c = true → Gap cs rest → Gap (c :: cs) rest

theorem Gap.skipSpace_eq (h : Gap cs rest) : skipSpace cs = skipSpace rest := by
  induction h with
  | none => rfl
  | blank hc _ ih => rw [← ih, skipSpace, List.dropWhile_cons_of_pos hc, skipSpace]

theorem Gap.skipSpace_cons (h : Gap cs (c :: rest)) (hc : isSpace c = false) :
    skipSpace cs = c :: rest := by
  rw [h.skipSpace_eq, Json.skipSpace_cons hc]

theorem Gap.skipSpace_of_visible (h : Gap cs rest) (hrest : Visible rest) :
    skipSpace cs = rest := by
  rw [h.skipSpace_eq, hrest.skipSpace_eq]

theorem Gap.length_le (h : Gap cs rest) : rest.length ≤ cs.length := by
  induction h with
  | none => exact Nat.le_refl _
  | blank _ _ ih => exact Nat.le_succ_of_le ih

theorem Gap.length_lt (h : Gap cs (c :: rest)) : rest.length < cs.length := h.length_le

theorem Gap.delimited (h : Gap cs rest) (hrest : Delimited rest) : Delimited cs := by
  cases h with
  | none => exact hrest
  | blank hspace => exact delimited_blank hspace

theorem gap_skipSpace (cs : List Char) : Gap cs (skipSpace cs) := by
  induction cs with
  | nil => exact .none
  | cons c cs ih =>
    by_cases hc : isSpace c = true
    · rw [skipSpace, List.dropWhile_cons_of_pos hc]
      exact .blank hc ih
    · rw [Json.skipSpace_cons (Bool.eq_false_iff.mpr hc)]
      exact .none

theorem skipSpace_skipSpace (cs : List Char) : skipSpace (skipSpace cs) = skipSpace cs :=
  (gap_skipSpace cs).skipSpace_eq.symm

/-- The inside of a string up to its closing quote. -/
inductive Chars : List Char → List Char → Prop
  | close {rest : List Char} : Chars ('"' :: rest) rest
  | plain {c : Char} {cs rest : List Char} : c ≠ '"' → c ≠ '\\' → ¬ c.toNat < 0x20 →
      Chars cs rest → Chars (c :: cs) rest
  | letter {e : Char} {cs rest : List Char} : e ∈ ['"', '\\', '/', 'b', 'f', 'n', 'r', 't'] →
      Chars cs rest → Chars ('\\' :: e :: cs) rest
  | unit {a b c d : Char} {n : Nat} {cs rest : List Char} : codeUnit? a b c d = some n →
      Chars cs rest → Chars ('\\' :: 'u' :: a :: b :: c :: d :: cs) rest

theorem Chars.length_lt (h : Chars cs rest) : rest.length < cs.length := by
  induction h with
  | close => exact Nat.lt_succ_self _
  | plain _ _ _ _ ih | letter _ _ ih | unit _ _ ih =>
    simp only [List.length_cons]
    omega

/-- Digits, without a zero in front of another. -/
inductive WholeText : List Char → Prop
  | zero : WholeText ['0']
  | digits {c : Char} {cs : List Char} : c ≠ '0' → (∀ d ∈ c :: cs, d.isDigit = true) →
      WholeText (c :: cs)

inductive FractionText : List Char → Prop
  | none : FractionText []
  | digits {ds : List Char} : ds ≠ [] → (∀ d ∈ ds, d.isDigit = true) → FractionText ('.' :: ds)

inductive ExponentText : List Char → Prop
  | none : ExponentText []
  | digits {mark : Char} {sign ds : List Char} : mark = 'e' ∨ mark = 'E' →
      sign = [] ∨ sign = ['+'] ∨ sign = ['-'] → ds ≠ [] → (∀ d ∈ ds, d.isDigit = true) →
      ExponentText (mark :: (sign ++ ds))

/-- A minus sign or none, a whole number, and perhaps a fraction and a power of ten. -/
inductive NumeralText : List Char → Prop
  | mk {sign whole fraction exponent : List Char} : sign = [] ∨ sign = ['-'] → WholeText whole →
      FractionText fraction → ExponentText exponent →
      NumeralText (sign ++ (whole ++ (fraction ++ exponent)))

theorem isSpace_of_startsNumeral (h : startsNumeral c = true) : isSpace c = false := by
  rcases Bool.or_eq_true_iff.mp h with hminus | hdigit
  · rw [eq_of_beq hminus]
    rfl
  · exact isSpace_of_isDigit hdigit

theorem WholeText.exists_cons (h : WholeText text) :
    ∃ c cs, text = c :: cs ∧ c.isDigit = true := by
  cases h with
  | zero => exact ⟨'0', [], rfl, rfl⟩
  | digits _ hdigits => exact ⟨_, _, rfl, hdigits _ List.mem_cons_self⟩

theorem NumeralText.exists_cons (h : NumeralText text) :
    ∃ c cs, text = c :: cs ∧ startsNumeral c = true := by
  obtain ⟨hsign, hwhole, -, -⟩ := h
  obtain ⟨c, cs, rfl, hc⟩ := hwhole.exists_cons
  rcases hsign with rfl | rfl
  · exact ⟨c, _, rfl, by simp [startsNumeral, hc]⟩
  · exact ⟨'-', _, rfl, rfl⟩

/-- What a rule of the grammar is about: a value, the values of a list from behind its bracket, or
the members of an object from behind its brace. -/
inductive Piece where
  | value
  | items
  | members

/-- The piece stands in front of the text, and this is left behind it. -/
inductive Valid : Piece → List Char → List Char → Prop
  | nullWord {rest : List Char} : Valid .value ('n' :: 'u' :: 'l' :: 'l' :: rest) rest
  | trueWord {rest : List Char} : Valid .value ('t' :: 'r' :: 'u' :: 'e' :: rest) rest
  | falseWord {rest : List Char} : Valid .value ('f' :: 'a' :: 'l' :: 's' :: 'e' :: rest) rest
  | numeral {text rest : List Char} : NumeralText text → Valid .value (text ++ rest) rest
  | string {cs rest : List Char} : Chars cs rest → Valid .value ('"' :: cs) rest
  | emptyArray {cs rest : List Char} : Gap cs (']' :: rest) → Valid .value ('[' :: cs) rest
  | array {cs rest : List Char} : Valid .items cs rest → Valid .value ('[' :: cs) rest
  | emptyObject {cs rest : List Char} : Gap cs ('}' :: rest) → Valid .value ('{' :: cs) rest
  | object {cs rest : List Char} : Valid .members cs rest → Valid .value ('{' :: cs) rest
  | lastItem {cs value after rest : List Char} : Gap cs value → Valid .value value after →
      Gap after (']' :: rest) → Valid .items cs rest
  | moreItems {cs value after more rest : List Char} : Gap cs value → Valid .value value after →
      Gap after (',' :: more) → Valid .items more rest → Valid .items cs rest
  | lastMember {cs key behind colon value after rest : List Char} : Gap cs ('"' :: key) →
      Chars key behind → Gap behind (':' :: colon) → Gap colon value → Valid .value value after →
      Gap after ('}' :: rest) → Valid .members cs rest
  | moreMembers {cs key behind colon value after more rest : List Char} : Gap cs ('"' :: key) →
      Chars key behind → Gap behind (':' :: colon) → Gap colon value → Valid .value value after →
      Gap after (',' :: more) → Valid .members more rest → Valid .members cs rest

namespace Valid

variable {piece : Piece}

theorem length_lt (h : Valid piece cs rest) : rest.length < cs.length := by
  induction h with
  | nullWord | trueWord | falseWord => simp only [List.length_cons]; omega
  | numeral h =>
    obtain ⟨c, cs, rfl, -⟩ := h.exists_cons
    simp only [List.length_append, List.length_cons]
    omega
  | string h => exact Nat.lt_succ_of_lt h.length_lt
  | emptyArray h | emptyObject h => exact Nat.lt_succ_of_lt h.length_lt
  | array _ ih | object _ ih => exact Nat.lt_succ_of_lt ih
  | lastItem hgap _ hafter ih =>
    have hstart := hgap.length_le
    have hend := hafter.length_lt
    omega
  | moreItems hgap _ hafter _ ih ihmore =>
    have hstart := hgap.length_le
    have hend := hafter.length_lt
    omega
  | lastMember hgap hkey hcolon hblank _ hafter ih =>
    have hname := hkey.length_lt
    have hstart := hgap.length_lt
    have hmiddle := hcolon.length_lt
    have hvalue := hblank.length_le
    have hend := hafter.length_lt
    omega
  | moreMembers hgap hkey hcolon hblank _ hafter _ ih ihmore =>
    have hname := hkey.length_lt
    have hstart := hgap.length_lt
    have hmiddle := hcolon.length_lt
    have hvalue := hblank.length_le
    have hend := hafter.length_lt
    omega

theorem exists_cons (h : Valid .value cs rest) :
    ∃ c t, cs = c :: t ∧ (c ∈ ['n', 't', 'f', '"', '[', '{'] ∨ startsNumeral c = true) := by
  cases h with
  | numeral h =>
    obtain ⟨c, cs, rfl, hc⟩ := h.exists_cons
    exact ⟨c, _, rfl, .inr hc⟩
  | _ => exact ⟨_, _, rfl, .inl (by decide)⟩

theorem visible (h : Valid .value cs rest) : Visible cs := by
  obtain ⟨c, t, rfl, hc⟩ := h.exists_cons
  refine ⟨c, t, rfl, ?_⟩
  rcases hc with hc | hc
  · simp only [List.mem_cons, List.not_mem_nil, or_false] at hc
    rcases hc with rfl | rfl | rfl | rfl | rfl | rfl <;> exact ⟨rfl, by decide⟩
  · refine ⟨isSpace_of_startsNumeral hc, ?_⟩
    rintro rfl
    contradiction

theorem ne_comma (h : Valid .value (c :: cs) rest) : c ≠ ',' := by
  rintro rfl
  obtain ⟨c, t, heq, hc⟩ := h.exists_cons
  obtain rfl := (List.cons.inj heq).1
  exact absurd hc (by decide)

theorem visible_items (h : Valid .items cs rest) : Visible (skipSpace cs) := by
  cases h with
  | lastItem hgap hvalue | moreItems hgap hvalue =>
    rw [hgap.skipSpace_of_visible hvalue.visible]
    exact hvalue.visible

theorem quote_members (h : Valid .members cs rest) : ∃ t, skipSpace cs = '"' :: t := by
  cases h with
  | lastMember hgap | moreMembers hgap => exact ⟨_, hgap.skipSpace_cons rfl⟩

end Valid

end Batchflow.Json
