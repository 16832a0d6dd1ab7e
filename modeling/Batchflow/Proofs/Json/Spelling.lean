import Batchflow.Proofs.Json.Skipping

/-!
# The ways to write a value

A value can be written in many ways: with blanks between its parts, and with its strings escaped
where they need not be.  A member of an object may also be left open, and then any value will do for
it.  However it is written, the text is valid.
-/

namespace Batchflow.Json

open Decimal

variable {c : Char} {s cs rest : List Char} {n : Nat}

/-- The inside of a string that stands for some characters, up to the closing quote.  Each character
stands for itself, or is escaped in one of the ways there are for it. -/
inductive SpelledChars : List Char → List Char → List Char → Prop
  | close {rest : List Char} : SpelledChars [] ('"' :: rest) rest
  | plain {c : Char} {s cs rest : List Char} : c ≠ '"' → c ≠ '\\' → ¬ c.toNat < 0x20 →
      SpelledChars s cs rest → SpelledChars (c :: s) (c :: cs) rest
  | letter {e c : Char} {s cs rest : List Char} : unescape? e = some c →
      SpelledChars s cs rest → SpelledChars (c :: s) ('\\' :: e :: cs) rest
  | unit {a b c d : Char} {n : Nat} {s cs rest : List Char} : codeUnit? a b c d = some n →
      isLeading n = false → isTrailing n = false → SpelledChars s cs rest →
      SpelledChars (Char.ofNat n :: s) ('\\' :: 'u' :: a :: b :: c :: d :: cs) rest
  | pair {a b c d a' b' c' d' : Char} {n m : Nat} {s cs rest : List Char} :
      codeUnit? a b c d = some n → isLeading n = true →
      codeUnit? a' b' c' d' = some m → isTrailing m = true → SpelledChars s cs rest →
      SpelledChars (joinSurrogates n m :: s)
        ('\\' :: 'u' :: a :: b :: c :: d :: '\\' :: 'u' :: a' :: b' :: c' :: d' :: cs) rest

theorem isTrailing_of_isLeading (h : isLeading n = true) : isTrailing n = false := by
  simp only [isLeading, isTrailing, Bool.and_eq_true, decide_eq_true_eq, Bool.and_eq_false_iff,
    decide_eq_false_iff_not] at h ⊢
  omega

theorem letter_of_unescape {d : Char} (h : unescape? c = some d) :
    c ∈ ['"', '\\', '/', 'b', 'f', 'n', 'r', 't'] := by
  unfold unescape? at h
  split_ifs at h <;> simp_all

namespace SpelledChars

theorem read (h : SpelledChars s cs rest) : readString? cs = some (s, rest) := by
  induction h with
  | close => simp [readString?]
  | plain hquote hslash hcontrol _ ih => simp [readString?, hslash, hcontrol, ih]
  | @letter e c s cs rest he _ ih =>
    have hu : e ≠ 'u' := by
      rintro rfl
      contradiction
    simp [readString?, hu, he, ih]
  | unit hunit hleading htrailing _ ih => simp [readString?, hunit, hleading, htrailing, ih]
  | pair hunit hleading hunit' htrailing _ ih =>
    simp [readString?, hunit, hleading, isTrailing_of_isLeading hleading, hunit', htrailing, ih]

theorem chars (h : SpelledChars s cs rest) : Chars cs rest := by
  induction h with
  | close => exact .close
  | plain hquote hslash hcontrol _ ih => exact .plain hquote hslash hcontrol ih
  | letter he _ ih => exact .letter (letter_of_unescape he) ih
  | unit hunit _ _ _ ih => exact .unit hunit ih
  | pair hunit _ hunit' _ _ ih => exact .unit hunit (.unit hunit' ih)

end SpelledChars

/-- What is written: a value, one that is left open, an object whose members may be open, the values
of a list, or the members of an object. -/
inductive Writing where
  | value (j : Json)
  | any
  | record (ms : List (String × Option Json))
  | items (js : List Json)
  | members (ms : List (String × Option Json))

namespace Writing

def of : Option Json → Writing
  | some j => .value j
  | none => .any

def piece : Writing → Piece
  | .items _ => .items
  | .members _ => .members
  | _ => .value

theorem piece_of (v : Option Json) : (of v).piece = .value := by cases v <;> rfl

end Writing

/-- It is written in front of the text, and this is left behind it. -/
inductive Spells : Writing → List Char → List Char → Prop
  | any {cs rest : List Char} : Valid .value cs rest → Spells .any cs rest
  | null {rest : List Char} : Spells (.value .null) ('n' :: 'u' :: 'l' :: 'l' :: rest) rest
  | trueWord {rest : List Char} :
      Spells (.value (.bool true)) ('t' :: 'r' :: 'u' :: 'e' :: rest) rest
  | falseWord {rest : List Char} :
      Spells (.value (.bool false)) ('f' :: 'a' :: 'l' :: 's' :: 'e' :: rest) rest
  | natural {rest : List Char} (n : Nat) :
      Spells (.value (.number (.natural n))) (digits n ++ rest) rest
  | string {k : String} {cs rest : List Char} : SpelledChars k.toList cs rest →
      Spells (.value (.string k)) ('"' :: cs) rest
  | emptyArray {cs rest : List Char} : Gap cs (']' :: rest) →
      Spells (.value (.array [])) ('[' :: cs) rest
  | array {js : List Json} {cs rest : List Char} : Spells (.items js) cs rest →
      Spells (.value (.array js)) ('[' :: cs) rest
  | object {fields : List (String × Json)} {cs rest : List Char} :
      Spells (.record (fields.map fun f => (f.1, some f.2))) cs rest →
      Spells (.value (.object fields)) cs rest
  | emptyRecord {cs rest : List Char} : Gap cs ('}' :: rest) → Spells (.record []) ('{' :: cs) rest
  | record {ms : List (String × Option Json)} {cs rest : List Char} :
      Spells (.members ms) cs rest → Spells (.record ms) ('{' :: cs) rest
  | lastItem {j : Json} {cs value after rest : List Char} : Gap cs value →
      Spells (.value j) value after → Gap after (']' :: rest) → Spells (.items [j]) cs rest
  | moreItems {j : Json} {js : List Json} {cs value after more rest : List Char} : Gap cs value →
      Spells (.value j) value after → Gap after (',' :: more) → Spells (.items js) more rest →
      Spells (.items (j :: js)) cs rest
  | lastMember {k : String} {v : Option Json} {cs key behind colon value after rest : List Char} :
      Gap cs ('"' :: key) → SpelledChars k.toList key behind → Gap behind (':' :: colon) →
      Gap colon value → Spells (.of v) value after → Gap after ('}' :: rest) →
      Spells (.members [(k, v)]) cs rest
  | moreMembers {k : String} {v : Option Json} {ms : List (String × Option Json)}
      {cs key behind colon value after more rest : List Char} :
      Gap cs ('"' :: key) → SpelledChars k.toList key behind → Gap behind (':' :: colon) →
      Gap colon value → Spells (.of v) value after → Gap after (',' :: more) →
      Spells (.members ms) more rest → Spells (.members ((k, v) :: ms)) cs rest

theorem numeralText_digits (n : Nat) : NumeralText (digits n) := by
  have hwhole : WholeText (digits n) := by
    have hdigits : ∀ c ∈ digits n, c.isDigit = true := fun _ => isDigit_of_mem_digits
    obtain ⟨c, cs, hcons, -⟩ := digits_eq_cons n
    rw [hcons] at hdigits ⊢
    by_cases hzero : c = '0'
    · subst hzero
      rw [eq_nil_of_digits hcons]
      exact .zero
    · exact .digits hzero hdigits
  have htext := NumeralText.mk (.inl rfl) hwhole .none .none
  simpa using htext

theorem Spells.valid {w : Writing} (h : Spells w cs rest) : Valid w.piece cs rest := by
  induction h with
  | any h => exact h
  | null => exact .nullWord
  | trueWord => exact .trueWord
  | falseWord => exact .falseWord
  | natural n => exact .numeral (numeralText_digits n)
  | string h => exact .string h.chars
  | emptyArray h => exact .emptyArray h
  | array _ ih => exact .array ih
  | object _ ih => exact ih
  | emptyRecord h => exact .emptyObject h
  | record _ ih => exact .object ih
  | lastItem hgap _ hafter ih => exact .lastItem hgap ih hafter
  | moreItems hgap _ hafter _ ih ihmore => exact .moreItems hgap ih hafter ihmore
  | lastMember hgap hkey hcolon hblank _ hafter ih =>
    rw [Writing.piece_of] at ih
    exact .lastMember hgap hkey.chars hcolon hblank ih hafter
  | moreMembers hgap hkey hcolon hblank _ hafter _ ih ihmore =>
    rw [Writing.piece_of] at ih
    exact .moreMembers hgap hkey.chars hcolon hblank ih hafter ihmore

section Parts

variable {js : List Json} {ms : List (String × Option Json)} {k : String} {j : Json}
  {v : Option Json}

theorem Spells.visible (h : Spells (.value j) cs rest) : Visible cs := Valid.visible h.valid

theorem Spells.record_inv (h : Spells (.record ms) cs rest) :
    ∃ inside, cs = '{' :: inside ∧
      (ms = [] ∧ Gap inside ('}' :: rest) ∨ Spells (.members ms) inside rest) := by
  cases h with
  | emptyRecord h => exact ⟨_, rfl, .inl ⟨rfl, h⟩⟩
  | record h => exact ⟨_, rfl, .inr h⟩

theorem Spells.not_null (h : Spells (.value j) ('n' :: cs) rest) : j = .null := by
  generalize hcs : 'n' :: cs = text at h
  cases h with
  | null => rfl
  | natural n =>
    have hdigit := isDigit_of_append (fun _ => isDigit_of_mem_digits) (digits_ne_nil n) hcs.symm
    contradiction
  | object h =>
    obtain ⟨inside, hbrace, -⟩ := h.record_inv
    simp [hbrace] at hcs
  | _ => simp at hcs

theorem not_spells_items_nil : ¬ Spells (.items []) cs rest := nofun

theorem not_spells_members_nil : ¬ Spells (.members []) cs rest := nofun

theorem Spells.array_inv (h : Spells (.value (.array js)) cs rest) :
    ∃ inside, cs = '[' :: inside ∧
      (js = [] ∧ Gap inside (']' :: rest) ∨ Spells (.items js) inside rest) := by
  cases h with
  | emptyArray h => exact ⟨_, rfl, .inl ⟨rfl, h⟩⟩
  | array h => exact ⟨_, rfl, .inr h⟩

theorem Spells.items_inv (h : Spells (.items (j :: js)) cs rest) :
    ∃ value after, Gap cs value ∧ Spells (.value j) value after ∧ Delimited after ∧
      (js = [] ∧ Gap after (']' :: rest) ∨
        ∃ more, Gap after (',' :: more) ∧ Spells (.items js) more rest) := by
  cases h with
  | lastItem hgap hvalue hafter =>
    exact ⟨_, _, hgap, hvalue, hafter.delimited (delimited_cons (by simp)), .inl ⟨rfl, hafter⟩⟩
  | moreItems hgap hvalue hafter hmore =>
    exact ⟨_, _, hgap, hvalue, hafter.delimited (delimited_cons (by simp)), .inr ⟨_, hafter, hmore⟩⟩

theorem Spells.members_inv (h : Spells (.members ((k, v) :: ms)) cs rest) :
    ∃ key behind colon value after, Gap cs ('"' :: key) ∧ SpelledChars k.toList key behind ∧
      Gap behind (':' :: colon) ∧ Gap colon value ∧ Spells (.of v) value after ∧
      Delimited after ∧ (ms = [] ∧ Gap after ('}' :: rest) ∨
        ∃ more, Gap after (',' :: more) ∧ Spells (.members ms) more rest) := by
  cases h with
  | lastMember hgap hkey hcolon hblank hvalue hafter =>
    exact ⟨_, _, _, _, _, hgap, hkey, hcolon, hblank, hvalue,
      hafter.delimited (delimited_cons (by simp)), .inl ⟨rfl, hafter⟩⟩
  | moreMembers hgap hkey hcolon hblank hvalue hafter hmore =>
    exact ⟨_, _, _, _, _, hgap, hkey, hcolon, hblank, hvalue,
      hafter.delimited (delimited_cons (by simp)), .inr ⟨_, hafter, hmore⟩⟩

end Parts

/-- A text that is nothing but what is written and blanks around it. -/
inductive Document (w : Writing) (text : List Char) : Prop
  | mk {cs rest : List Char} : Gap text cs → Spells w cs rest → Gap rest [] → Document w text

end Batchflow.Json
