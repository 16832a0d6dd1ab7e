import Batchflow.Proofs.Json.Spelling

/-!
# The compact text of a value

The text that a value is given, without any blanks and with as few escapes as there can be, is one
of the ways to write it.  So it is for an object whose members are left open as one likes.
-/

namespace Batchflow.Json

open Decimal

variable {c : Char} {s cs rest : List Char} {j : Json} {js : List Json} {f : String × Json}
  {fields : List (String × Json)} {view : String × Json → Option Json}

def Compact (j : Json) : Prop := ∀ rest, Spells (.value j) (j.text ++ rest) rest

/-- What is written of a character stands for it in a string. -/
theorem Escaped.spelled (h : Escaped c cs) {text : List Char} (hrest : SpelledChars s text rest) :
    SpelledChars (c :: s) (cs ++ text) rest := by
  cases h with
  | letter _ he => exact .letter he hrest
  | control hcontrol =>
    have htrailing : isTrailing c.toNat = false := by simp [isTrailing]; omega
    have hleading : isLeading c.toNat = false := by simp [isLeading]; omega
    have hunit := SpelledChars.unit (codeUnit?_control hcontrol) hleading htrailing hrest
    rwa [Char.ofNat_toNat] at hunit
  | plain hquote hslash hcontrol => exact .plain hquote hslash hcontrol hrest

theorem spelledChars_flatMap (s rest : List Char) :
    SpelledChars s (s.flatMap escapeChar ++ '"' :: rest) rest := by
  induction s with
  | nil => exact .close
  | cons c s ih =>
    rw [List.flatMap_cons, List.append_assoc]
    exact (escaped_escapeChar c).spelled ih

theorem compact_string (s : String) : Compact (.string s) := by
  intro rest
  have hspelled := spelledChars_flatMap s.toList rest
  rw [text, stringText, List.append_assoc, List.cons_append, List.singleton_append]
  exact .string hspelled

theorem compact_null : Compact .null := fun _ => .null

theorem compact_natural (n : Nat) : Compact (natural n) := fun _ => .natural n

theorem compact_optional {α : Type} {g : α → Json} (h : ∀ v, Compact (g v)) (o : Option α) :
    Compact (optional g o) := by
  cases o with
  | none => exact compact_null
  | some v => exact h v

theorem spells_itemTexts (h : ∀ j ∈ js, Compact j) (hne : js ≠ []) (rest : List Char) :
    Spells (.items js) (commaSeparated (itemTexts js) ++ ']' :: rest) rest := by
  induction js with
  | nil => contradiction
  | cons j js ih =>
    have hfirst := h j List.mem_cons_self
    cases js with
    | nil => exact .lastItem .none (hfirst _) .none
    | cons j' js =>
      have hothers := ih (fun j hj => h j (List.mem_cons_of_mem _ hj)) (by simp)
      have hmore := Spells.moreItems .none (hfirst _) .none hothers
      simpa [itemTexts, commaSeparated] using hmore

theorem compact_array (h : ∀ j ∈ js, Compact j) : Compact (.array js) := by
  intro rest
  rw [text, List.append_assoc, List.cons_append, List.singleton_append]
  cases js with
  | nil => exact .emptyArray .none
  | cons j js => exact .array (spells_itemTexts h (by simp) rest)

theorem spells_of_view (h : Compact f.2) (hview : ∀ j ∈ view f, j = f.2) (rest : List Char) :
    Spells (.of (view f)) (f.2.text ++ rest) rest := by
  cases hf : view f with
  | none => exact .any (h rest).valid
  | some j =>
    obtain rfl := hview j hf
    exact h rest

theorem spells_fieldTexts (h : ∀ f ∈ fields, Compact f.2) (hview : ∀ f, ∀ j ∈ view f, j = f.2)
    (hne : fields ≠ []) (rest : List Char) :
    Spells (.members (fields.map fun f => (f.1, view f)))
      (commaSeparated (fieldTexts fields) ++ '}' :: rest) rest := by
  induction fields with
  | nil => contradiction
  | cons f fields ih =>
    obtain ⟨k, j⟩ := f
    have hfirst := spells_of_view (h _ List.mem_cons_self) (hview (k, j))
    have hname := spelledChars_flatMap k.toList
    cases fields with
    | nil =>
      have hlast := Spells.lastMember .none (hname _) .none .none (hfirst ('}' :: rest)) .none
      simpa [fieldTexts, commaSeparated, stringText] using hlast
    | cons f' fields =>
      have hothers := ih (fun f hf => h f (List.mem_cons_of_mem _ hf)) (by simp)
      have hmore := Spells.moreMembers .none (hname _) .none .none (hfirst _) .none hothers
      simpa [fieldTexts, commaSeparated, stringText] using hmore

theorem spells_record (h : ∀ f ∈ fields, Compact f.2) (hview : ∀ f, ∀ j ∈ view f, j = f.2)
    (rest : List Char) :
    Spells (.record (fields.map fun f => (f.1, view f))) ((object fields).text ++ rest) rest := by
  rw [text, List.append_assoc, List.cons_append, List.singleton_append]
  cases fields with
  | nil => exact .emptyRecord .none
  | cons f fields => exact .record (spells_fieldTexts h hview (by simp) rest)

theorem compact_object (h : ∀ f ∈ fields, Compact f.2) : Compact (.object fields) :=
  fun rest => .object (spells_record h (fun _ _ hj => (Option.some.inj hj).symm) rest)

end Batchflow.Json
