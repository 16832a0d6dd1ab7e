import Batchflow.Message.Written
import Batchflow.Proofs.Json.Lexical

/-!
# Values of a known shape, written and read

A reader takes a text for a value when it reads that value from the front of the text, whatever
stands behind it.  That is so for the text of a string, of a whole number and of a truth value, and
it carries over to lists, to values that may be absent and to records: an object is read when each
of its fields has the name of a slot that is still empty, and the slot takes the text of the field
for its value.
-/

namespace Batchflow.Json

open Decimal

variable {α : Type} {read : List Char → Part α} {text rest : List Char} {v : α} {limit n : Nat}
  {expected : String} {f : α → Json}

def Visible (text : List Char) : Prop := ∃ c cs, text = c :: cs ∧ isSpace c = false ∧ c ≠ ']'

theorem Visible.append (h : Visible text) (rest : List Char) : Visible (text ++ rest) := by
  obtain ⟨c, cs, rfl, hc⟩ := h
  exact ⟨c, cs ++ rest, rfl, hc⟩

theorem Visible.skipSpace_eq (h : Visible text) : skipSpace text = text := by
  obtain ⟨c, cs, rfl, hc, -⟩ := h
  exact skipSpace_cons hc

/-- The reader takes the text for the value, whatever stands behind it. -/
structure Reads (read : List Char → Part α) (text : List Char) (v : α) : Prop where
  visible : Visible text
  reads : ∀ rest, Delimited rest → read (text ++ rest) = .ok (v, rest)

theorem visible_stringText (s : List Char) : Visible (stringText s) := ⟨'"', _, rfl, rfl, by decide⟩

theorem readTextAs_stringText (expected : String) (s rest : List Char) :
    readTextAs expected (stringText s ++ rest) = .ok (String.ofList s, rest) := by
  have hread := readString?_flatMap s rest
  simp [readTextAs, stringText, skipSpace_cons, isSpace, hread]

theorem reads_text (s : String) : Reads readText (Json.string s).text s where
  visible := visible_stringText _
  reads rest _ := by
    rw [readText, Json.text, readTextAs_stringText, String.ofList_toList]

theorem reads_bool (b : Bool) : Reads readBool (Json.bool b).text b where
  visible := by cases b <;> exact ⟨_, _, rfl, rfl, by decide⟩
  reads rest _ := by cases b <;> rfl

theorem visible_digits (n : Nat) : Visible (digits n) := by
  obtain ⟨c, cs, h, hc⟩ := digits_eq_cons n
  refine ⟨c, cs, h, isSpace_of_isDigit hc, ?_⟩
  rintro rfl
  contradiction

theorem reads_natural (hn : n < limit) (hlimit : limit ≤ Numeral.wordLimit) :
    Reads (readNatural limit expected) (natural n).text n where
  visible := visible_digits n
  reads rest hrest := by
    have hnumeral : readNumeral? (digits n ++ rest) = some (.natural n, rest) := by
      rw [readNumeral?, Numeral.scan?_digits n hrest]
      simp [Numeral.value?_ofNat (Nat.lt_of_lt_of_le hn hlimit)]
    have hspace := ((visible_digits n).append rest).skipSpace_eq
    obtain ⟨c, cs, hdigits, hc⟩ := digits_eq_cons n
    rw [hdigits, List.cons_append] at hnumeral hspace
    rw [natural, Json.text, Number.text, hdigits, List.cons_append, readNatural, hspace]
    simp [startsNumeral, hc, hnumeral, Number.below, hn]

/-- A value that may be absent is read as it was written when it is not taken for null. -/
theorem reads_optional {o : Option α} (h : ∀ v ∈ o, Reads read (f v).text v)
    (hnull : ∀ v, (f v).text.head? ≠ some 'n') :
    Reads (readOptional read) (optional f o).text o := by
  cases o with
  | none => exact ⟨⟨'n', _, rfl, rfl, by decide⟩, fun rest _ => rfl⟩
  | some v =>
    have hreads := h v rfl
    refine ⟨hreads.visible, fun rest hrest => ?_⟩
    have hspace := (hreads.visible.append rest).skipSpace_eq
    have hread := hreads.reads rest hrest
    rw [optional, readOptional, hspace]
    split
    · rename_i heq
      obtain ⟨c, cs, htext, -⟩ := hreads.visible
      rw [htext, List.cons_append] at heq
      exact absurd (by rw [htext, (List.cons.inj heq).1]; rfl) (hnull v)
    · rw [hread]

theorem length_le_commaSeparated (ts : List (List Char)) :
    ts.length ≤ (commaSeparated ts).length + 1 := by
  induction ts with
  | nil => exact Nat.zero_le _
  | cons t ts ih =>
    cases ts with
    | nil => simp
    | cons t' ts =>
      simp only [commaSeparated, List.length_append, List.length_cons] at ih ⊢
      omega

theorem length_itemTexts (items : List Json) : (itemTexts items).length = items.length := by
  induction items with
  | nil => rfl
  | cons v items ih => rw [itemTexts, List.length_cons, ih, List.length_cons]

theorem visible_commaSeparated {ts : List (List Char)} (h : Visible text) :
    Visible (commaSeparated (text :: ts)) := by
  cases ts with
  | nil => exact h
  | cons t ts => exact h.append _

theorem readElements_itemTexts (h : ∀ v, Reads read (f v).text v) {fuel : Nat} (v : α)
    (vs : List α) (hfuel : vs.length < fuel) (rest : List Char) :
    readElements read fuel (commaSeparated (itemTexts ((v :: vs).map f)) ++ ']' :: rest) =
      .ok (v :: vs, rest) := by
  induction vs generalizing v fuel with
  | nil =>
    obtain ⟨fuel, rfl⟩ : ∃ k, fuel = k + 1 := ⟨fuel - 1, by omega⟩
    have hread := (h v).reads (']' :: rest) (delimited_cons (by simp))
    simp [readElements, itemTexts, commaSeparated, hread, skipSpace_cons, isSpace]
  | cons w vs ih =>
    obtain ⟨fuel, rfl⟩ : ∃ k, fuel = k + 1 := ⟨fuel - 1, by omega⟩
    have htail := ih w (by simpa using hfuel : vs.length < fuel)
    have hvisible : Visible (commaSeparated (itemTexts ((w :: vs).map f)) ++ ']' :: rest) :=
      (visible_commaSeparated (h w).visible).append _
    generalize htext : commaSeparated (itemTexts ((w :: vs).map f)) ++ ']' :: rest = items
      at htail hvisible
    have hread := (h v).reads (',' :: items) (delimited_cons (by simp))
    have hsplit : commaSeparated (itemTexts ((v :: w :: vs).map f)) ++ ']' :: rest =
        (f v).text ++ ',' :: items := by
      rw [← htext]
      simp [itemTexts, commaSeparated]
    rw [hsplit, readElements, hread]
    simp only [skipSpace_cons (c := ',') rfl, hvisible.skipSpace_eq]
    obtain ⟨c, cs, rfl, -, hc⟩ := hvisible
    split
    · rename_i heq
      exact absurd (List.cons.inj heq).1 hc
    · rw [htail]

theorem reads_list (h : ∀ v, Reads read (f v).text v) (vs : List α) :
    Reads (readList read) (Json.array (vs.map f)).text vs where
  visible := ⟨'[', _, rfl, rfl, by decide⟩
  reads rest _ := by
    rw [Json.text, List.cons_append, List.cons_append, List.append_assoc, List.singleton_append,
      readList, skipSpace_cons rfl]
    cases vs with
    | nil => rfl
    | cons v vs =>
      have hvisible : Visible (commaSeparated (itemTexts ((v :: vs).map f)) ++ ']' :: rest) :=
        (visible_commaSeparated (h v).visible).append _
      have hfuel :
          vs.length < (commaSeparated (itemTexts ((v :: vs).map f)) ++ ']' :: rest).length + 1 := by
        have hlength := length_le_commaSeparated (itemTexts ((v :: vs).map f))
        rw [length_itemTexts, List.length_map, List.length_cons] at hlength
        rw [List.length_append, List.length_cons]
        omega
      simp only [hvisible.skipSpace_eq]
      split
      · rename_i heq
        obtain ⟨c, cs, htext, -, hc⟩ := hvisible
        exact absurd (List.cons.inj (htext.symm.trans heq)).1 hc
      · exact readElements_itemTexts h v vs hfuel rest

section Records

variable {δ : Type} {shape : Shape δ α} {slot : Slot δ} {d d' d'' : δ} {k : String} {j : Json}
  {fields : List (String × Json)}

/-- The fields of an object fill the slots of a draft, one after the other. -/
inductive Fills (shape : Shape δ α) : δ → List (String × Json) → δ → Prop
  | nil {d : δ} : Fills shape d [] d
  | cons {d d' d'' : δ} {k : String} {j : Json} {fields : List (String × Json)} {slot : Slot δ} :
      shape.slots.find? (·.name == k) = some slot → slot.filled d = false →
      Reads (slot.read d) j.text d' → Fills shape d' fields d'' → Fills shape d ((k, j) :: fields) d''

theorem reads_slot {β : Type} {name : String} {get : δ → Option β} {put : δ → β → δ}
    {read : List Char → Part β} {v : β} (h : Reads read text v) (d : δ) :
    Reads ((Slot.of name get put read).read d) text (put d v) where
  visible := h.visible
  reads rest hrest := by simp only [Slot.of, h.reads rest hrest]

theorem readMember_of_slot (hslot : shape.slots.find? (·.name == k) = some slot)
    (hempty : slot.filled d = false) (hread : Reads (slot.read d) text d')
    (hrest : Delimited rest) :
    shape.readMember d k (':' :: text ++ rest) = .ok (d', rest) := by
  simp [Shape.readMember, hslot, hempty, Shape.afterColon, skipSpace_cons, isSpace,
    hread.reads rest hrest]

theorem readMembers_last (hslot : shape.slots.find? (·.name == k) = some slot)
    (hempty : slot.filled d = false) (hread : Reads (slot.read d) text d') (fuel : Nat)
    (rest : List Char) :
    shape.readMembers (fuel + 1) d (stringText k.toList ++ ':' :: text ++ '}' :: rest) =
      .ok (d', rest) := by
  have hname := readString?_flatMap k.toList (':' :: text ++ '}' :: rest)
  have hmember := readMember_of_slot hslot hempty hread
    (delimited_cons (.inr (.inr rfl)) : Delimited ('}' :: rest))
  simp only [List.cons_append] at hname hmember
  simp [stringText, Shape.readMembers, skipSpace_cons, isSpace, hname, hmember]

/-- Behind a comma the next member follows. -/
theorem readMembers_more (hslot : shape.slots.find? (·.name == k) = some slot)
    (hempty : slot.filled d = false) (hread : Reads (slot.read d) text d') (fuel : Nat)
    (rest : List Char) :
    shape.readMembers (fuel + 1) d (stringText k.toList ++ ':' :: text ++ ',' :: rest) =
      shape.readMembers fuel d' rest := by
  have hname := readString?_flatMap k.toList (':' :: text ++ ',' :: rest)
  have hmember := readMember_of_slot hslot hempty hread
    (delimited_cons (.inl rfl) : Delimited (',' :: rest))
  simp only [List.cons_append] at hname hmember
  simp [stringText, Shape.readMembers, skipSpace_cons, isSpace, hname, hmember]

theorem readMembers_fieldTexts (h : Fills shape d fields d') {fuel : Nat}
    (hfuel : fields.length ≤ fuel) (hne : fields ≠ []) (rest : List Char) :
    shape.readMembers fuel d (commaSeparated (fieldTexts fields) ++ '}' :: rest) =
      .ok (d', rest) := by
  induction h generalizing fuel with
  | nil => exact absurd rfl hne
  | @cons d d' d'' k j fields slot hslot hempty hread hfills ih =>
    obtain ⟨fuel, rfl⟩ : ∃ n, fuel = n + 1 := ⟨fuel - 1, by simp at hfuel; omega⟩
    cases fields with
    | nil =>
      cases hfills
      exact readMembers_last hslot hempty hread fuel rest
    | cons field fields =>
      have htail := ih (by simpa using hfuel : (field :: fields).length ≤ fuel) (by simp)
      have hsplit : commaSeparated (fieldTexts ((k, j) :: field :: fields)) ++ '}' :: rest =
          stringText k.toList ++ ':' :: j.text ++
            ',' :: (commaSeparated (fieldTexts (field :: fields)) ++ '}' :: rest) := by
        simp [fieldTexts, commaSeparated]
      rw [hsplit, readMembers_more hslot hempty hread]
      exact htail

theorem length_fieldTexts (fields : List (String × Json)) :
    (fieldTexts fields).length = fields.length := by
  induction fields with
  | nil => rfl
  | cons field fields ih => rw [fieldTexts, List.length_cons, ih, List.length_cons]

theorem readObject_fieldTexts (h : Fills shape shape.empty fields d) (rest : List Char) :
    shape.readObject (commaSeparated (fieldTexts fields) ++ '}' :: rest) = .ok (d, rest) := by
  cases fields with
  | nil =>
    cases h
    rfl
  | cons field fields =>
    obtain ⟨name, j⟩ := field
    have hfuel : ((name, j) :: fields).length ≤
        (commaSeparated (fieldTexts ((name, j) :: fields)) ++ '}' :: rest).length + 1 := by
      have hlength := length_le_commaSeparated (fieldTexts ((name, j) :: fields))
      rw [length_fieldTexts] at hlength
      rw [List.length_append]
      omega
    have hread := readMembers_fieldTexts h hfuel (by simp) rest
    have hvisible : Visible (commaSeparated (fieldTexts ((name, j) :: fields)) ++ '}' :: rest) :=
      (visible_commaSeparated ((visible_stringText _).append _)).append _
    obtain ⟨cs, hquote⟩ : ∃ cs, commaSeparated (fieldTexts ((name, j) :: fields)) ++ '}' :: rest =
        '"' :: cs := by
      cases fields <;> exact ⟨_, rfl⟩
    rw [Shape.readObject, hvisible.skipSpace_eq]
    rw [hquote] at hread ⊢
    exact hread

theorem reads_object (h : Fills shape shape.empty fields d) (hfinish : shape.finish d = .ok v) :
    Reads shape.read (Json.object fields).text v where
  visible := ⟨'{', _, rfl, rfl, by decide⟩
  reads rest _ := by
    rw [Json.text, List.cons_append, List.cons_append, List.append_assoc, List.singleton_append,
      Shape.read, skipSpace_cons rfl]
    simp only [readObject_fieldTexts h rest, Shape.conclude, hfinish]

theorem readAll_of_reads (h : Reads shape.read text v) : shape.readAll text = .ok v := by
  have hread := h.reads [] delimited_nil
  rw [List.append_nil] at hread
  rw [Shape.readAll, hread]
  rfl

end Records

end Batchflow.Json
