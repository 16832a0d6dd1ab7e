import Batchflow.Proofs.Json.Spelling

/-!
# Reading what is written in any way

A reader takes what is written for a value when it reads that value from the front of the text, with
any blanks in front of it and however it is written.  That carries over from single values to lists,
to values that may be absent and to records.  The members of an object fill the slots of their names
in any order, and those with other names are skipped.
-/

namespace Batchflow.Json

variable {α : Type} {read : List Char → Part α} {v : α} {w : Writing} {j : Json}
  {text cs rest after more : List Char}

/-- What is written is taken for the value, whatever stands behind it. -/
def Takes (read : List Char → Part α) (w : Writing) (v : α) : Prop :=
  ∀ ⦃text cs rest⦄, Gap text cs → Spells w cs rest → Delimited rest → read text = .ok (v, rest)

theorem takes_text (expected s : String) :
    Takes (readTextAs expected) (.value (.string s)) s := by
  intro text cs rest hgap h hrest
  cases h with
  | string h =>
    rw [readTextAs, hgap.skipSpace_cons rfl]
    simp [h.read]

theorem readNatural_skipSpace (limit : Nat) (expected : String) (text : List Char) :
    readNatural limit expected (skipSpace text) = readNatural limit expected text := by
  rw [readNatural, skipSpace_skipSpace, readNatural]

theorem takes_natural {n limit : Nat} (expected : String) (hn : n < limit)
    (hlimit : limit ≤ Numeral.wordLimit) :
    Takes (readNatural limit expected) (.value (natural n)) n := by
  intro text cs rest hgap h hrest
  have hspace := hgap.skipSpace_of_visible h.visible
  cases h with
  | natural =>
    rw [← readNatural_skipSpace, hspace]
    exact (reads_natural hn hlimit).reads rest hrest

theorem takes_null (read : List Char → Part α) : Takes (readOptional read) (.value .null) none := by
  intro text cs rest hgap h hrest
  cases h with
  | null =>
    rw [readOptional, hgap.skipSpace_cons rfl]
    rfl

theorem takes_some (h : Takes read (.value j) v) (hj : j ≠ .null) :
    Takes (readOptional read) (.value j) (some v) := by
  intro text cs rest hgap hspells hrest
  have hread := h .none hspells hrest
  rw [readOptional, hgap.skipSpace_of_visible hspells.visible]
  split
  · exact absurd hspells.not_null hj
  · simp [hread]

theorem takes_optional {f : α → Json} {o : Option α} (h : ∀ v ∈ o, Takes read (.value (f v)) v)
    (hf : ∀ v, f v ≠ .null) : Takes (readOptional read) (.value (optional f o)) o := by
  cases o with
  | none => exact takes_null read
  | some v => exact takes_some (h v rfl) (hf v)

theorem readElements_of_spells {f : α → Json} (h : ∀ v, Takes read (.value (f v)) v) (v : α)
    (vs : List α) {fuel : Nat} (hspells : Spells (.items ((v :: vs).map f)) cs rest)
    (hfuel : (skipSpace cs).length < fuel) :
    readElements read fuel (skipSpace cs) = .ok (v :: vs, rest) := by
  obtain ⟨fuel, rfl⟩ : ∃ k, fuel = k + 1 := ⟨fuel - 1, by omega⟩
  induction vs generalizing v fuel cs with
  | nil =>
    obtain ⟨value, after, hgap, hvalue, hend, ⟨-, hafter⟩ | ⟨more, -, hmore⟩⟩ := hspells.items_inv
    · have hread := h v .none hvalue hend
      rw [hgap.skipSpace_of_visible hvalue.visible, readElements, hread]
      simp [hafter.skipSpace_cons rfl]
    · exact absurd hmore not_spells_items_nil
  | cons w vs ih =>
    obtain ⟨value, after, hgap, hvalue, hend, ⟨hnil, -⟩ | ⟨more, hafter, hmore⟩⟩ :=
      hspells.items_inv
    · contradiction
    · have hread := h v .none hvalue hend
      rw [hgap.skipSpace_of_visible hvalue.visible] at hfuel ⊢
      have hlength := hvalue.valid.length_lt
      have hbehind := hafter.length_lt
      have hmoreLength := (gap_skipSpace more).length_le
      obtain ⟨fuel, rfl⟩ : ∃ k, fuel = k + 1 := ⟨fuel - 1, by omega⟩
      have hrest := ih w hmore fuel (by omega)
      obtain ⟨c, t, hcons, -, hc⟩ := hmore.valid.visible_items
      rw [hcons] at hrest
      rw [readElements, hread]
      simp [hafter.skipSpace_cons rfl, hcons, hc, hrest]

theorem takes_list {f : α → Json} (h : ∀ v, Takes read (.value (f v)) v) (vs : List α) :
    Takes (readList read) (.value (.array (vs.map f))) vs := by
  intro text cs rest hgap hspells hrest
  obtain ⟨inside, rfl, ⟨hnil, hclose⟩ | hitems⟩ := hspells.array_inv
  · obtain rfl := List.map_eq_nil_iff.mp hnil
    rw [readList, hgap.skipSpace_cons rfl]
    simp [hclose.skipSpace_cons rfl]
  · cases vs with
    | nil => exact absurd hitems not_spells_items_nil
    | cons v vs =>
      have hread := readElements_of_spells h v vs hitems (Nat.lt_succ_self _)
      obtain ⟨c, t, hcons, -, hc⟩ := hitems.valid.visible_items
      rw [hcons] at hread
      rw [readList, hgap.skipSpace_cons rfl]
      simpa [hcons, hc] using hread

section Records

variable {δ : Type} {shape : Shape δ α} {slot : Slot δ} {d d' : δ} {k : String}
  {ms : List (String × Option Json)} {js : List Json}

theorem takes_slot {β : Type} {name : String} {get : δ → Option β} {put : δ → β → δ}
    {read : List Char → Part β} {v : β} (h : Takes read w v) (hput : put d v = d') :
    Takes ((Slot.of name get put read).read d) w d' := by
  intro text cs rest hgap hspells hrest
  simp only [Slot.of, h hgap hspells hrest, hput]

/-- The members of an object fill the empty slots of a draft or are skipped, one after the other. -/
inductive Fill (shape : Shape δ α) : δ → List (String × Option Json) → δ → Prop
  | nil {d : δ} : Fill shape d [] d
  | known {d d' d'' : δ} {k : String} {m : Option Json} {ms : List (String × Option Json)}
      {slot : Slot δ} : shape.slots.find? (·.name == k) = some slot → slot.filled d = false →
      Takes (slot.read d) (.of m) d' → Fill shape d' ms d'' → Fill shape d ((k, m) :: ms) d''
  | unknown {d d' : δ} {k : String} {m : Option Json} {ms : List (String × Option Json)} :
      shape.slots.find? (·.name == k) = none → shape.expectedFields = none →
      Fill shape d ms d' → Fill shape d ((k, m) :: ms) d'

inductive FillInOrder : List (Slot δ) → δ → List Json → δ → Prop
  | nil {d : δ} : FillInOrder [] d [] d
  | cons {slot : Slot δ} {slots : List (Slot δ)} {d d' d'' : δ} {j : Json} {js : List Json} :
      Takes (slot.read d) (.value j) d' → FillInOrder slots d' js d'' →
      FillInOrder (slot :: slots) d (j :: js) d''

theorem afterColon_of_gap {β : Type} {read : List Char → Part β} {behind colon : List Char}
    (h : Gap behind (':' :: colon)) : Shape.afterColon read behind = read colon := by
  rw [Shape.afterColon, h.skipSpace_cons rfl]
  rfl

theorem skipMember_of_spells {colon value : List Char} {m : Option Json} (d : δ)
    (hgap : Gap colon value) (h : Spells (.of m) value after) (hafter : Delimited after) :
    Shape.skipMember d colon = .ok (d, after) := by
  have hvalid := h.valid
  rw [Writing.piece_of] at hvalid
  rw [Shape.skipMember, skip?_of_valid hgap hvalid hafter]

/-- One member fills its slot or is skipped, and nothing behind it is touched. -/
theorem Fill.member {m : Option Json} {behind colon value : List Char}
    (h : Fill shape d ((k, m) :: ms) d') (hcolon : Gap behind (':' :: colon))
    (hgap : Gap colon value) (hspells : Spells (.of m) value after) (hafter : Delimited after) :
    ∃ d₁, shape.readMember d k behind = .ok (d₁, after) ∧ Fill shape d₁ ms d' := by
  cases h with
  | known hslot hempty htakes hfill =>
    refine ⟨_, ?_, hfill⟩
    simp [Shape.readMember, hslot, hempty, afterColon_of_gap hcolon, htakes hgap hspells hafter]
  | unknown hslot hfields hfill =>
    refine ⟨d, ?_, hfill⟩
    simp [Shape.readMember, hslot, hfields, afterColon_of_gap hcolon,
      skipMember_of_spells d hgap hspells hafter]

theorem readMembers_skipSpace (fuel : Nat) (d : δ) (cs : List Char) :
    shape.readMembers fuel d (skipSpace cs) = shape.readMembers fuel d cs := by
  cases fuel with
  | zero => rfl
  | succ fuel => rw [Shape.readMembers, Shape.readMembers, skipSpace_skipSpace]

theorem readMembers_of_spells (h : Fill shape d ms d') (hspells : Spells (.members ms) cs rest)
    {fuel : Nat} (hfuel : (skipSpace cs).length < fuel) :
    shape.readMembers fuel d cs = .ok (d', rest) := by
  -- Every member takes a character at least, so the fuel outlasts them.
  induction ms generalizing d fuel cs with
  | nil => exact absurd hspells not_spells_members_nil
  | cons m ms ih =>
    obtain ⟨fuel, rfl⟩ : ∃ k, fuel = k + 1 := ⟨fuel - 1, by omega⟩
    obtain ⟨k, m⟩ := m
    obtain ⟨key, behind, colon, value, after, hgap, hkey, hcolon, hblank, hvalue, hafter, hend⟩ :=
      hspells.members_inv
    obtain ⟨d₁, hmember, hfill⟩ := h.member hcolon hblank hvalue hafter
    have hquote := hgap.skipSpace_cons rfl
    rw [hquote, List.length_cons] at hfuel
    rw [Shape.readMembers, hquote]
    simp only [hkey.read, String.ofList_toList, hmember]
    rcases hend with ⟨rfl, hend⟩ | ⟨more, hend, hmore⟩
    · cases hfill
      simp [hend.skipSpace_cons rfl]
    · have hname := hkey.chars.length_lt
      have hmiddle := hcolon.length_lt
      have hbefore := hblank.length_le
      have hlength := hvalue.valid.length_lt
      have hbehind := hend.length_lt
      have hmoreLength := (gap_skipSpace more).length_le
      simp [hend.skipSpace_cons rfl, ih hfill hmore (show _ < fuel by omega)]

theorem readObject_of_members (h : Valid .members cs rest) :
    shape.readObject cs = shape.readMembers ((skipSpace cs).length + 1) shape.empty cs := by
  obtain ⟨t, hquote⟩ := h.quote_members
  rw [← readMembers_skipSpace, Shape.readObject, hquote]
  rfl

theorem readObject_of_spells (h : Fill shape shape.empty ms d)
    (hspells : ms = [] ∧ Gap cs ('}' :: rest) ∨ Spells (.members ms) cs rest) :
    shape.readObject cs = .ok (d, rest) := by
  rcases hspells with ⟨rfl, hclose⟩ | hmembers
  · cases h
    simp [Shape.readObject, hclose.skipSpace_cons rfl]
  · rw [readObject_of_members hmembers.valid]
    exact readMembers_of_spells h hmembers (Nat.lt_succ_self _)

theorem takes_record (h : Fill shape shape.empty ms d) (hfinish : shape.finish d = .ok v) :
    Takes shape.read (.record ms) v := by
  intro text cs rest hgap hspells hrest
  obtain ⟨inside, rfl, hinside⟩ := hspells.record_inv
  rw [Shape.read, hgap.skipSpace_cons rfl]
  simp only [readObject_of_spells h hinside, Shape.conclude, hfinish]

theorem takes_object {fields : List (String × Json)}
    (h : Fill shape shape.empty (fields.map fun f => (f.1, some f.2)) d)
    (hfinish : shape.finish d = .ok v) : Takes shape.read (.value (.object fields)) v := by
  intro text cs rest hgap hspells hrest
  cases hspells with
  | object hrecord => exact takes_record h hfinish hgap hrecord hrest

theorem readInOrder_first {slots : List (Slot δ)} (expected : String) {value : List Char}
    (hgap : Gap text value) (hvalue : Valid .value value after) :
    Shape.readInOrder expected 0 (slot :: slots) d text =
      (slot.read d value).bind fun (d, cs) => Shape.readInOrder expected 1 slots d cs := by
  have hspace := hgap.skipSpace_of_visible hvalue.visible
  obtain ⟨c, t, rfl, -, hc⟩ := hvalue.visible
  rw [Shape.readInOrder, hspace]
  cases hread : slot.read d (c :: t) <;> simp [hc, hvalue.ne_comma, hread, Except.bind]

theorem readInOrder_next {slots : List (Slot δ)} (expected : String) (done : Nat)
    {value : List Char} (hcomma : Gap text (',' :: more)) (hgap : Gap more value)
    (hvalue : Valid .value value after) :
    Shape.readInOrder expected (done + 1) (slot :: slots) d text =
      (slot.read d value).bind fun (d, cs) => Shape.readInOrder expected (done + 2) slots d cs := by
  have hspace := hgap.skipSpace_of_visible hvalue.visible
  obtain ⟨c, t, rfl, -, hc⟩ := hvalue.visible
  rw [Shape.readInOrder, hcomma.skipSpace_cons rfl]
  cases hread : slot.read d (c :: t) <;> simp [hspace, hc, hread, Except.bind]

/-- Behind a value of an array the others follow, each behind a comma. -/
theorem readInOrder_later {slots : List (Slot δ)} (h : FillInOrder slots d js d')
    (expected : String) (done : Nat)
    (hspells : js = [] ∧ Gap text (']' :: rest) ∨
      ∃ more, Gap text (',' :: more) ∧ Spells (.items js) more rest) :
    ∃ last, Shape.readInOrder expected (done + 1) slots d text = .ok (d', last) ∧
      Gap last (']' :: rest) := by
  induction h generalizing text done with
  | nil =>
    rcases hspells with ⟨-, hclose⟩ | ⟨more, -, hmore⟩
    · exact ⟨text, rfl, hclose⟩
    · exact absurd hmore not_spells_items_nil
  | cons htakes _ ih =>
    rcases hspells with ⟨hnil, -⟩ | ⟨more, hcomma, hmore⟩
    · contradiction
    · obtain ⟨value, after, hgap, hvalue, hafter, hend⟩ := hmore.items_inv
      obtain ⟨last, hlast, hclose⟩ := ih (done + 1) hend
      refine ⟨last, ?_, hclose⟩
      rw [readInOrder_next expected done hcomma hgap hvalue.valid, htakes .none hvalue hafter]
      exact hlast

theorem readInOrder_of_spells {slots : List (Slot δ)} (h : FillInOrder slots d js d')
    (expected : String)
    (hspells : js = [] ∧ Gap text (']' :: rest) ∨ Spells (.items js) text rest) :
    ∃ last, Shape.readInOrder expected 0 slots d text = .ok (d', last) ∧
      Gap last (']' :: rest) := by
  cases h with
  | nil =>
    rcases hspells with ⟨-, hclose⟩ | hitems
    · exact ⟨text, rfl, hclose⟩
    · exact absurd hitems not_spells_items_nil
  | cons htakes hfill =>
    rcases hspells with ⟨hnil, -⟩ | hitems
    · contradiction
    · obtain ⟨value, after, hgap, hvalue, hafter, hend⟩ := hitems.items_inv
      obtain ⟨last, hlast, hclose⟩ := readInOrder_later hfill expected 0 hend
      refine ⟨last, ?_, hclose⟩
      rw [readInOrder_first expected hgap hvalue.valid, htakes .none hvalue hafter]
      exact hlast

theorem takes_array (h : FillInOrder shape.slots shape.empty js d)
    (hfinish : shape.finish d = .ok v) : Takes shape.read (.value (.array js)) v := by
  intro text cs rest hgap hspells hrest
  obtain ⟨inside, rfl, hinside⟩ := hspells.array_inv
  obtain ⟨last, hread, hclose⟩ := readInOrder_of_spells h shape.expectedArray hinside
  rw [Shape.read, hgap.skipSpace_cons rfl]
  simp [hread, Shape.conclude, hfinish, Shape.closeArray, hclose.skipSpace_cons rfl]

theorem readAll_of_takes (h : Takes shape.read w v) (hdocument : Document w text) :
    shape.readAll text = .ok v := by
  obtain ⟨hgap, hspells, hrest⟩ := hdocument
  have hread := h hgap hspells (hrest.delimited delimited_nil)
  have hblank : skipSpace _ = [] := hrest.skipSpace_eq
  rw [Shape.readAll, hread]
  simp [hblank]

end Records

end Batchflow.Json
