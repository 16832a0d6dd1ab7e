import Batchflow.Proofs.Json.Exactness

/-!
# Records in any layout

The fields of a record may be the members of an object in any order and among any others, and those
that are null may be left out.  The draft that the members fill depends only on the names that have
been read, and so does the value that is made of it.  An object in which a field occurs twice is not
read, nor one without a field that the value cannot do without.
-/

namespace Batchflow.Json

variable {α δ : Type} {shape : Shape δ α} {draft : List String → δ} {slot : Slot δ} {v : α}
  {fields : List (String × Json)} {f : String × Json} {ms : List (String × Option Json)}
  {ks : List String} {k : String} {text : List Char}

/-- The members whose values are not left open. -/
def written (ms : List (String × Option Json)) : List (String × Json) :=
  ms.filterMap fun m => m.2.map (m.1, ·)

/-- Fields in any order among members of other names, which may have any value.  Fields that are
null may have been left out. -/
structure LaidOut (fields : List (String × Json)) (ms : List (String × Option Json)) : Prop where
  complete : ∃ left, (written ms ++ left).Perm fields ∧ ∀ f ∈ left, f.2 = .null
  others : ∀ k, (k, none) ∈ ms → k ∉ fields.map (·.1)

structure Slot.Feeds (draft : List String → δ) (slot : Slot δ) (f : String × Json) : Prop where
  name : slot.name = f.1
  filled : ∀ ks, slot.filled (draft ks) = decide (f.1 ∈ ks)
  takes : ∀ ks, Takes (slot.read (draft ks)) (.value f.2) (draft (f.1 :: ks))

/-- The slots of a shape take the fields of a value, and the value is made of them when no field but
those that are null is missing. -/
structure Shape.Accepts (shape : Shape δ α) (draft : List String → δ)
    (fields : List (String × Json)) (v : α) : Prop where
  feeds : List.Forall₂ (Slot.Feeds draft) shape.slots fields
  nodup : (fields.map (·.1)).Nodup
  empty : draft [] = shape.empty
  finish : ∀ ks, (∀ f ∈ fields, f.1 ∈ ks ∨ f.2 = .null) → shape.finish (draft ks) = .ok v

theorem names_of_feeds {slots : List (Slot δ)} (h : List.Forall₂ (Slot.Feeds draft) slots fields) :
    slots.map (·.name) = fields.map (·.1) := by
  induction h with
  | nil => rfl
  | cons hfeeds _ ih => rw [List.map_cons, List.map_cons, hfeeds.name, ih]

theorem find?_of_feeds {slots : List (Slot δ)} (h : List.Forall₂ (Slot.Feeds draft) slots fields)
    (hnodup : (fields.map (·.1)).Nodup) (hf : f ∈ fields) :
    ∃ slot, slots.find? (·.name == f.1) = some slot ∧ slot.Feeds draft f := by
  induction h with
  | nil => contradiction
  | @cons slot f₀ slots fields hfeeds _ ih =>
    rw [List.map_cons, List.nodup_cons] at hnodup
    rcases List.mem_cons.mp hf with rfl | hf
    · exact ⟨slot, by simp [hfeeds.name], hfeeds⟩
    · have hne : slot.name ≠ f.1 := by
        rw [hfeeds.name]
        rintro heq
        exact hnodup.1 (heq ▸ List.mem_map_of_mem hf)
      rw [List.find?_cons_of_neg (by simpa using hne)]
      exact ih hnodup.2 hf

theorem fillInOrder_of_feeds {slots : List (Slot δ)}
    (h : List.Forall₂ (Slot.Feeds draft) slots fields) (ks : List String) :
    FillInOrder slots (draft ks) (fields.map (·.2))
      (draft ((fields.map (·.1)).reverse ++ ks)) := by
  induction h generalizing ks with
  | nil => exact .nil
  | @cons slot f slots fields hfeeds _ ih =>
    rw [List.map_cons, List.map_cons, List.reverse_cons, List.append_assoc]
    exact .cons (hfeeds.takes ks) (ih (f.1 :: ks))

namespace Shape.Accepts

theorem find?_eq_none (h : shape.Accepts draft fields v) (hk : k ∉ fields.map (·.1)) :
    shape.slots.find? (·.name == k) = none := by
  rw [← names_of_feeds h.feeds] at hk
  refine List.find?_eq_none.mpr fun slot hslot hname => hk ?_
  rw [← eq_of_beq hname]
  exact List.mem_map_of_mem hslot

/-- Fields that have not been read yet fill their slots in whatever order they come. -/
theorem fill (h : shape.Accepts draft fields v) (hopen : shape.expectedFields = none)
    (hwritten : ∀ f ∈ written ms, f ∈ fields) (hnodup : ((written ms).map (·.1) ++ ks).Nodup)
    (hothers : ∀ k, (k, none) ∈ ms → k ∉ fields.map (·.1)) :
    Fill shape (draft ks) ms (draft (((written ms).map (·.1)).reverse ++ ks)) := by
  -- No name is both read and still to come: so the slot of the next field is always empty.
  induction ms generalizing ks with
  | nil => exact .nil
  | cons m ms ih =>
    obtain ⟨k, value⟩ := m
    have hothers' : ∀ k, (k, none) ∈ ms → k ∉ fields.map (·.1) :=
      fun k hk => hothers k (List.mem_cons_of_mem _ hk)
    cases value with
    | none =>
      exact .unknown (h.find?_eq_none (hothers k List.mem_cons_self)) hopen
        (ih hwritten hnodup hothers')
    | some j =>
      have hfirst : written ((k, some j) :: ms) = (k, j) :: written ms := rfl
      rw [hfirst] at hwritten hnodup ⊢
      rw [List.map_cons] at hnodup ⊢
      obtain ⟨slot, hslot, hfeeds⟩ :=
        find?_of_feeds h.feeds h.nodup (hwritten _ List.mem_cons_self)
      have hnew : k ∉ ks := by
        intro hk
        exact (List.nodup_cons.mp hnodup).1 (List.mem_append_right _ hk)
      have hrest := ih (fun f hf => hwritten f (List.mem_cons_of_mem _ hf))
        ((List.perm_middle.nodup_iff).mpr hnodup) hothers'
      rw [List.reverse_cons, List.append_assoc]
      exact .known hslot (by simp [hfeeds.filled, hnew]) (hfeeds.takes ks) hrest

/-- An object of the fields is read as the value, whatever its layout is. -/
theorem takes_laidOut (h : shape.Accepts draft fields v) (hopen : shape.expectedFields = none)
    (hlayout : LaidOut fields ms) : Takes shape.read (.record ms) v := by
  obtain ⟨left, hperm, hleft⟩ := hlayout.complete
  have hwritten : ∀ f ∈ written ms, f ∈ fields :=
    fun f hf => hperm.subset (List.mem_append_left _ hf)
  have hnodup : ((written ms).map (·.1)).Nodup := by
    have hall := (hperm.map (·.1)).nodup_iff.mpr h.nodup
    rw [List.map_append] at hall
    exact (List.nodup_append.mp hall).1
  rw [← List.append_nil ((written ms).map (·.1))] at hnodup
  have hfill := h.fill hopen hwritten hnodup hlayout.others
  rw [h.empty, List.append_nil] at hfill
  have hfinish : shape.finish (draft ((written ms).map (·.1)).reverse) = .ok v := by
    refine h.finish _ fun f hf => ?_
    rcases List.mem_append.mp (hperm.symm.subset hf) with hmem | hmem
    · exact .inl (List.mem_reverse.mpr (List.mem_map_of_mem hmem))
    · exact .inr (hleft f hmem)
  exact takes_record hfill hfinish

theorem takes_inOrder (h : shape.Accepts draft fields v) :
    Takes shape.read (.value (.array (fields.map (·.2)))) v := by
  have hfill := fillInOrder_of_feeds h.feeds []
  rw [h.empty, List.append_nil] at hfill
  have hfinish : shape.finish (draft (fields.map (·.1)).reverse) = .ok v :=
    h.finish _ fun f hf => .inl (List.mem_reverse.mpr (List.mem_map_of_mem hf))
  exact takes_array hfill hfinish

end Shape.Accepts

/-- An object that is read has as many members of the name of a slot as the final draft has values
for it. -/
theorem count_of_readAll (hslots : shape.ExactSlots) (hseparate : shape.Separate)
    (hempty : ∀ slot ∈ shape.slots, slot.filled shape.empty = false)
    (hdocument : Document (.record ms) text) (hread : shape.readAll text = .ok v) :
    ∃ d, shape.finish d = .ok v ∧
      ∀ slot ∈ shape.slots, (ms.map (·.1)).count slot.name = (slot.filled d).toNat := by
  obtain ⟨hgap, hspells, -⟩ := hdocument
  rw [Shape.readAll] at hread
  split at hread
  · rename_i v' r hread'
    split at hread
    · obtain rfl := Except.ok.inj hread
      obtain ⟨d, henter, hfinish⟩ := enterAll_of_read hslots hgap hspells hread'
      refine ⟨d, hfinish, fun slot hslot => ?_⟩
      have hcount := henter.count hseparate hslot
      rw [hempty slot hslot] at hcount
      simpa using hcount
    · contradiction
  · contradiction

end Batchflow.Json
