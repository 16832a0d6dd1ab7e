import Mathlib.Data.List.Nodup
import Batchflow.Proofs.Json.Taking

/-!
# Reading no more and no less than a value

A reader may be given any value, of the type it expects or of another.  It reports an error then, or
it stops where the value ends, so what comes next is never taken for something else.  A record that
is read from an object therefore tells which members the object has: every slot that is full at the
end was filled by exactly one of them.
-/

namespace Batchflow.Json

variable {α β : Type} {read : List Char → Part α} {v : α} {c : Char} {s cs rest r text : List Char}

/-- Whatever value is in front, reading it fails or ends where the value ends. -/
def Exact (read : List Char → Part α) : Prop :=
  ∀ ⦃text cs rest r v⦄, Gap text cs → Valid .value cs rest → Delimited rest →
    read text = .ok (v, r) → r = rest

theorem Exact.of_ends {read' : List Char → Part β} (h : Exact read')
    (hends : ∀ {text r v}, read text = .ok (v, r) → ∃ u, read' text = .ok (u, r)) :
    Exact read := by
  intro text cs rest r v hgap hvalid hrest hread
  obtain ⟨u, hread'⟩ := hends hread
  exact h hgap hvalid hrest hread'

theorem Valid.array_inv (h : Valid .value ('[' :: cs) rest) :
    Gap cs (']' :: rest) ∨ Valid .items cs rest := by
  generalize htext : '[' :: cs = text at h
  cases h with
  | emptyArray h => exact .inl ((List.cons.inj htext).2 ▸ h)
  | array h => exact .inr ((List.cons.inj htext).2 ▸ h)
  | numeral h =>
    obtain ⟨c, t, rfl, hc⟩ := h.exists_cons
    obtain rfl := (List.cons.inj htext).1
    contradiction
  | _ => simp at htext

theorem Valid.object_inv (h : Valid .value ('{' :: cs) rest) :
    Gap cs ('}' :: rest) ∨ Valid .members cs rest := by
  generalize htext : '{' :: cs = text at h
  cases h with
  | emptyObject h => exact .inl ((List.cons.inj htext).2 ▸ h)
  | object h => exact .inr ((List.cons.inj htext).2 ▸ h)
  | numeral h =>
    obtain ⟨c, t, rfl, hc⟩ := h.exists_cons
    obtain rfl := (List.cons.inj htext).1
    contradiction
  | _ => simp at htext

theorem Valid.items_inv (h : Valid .items cs rest) :
    ∃ value after, Gap cs value ∧ Valid .value value after ∧ Delimited after ∧
      (Gap after (']' :: rest) ∨ ∃ more, Gap after (',' :: more) ∧ Valid .items more rest) := by
  cases h with
  | lastItem hgap hvalue hafter =>
    exact ⟨_, _, hgap, hvalue, hafter.delimited (delimited_cons (by simp)), .inl hafter⟩
  | moreItems hgap hvalue hafter hmore =>
    exact ⟨_, _, hgap, hvalue, hafter.delimited (delimited_cons (by simp)), .inr ⟨_, hafter, hmore⟩⟩

theorem Valid.members_inv (h : Valid .members cs rest) :
    ∃ key behind colon value after, Gap cs ('"' :: key) ∧ Chars key behind ∧
      Gap behind (':' :: colon) ∧ Gap colon value ∧ Valid .value value after ∧ Delimited after ∧
      (Gap after ('}' :: rest) ∨ ∃ more, Gap after (',' :: more) ∧ Valid .members more rest) := by
  cases h with
  | lastMember hgap hkey hcolon hblank hvalue hafter =>
    exact ⟨_, _, _, _, _, hgap, hkey, hcolon, hblank, hvalue,
      hafter.delimited (delimited_cons (by simp)), .inl hafter⟩
  | moreMembers hgap hkey hcolon hblank hvalue hafter hmore =>
    exact ⟨_, _, _, _, _, hgap, hkey, hcolon, hblank, hvalue,
      hafter.delimited (delimited_cons (by simp)), .inr ⟨_, hafter, hmore⟩⟩

theorem wrongType_ne_ok (expected : String) (cs : List Char) (v : α) :
    wrongType expected cs ≠ .ok v := by
  unfold wrongType
  split <;> exact nofun

theorem skipString?_of_read (h : readString? cs = some (s, r)) : skipString? cs = some r := by
  fun_induction readString? cs generalizing s r <;> simp_all [skipString?]

theorem exact_text (expected : String) : Exact (readTextAs expected) := by
  intro text cs rest r v hgap hvalid hrest hread
  have hskip := skip?_of_valid hgap hvalid hrest
  rw [skip?, skipValue?] at hskip
  rw [readTextAs] at hread
  split at hread
  · rename_i t hspace
    split at hread
    · rename_i s r' hstring
      obtain rfl := (Prod.mk.inj (Except.ok.inj hread)).2
      simpa [hspace, skipString?_of_read hstring] using hskip
    · contradiction
  · exact absurd hread (wrongType_ne_ok _ _ _)

theorem scan?_of_read {x : Number} (h : readNumeral? cs = some (x, r)) :
    (Numeral.scan? cs).map (·.2) = some r := by
  rw [readNumeral?] at h
  split at h
  · contradiction
  · rename_i hscan
    obtain ⟨x, -, heq⟩ := Option.map_eq_some_iff.mp h
    obtain rfl := (Prod.mk.inj heq).2
    rw [hscan]
    rfl

theorem exact_natural (limit : Nat) (expected : String) : Exact (readNatural limit expected) := by
  intro text cs rest r v hgap hvalid hrest hread
  have hskip := skip?_of_valid hgap hvalid hrest
  rw [readNatural] at hread
  split at hread
  · contradiction
  · rename_i c t hspace
    split at hread
    · rename_i hc
      split at hread
      · contradiction
      · rename_i x t' hnumeral
        rw [skip?, skipValue?_numeral hspace hc, scan?_of_read hnumeral] at hskip
        split at hread
        · obtain rfl := (Prod.mk.inj (Except.ok.inj hread)).2
          exact Option.some.inj hskip
        · contradiction
    · exact absurd hread (wrongType_ne_ok _ _ _)

theorem exact_optional (h : Exact read) : Exact (readOptional read) := by
  intro text cs rest r v hgap hvalid hrest hread
  have hskip := skip?_of_valid hgap hvalid hrest
  have hspace := hgap.skipSpace_of_visible hvalid.visible
  rw [skip?, skipValue?, hspace] at hskip
  rw [readOptional, hspace] at hread
  split at hread
  · rw [readWord] at hread
    split at hread
    · rename_i hword
      obtain rfl := (Prod.mk.inj (Except.ok.inj hread)).2
      simpa [hword] using hskip
    · contradiction
  · split at hread
    · rename_i hread'
      obtain rfl := (Prod.mk.inj (Except.ok.inj hread)).2
      exact h .none hvalid hrest hread'
    · contradiction

theorem exact_elements (h : Exact read) {fuel : Nat} {vs : List α} (hvalid : Valid .items cs rest)
    (hread : readElements read fuel (skipSpace cs) = .ok (vs, r)) : r = rest := by
  induction fuel generalizing cs vs with
  | zero => contradiction
  | succ fuel ih =>
    obtain ⟨value, after, hgap, hvalue, hafter, hend⟩ := hvalid.items_inv
    rw [hgap.skipSpace_of_visible hvalue.visible, readElements] at hread
    split at hread
    · contradiction
    · rename_i v after' hread'
      obtain rfl := h .none hvalue hafter hread'
      rcases hend with hclose | ⟨more, hcomma, hmore⟩
      · rw [hclose.skipSpace_cons rfl] at hread
        exact (Prod.mk.inj (Except.ok.inj hread)).2.symm
      · simp only [hcomma.skipSpace_cons rfl] at hread
        split at hread
        · contradiction
        · split at hread
          · rename_i hmembers
            obtain rfl := (Prod.mk.inj (Except.ok.inj hread)).2
            exact ih hmore hmembers
          · contradiction

theorem exact_list (h : Exact read) : Exact (readList read) := by
  intro text cs rest r v hgap hvalid hrest hread
  have hspace := hgap.skipSpace_of_visible hvalid.visible
  rw [readList, hspace] at hread
  split at hread
  · rename_i t
    rcases hvalid.array_inv with hclose | hitems
    · rw [hclose.skipSpace_cons rfl] at hread
      exact (Prod.mk.inj (Except.ok.inj hread)).2.symm
    · obtain ⟨c, cs, hcons, -, hc⟩ := hitems.visible_items
      have helements : readElements read ((skipSpace t).length + 1) (skipSpace t) = .ok (v, r) := by
        rw [hcons] at hread ⊢
        simpa [hc] using hread
      exact exact_elements h hitems helements
  · exact absurd hread (wrongType_ne_ok _ _ _)

section Records

variable {δ : Type} {shape : Shape δ α} {slot : Slot δ} {d d' : δ} {ks : List String}
  {ms : List (String × Option Json)}

def Shape.ExactSlots (shape : Shape δ α) : Prop :=
  ∀ slot ∈ shape.slots, ∀ d, Exact (slot.read d)

theorem exact_slot {β : Type} {name : String} {get : δ → Option β} {put : δ → β → δ}
    {read : List Char → Part β} (h : Exact read) (d : δ) :
    Exact ((Slot.of name get put read).read d) := by
  refine h.of_ends fun {text r v} hread => ?_
  simp only [Slot.of] at hread
  split at hread
  · rename_i hread'
    obtain rfl := (Prod.mk.inj (Except.ok.inj hread)).2
    exact ⟨_, hread'⟩
  · contradiction

theorem put_of_read {β : Type} {name : String} {get : δ → Option β} {put : δ → β → δ}
    {read : List Char → Part β} (h : (Slot.of name get put read).read d text = .ok (d', r)) :
    ∃ v, d' = put d v := by
  simp only [Slot.of] at h
  split at h
  · obtain ⟨rfl, -⟩ := Prod.mk.inj (Except.ok.inj h)
    exact ⟨_, rfl⟩
  · contradiction

/-- What a member of the name does to a draft: it fills the empty slot of its name, or nothing. -/
inductive Shape.Enters (shape : Shape δ α) (k : String) (d d' : δ) : Prop
  | known {slot : Slot δ} {text r : List Char} : shape.slots.find? (·.name == k) = some slot →
      slot.filled d = false → slot.read d text = .ok (d', r) → Shape.Enters shape k d d'
  | unknown : shape.slots.find? (·.name == k) = none → d' = d → Shape.Enters shape k d d'

/-- Members of the names are read into a draft, one after the other. -/
inductive Shape.EnterAll (shape : Shape δ α) : δ → List String → δ → Prop
  | nil {d : δ} : Shape.EnterAll shape d [] d
  | cons {d d' d'' : δ} {k : String} {ks : List String} : shape.Enters k d d' →
      Shape.EnterAll shape d' ks d'' → Shape.EnterAll shape d (k :: ks) d''

/-- A member that is read is read up to the end of its value. -/
theorem exact_member (hslots : shape.ExactSlots) {k : String} {behind colon value after : List Char}
    (hcolon : Gap behind (':' :: colon)) (hgap : Gap colon value)
    (hvalue : Valid .value value after) (hafter : Delimited after)
    (hread : shape.readMember d k behind = .ok (d', r)) : r = after ∧ shape.Enters k d d' := by
  rw [Shape.readMember] at hread
  split at hread
  · rename_i slot hslot
    split at hread
    · contradiction
    · rename_i hempty
      rw [Shape.afterColon, hcolon.skipSpace_cons rfl] at hread
      exact ⟨hslots slot (List.mem_of_find?_eq_some hslot) d hgap hvalue hafter hread,
        .known hslot (Bool.eq_false_iff.mpr hempty) hread⟩
  · rename_i hslot
    split at hread
    · contradiction
    · rw [Shape.afterColon, hcolon.skipSpace_cons rfl] at hread
      simp only [Shape.skipMember, skip?_of_valid hgap hvalue hafter] at hread
      obtain ⟨rfl, rfl⟩ := Prod.mk.inj (Except.ok.inj hread)
      exact ⟨rfl, .unknown hslot rfl⟩

/-- Reading members reads the first one, and the others if a comma follows. -/
theorem readMembers_ok {fuel : Nat} {key : List Char} (hquote : skipSpace cs = '"' :: key)
    (hread : shape.readMembers (fuel + 1) d cs = .ok (d', r)) :
    ∃ k behind d₁ after, readString? key = some (k, behind) ∧
      shape.readMember d (String.ofList k) behind = .ok (d₁, after) ∧
      (skipSpace after = '}' :: r ∧ d' = d₁ ∨
        ∃ more, skipSpace after = ',' :: more ∧ shape.readMembers fuel d₁ more = .ok (d', r)) := by
  rw [Shape.readMembers, hquote] at hread
  simp only at hread
  split at hread
  · contradiction
  · rename_i k behind hkey
    split at hread
    · contradiction
    · rename_i d₁ after hmember
      refine ⟨k, behind, d₁, after, hkey, hmember, ?_⟩
      split at hread
      · rename_i hclose
        obtain ⟨rfl, rfl⟩ := Prod.mk.inj (Except.ok.inj hread)
        exact .inl ⟨hclose, rfl⟩
      · rename_i more hcomma
        exact .inr ⟨more, hcomma, hread⟩
      · contradiction

theorem readMembers_step (hslots : shape.ExactSlots) {fuel : Nat}
    {key behind colon value after : List Char} (hgap : Gap cs ('"' :: key))
    (hkey : Chars key behind) (hcolon : Gap behind (':' :: colon)) (hblank : Gap colon value)
    (hvalue : Valid .value value after) (hafter : Delimited after)
    (hread : shape.readMembers (fuel + 1) d cs = .ok (d', r)) :
    ∃ k d₁, readString? key = some (k, behind) ∧ shape.Enters (String.ofList k) d d₁ ∧
      (skipSpace after = '}' :: r ∧ d' = d₁ ∨
        ∃ more, skipSpace after = ',' :: more ∧ shape.readMembers fuel d₁ more = .ok (d', r)) := by
  obtain ⟨k, behind', d₁, after', hkey', hmember, hnext⟩ :=
    readMembers_ok (hgap.skipSpace_cons rfl) hread
  obtain rfl : behind = behind' :=
    Option.some.inj (hkey.skip.symm.trans (skipString?_of_read hkey'))
  obtain ⟨rfl, henters⟩ := exact_member hslots hcolon hblank hvalue hafter hmember
  exact ⟨k, d₁, hkey', henters, hnext⟩

theorem exact_members (hslots : shape.ExactSlots) {fuel : Nat} (hvalid : Valid .members cs rest)
    (hread : shape.readMembers fuel d cs = .ok (d', r)) : r = rest := by
  induction fuel generalizing cs d with
  | zero => contradiction
  | succ fuel ih =>
    obtain ⟨key, behind, colon, value, after, hgap, hkey, hcolon, hblank, hvalue, hafter, hend⟩ :=
      hvalid.members_inv
    obtain ⟨k, d₁, -, -, hnext⟩ :=
      readMembers_step hslots hgap hkey hcolon hblank hvalue hafter hread
    rcases hend with hclose | ⟨more, hcomma, hmore⟩
    · rw [hclose.skipSpace_cons rfl] at hnext
      obtain ⟨hbrace, -⟩ | ⟨more', hmore', -⟩ := hnext
      · exact (List.cons.inj hbrace).2.symm
      · simp at hmore'
    · rw [hcomma.skipSpace_cons rfl] at hnext
      obtain ⟨hbrace, -⟩ | ⟨more', hmore', hread'⟩ := hnext
      · simp at hbrace
      · obtain rfl := (List.cons.inj hmore').2
        exact ih hmore hread'

/-- The members that are read are those of the text. -/
theorem enterAll_of_members (hslots : shape.ExactSlots) {fuel : Nat}
    (hspells : Spells (.members ms) cs rest)
    (hread : shape.readMembers fuel d cs = .ok (d', r)) :
    shape.EnterAll d (ms.map (·.1)) d' := by
  induction ms generalizing fuel cs d with
  | nil => exact absurd hspells not_spells_members_nil
  | cons m ms ih =>
    obtain ⟨name, m⟩ := m
    obtain ⟨key, behind, colon, value, after, hgap, hkey, hcolon, hblank, hvalue, hafter, hend⟩ :=
      hspells.members_inv
    have hvalid := hvalue.valid
    rw [Writing.piece_of] at hvalid
    cases fuel with
    | zero => contradiction
    | succ fuel =>
      obtain ⟨k, d₁, hkey', henters, hnext⟩ :=
        readMembers_step hslots hgap hkey.chars hcolon hblank hvalid hafter hread
      obtain rfl : name.toList = k :=
        (Prod.mk.inj (Option.some.inj (hkey.read.symm.trans hkey'))).1
      rw [String.ofList_toList] at henters
      refine .cons henters ?_
      rcases hend with ⟨rfl, hclose⟩ | ⟨more, hcomma, hmore⟩
      · rw [hclose.skipSpace_cons rfl] at hnext
        obtain ⟨-, rfl⟩ | ⟨more', hmore', -⟩ := hnext
        · exact .nil
        · simp at hmore'
      · rw [hcomma.skipSpace_cons rfl] at hnext
        obtain ⟨hbrace, -⟩ | ⟨more', hmore', hread'⟩ := hnext
        · simp at hbrace
        · obtain rfl := (List.cons.inj hmore').2
          exact ih hmore hread'

theorem ok_of_bind {ε : Type} {x : Except ε α} {f : α → Except ε β} {b : β}
    (h : x.bind f = .ok b) : ∃ a, x = .ok a ∧ f a = .ok b := by
  cases x with
  | error e => contradiction
  | ok a => exact ⟨a, rfl, h⟩

/-- What is left of an array after some of its values. -/
inductive ArrayRest : Nat → List Char → List Char → Prop
  | close {done : Nat} {text rest : List Char} : Gap text (']' :: rest) → ArrayRest done text rest
  | first {text rest : List Char} : Valid .items text rest → ArrayRest 0 text rest
  | later {done : Nat} {text more rest : List Char} : Gap text (',' :: more) →
      Valid .items more rest → ArrayRest (done + 1) text rest

theorem arrayRest_of_end {done : Nat}
    (h : Gap text (']' :: rest) ∨ ∃ more, Gap text (',' :: more) ∧ Valid .items more rest) :
    ArrayRest (done + 1) text rest := by
  rcases h with hclose | ⟨more, hcomma, hmore⟩
  · exact .close hclose
  · exact .later hcomma hmore

theorem exact_inOrder {slots : List (Slot δ)} (hslots : ∀ slot ∈ slots, ∀ d, Exact (slot.read d))
    {expected : String} {done : Nat} (h : ArrayRest done text rest)
    (hread : Shape.readInOrder expected done slots d text = .ok (d', r)) :
    ∃ done', ArrayRest done' r rest := by
  induction slots generalizing done d text with
  | nil =>
    obtain ⟨-, rfl⟩ := Prod.mk.inj (Except.ok.inj hread)
    exact ⟨done, h⟩
  | cons slot slots ih =>
    have hslot := hslots slot List.mem_cons_self
    have hothers : ∀ slot ∈ slots, ∀ d, Exact (slot.read d) :=
      fun slot hmem => hslots slot (List.mem_cons_of_mem _ hmem)
    cases h with
    | close h =>
      rw [Shape.readInOrder, h.skipSpace_cons rfl] at hread
      contradiction
    | first h =>
      obtain ⟨value, after, hgap, hvalid, hafter, hend⟩ := h.items_inv
      rw [readInOrder_first expected hgap hvalid] at hread
      obtain ⟨⟨d₁, r₁⟩, hvalue, hnext⟩ := ok_of_bind hread
      obtain rfl := hslot d .none hvalid hafter hvalue
      exact ih hothers (arrayRest_of_end hend) hnext
    | later hcomma h =>
      obtain ⟨value, after, hgap, hvalid, hafter, hend⟩ := h.items_inv
      rw [readInOrder_next expected _ hcomma hgap hvalid] at hread
      obtain ⟨⟨d₁, r₁⟩, hvalue, hnext⟩ := ok_of_bind hread
      obtain rfl := hslot d .none hvalid hafter hvalue
      exact ih hothers (arrayRest_of_end hend) hnext

theorem exact_closeArray {done : Nat} {v' : α} (h : ArrayRest done text rest)
    (hread : Shape.closeArray v text = .ok (v', r)) : r = rest := by
  rw [Shape.closeArray] at hread
  split at hread
  · rename_i hclose
    obtain ⟨-, rfl⟩ := Prod.mk.inj (Except.ok.inj hread)
    cases h with
    | close h => 
      rw [h.skipSpace_cons rfl] at hclose
      exact (List.cons.inj hclose).2.symm
    | first h =>
      obtain ⟨c, t, hcons, -, hc⟩ := h.visible_items
      exact absurd (List.cons.inj (hcons.symm.trans hclose)).1 hc
    | later hcomma =>
      rw [hcomma.skipSpace_cons rfl] at hclose
      simp at hclose
  · contradiction

theorem exact_object (hslots : shape.ExactSlots)
    (hvalid : Gap cs ('}' :: rest) ∨ Valid .members cs rest)
    (hread : shape.readObject cs = .ok (d, r)) : r = rest := by
  rcases hvalid with hclose | hmembers
  · rw [Shape.readObject, hclose.skipSpace_cons rfl] at hread
    exact (Prod.mk.inj (Except.ok.inj hread)).2.symm
  · rw [readObject_of_members hmembers] at hread
    exact exact_members hslots hmembers hread

theorem conclude_ok (h : shape.conclude d cs = .ok (v, r)) : shape.finish d = .ok v ∧ r = cs := by
  rw [Shape.conclude] at h
  split at h
  · rename_i hfinish
    obtain ⟨rfl, rfl⟩ := Prod.mk.inj (Except.ok.inj h)
    exact ⟨hfinish, rfl⟩
  · contradiction

/-- A record with exact slots is exact, whether it is read from an object or from an array. -/
theorem exact_shape (hslots : shape.ExactSlots) : Exact shape.read := by
  intro text cs rest r v hgap hvalid hrest hread
  have hspace := hgap.skipSpace_of_visible hvalid.visible
  rw [Shape.read, hspace] at hread
  split at hread
  · split at hread
    · rename_i d after hobject
      obtain ⟨-, rfl⟩ := conclude_ok hread
      exact exact_object hslots hvalid.object_inv hobject
    · contradiction
  · rename_i inside
    have harray : ArrayRest 0 inside rest := by
      rcases hvalid.array_inv with hclose | hitems
      · exact .close hclose
      · exact .first hitems
    split at hread
    · contradiction
    · rename_i d after horder
      obtain ⟨done, hlast⟩ := exact_inOrder hslots harray horder
      split at hread
      · rename_i hconclude
        obtain ⟨-, rfl⟩ := conclude_ok hconclude
        exact exact_closeArray hlast hread
      · contradiction
  · exact absurd hread (wrongType_ne_ok _ _ _)

theorem enterAll_of_read (hslots : shape.ExactSlots) (hgap : Gap text cs)
    (hspells : Spells (.record ms) cs rest) (hread : shape.read text = .ok (v, r)) :
    ∃ d, shape.EnterAll shape.empty (ms.map (·.1)) d ∧ shape.finish d = .ok v := by
  obtain ⟨inside, rfl, hinside⟩ := hspells.record_inv
  rw [Shape.read, hgap.skipSpace_cons rfl] at hread
  simp only at hread
  split at hread
  · rename_i d after hobject
    obtain ⟨hfinish, -⟩ := conclude_ok hread
    refine ⟨d, ?_, hfinish⟩
    rcases hinside with ⟨rfl, hclose⟩ | hmembers
    · rw [Shape.readObject, hclose.skipSpace_cons rfl] at hobject
      obtain ⟨rfl, -⟩ := Prod.mk.inj (Except.ok.inj hobject)
      exact .nil
    · rw [readObject_of_members hmembers.valid] at hobject
      exact enterAll_of_members hslots hmembers hobject
  · contradiction

structure Shape.Separate (shape : Shape δ α) : Prop where
  nodup : (shape.slots.map (·.name)).Nodup
  fills : ∀ slot ∈ shape.slots, ∀ other ∈ shape.slots, ∀ {d d' : δ} {text r : List Char},
    slot.read d text = .ok (d', r) → other.filled d' = (other.filled d || other.name == slot.name)

/-- What a member of the name does to a slot. -/
theorem Shape.Enters.count {k : String} (h : shape.Enters k d d') (hseparate : shape.Separate)
    (hslot : slot ∈ shape.slots) :
    (slot.filled d).toNat + [k].count slot.name = (slot.filled d').toNat := by
  cases h with
  | @known found text r hfound hempty hread =>
    have hmem := List.mem_of_find?_eq_some hfound
    have hname : found.name = k := by simpa using List.find?_some hfound
    rw [hseparate.fills found hmem slot hslot hread, hname]
    -- Names differ, so a slot of this name is the one that was found, and that was empty.
    by_cases hk : slot.name = k
    · have hsame : slot = found :=
        List.inj_on_of_nodup_map hseparate.nodup hslot hmem (hk.trans hname.symm)
      simp [hsame, hempty, hname]
    · simp [Ne.symm hk, beq_eq_false_iff_ne.mpr hk]
  | unknown hnone hsame =>
    have hk : slot.name ≠ k := by
      simpa using List.find?_eq_none.mp hnone slot hslot
    simp [hsame, Ne.symm hk]

/-- As many members have the name of a slot as it takes to fill it: one if it was empty and is full
in the end, and none otherwise. -/
theorem Shape.EnterAll.count (h : shape.EnterAll d ks d') (hseparate : shape.Separate)
    (hslot : slot ∈ shape.slots) :
    (slot.filled d).toNat + ks.count slot.name = (slot.filled d').toNat := by
  induction h with
  | nil => rfl
  | @cons d d₁ d₂ k ks henters _ ih =>
    have hfirst := henters.count hseparate hslot
    rw [← List.singleton_append, List.count_append]
    omega

end Records

end Batchflow.Json
