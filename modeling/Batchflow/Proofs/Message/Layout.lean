import Batchflow.Proofs.Json.Compact
import Batchflow.Proofs.Json.Layout
import Batchflow.Proofs.Message.RoundTrip

/-!
# Messages in any layout

A message is read from the object of its fields in any order, with any blanks, with members of other
names among them and with the fields that are absent written as null or left out.  It is also read
from the array of its fields.  No layout changes the deadline more than its own text does.  An object
in which a field occurs twice is refused, and so is one without a trace, a delay, a service, a method
or a body.
-/

namespace Batchflow

open Json

theorem takes_byte (b : UInt8) : Takes readByte (.value (natural b.toNat)) b := by
  intro text cs rest hgap hspells hrest
  have hread := takes_natural "u8" b.toNat_lt_size (by decide) hgap hspells hrest
  rw [readByte, hread]
  simp only [UInt8.ofNat_toNat]

theorem exact_byte : Exact readByte := by
  refine (exact_natural 256 "u8").of_ends fun {text r v} hread => ?_
  rw [readByte] at hread
  split at hread
  · rename_i n r' hnatural
    obtain ⟨-, rfl⟩ := Prod.mk.inj (Except.ok.inj hread)
    exact ⟨n, hnatural⟩
  · contradiction

theorem takes_optionalText (s : Option String) :
    Takes (readOptional readText) (.value (optional .string s)) s :=
  takes_optional (fun s _ => takes_text "a string" s) fun _ => nofun

theorem Timestamp.takes_json {t : Timestamp} (h : t.OnMinute) :
    Takes readJson (.value t.json) t := by
  intro text cs rest hgap hspells hrest
  rw [readJson, takes_text _ _ hgap hspells hrest]
  simp only [String.toList_ofList, read_text h]

theorem Timestamp.exact_readJson : Exact readJson := by
  refine Exact.of_ends (exact_text "an RFC 3339 formatted date and time string") ?_
  intro text r v hread
  rw [readJson] at hread
  split at hread
  · contradiction
  · rename_i s r' htext
    split at hread
    · obtain ⟨-, rfl⟩ := Prod.mk.inj (Except.ok.inj hread)
      exact ⟨s, htext⟩
    · contradiction

theorem takes_deadline {o : Option Timestamp} (h : ∀ t ∈ o, t.OnMinute) :
    Takes (readOptional Timestamp.readJson) (.value (optional Timestamp.json o)) o :=
  takes_optional (fun t ht => Timestamp.takes_json (h t ht)) fun _ => nofun

namespace Duration

theorem takes_json (d : Duration) : Takes shape.read (.value d.json) d := by
  have hnanos : d.nanos < UInt32.size := Nat.lt_trans d.nanos_lt (by decide)
  have hfill : Fill shape {} [("secs", some (.natural d.secs)), ("nanos", some (.natural d.nanos))]
      { secs := some d.secs, nanos := some d.nanos } :=
    .known rfl rfl (takes_slot (takes_natural "u64" d.secs_lt (by decide)) rfl) <|
      .known rfl rfl (takes_slot (takes_natural "u32" hnanos (by decide)) rfl) .nil
  have hfinish : Draft.finish { secs := some d.secs, nanos := some d.nanos } = .ok d := by
    simp [Draft.finish, demand, ofParts?_eq, bind, Except.bind]
  exact takes_object hfill hfinish

theorem exact_read : Exact shape.read := by
  refine exact_shape fun slot hslot d => ?_
  simp only [shape, List.mem_cons, List.not_mem_nil, or_false] at hslot
  rcases hslot with rfl | rfl <;> exact exact_slot (exact_natural _ _) d

theorem compact_json (d : Duration) : Compact d.json := by
  refine compact_object ?_
  simp only [List.forall_mem_cons]
  exact ⟨compact_natural _, compact_natural _, nofun⟩

end Duration

namespace Message

/-- The fields of a message, by their names. -/
def fields (m : Message) : List (String × Json) :=
  [("id", .optional .string m.id), ("external_handle", .optional .string m.handle),
    ("trace_id", .string m.trace), ("delay", m.delay.json), ("service", .string m.service),
    ("method", .string m.method), ("body", .array (m.body.map fun b => .natural b.toNat)),
    ("deadline", .optional Timestamp.json m.deadline)]

theorem json_eq (m : Message) : m.json = .object m.fields := rfl

theorem fields_carried (m : Message) : m.carried.fields = m.fields :=
  Json.object.inj m.json_carried

def fieldNames : List String :=
  ["id", "external_handle", "trace_id", "delay", "service", "method", "body", "deadline"]

/-- The fields that a message cannot do without. -/
def requiredNames : List String := ["trace_id", "delay", "service", "method", "body"]

theorem requiredNames_subset : requiredNames ⊆ fieldNames := by decide

def draftOf (m : Message) (ks : List String) : Draft where
  id := if "id" ∈ ks then some m.id else none
  handle := if "external_handle" ∈ ks then some m.handle else none
  trace := if "trace_id" ∈ ks then some m.trace else none
  delay := if "delay" ∈ ks then some m.delay else none
  service := if "service" ∈ ks then some m.service else none
  method := if "method" ∈ ks then some m.method else none
  body := if "body" ∈ ks then some m.body else none
  deadline := if "deadline" ∈ ks then some m.deadline else none

variable {m : Message}

theorem feeds_slot {β : Type} {k : String} {get : Draft → Option β} {put : Draft → β → Draft}
    {read : List Char → Json.Part β} {j : Json} {v : β} (h : Takes read (.value j) v)
    (hget : ∀ ks, get (m.draftOf ks) = if k ∈ ks then some v else none)
    (hput : ∀ ks, put (m.draftOf ks) v = m.draftOf (k :: ks)) :
    Slot.Feeds m.draftOf (Slot.of k get put read) (k, j) where
  name := rfl
  filled ks := by
    simp only [Slot.of, hget]
    split <;> simp [*]
  takes ks := takes_slot h (hput ks)

theorem join_of_left {α : Type} {f : α → Json} {p : Prop} [Decidable p] {o : Option α}
    (h : p ∨ optional f o = .null) (hf : ∀ v, f v ≠ .null) :
    (if p then some o else none).join = o := by
  by_cases hp : p
  · rw [if_pos hp, Option.join_some]
  · rw [if_neg hp]
    cases o with
    | none => rfl
    | some v => exact absurd (h.resolve_left hp) (hf v)

theorem finish_draftOf {ks : List String} (h : ∀ f ∈ m.fields, f.1 ∈ ks ∨ f.2 = .null) :
    (m.draftOf ks).finish = .ok m := by
  simp only [fields, List.forall_mem_cons] at h
  obtain ⟨hid, hhandle, htrace, hdelay, hservice, hmethod, hbody, hdeadline, -⟩ := h
  have hid : (m.draftOf ks).id.join = m.id := join_of_left hid fun _ => nofun
  have hhandle : (m.draftOf ks).handle.join = m.handle := join_of_left hhandle fun _ => nofun
  have htrace : (m.draftOf ks).trace = some m.trace := if_pos (htrace.resolve_right nofun)
  have hdelay : (m.draftOf ks).delay = some m.delay := if_pos (hdelay.resolve_right nofun)
  have hservice : (m.draftOf ks).service = some m.service := if_pos (hservice.resolve_right nofun)
  have hmethod : (m.draftOf ks).method = some m.method := if_pos (hmethod.resolve_right nofun)
  have hbody : (m.draftOf ks).body = some m.body := if_pos (hbody.resolve_right nofun)
  have hdeadline : (m.draftOf ks).deadline.join = m.deadline :=
    join_of_left hdeadline fun _ => nofun
  simp only [Draft.finish, hid, hhandle, htrace, hdelay, hservice, hmethod, hbody, hdeadline,
    demand]
  rfl

theorem accepts (h : m.OnMinute) : shape.Accepts m.draftOf m.fields m where
  feeds :=
    .cons (feeds_slot (takes_optionalText m.id) (fun _ => rfl) fun _ => by simp [draftOf]) <|
    .cons (feeds_slot (takes_optionalText m.handle) (fun _ => rfl) fun _ => by simp [draftOf]) <|
    .cons (feeds_slot (takes_text _ m.trace) (fun _ => rfl) fun _ => by simp [draftOf]) <|
    .cons (feeds_slot m.delay.takes_json (fun _ => rfl) fun _ => by simp [draftOf]) <|
    .cons (feeds_slot (takes_text _ m.service) (fun _ => rfl) fun _ => by simp [draftOf]) <|
    .cons (feeds_slot (takes_text _ m.method) (fun _ => rfl) fun _ => by simp [draftOf]) <|
    .cons (feeds_slot (takes_list takes_byte m.body) (fun _ => rfl) fun _ => by simp [draftOf]) <|
    .cons (feeds_slot (takes_deadline h) (fun _ => rfl) fun _ => by simp [draftOf]) .nil
  nodup := by
    show fieldNames.Nodup
    decide
  empty := rfl
  finish _ := finish_draftOf

theorem exactSlots : shape.ExactSlots := by
  intro slot hslot d
  simp only [shape, slots, List.mem_cons, List.not_mem_nil, or_false] at hslot
  rcases hslot with rfl | rfl | rfl | rfl | rfl | rfl | rfl | rfl
  · exact exact_slot (exact_optional (exact_text _)) d
  · exact exact_slot (exact_optional (exact_text _)) d
  · exact exact_slot (exact_text _) d
  · exact exact_slot Duration.exact_read d
  · exact exact_slot (exact_text _) d
  · exact exact_slot (exact_text _) d
  · exact exact_slot (exact_list exact_byte) d
  · exact exact_slot (exact_optional Timestamp.exact_readJson) d

theorem separate : shape.Separate where
  nodup := by
    show fieldNames.Nodup
    decide
  fills slot hslot other hother d d' text r hread := by
    simp only [shape, slots, List.mem_cons, List.not_mem_nil, or_false] at hslot
    rcases hslot with rfl | rfl | rfl | rfl | rfl | rfl | rfl | rfl
    -- What is put into one slot is looked for in all eight.
    all_goals
      obtain ⟨v, rfl⟩ := put_of_read hread
      revert other
      simp [shape, slots, Slot.of]

theorem isSome_of_demand {α : Type} {field : String} {o : Option α} {v : α}
    (h : demand field o = .ok v) : o.isSome = true := by
  cases o with
  | none => contradiction
  | some v => rfl

theorem finish_ok {d : Draft} (h : d.finish = .ok m) :
    ∀ slot ∈ slots, slot.name ∈ requiredNames → slot.filled d = true := by
  obtain ⟨trace, htrace, h⟩ := ok_of_bind h
  obtain ⟨delay, hdelay, h⟩ := ok_of_bind h
  obtain ⟨service, hservice, h⟩ := ok_of_bind h
  obtain ⟨method, hmethod, h⟩ := ok_of_bind h
  obtain ⟨body, hbody, -⟩ := ok_of_bind h
  simp [slots, requiredNames, Slot.of, isSome_of_demand htrace, isSome_of_demand hdelay,
    isSome_of_demand hservice, isSome_of_demand hmethod, isSome_of_demand hbody]

/-- How often the fields of a message occur in an object that is read as one. -/
theorem count_of_read {ms : List (String × Option Json)} {text : List Char}
    (hdocument : Document (.record ms) text) (hread : shape.readAll text = .ok m) :
    (∀ k ∈ fieldNames, (ms.map (·.1)).count k ≤ 1) ∧ ∀ k ∈ requiredNames, k ∈ ms.map (·.1) := by
  obtain ⟨d, hfinish, hcount⟩ :=
    count_of_readAll exactSlots separate (by simp [shape, slots, Slot.of]) hdocument hread
  have hslot {k : String} (hk : k ∈ fieldNames) : ∃ slot ∈ slots, slot.name = k := by
    rw [show fieldNames = slots.map (·.name) from rfl] at hk
    simpa using hk
  constructor
  · intro k hk
    obtain ⟨slot, hmem, rfl⟩ := hslot hk
    rw [hcount slot hmem]
    exact Bool.toNat_le _
  · intro k hk
    obtain ⟨slot, hmem, rfl⟩ := hslot (requiredNames_subset hk)
    have hone := hcount slot hmem
    rw [finish_ok hfinish slot hmem hk] at hone
    exact List.count_pos_iff.mp (hone ▸ Nat.one_pos)

theorem compact_body (body : List UInt8) :
    Compact (.array (body.map fun b => .natural b.toNat)) := by
  refine compact_array fun j hj => ?_
  obtain ⟨b, -, rfl⟩ := List.mem_map.mp hj
  exact compact_natural _

theorem compact_fields (m : Message) : ∀ f ∈ m.fields, Compact f.2 := by
  simp only [fields, List.forall_mem_cons]
  exact ⟨compact_optional compact_string _, compact_optional compact_string _, compact_string _,
    m.delay.compact_json, compact_string _, compact_string _, compact_body _,
    compact_optional (fun _ => compact_string _) _, nofun⟩

/-- Only the fields of a message count; a member of another name is left open. -/
def view (f : String × Json) : Option Json := if f.1 ∈ fieldNames then some f.2 else none

theorem others_of_view {fs : List (String × Json)} {k : String}
    (hk : (k, none) ∈ fs.map fun f => (f.1, view f)) : k ∉ fieldNames := by
  obtain ⟨f, -, heq⟩ := List.mem_map.mp hk
  obtain ⟨rfl, hview⟩ := Prod.mk.inj heq
  simpa [view] using hview

theorem document_object {fs : List (String × Json)} (h : ∀ f ∈ fs, Compact f.2) :
    Document (.record (fs.map fun f => (f.1, view f))) (Json.object fs).text := by
  have hview : ∀ f, ∀ j ∈ view f, j = f.2 := by simp [view]
  have hspells := spells_record h hview []
  rw [List.append_nil] at hspells
  exact .mk .none hspells .none

theorem document_array (m : Message) :
    Document (.value (.array (m.fields.map (·.2)))) (Json.array (m.fields.map (·.2))).text := by
  have hspells := compact_array (List.forall_mem_map.mpr m.compact_fields) []
  rw [List.append_nil] at hspells
  exact .mk .none hspells .none

theorem readAll_object (m : Message) {ms : List (String × Option Json)} {text : List Char}
    (hlayout : LaidOut m.fields ms) (hdocument : Document (.record ms) text) :
    shape.readAll text = .ok m.carried := by
  rw [← m.fields_carried] at hlayout
  exact readAll_of_takes ((accepts m.onMinute_carried).takes_laidOut rfl hlayout) hdocument

theorem readAll_array (m : Message) {text : List Char}
    (hdocument : Document (.value (.array (m.fields.map (·.2)))) text) :
    shape.readAll text = .ok m.carried := by
  rw [← m.fields_carried] at hdocument
  exact readAll_of_takes (accepts m.onMinute_carried).takes_inOrder hdocument

/-- The object that is written for a message is read alike in any layout of its fields, and so is
their array.  It is read as that message unless the deadline is a leap second in the middle of a
minute, which is carried into the next second.  An object in which a field occurs twice, or one that
a message needs does not occur, is refused. -/
theorem read_any_layout :
    (∀ m : Message, m.json = .object m.fields ∧ (m.carried = m ↔ m.OnMinute)) ∧
      (∀ (m : Message) (ms : List (String × Option Json)) (text : List Char),
        LaidOut m.fields ms → Document (.record ms) text → shape.readAll text = .ok m.carried) ∧
      (∀ (m : Message) (text : List Char),
        Document (.value (.array (m.fields.map (·.2)))) text →
        shape.readAll text = .ok m.carried) ∧
      ∀ (ms : List (String × Option Json)) (text : List Char), Document (.record ms) text →
        (∃ k ∈ fieldNames, 1 < (ms.map (·.1)).count k) ∨
          (∃ k ∈ requiredNames, k ∉ ms.map (·.1)) →
        ∃ e, shape.readAll text = .error e := by
  refine ⟨fun m => ⟨m.json_eq, carried_eq_self_iff⟩, fun m ms text => m.readAll_object,
    fun m text => m.readAll_array, fun ms text hdocument hwrong => ?_⟩
  cases hread : shape.readAll text with
  | error e => exact ⟨e, rfl⟩
  | ok m =>
    obtain ⟨honce, hpresent⟩ := count_of_read hdocument hread
    rcases hwrong with ⟨k, hk, htwice⟩ | ⟨k, hk, hmissing⟩
    · exact absurd htwice (Nat.not_lt.mpr (honce k hk))
    · exact absurd (hpresent k hk) hmissing

def greeting : Message := { trace := "t", service := "s", method := "m", body := [7] }

/-- Fields of the message out of order behind a member of another name; what is absent is left out
but for the deadline. -/
def shuffled : List (String × Json) :=
  [("x", .array [.object []]), ("method", .string "m"), ("trace_id", .string "t"),
    ("delay", Duration.zero.json), ("service", .string "s"), ("body", .array [.natural 7]),
    ("deadline", .null)]

theorem compact_shuffled : ∀ f ∈ shuffled, Compact f.2 := by
  have hempty : Compact (.object []) := compact_object (by simp)
  simp only [shuffled, List.forall_mem_cons]
  exact ⟨compact_array (by simpa using hempty), compact_string _, compact_string _,
    Duration.zero.compact_json, compact_string _, compact_body [7], compact_null, nofun⟩

theorem laidOut_shuffled : LaidOut greeting.fields (shuffled.map fun f => (f.1, view f)) where
  complete := by
    refine ⟨[("id", .null), ("external_handle", .null)], ?_, by simp⟩
    have hmethod : (written (shuffled.map fun f => (f.1, view f))) =
        ("method", .string "m") :: ([("trace_id", .string "t"), ("delay", Duration.zero.json),
          ("service", .string "s")] ++ [("body", .array [.natural 7]), ("deadline", .null)]) := rfl
    rw [hmethod]
    exact List.perm_append_comm.trans (.cons _ (.cons _ List.perm_middle.symm))
  others _ hk := others_of_view hk

theorem read_any_layout_shuffled :
    shape.readAll (Json.object shuffled).text = .ok greeting ∧
      shape.readAll (Json.array (greeting.fields.map (·.2))).text = .ok greeting ∧
      (∃ e, shape.readAll (Json.object (greeting.fields ++ [("id", .null)])).text = .error e) ∧
      ∃ e, shape.readAll (Json.object []).text = .error e := by
  obtain ⟨-, hobject, harray, herror⟩ := read_any_layout
  refine ⟨hobject greeting _ _ laidOut_shuffled (document_object compact_shuffled),
    harray greeting _ greeting.document_array, ?_, ?_⟩
  · refine herror _ _ (document_object ?_) (.inl ⟨"id", by decide, by decide⟩)
    refine List.forall_mem_append.mpr ⟨greeting.compact_fields, ?_⟩
    simpa using compact_null
  · exact herror _ _ (document_object (by simp)) (.inr ⟨"body", by decide, by simp⟩)

def reversed (m : Message) : List (String × Json) := m.fields.reverse

theorem compact_reversed (m : Message) : ∀ f ∈ m.reversed, Compact f.2 :=
  fun f hf => m.compact_fields f (List.mem_reverse.mp hf)

theorem written_reversed (m : Message) :
    written (m.reversed.map fun f => (f.1, view f)) = m.reversed := rfl

theorem laidOut_reversed (m : Message) :
    LaidOut m.fields (m.reversed.map fun f => (f.1, view f)) where
  complete := by
    refine ⟨[], ?_, by simp⟩
    rw [written_reversed, List.append_nil]
    exact List.reverse_perm m.fields
  others _ hk := others_of_view hk

/-- With its fields in another order, and as an array, the message is read as another. -/
theorem misread_midMinute :
    ¬ (∀ ms text, LaidOut midMinute.fields ms → Document (.record ms) text →
        shape.readAll text = .ok midMinute) ∧
      shape.readAll (Json.array (midMinute.fields.map (·.2))).text ≠ .ok midMinute := by
  have hne : shape.readAll (Json.object midMinute.reversed).text ≠ .ok midMinute := by
    rw [midMinute.readAll_object midMinute.laidOut_reversed
      (document_object midMinute.compact_reversed)]
    exact fun h => carried_midMinute_ne (Except.ok.inj h)
  refine ⟨fun h => hne (h _ _ midMinute.laidOut_reversed
    (document_object midMinute.compact_reversed)), ?_⟩
  rw [midMinute.readAll_array midMinute.document_array]
  exact fun h => carried_midMinute_ne (Except.ok.inj h)

end Message

end Batchflow
