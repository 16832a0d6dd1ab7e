import Batchflow.Message.Shape
import Batchflow.Proofs.Json.Reading
import Batchflow.Proofs.Time.TimestampText

/-!
# Messages, written and read

The JSON text of a message is read as that message, and so is the text of a verdict: whatever its
strings, its bytes and its delay are, and whichever point in time its deadline is, but for a leap
second in the middle of a minute.  Such a deadline is read as the second after, which its text shows.
Each field fills the slot of its name, and the draft that is full stands for the value that was
written.
-/

namespace Batchflow

open Json

theorem reads_byte (b : UInt8) : Reads readByte (natural b.toNat).text b where
  visible := visible_digits _
  reads rest hrest := by
    have hread : Reads (readNatural 256 "u8") (natural b.toNat).text b.toNat :=
      reads_natural b.toNat_lt_size (by decide)
    rw [readByte, hread.reads rest hrest]
    simp only [UInt8.ofNat_toNat]

theorem reads_optionalText (s : Option String) :
    Reads (readOptional readText) (optional .string s).text s :=
  reads_optional (fun s _ => reads_text s) fun _ => by simp [Json.text, stringText]

namespace Duration

theorem ofParts?_eq (d : Duration) : ofParts? d.secs d.nanos = some d := by
  have hsecs := d.secs_lt
  have hnanos := d.nanos_lt
  rw [ofParts?, dif_pos (by omega)]
  simp [Nat.div_eq_of_lt hnanos, Nat.mod_eq_of_lt hnanos]

theorem reads_json (d : Duration) : Reads shape.read d.json.text d := by
  have hnanos : d.nanos < UInt32.size := Nat.lt_trans d.nanos_lt (by decide)
  have hfills : Fills shape {} [("secs", .natural d.secs), ("nanos", .natural d.nanos)]
      { secs := some d.secs, nanos := some d.nanos } :=
    .cons rfl rfl (reads_slot (reads_natural d.secs_lt (by decide)) _) <|
      .cons rfl rfl (reads_slot (reads_natural hnanos (by decide)) _) .nil
  have hfinish : Draft.finish { secs := some d.secs, nanos := some d.nanos } = .ok d := by
    simp [Draft.finish, demand, ofParts?_eq, bind, Except.bind]
  exact reads_object hfills hfinish

end Duration

theorem Timestamp.reads_json {t : Timestamp} (h : t.OnMinute) : Reads readJson t.json.text t where
  visible := visible_stringText _
  reads rest _ := by
    rw [readJson, Timestamp.json, Json.text, String.toList_ofList, readTextAs_stringText]
    simp only [String.toList_ofList, read_text h]

theorem reads_deadline {o : Option Timestamp} (h : ∀ t ∈ o, t.OnMinute) :
    Reads (readOptional Timestamp.readJson) (optional Timestamp.json o).text o :=
  reads_optional (fun t ht => Timestamp.reads_json (h t ht))
    fun _ => by simp [Timestamp.json, Json.text, stringText]

def Message.draft (m : Message) : Draft where
  id := some m.id
  handle := some m.handle
  trace := some m.trace
  delay := some m.delay
  service := some m.service
  method := some m.method
  body := some m.body
  deadline := some m.deadline

/-- A deadline in a leap second follows the last second of a minute. -/
def Message.OnMinute (m : Message) : Prop := ∀ t ∈ m.deadline, t.OnMinute

theorem Message.reads_json {m : Message} (h : m.OnMinute) : Reads shape.read m.json.text m := by
  have hbody : Reads (readList readByte) (Json.array (m.body.map fun b => .natural b.toNat)).text
      m.body :=
    reads_list reads_byte m.body
  refine reads_object (d := m.draft) ?_ rfl
  exact .cons rfl rfl (reads_slot (reads_optionalText m.id) _) <|
    .cons rfl rfl (reads_slot (reads_optionalText m.handle) _) <|
    .cons rfl rfl (reads_slot (reads_text m.trace) _) <|
    .cons rfl rfl (reads_slot m.delay.reads_json _) <|
    .cons rfl rfl (reads_slot (reads_text m.service) _) <|
    .cons rfl rfl (reads_slot (reads_text m.method) _) <|
    .cons rfl rfl (reads_slot hbody _) <|
    .cons rfl rfl (reads_slot (reads_deadline h) _) .nil

def Verdict.draft (v : Verdict) : Draft where
  message := some v.message
  success := some v.success
  senderFault := some v.senderFault
  error := some v.error

theorem Verdict.reads_json {v : Verdict} (h : v.message.OnMinute) :
    Reads shape.read v.json.text v := by
  refine reads_object (d := v.draft) ?_ rfl
  exact .cons rfl rfl (reads_slot (Message.reads_json h) _) <|
    .cons rfl rfl (reads_slot (reads_bool v.success) _) <|
    .cons rfl rfl (reads_slot (reads_bool v.senderFault) _) <|
    .cons rfl rfl (reads_slot (reads_optionalText v.error) _) .nil

/-- The message with the deadline that its text shows. -/
def Message.carried (m : Message) : Message := { m with deadline := m.deadline.map .carried }

theorem Message.onMinute_carried (m : Message) : m.carried.OnMinute := by
  intro t ht
  obtain ⟨u, -, rfl⟩ := Option.map_eq_some_iff.mp ht
  exact u.onMinute_carried

theorem Message.carried_eq_self_iff {m : Message} : m.carried = m ↔ m.OnMinute := by
  obtain ⟨id, handle, trace, delay, service, method, body, deadline⟩ := m
  cases deadline with
  | none => simp [carried, OnMinute]
  | some t => simp [carried, OnMinute, Timestamp.carried_eq_self_iff]

theorem Timestamp.json_carried (t : Timestamp) : t.carried.json = t.json := by
  rw [json, json, text_carried]

theorem optional_json_carried (o : Option Timestamp) :
    Json.optional Timestamp.json (o.map .carried) = Json.optional Timestamp.json o := by
  cases o with
  | none => rfl
  | some t => exact t.json_carried

theorem Message.json_carried (m : Message) : m.carried.json = m.json := by
  simp only [json, carried, optional_json_carried]

/-- The verdict on the message whose deadline is the one that its text shows. -/
def Verdict.carried (v : Verdict) : Verdict := { v with message := v.message.carried }

theorem Verdict.carried_eq_self_iff {v : Verdict} : v.carried = v ↔ v.message.OnMinute := by
  rw [← Message.carried_eq_self_iff, carried, Verdict.mk.injEq]
  simp

theorem Verdict.json_carried (v : Verdict) : v.carried.json = v.json := by
  simp only [json, carried, Message.json_carried]

theorem Message.readAll_json (m : Message) : shape.readAll m.json.text = .ok m.carried := by
  rw [← m.json_carried]
  exact readAll_of_reads (reads_json m.onMinute_carried)

theorem Verdict.readAll_json (v : Verdict) : shape.readAll v.json.text = .ok v.carried := by
  rw [← v.json_carried]
  exact readAll_of_reads (reads_json v.message.onMinute_carried)

/-- The JSON text of a message or of a verdict is always read, and the value that was written is
read back when no deadline is a leap second in the middle of a minute.  In that case alone another
value is read: the deadline is carried into the next second. -/
theorem read_json_text :
    (∀ m : Message, Message.shape.readAll m.json.text = .ok m.carried ∧
        (m.carried = m ↔ m.OnMinute)) ∧
      ∀ v : Verdict, Verdict.shape.readAll v.json.text = .ok v.carried ∧
        (v.carried = v ↔ v.message.OnMinute) :=
  ⟨fun m => ⟨m.readAll_json, Message.carried_eq_self_iff⟩,
    fun v => ⟨v.readAll_json, Verdict.carried_eq_self_iff⟩⟩

/-- A leap second after 23:56:04. -/
def Timestamp.midMinute : Timestamp where
  date := { year := 2016, month := 12, day := 31, valid := by decide }
  second := 86164
  nanos := 1333333333
  second_lt := by decide
  nanos_lt := by decide

/-- The beginning of the second after. -/
def Timestamp.nextSecond : Timestamp where
  date := Timestamp.midMinute.date
  second := 86165
  nanos := 0
  second_lt := by decide
  nanos_lt := by decide

def Message.midMinute : Message :=
  { trace := "t", service := "s", method := "m", body := [], deadline := some .midMinute }

theorem Message.carried_midMinute_ne : midMinute.carried ≠ midMinute := by
  rw [Ne, carried_eq_self_iff]
  intro h
  exact absurd (h _ rfl) (by decide)

/-- The message that has expired is read back as one that has not. -/
theorem Message.revived_midMinute :
    ∃ m, shape.readAll midMinute.json.text = .ok m ∧ m ≠ midMinute ∧
      midMinute.isExpired .nextSecond = true ∧ m.isExpired .nextSecond = false :=
  ⟨midMinute.carried, midMinute.readAll_json, carried_midMinute_ne, by decide, by decide⟩

end Batchflow
