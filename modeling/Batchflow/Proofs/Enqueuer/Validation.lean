import Mathlib.Data.Nat.PSub
import Batchflow.Enqueuer.Options
import Batchflow.Panic

/-!
# Options within their ranges

Options are good when every one of them is within its range, and otherwise the first that is not is
reported with its value and its range.  The range of the batch size ends below the buffer size, so
its end is a difference; it is only taken when the buffer size is known not to be zero.  Good options
of an enqueuer make good options for the chunker of its batches, whose ranges are wider.
-/

namespace Batchflow

namespace Config

variable {option : String} {value min max : Nat} {d low high : Duration}

theorem checkNumber_eq :
    checkNumber option value min max = if min ≤ value ∧ value ≤ max then .ok () else
      .error (.outOfRange option (Decimal.text value) (Decimal.text min) (Decimal.text max)) := by
  unfold checkNumber
  by_cases h : min ≤ value ∧ value ≤ max
  · rw [if_pos h, if_neg (by omega)]
  · rw [if_neg h, if_pos (by omega)]

theorem checkDuration_eq :
    checkDuration option d low high = if low.total ≤ d.total ∧ d.total ≤ high.total then .ok () else
      .error (.outOfRange option d.text low.text high.text) := by
  unfold checkDuration
  by_cases h : low.total ≤ d.total ∧ d.total ≤ high.total
  · rw [if_pos h, if_neg (by omega)]
  · rw [if_neg h, if_pos (by omega)]

end Config

theorem Chunker.Options.validate_of_mem {o : Chunker.Options}
    (hsize : minSize ≤ o.size ∧ o.size ≤ maxSize)
    (hwait : minWait.total ≤ o.wait.total ∧ o.wait.total ≤ maxWait.total) :
    o.validate = .ok () := by
  simp only [validate, Config.checkNumber_eq, Config.checkDuration_eq, if_pos hsize, if_pos hwait]

namespace Enqueuer.Options

variable {o : Options} {e : ConfigError}

def BufferInRange (o : Options) : Prop := 2 ≤ o.bufferSize ∧ o.bufferSize ≤ 1024

def BatchInRange (o : Options) : Prop := 1 ≤ o.batchSize ∧ o.batchSize < o.bufferSize

def FailedBufferInRange (o : Options) : Prop :=
  1 ≤ o.failedBufferSize ∧ o.failedBufferSize ≤ 1024

def WaitInRange (o : Options) : Prop :=
  (Duration.ofMillis 1).total ≤ o.maxWait.total ∧ o.maxWait.total ≤ (Duration.ofSecs 3600).total

instance : Decidable o.BufferInRange :=
  inferInstanceAs (Decidable (2 ≤ o.bufferSize ∧ o.bufferSize ≤ 1024))

instance : Decidable o.BatchInRange :=
  inferInstanceAs (Decidable (1 ≤ o.batchSize ∧ o.batchSize < o.bufferSize))

instance : Decidable o.FailedBufferInRange :=
  inferInstanceAs (Decidable (1 ≤ o.failedBufferSize ∧ o.failedBufferSize ≤ 1024))

instance : Decidable o.WaitInRange :=
  inferInstanceAs (Decidable ((Duration.ofMillis 1).total ≤ o.maxWait.total ∧
    o.maxWait.total ≤ (Duration.ofSecs 3600).total))

structure InRange (o : Options) : Prop where
  buffer : o.BufferInRange
  batch : o.BatchInRange
  failedBuffer : o.FailedBufferInRange
  wait : o.WaitInRange

/-- The fault of the first option that is out of its range. -/
inductive FirstFault (o : Options) : ConfigError → Prop
  | buffer : ¬ o.BufferInRange →
      FirstFault o (.outOfRange "BufferSize" (Decimal.text o.bufferSize) "2" "1024")
  | batch : o.BufferInRange → ¬ o.BatchInRange →
      FirstFault o (.outOfRange "BatchSize" (Decimal.text o.batchSize) "1"
        (Decimal.text (o.bufferSize - 1)))
  | failedBuffer : o.BufferInRange → o.BatchInRange → ¬ o.FailedBufferInRange →
      FirstFault o (.outOfRange "FailedBufferSize" (Decimal.text o.failedBufferSize) "1" "1024")
  | wait : o.BufferInRange → o.BatchInRange → o.FailedBufferInRange → ¬ o.WaitInRange →
      FirstFault o (.outOfRange "MaxMessageWait" o.maxWait.text "1ms" "3600s")

theorem inRange_or_firstFault (o : Options) : o.InRange ∨ ∃ e, o.FirstFault e := by
  by_cases hbuffer : o.BufferInRange
  · by_cases hbatch : o.BatchInRange
    · by_cases hfailed : o.FailedBufferInRange
      · by_cases hwait : o.WaitInRange
        · exact .inl ⟨hbuffer, hbatch, hfailed, hwait⟩
        · exact .inr ⟨_, .wait hbuffer hbatch hfailed hwait⟩
      · exact .inr ⟨_, .failedBuffer hbuffer hbatch hfailed⟩
    · exact .inr ⟨_, .batch hbuffer hbatch⟩
  · exact .inr ⟨_, .buffer hbuffer⟩

theorem check_buffer (o : Options) :
    Config.checkNumber "BufferSize" o.bufferSize minBuffer maxBuffer =
      if o.BufferInRange then .ok () else
        .error (.outOfRange "BufferSize" (Decimal.text o.bufferSize) "2" "1024") :=
  Config.checkNumber_eq

theorem check_batch (h : o.BufferInRange) :
    Config.checkNumber "BatchSize" o.batchSize 1 (o.bufferSize - 1) =
      if o.BatchInRange then .ok () else
        .error (.outOfRange "BatchSize" (Decimal.text o.batchSize) "1"
          (Decimal.text (o.bufferSize - 1))) := by
  have hrange : (1 ≤ o.batchSize ∧ o.batchSize ≤ o.bufferSize - 1) ↔ o.BatchInRange := by
    simp only [BufferInRange, BatchInRange] at h ⊢
    omega
  rw [Config.checkNumber_eq]
  simp only [hrange]
  rfl

theorem check_failedBuffer (o : Options) :
    Config.checkNumber "FailedBufferSize" o.failedBufferSize minFailedBuffer maxFailedBuffer =
      if o.FailedBufferInRange then .ok () else
        .error (.outOfRange "FailedBufferSize" (Decimal.text o.failedBufferSize) "1" "1024") :=
  Config.checkNumber_eq

theorem check_wait (o : Options) :
    Config.checkDuration "MaxMessageWait" o.maxWait minWait maxWaitLimit =
      if o.WaitInRange then .ok () else
        .error (.outOfRange "MaxMessageWait" o.maxWait.text "1ms" "3600s") :=
  Config.checkDuration_eq

theorem validate_of_inRange (h : o.InRange) : o.validate = .ok () := by
  simp only [validate, check_buffer, if_pos h.buffer, check_batch h.buffer, if_pos h.batch,
    check_failedBuffer, if_pos h.failedBuffer, check_wait, if_pos h.wait]

theorem validate_of_firstFault (h : o.FirstFault e) : o.validate = .error e := by
  cases h with
  | buffer hout => simp only [validate, check_buffer, if_neg hout]
  | batch hbuffer hout =>
    simp only [validate, check_buffer, if_pos hbuffer, check_batch hbuffer, if_neg hout]
  | failedBuffer hbuffer hbatch hout =>
    simp only [validate, check_buffer, if_pos hbuffer, check_batch hbuffer, if_pos hbatch,
      check_failedBuffer, if_neg hout]
  | wait hbuffer hbatch hfailed hout =>
    simp only [validate, check_buffer, if_pos hbuffer, check_batch hbuffer, if_pos hbatch,
      check_failedBuffer, if_pos hfailed, check_wait, if_neg hout]

theorem validate_eq_ok : o.validate = .ok () ↔ o.InRange := by
  constructor
  · intro h
    rcases o.inRange_or_firstFault with hin | ⟨e, he⟩
    · exact hin
    · rw [validate_of_firstFault he] at h
      contradiction
  · exact validate_of_inRange

theorem validate_eq_error : o.validate = .error e ↔ o.FirstFault e := by
  constructor
  · intro h
    rcases o.inRange_or_firstFault with hin | ⟨e', he'⟩
    · rw [validate_of_inRange hin] at h
      contradiction
    · rw [validate_of_firstFault he'] at h
      exact Except.error.inj h ▸ he'
  · exact validate_of_firstFault

/-- The checks with a difference that there is not always: below zero it is a panic. -/
def validateStrictly (o : Options) : Except Panic (Except ConfigError Unit) :=
  match Config.checkNumber "BufferSize" o.bufferSize minBuffer maxBuffer with
  | .error e => .ok (.error e)
  | .ok () =>
    match o.bufferSize.psub 1 with
    | none => .error (.text "attempt to subtract with overflow")
    | some maxBatch =>
      match Config.checkNumber "BatchSize" o.batchSize 1 maxBatch with
      | .error e => .ok (.error e)
      | .ok () =>
        match Config.checkNumber "FailedBufferSize" o.failedBufferSize minFailedBuffer
            maxFailedBuffer with
        | .error e => .ok (.error e)
        | .ok () => .ok (Config.checkDuration "MaxMessageWait" o.maxWait minWait maxWaitLimit)

/-- The difference is always there when it is needed. -/
theorem validateStrictly_eq (o : Options) : o.validateStrictly = .ok o.validate := by
  by_cases hbuffer : o.BufferInRange
  · have hpos : 1 ≤ o.bufferSize := Nat.le_trans (by decide) hbuffer.1
    have hdifference : o.bufferSize.psub 1 = some (o.bufferSize - 1) :=
      Nat.psub_eq_some.mpr (Nat.sub_add_cancel hpos)
    simp only [validateStrictly, validate, check_buffer, if_pos hbuffer, hdifference]
    cases Config.checkNumber "BatchSize" o.batchSize 1 (o.bufferSize - 1) with
    | error => rfl
    | ok =>
      dsimp only
      cases Config.checkNumber "FailedBufferSize" o.failedBufferSize minFailedBuffer
        maxFailedBuffer <;> rfl
  · simp only [validateStrictly, validate, check_buffer, if_neg hbuffer]

theorem validate_chunkerOptions (h : o.InRange) : o.chunkerOptions.validate = .ok () := by
  have hsize : Chunker.Options.minSize ≤ o.batchSize ∧ o.batchSize ≤ Chunker.Options.maxSize := by
    have hbuffer := h.buffer
    have hbatch := h.batch
    simp only [BufferInRange, BatchInRange] at hbuffer hbatch
    simp only [Chunker.Options.minSize, Chunker.Options.maxSize]
    omega
  have hhour : (Duration.ofSecs 3600).total ≤ Chunker.Options.maxWait.total := by decide
  exact Chunker.Options.validate_of_mem hsize ⟨h.wait.1, Nat.le_trans h.wait.2 hhour⟩

end Enqueuer.Options

end Batchflow
