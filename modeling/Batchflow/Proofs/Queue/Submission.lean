import Batchflow.Proofs.Queue.Stock
import Batchflow.Proofs.Run

/-!
# What a submission leaves behind

A batch that is refused changes nothing, and a batch that is taken is seen by every call that waits.
There is a third way: an instant that the clock cannot reach stops a batch in the middle.  Then the
messages before the one that overflows are in the store already, and no waiting call is told.
-/

namespace Batchflow.Queue

namespace Store

variable {now : Nat} {s s' : Store} {batch back : List Message}

/-- The messages of a batch up to the first whose delay does not fit the clock. -/
def timely (now : Nat) (batch : List Message) : List Message :=
  batch.takeWhile fun m => !overflows now m

theorem timely_cons {m : Message} (h : overflows now m = false) :
    timely now (m :: batch) = m :: timely now batch := by
  simp [timely, h]

theorem timely_cons_of_overflows {m : Message} (h : overflows now m = true) :
    timely now (m :: batch) = [] := by
  simp [timely, h]

theorem overflows_of_fault {m : Message} {fault : String} (h : addressFault? m = some fault) :
    overflows now m = false := by
  simp [overflows, h]

/-- Nothing is added only if nothing could be sent anywhere. -/
theorem Accepted.eq_nil_iff {n : Nat} {entries : List Entry} {verdicts : List Verdict}
    (h : Accepted now n batch entries verdicts) :
    entries = [] ↔ ∀ m ∈ batch, (addressFault? m).isSome := by
  induction h with
  | nil => simp
  | refused _ hfault _ ih => simp [hfault, ih]
  | stored hsound => simp [hsound]

/-- A batch that is accepted to its end has no message that overflows. -/
theorem fits_of_accept {verdicts : List Verdict} (h : accept now s batch = (s', back, .ok verdicts)) :
    ∀ m ∈ batch, overflows now m = false := by
  induction batch generalizing s s' back verdicts with
  | nil => simp
  | cons m batch ih =>
    rw [List.forall_mem_cons]
    unfold accept at h
    split at h
    · rename_i fault hfault
      refine ⟨overflows_of_fault hfault, ?_⟩
      rcases hrest : accept now s batch with ⟨s₁, back₁, p | rest⟩
      · simp [hrest, Except.map] at h
      · exact ih hrest
    · dsimp only at h
      split at h
      · cases h
      · rename_i hsound _ _ hafter
        have hafter : Instant.after? now m.delay = some _ := hafter
        refine ⟨by simp [overflows, hafter], ?_⟩
        generalize hs₀ : ({ s with minted := _, entries := _ } : Store) = s₀ at h
        rcases hrest : accept now s₀ batch with ⟨s₁, back₁, p | rest⟩
        · simp [hrest, Except.map] at h
        · exact ih hrest

/-- A batch that is stopped in the middle has left the messages before that in the store. -/
theorem accepted_of_accept_error {p : Panic} (h : accept now s batch = (s', back, .error p)) :
    ∃ entries verdicts, Accepted now s.minted (timely now batch) entries verdicts ∧
      s' = { s with entries := s.entries ++ entries, minted := s.minted + entries.length + 1 } := by
  induction batch generalizing s s' back p with
  | nil => cases h
  | cons m batch ih =>
    unfold accept at h
    split at h
    · rename_i fault hfault
      rw [timely_cons (overflows_of_fault hfault)]
      rcases hrest : accept now s batch with ⟨s₁, back₁, p' | rest⟩
      · obtain ⟨entries, verdicts, haccepted, rfl⟩ := ih hrest
        simp only [hrest, Prod.mk.injEq] at h
        exact ⟨entries, _, .refused fault hfault haccepted, h.1.symm⟩
      · simp [hrest, Except.map] at h
    · rename_i hsound
      dsimp only at h
      split at h
      · rename_i hafter
        have hafter : Instant.after? now m.delay = none := hafter
        rw [timely_cons_of_overflows (by simp [overflows, hsound, hafter])]
        exact ⟨[], [], .nil, by simpa using (Prod.mk.inj h).1.symm⟩
      · rename_i visibleAt hafter
        have hafter : Instant.after? now m.delay = some visibleAt := hafter
        obtain rfl := Instant.eq_of_after? hafter
        rw [timely_cons (by simp [overflows, hafter])]
        generalize hs₀ : ({ s with minted := _, entries := _ } : Store) = s₀ at h
        rcases hrest : accept now s₀ batch with ⟨s₁, back₁, p' | rest⟩
        · obtain ⟨entries, verdicts, haccepted, rfl⟩ := ih hrest
          simp only [hrest, Prod.mk.injEq] at h
          subst hs₀
          refine ⟨_ :: entries, _, .stored hsound haccepted, ?_⟩
          rw [← h.1]
          simp [Nat.add_right_comm, Nat.add_assoc]
        · simp [hrest, Except.map] at h

/-- What becomes of a store that is given a batch. -/
inductive Received (now : Nat) (cancelled : Bool) (s : Store) (batch : List Message) :
    Store → Reception → Prop
  | cancelled : cancelled = true → Received now cancelled s batch s (.refused .cancelled)
  | tooLarge : cancelled = false → s.options.maxBatch < batch.length →
      Received now cancelled s batch s
        (.refused (.batchTooLarge batch.length s.options.maxBatch))
  | taken {entries : List Entry} {verdicts : List Verdict} : cancelled = false →
      batch.length ≤ s.options.maxBatch → (∀ m ∈ batch, overflows now m = false) →
      Accepted now s.minted batch entries verdicts →
      Received now cancelled s batch
        { s with entries := s.entries ++ entries, minted := s.minted + entries.length }
        (.taken verdicts)
  | stopped {entries : List Entry} {verdicts : List Verdict} : cancelled = false →
      batch.length ≤ s.options.maxBatch → (∃ m ∈ batch, overflows now m = true) →
      Accepted now s.minted (timely now batch) entries verdicts →
      Received now cancelled s batch
        { s with entries := s.entries ++ entries, minted := s.minted + entries.length + 1 }
        (.panicked clockPanic)

theorem received_of_enqueue {cancelled : Bool} {reception : Reception}
    (h : s.enqueue now cancelled batch = (s', back, reception)) :
    Received now cancelled s batch s' reception := by
  unfold enqueue at h
  split_ifs at h with hcancelled hlarge
  · obtain ⟨rfl, -, rfl⟩ : s = s' ∧ _ ∧ _ = reception := by simpa using h
    exact .cancelled hcancelled
  · obtain ⟨rfl, -, rfl⟩ : s = s' ∧ _ ∧ _ = reception := by simpa using h
    exact .tooLarge (by simpa using hcancelled) hlarge
  · rw [Bool.not_eq_true] at hcancelled
    rw [Nat.not_lt] at hlarge
    rcases haccept : accept now s batch with ⟨s₁, back₁, p | verdicts⟩
    · obtain ⟨rfl, hover⟩ := (went_of_accept haccept).overflows
      obtain ⟨entries, _, haccepted, rfl⟩ := accepted_of_accept_error haccept
      simp only [haccept, Prod.mk.injEq] at h
      obtain ⟨rfl, -, rfl⟩ := h
      exact .stopped hcancelled hlarge hover haccepted
    · obtain ⟨entries, haccepted, rfl⟩ := accepted_of_accept haccept
      simp only [haccept, Prod.mk.injEq] at h
      obtain ⟨rfl, -, rfl⟩ := h
      exact .taken hcancelled hlarge (fits_of_accept haccept) haccepted

end Store

namespace System

open Store

/-- What a queue keeps of a batch, and whom it tells, in each way that a submission can end. -/
structure Leaves (s s' : System) (token : String) (batch : List Message)
    (reception : Reception) : Prop where
  /-- A refused batch changes nothing. -/
  unchanged : ∀ e, reception = .refused e → s' = s
  cancelled_iff : reception = .refused .cancelled ↔ s.isCancelled token = true
  tooLarge_iff :
    reception = .refused (.batchTooLarge batch.length s.store.options.maxBatch) ↔
      s.isCancelled token = false ∧ s.store.options.maxBatch < batch.length
  /-- A batch stops in the middle just when it would be taken and some delay does not fit. -/
  panicked_iff : (∃ p, reception = .panicked p) ↔
    s.isCancelled token = false ∧ batch.length ≤ s.store.options.maxBatch ∧
      ∃ m ∈ batch, overflows s.now m = true
  /-- A taken batch is stored behind what was there, but for what can be sent nowhere, and every
  call that waits is told. -/
  taken : ∀ verdicts, reception = .taken verdicts →
    (∃ entries, Accepted s.now s.store.minted batch entries verdicts ∧
      s'.store.entries = s.store.entries ++ entries) ∧
    ∀ call ∈ s'.calls, call.2.notified = true
  /-- A stopped batch is stored up to the message that overflows, and nobody is told. -/
  stopped : ∀ p, reception = .panicked p →
    p = clockPanic ∧ s'.calls = s.calls ∧
    ∃ entries verdicts, Accepted s.now s.store.minted (timely s.now batch) entries verdicts ∧
      s'.store.entries = s.store.entries ++ entries
  /-- So it leaves the store alone only if no message before that one could be sent anywhere. -/
  untouched_iff : ∀ p, reception = .panicked p →
    (s'.store.entries = s.store.entries ↔
      ∀ m ∈ timely s.now batch, (addressFault? m).isSome)

variable {s s' : System} {token : String} {batch back : List Message} {reception : Reception}

theorem eq_of_submit {cancelled : Bool} (h : s.submit cancelled batch = (s', back, reception)) :
    s' = { s with store := s'.store } ∧ (∀ verdicts, reception ≠ .taken verdicts) ∨
      s' = ({ s with store := s'.store } : System).notifyAll ∧
        ∃ verdicts, reception = .taken verdicts := by
  unfold submit at h
  split at h
  · obtain ⟨rfl, -, rfl⟩ : _ ∧ _ ∧ _ := by simpa using h
    exact .inr ⟨rfl, _, rfl⟩
  · rename_i r hnot _
    obtain ⟨rfl, -, rfl⟩ : _ ∧ _ ∧ _ := by simpa using h
    exact .inl ⟨rfl, hnot⟩

theorem notified_of_mem_notifyAll : ∀ call ∈ s.notifyAll.calls, call.2.notified = true := by
  intro call hcall
  obtain ⟨_, -, rfl⟩ := List.mem_map.mp hcall
  rfl

theorem leaves_of_submit (h : s.submit (s.isCancelled token) batch = (s', back, reception)) :
    s.Leaves s' token batch reception := by
  have hreceived := received_of_enqueue (enqueue_of_submit h)
  have hcalls := eq_of_submit h
  generalize hstore : s'.store = store at hreceived hcalls
  cases hreceived with
  | cancelled hcancelled =>
    obtain ⟨rfl, -⟩ | ⟨-, _, htaken⟩ := hcalls
    · constructor <;> simp [hcancelled]
    · cases htaken
  | tooLarge hcancelled hlarge =>
    obtain ⟨rfl, -⟩ | ⟨-, _, htaken⟩ := hcalls
    · constructor <;> simp [hcancelled, hlarge, Nat.not_le.mpr hlarge]
    · cases htaken
  | @taken entries verdicts hcancelled hfits hnone haccepted =>
    obtain ⟨-, hnot⟩ | ⟨rfl, -⟩ := hcalls
    · exact absurd rfl (hnot _)
    · refine { unchanged := by simp, cancelled_iff := by simp [hcancelled]
               tooLarge_iff := by simp [hfits], panicked_iff := ?_, taken := ?_
               stopped := by simp, untouched_iff := by simp }
      · simpa [hcancelled, hfits] using hnone
      · rintro _ ⟨rfl⟩
        exact ⟨⟨entries, haccepted, rfl⟩, notified_of_mem_notifyAll⟩
  | @stopped entries verdicts hcancelled hfits hover haccepted =>
    obtain ⟨rfl, -⟩ | ⟨-, _, htaken⟩ := hcalls
    · refine { unchanged := by simp, cancelled_iff := by simp [hcancelled]
               tooLarge_iff := by simp [hfits], panicked_iff := ?_, taken := by simp
               stopped := ?_, untouched_iff := ?_ }
      · simpa [hcancelled, hfits] using hover
      · rintro _ ⟨rfl⟩
        exact ⟨rfl, rfl, entries, verdicts, haccepted, rfl⟩
      · rintro _ -
        simpa using haccepted.eq_nil_iff
    · cases htaken

/-- A submission leaves the store as it was or stores all that can be sent and tells everybody who
waits, unless a delay overflows the clock: then it stops between the two. -/
theorem stores_until_overflow (s : System) (token : String) (batch : List Message) :
    ∃ s' back reception, s.step (.enqueue token batch) = some (s', [.received back reception]) ∧
      s.Leaves s' token batch reception := by
  generalize h : s.submit (s.isCancelled token) batch = out
  obtain ⟨s', back, reception⟩ := out
  exact ⟨s', back, reception, by simp [step, h], leaves_of_submit h⟩

def order (trace : String) (delay : Duration) : Message :=
  { trace, delay, service := "orders", method := "create", body := [] }

/-- The second message cannot become visible at any instant of the clock. -/
def endlessBatch : List Message := [order "a" .zero, order "b" (.ofSecs 18446744073709551615)]

/-- A call waits for messages when a batch stops in the middle: the store has changed, and the call
is not told. -/
theorem stored_untold_endlessBatch : ∃ turns s s' back,
    Run step (new {}) turns s ∧
      s.step (.enqueue "token" endlessBatch) =
        some (s', [.received back (.panicked clockPanic)]) ∧
      s'.store.entries ≠ s.store.entries ∧ s'.calls.map (·.2.notified) = [false] := by
  have hseen : (replay step (new {}) [.dequeue 0 "waiting" 1 (.ofSecs 1)]).map (fun r =>
      (r.2.store.options, r.2.calls.map (·.2.notified), r.2.now, r.2.cancelled)) =
      some ({}, [false], 0, []) := by
    decide +kernel
  obtain ⟨⟨turns, s⟩, hreplay, hseen⟩ := Option.map_eq_some_iff.mp hseen
  simp only [Prod.mk.injEq] at hseen
  obtain ⟨hoptions, hcalls, hnow, hcancelled⟩ := hseen
  generalize hsubmit : s.submit (s.isCancelled "token") endlessBatch = out
  obtain ⟨s', back, reception⟩ := out
  have hleaves := leaves_of_submit hsubmit
  have hover : ∃ m ∈ endlessBatch, overflows s.now m = true := by
    rw [hnow]
    decide +kernel
  obtain ⟨p, rfl⟩ := hleaves.panicked_iff.mpr
    ⟨by simp [isCancelled, hcancelled], by simp [hoptions, endlessBatch], hover⟩
  obtain ⟨rfl, hsame, -⟩ := hleaves.stopped p rfl
  refine ⟨turns, s, s', back, Run.of_replay hreplay, by simp [step, hsubmit], ?_, ?_⟩
  · rw [ne_eq, hleaves.untouched_iff _ rfl, hnow]
    decide +kernel
  · rw [hsame, hcalls]

end System

end Batchflow.Queue
