import Batchflow.Proofs.Queue.Submission

/-!
# What a batch that is taken comes to

A batch with a good token, of a size that is allowed and with delays that fit the clock is always
taken.  Taking it makes three lists at once: what the store holds, what the caller has in hand
afterwards, and the verdicts.  Verdicts and messages stand side by side, so the other two lists are
read off the verdicts.
-/

namespace Batchflow.Queue

namespace Store

/-- What a message is told: that it names no service, that it names no method, or that it is stored
under an id. -/
inductive Answer (m : Message) : Verdict → Prop
  | noService : m.service = "" →
      Answer m (.failed m true "message has no target service")
  | noMethod : m.service ≠ "" → m.method = "" →
      Answer m (.failed m true "message has no target method")
  | stored (id : String) : m.service ≠ "" → m.method ≠ "" →
      Answer m (.succeeded { m with id := some id })

theorem Answer.success_iff {m : Message} {v : Verdict} (h : Answer m v) :
    v.success = true ↔ m.service ≠ "" ∧ m.method ≠ "" := by
  cases h with
  | noService hservice => simp [Verdict.failed, hservice]
  | noMethod _ hmethod => simp [Verdict.failed, hmethod]
  | stored _ hservice hmethod => simp [Verdict.succeeded, hservice, hmethod]

theorem addressFault?_eq_none {m : Message} :
    addressFault? m = none ↔ m.service ≠ "" ∧ m.method ≠ "" := by
  by_cases hservice : m.service = ""
  · simp [addressFault?, hservice]
  · by_cases hmethod : m.method = "" <;> simp [addressFault?, hservice, hmethod]

theorem answer_of_fault {m : Message} {fault : String} (h : addressFault? m = some fault) :
    Answer m (.failed m true fault) := by
  unfold addressFault? at h
  split_ifs at h with hservice hmethod
  · obtain rfl := Option.some.inj h
    exact .noService (by simpa using hservice)
  · obtain rfl := Option.some.inj h
    exact .noMethod (by simpa using hservice) (by simpa using hmethod)

def admitted (verdicts : List Verdict) : List Message :=
  (verdicts.filter (·.success)).map (·.message)

/-- What is stored of a message that comes in at some time. -/
def newEntry (now : Nat) (m : Message) : Entry :=
  { message := m, visibleAt := now + m.delay.total, receipt := none }

section Accepted

variable {now n : Nat} {batch : List Message} {entries : List Entry} {verdicts : List Verdict}

theorem Accepted.answered (h : Accepted now n batch entries verdicts) :
    List.Forall₂ Answer batch verdicts := by
  induction h with
  | nil => exact .nil
  | refused _ hfault _ ih => exact .cons (answer_of_fault hfault) ih
  | stored hsound _ ih =>
    obtain ⟨hservice, hmethod⟩ := addressFault?_eq_none.mp hsound
    exact .cons (.stored _ hservice hmethod) ih

theorem Accepted.entries_eq (h : Accepted now n batch entries verdicts) :
    entries = (admitted verdicts).map (newEntry now) := by
  induction h with
  | nil => rfl
  | refused _ _ _ ih => simpa [admitted, Verdict.failed] using ih
  | stored _ _ ih => simpa [admitted, Verdict.succeeded, newEntry] using ih

theorem Accepted.admitted_ids (h : Accepted now n batch entries verdicts) :
    (admitted verdicts).map (·.id) = names .message n (admitted verdicts).length := by
  have hids := h.ids
  rw [h.entries_eq] at hids
  simpa [newEntry, Function.comp_def] using hids

end Accepted

/-- The caller has in hand what the verdicts are about. -/
theorem back_of_accept {now : Nat} {s s' : Store} {batch back : List Message}
    {verdicts : List Verdict} (h : accept now s batch = (s', back, .ok verdicts)) :
    back = verdicts.map (·.message) := by
  induction batch generalizing s s' back verdicts with
  | nil =>
    simp only [accept, Prod.mk.injEq, Except.ok.injEq] at h
    obtain ⟨-, rfl, rfl⟩ := h
    rfl
  | cons m batch ih =>
    unfold accept at h
    split at h
    · rcases hrest : accept now s batch with ⟨s₁, back₁, p | rest⟩
      · simp [hrest, Except.map] at h
      · simp only [hrest, Except.map, Prod.mk.injEq, Except.ok.injEq] at h
        obtain ⟨-, rfl, rfl⟩ := h
        rw [ih hrest]
        rfl
    · dsimp only at h
      split at h
      · cases h
      · generalize hs₀ : ({ s with minted := _, entries := _ } : Store) = s₀ at h
        rcases hrest : accept now s₀ batch with ⟨s₁, back₁, p | rest⟩
        · simp [hrest, Except.map] at h
        · simp only [hrest, Except.map, Prod.mk.injEq, Except.ok.injEq] at h
          obtain ⟨-, rfl, rfl⟩ := h
          rw [ih hrest]
          rfl

theorem back_of_enqueue {now : Nat} {cancelled : Bool} {s s' : Store} {batch back : List Message}
    {verdicts : List Verdict} (h : enqueue s now cancelled batch = (s', back, .taken verdicts)) :
    back = verdicts.map (·.message) := by
  unfold enqueue at h
  split_ifs at h
  · cases (Prod.mk.inj (Prod.mk.inj h).2).2
  · cases (Prod.mk.inj (Prod.mk.inj h).2).2
  · split at h
    · rename_i haccept
      simp only [Prod.mk.injEq, Reception.taken.injEq] at h
      obtain ⟨-, rfl, rfl⟩ := h
      exact back_of_accept haccept
    · cases (Prod.mk.inj (Prod.mk.inj h).2).2

end Store

namespace System

open Store

/-- The messages that are held, and those that were held before, have ids of their own. -/
theorem stocked_of_run {o : Options} {turns : List (Turn System Action Event)} {s : System}
    (h : Run step (new o) turns s) :
    ∃ came gone, s.store.Stocked came gone ∧ ∀ t ∈ turns, ∀ m ∈ t.before.store.held, m ∈ came := by
  induction h with
  | nil => exact ⟨[], [], .new o, by simp⟩
  | @snoc turns s s' a events _ hstep ih =>
    obtain ⟨came, gone, hs, hbefore⟩ := ih
    refine ⟨_, _, hs.turnover (turnover_of_step hstep), ?_⟩
    intro t ht m hm
    apply List.mem_append_left
    rcases List.mem_append.mp ht with ht | ht
    · exact hbefore t ht m hm
    · obtain rfl := List.mem_singleton.mp ht
      exact hs.perm.subset (List.mem_append_left _ hm)

/-- What the verdicts on a batch mean for its caller and for the store. -/
structure Accepts (s s' : System) (batch back : List Message) (verdicts : List Verdict) :
    Prop where
  /-- One answer for each message, in order. -/
  answered : List.Forall₂ Answer batch verdicts
  success_iff : List.Forall₂ (fun m v => v.success = true ↔ m.service ≠ "" ∧ m.method ≠ "")
    batch verdicts
  /-- Each verdict has the message as the caller has it in hand afterwards. -/
  back_eq : back = verdicts.map (·.message)
  /-- What is admitted stands behind what was there, without a receipt and hidden for its delay. -/
  entries : s'.store.entries = s.store.entries ++ (admitted verdicts).map (newEntry s.now)
  options : s'.store.options = s.store.options
  distinct : ((admitted verdicts).map (·.id)).Nodup
  /-- No message that is in the store, or that ever was, has one of the new ids. -/
  fresh : ∀ o turns, Run step (new o) turns s → ∀ m ∈ admitted verdicts,
    (∀ e ∈ s.store.entries, e.message.id ≠ m.id) ∧
      ∀ t ∈ turns, ∀ e ∈ t.before.store.entries, e.message.id ≠ m.id

variable {s s' : System} {batch : List Message}

theorem accepts_of_enqueue {store : Store} {back : List Message} {verdicts : List Verdict}
    {cancelled : Bool}
    (h : s.store.enqueue s.now cancelled batch = (store, back, .taken verdicts))
    (hstore : s'.store = store) : s.Accepts s' batch back verdicts := by
  obtain ⟨entries, haccepted, rfl⟩ := accepted_of_enqueue h
  have hids := haccepted.admitted_ids
  refine { answered := haccepted.answered
           success_iff := haccepted.answered.imp fun _ _ => Answer.success_iff
           back_eq := back_of_enqueue h
           entries := by rw [hstore, haccepted.entries_eq]
           options := by rw [hstore]
           distinct := by
             rw [hids]
             exact names_nodup _ _ _
           fresh := ?fresh }
  intro o turns hrun m hm
  obtain ⟨came, gone, hs, hbefore⟩ := stocked_of_run hrun
  have hnew : m.id ∈ names .message s.store.minted (admitted verdicts).length :=
    hids ▸ List.mem_map_of_mem hm
  have hne (m' : Message) (hm' : m' ∈ came) : m'.id ≠ m.id :=
    (hs.minted m' hm').ne_of_mem_names hnew
  constructor
  · intro e he
    exact hne _ (hs.perm.subset (List.mem_append_left _ (List.mem_map_of_mem he)))
  · intro t ht e he
    exact hne _ (hbefore t ht _ (List.mem_map_of_mem he))

/-- A batch that nothing speaks against is taken, and each of its messages is judged by itself. -/
theorem batch_accepted (s : System) (token : String) (batch : List Message)
    (htoken : s.isCancelled token = false) (hsize : batch.length ≤ s.store.options.maxBatch)
    (hdelays : ∀ m ∈ batch, ∃ t, Instant.after? s.now m.delay = some t) :
    ∃ s' back verdicts,
      s.step (.enqueue token batch) = some (s', [.received back (.taken verdicts)]) ∧
        s.Accepts s' batch back verdicts := by
  generalize hsubmit : s.submit (s.isCancelled token) batch = out
  obtain ⟨s', back, reception⟩ := out
  have hstep : s.step (.enqueue token batch) = some (s', [.received back reception]) := by
    simp [step, hsubmit]
  have henqueue := enqueue_of_submit hsubmit
  have hreceived := received_of_enqueue henqueue
  generalize hstore : s'.store = store at henqueue hreceived
  cases hreceived with
  | cancelled hcancelled => simp [htoken] at hcancelled
  | tooLarge _ hlarge => exact absurd hsize (Nat.not_le.mpr hlarge)
  | taken => exact ⟨s', back, _, hstep, accepts_of_enqueue henqueue hstore⟩
  | stopped _ _ hover =>
    obtain ⟨m, hm, hover⟩ := hover
    obtain ⟨t, ht⟩ := hdelays m hm
    simp [overflows, ht] at hover

/-- The first message comes with an id already, and the two in the middle can be sent nowhere. -/
def mixedBatch : List Message :=
  [{ order "b" .zero with id := some (Name.mint .message 0) },
    { trace := "c", service := "", method := "", body := [] },
    { trace := "d", service := "orders", method := "", body := [] },
    order "e" (.ofSecs 1)]

/-- A store that holds a message already takes the batch. -/
theorem batch_accepted_mixedBatch : ∃ turns s s' back verdicts,
    Run step (new {}) turns s ∧ s.store.entries.map (·.message.id) = [some (Name.mint .message 0)] ∧
      s.step (.enqueue "token" mixedBatch) = some (s', [.received back (.taken verdicts)]) ∧
      s.Accepts s' mixedBatch back verdicts := by
  have hseen : (replay step (new {}) [.enqueue "token" [order "a" .zero]]).map (fun r =>
      (r.2.store.options, r.2.store.entries.map (·.message.id), r.2.now, r.2.cancelled)) =
      some ({}, [some (Name.mint .message 0)], 0, []) := by
    decide +kernel
  obtain ⟨⟨turns, s⟩, hreplay, hseen⟩ := Option.map_eq_some_iff.mp hseen
  simp only [Prod.mk.injEq] at hseen
  obtain ⟨hoptions, hids, hnow, hcancelled⟩ := hseen
  have hdelays : ∀ m ∈ mixedBatch, ∃ t, Instant.after? s.now m.delay = some t := by
    rw [hnow]
    simp only [← Option.isSome_iff_exists]
    decide +kernel
  obtain ⟨s', back, verdicts, hstep, haccepts⟩ := batch_accepted s "token" mixedBatch
    (by simp [isCancelled, hcancelled]) (by simp [hoptions, mixedBatch]) hdelays
  exact ⟨turns, s, s', back, verdicts, Run.of_replay hreplay, hids, hstep, haccepts⟩

end System

end Batchflow.Queue
