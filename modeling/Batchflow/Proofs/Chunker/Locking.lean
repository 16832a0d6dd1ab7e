import Batchflow.Proofs.Chunker.Conservation
import Batchflow.Proofs.Lock

/-!
# Who gets the lock of a chunker

A call to start or stop does its work when it gets the lock: at once if the lock is free, and
otherwise when it goes on with the lock.  A call that stops the worker keeps the lock until it
returns.
-/

namespace Batchflow.Chunker

variable {α : Type}

/-- What a pending call has to do with the lock of starting and stopping. -/
def Call.stand : Call α → Stand
  | .start _ => .waiting
  | .stop => .waiting
  | .stopping _ => .inside
  | .send .. => .outside
  | .reserve _ => .outside

namespace System

/-- The call to start or stop that does its work by an action, since it has the lock now. -/
def entered? (s : System α) : Action α → Option (Nat × Call α)
  | .start call _ =>
    if (s.owned && s.unused call) = true ∧ 0 < s.lock.free then
      some (call, .start s.sources.length)
    else none
  | .stop call =>
    if (s.owned && s.unused call) = true ∧ 0 < s.lock.free then some (call, .stop) else none
  | .resume call =>
    match s.call? call with
    | some c => if c.stand = .waiting ∧ s.lock.holds call then some (call, c) else none
    | none => none
  | _ => none

variable {s s' s₁ x : System α} {a : Action α} {events : List (Event α)} {out : Outcome α}
  {call who source : Nat} {c : Call α}

theorem Asks.stand (h : s.Asks a call c s₁) : c.stand = .waiting := by
  cases h <;> rfl

theorem Asks.calls (h : s.Asks a call c s₁) : s₁.calls = s.calls := by
  cases h <;> rfl

theorem Asks.lock (h : s.Asks a call c s₁) : s₁.lock = s.lock := by
  cases h <;> rfl

theorem Asks.feed? (h : s.Asks a call c s₁) (i : Nat) : s₁.feed? i = s.feed? i := by
  cases h with
  | stop => rfl
  | start =>
    unfold System.feed? offer
    rw [List.getElem?_append]
    split
    · rfl
    · rename_i hi
      rw [List.getElem?_eq_none (Nat.le_of_not_lt hi)]
      cases (i - s.sources.length) <;> rfl

theorem abandon_eq (s : System α) (source : Nat) :
    ∃ sources, s.abandon source = { s with sources } := by
  unfold abandon
  split <;> exact ⟨_, rfl⟩

theorem requestStop_eq (s : System α) (source : Nat) :
    ∃ sources, s.requestStop source = { s with sources } := by
  unfold requestStop
  split <;> exact ⟨_, rfl⟩

theorem leaveChannel_eq (s : System α) (source call : Nat) :
    ∃ sources, s.leaveChannel source call = { s with sources } := by
  unfold leaveChannel
  split <;> exact ⟨_, rfl⟩

def Locked (s : System α) : Prop := Guarded Call.stand s.lock s.calls

theorem Locked.went (hs : s.Locked) (h : s.Went call s' events) : s'.Locked := by
  have hover (hheld : call ∈ s.lock.held) :
      Guarded Call.stand (s.lock.giveBack call) (s.calls.filter (·.1 != call)) :=
    Guarded.giveBack hs hheld
  cases h with
  | started _ hheld | startLost _ hheld | stopRefused _ _ hheld => exact hover hheld
  | @startRefused source _ _ hheld =>
    obtain ⟨sources, heq⟩ := s.abandon_eq source
    rw [heq]
    exact hover hheld
  | @stopTaken source _ hheld =>
    obtain ⟨sources, heq⟩ := ({ s with running := none } : System α).requestStop_eq source
    rw [takeOver, heq]
    exact Guarded.enter hs hheld rfl
  | stopped hcall => exact hover (hs.inside _ _ (Calls.mem_of_lookup hcall) rfl)
  | sent hcall | refused hcall | reserved hcall | notReserved hcall =>
    exact Guarded.without hs (Calls.mem_of_lookup hcall) rfl

theorem Locked.ask (hs : s.Locked) (ha : s.Asks a call c s₁) (hnone : s.call? call = none) :
    (s₁.ask call c).Locked := by
  have hnew : ∀ k, (call, k) ∉ s.calls := fun _ => Calls.not_mem_of_lookup hnone
  have hguarded := Guarded.request hs hnew ha.stand
  rw [← ha.lock, ← ha.calls] at hguarded
  exact hguarded

theorem Locked.did (hs : s.Locked) (h : s.Did a s' events) : s'.Locked := by
  have hleft (source call : Nat) (hguarded : Guarded Call.stand s.lock
      (s.calls.filter (·.1 != call))) : ((s.leaveChannel source call).forget call).Locked := by
    obtain ⟨sources, heq⟩ := s.leaveChannel_eq source call
    rw [heq]
    exact hguarded
  cases h with
  | asked ha _ hunused => exact hs.ask ha (call?_eq_none_of_unused hunused)
  | atOnce ha _ hunused hwent => exact (hs.ask ha (call?_eq_none_of_unused hunused)).went hwent
  | sendWaits hunused | reserveWaits hunused =>
    have hnone := call?_eq_none_of_unused hunused
    exact Guarded.await hs (fun _ => Calls.not_mem_of_lookup hnone) rfl
  | @startAborted _ source =>
    obtain ⟨sources, heq⟩ := s.abandon_eq source
    rw [heq]
    exact Guarded.leave hs _
  | stopAborted => exact Guarded.leave hs _
  | stoppingAborted hcall =>
    exact Guarded.giveBack hs (hs.inside _ _ (Calls.mem_of_lookup hcall) rfl)
  | sendAborted hcall | reserveAborted hcall =>
    exact hleft _ _ (Guarded.without hs (Calls.mem_of_lookup hcall) rfl)
  | resumed hwent => exact hs.went hwent
  | _ => exact hs

theorem locked_of_run {o : Options} {turns : History α} (h : Run step (new o) turns s) :
    s.Locked :=
  h.invariant (P := Locked) .new fun _ _ _ _ hs hstep => hs.did (did_of_step hstep)

structure Finds (s : System α) (call : Nat) (c : Call α) (x : System α) : Prop where
  eq : x = s ∨ s.call? call = none ∧ ∃ a s₁, s.Asks a call c s₁ ∧ x = s₁.ask call c
  pending : x.call? call = some c
  held : call ∈ x.lock.held
  waiting : c.stand = .waiting

namespace Finds

variable (h : s.Finds call c x)

include h

theorem settled : x.options = s.options ∧ x.state = s.state ∧ x.running = s.running ∧
    x.now = s.now := by
  rcases h.eq with rfl | ⟨-, a, s₁, ha, rfl⟩
  · exact ⟨rfl, rfl, rfl, rfl⟩
  · cases ha <;> exact ⟨rfl, rfl, rfl, rfl⟩

theorem feed? (i : Nat) : x.feed? i = s.feed? i := by
  rcases h.eq with rfl | ⟨-, a, s₁, ha, rfl⟩
  · rfl
  · exact ha.feed? i

theorem wellFormed (hs : s.WellFormed) : x.WellFormed := by
  rcases h.eq with rfl | ⟨-, a, s₁, ha, rfl⟩
  · exact hs
  · exact hs.ask ha

theorem not_inside (hs : s.Locked) {w : Nat} {k : Call α} (hk : (w, k) ∈ s.calls) :
    k.stand ≠ .inside := by
  rcases h.eq with rfl | ⟨hnone, a, s₁, ha, rfl⟩
  · exact hs.not_inside h.held (Calls.mem_of_lookup h.pending) h.waiting hk
  · refine (hs.ask ha hnone).not_inside h.held (Calls.mem_of_lookup h.pending) h.waiting
      (Calls.mem_await.mpr (.inl ⟨ha.calls ▸ hk, ?_⟩))
    rintro rfl
    exact Calls.not_mem_of_lookup hnone hk

end Finds

theorem Finds.resume?_start {source : Nat} (h : s.Finds call (.start source) x) :
    x.resume? call = some (x.runStart call source) := by
  simp only [resume?, h.pending, Permits.holds_iff.mpr h.held, if_true]

theorem Finds.resume?_stop (h : s.Finds call .stop x) :
    x.resume? call = some (x.runStop call) := by
  simp only [resume?, h.pending, Permits.holds_iff.mpr h.held, if_true]

theorem finds_ask (ha : s.Asks a call c s₁) (hunused : s.unused call = true)
    (hfree : 0 < s.lock.free) : s.Finds call c (s₁.ask call c) where
  eq := .inr ⟨call?_eq_none_of_unused hunused, a, s₁, ha, rfl⟩
  pending := by
    have hnone := call?_eq_none_of_unused hunused
    rw [call?, ← ha.calls] at hnone
    exact Calls.lookup_await hnone
  held := by
    rw [← ha.lock] at hfree
    exact Permits.mem_held_request hfree
  waiting := ha.stand

/-- A call that gets the lock does the same at once as it does when it had to wait. -/
theorem exists_finds (h : s.entered? a = some (call, c)) :
    ∃ x, s.Finds call c x ∧ s.step a = x.resume? call := by
  cases a with
  | start w n =>
    simp only [entered?, Option.ite_none_right_eq_some, Option.some.injEq, Prod.mk.injEq] at h
    obtain ⟨⟨hcall, hfree⟩, rfl, rfl⟩ := h
    have hfinds := finds_ask (.start w n) (Bool.and_eq_true_iff.mp hcall).2 hfree
    have hholds : ((s.offer n).lock.request w).holds w = true :=
      Permits.holds_iff.mpr (Permits.mem_held_request hfree)
    refine ⟨_, hfinds, ?_⟩
    simp only [offer] at hholds
    simp only [step, hcall, if_true, takeLock, hholds, resume?, hfinds.pending,
      Permits.holds_iff.mpr hfinds.held]
    exact congrArg some (runStart_await _ w _ (.start s.sources.length)).symm
  | stop w =>
    simp only [entered?, Option.ite_none_right_eq_some, Option.some.injEq, Prod.mk.injEq] at h
    obtain ⟨⟨hcall, hfree⟩, rfl, rfl⟩ := h
    have hfinds := finds_ask (.stop w) (Bool.and_eq_true_iff.mp hcall).2 hfree
    have hholds : (s.lock.request w).holds w = true :=
      Permits.holds_iff.mpr (Permits.mem_held_request hfree)
    refine ⟨_, hfinds, ?_⟩
    simp only [step, hcall, if_true, takeLock, hholds, resume?, hfinds.pending,
      Permits.holds_iff.mpr hfinds.held]
    exact congrArg some (runStop_await _ w .stop).symm
  | resume w =>
    simp only [entered?] at h
    split at h
    · simp only [Option.ite_none_right_eq_some, Option.some.injEq, Prod.mk.injEq] at h
      obtain ⟨⟨hwaiting, hholds⟩, rfl, rfl⟩ := h
      exact ⟨s, ⟨.inl rfl, ‹_›, Permits.holds_iff.mp hholds, hwaiting⟩, rfl⟩
    · contradiction
  | _ => simp [entered?] at h

theorem held_of_went (h : s.Went call s' events) (hcall : s.call? call = some c)
    (hc : c.stand = .waiting) : call ∈ s.lock.held := by
  cases h with
  | started _ hheld | startLost _ hheld | startRefused _ _ hheld | stopTaken _ hheld
  | stopRefused _ _ hheld => exact hheld
  | stopped hother | sent hother | refused hother | reserved hother | notReserved hother =>
    obtain rfl := Option.some.inj (hother.symm.trans hcall)
    cases hc

theorem entered_of_resumed (h : s.Went call s' events) (hcall : s.call? call = some c)
    (hc : c.stand = .waiting) : s.entered? (.resume call) = some (call, c) := by
  simp [entered?, hcall, hc, Permits.holds_iff.mpr (held_of_went h hcall hc)]

theorem entered_of_atOnce (hs : s.Locked) (ha : s.Asks a call c s₁) (howned : s.owned = true)
    (hunused : s.unused call = true) (h : (s₁.ask call c).Went call s' events) :
    s.entered? a = some (call, c) := by
  have hnone := call?_eq_none_of_unused hunused
  have hheld : call ∈ (s.lock.request call).held := by
    rw [call?, ← ha.calls] at hnone
    exact ha.lock ▸ held_of_went h (Calls.lookup_await hnone) ha.stand
  have hfree := hs.free_of_held_request (fun _ => Calls.not_mem_of_lookup hnone) hheld
  cases ha <;> simp [entered?, howned, hunused, hfree]

/-- Whoever is told how a call to start went has got the lock by this very action. -/
theorem entered_of_started {r : Except Error Unit} (hs : s.Locked) (h : s.step a = some out)
    (hreply : .replied call (.started r) ∈ out.2) :
    ∃ source, s.entered? a = some (call, .start source) := by
  have hstart {w : Nat} {t y : System α} {events : List (Event α)} (hwent : t.Went w y events)
      (hreply : .replied call (.started r) ∈ events) :
      w = call ∧ ∃ source, t.call? w = some (.start source) := by
    cases hwent with
    | started hcall | startLost hcall | startRefused _ hcall =>
      simp only [List.mem_singleton, Event.replied.injEq] at hreply
      exact ⟨hreply.1.symm, _, hcall⟩
    | _ => simp at hreply
  obtain ⟨s', events⟩ := out
  have hdid := did_of_step h
  cases hdid with
  | @atOnce _ w c s₁ _ _ ha howned hunused hwent =>
    obtain ⟨rfl, source, hsource⟩ := hstart hwent hreply
    have hnone := call?_eq_none_of_unused hunused
    rw [call?, ← ha.calls] at hnone
    obtain rfl : c = .start source := Option.some.inj
      ((Calls.lookup_await hnone).symm.trans hsource)
    exact ⟨source, entered_of_atOnce hs ha howned hunused hwent⟩
  | resumed hwent =>
    obtain ⟨rfl, source, hsource⟩ := hstart hwent hreply
    exact ⟨source, entered_of_resumed hwent hsource rfl⟩
  | _ => simp at hreply

/-- A call that goes on concerns nobody else who waits. -/
theorem untouched_of_went (h : s.Went who s' events) (hc : (call, c) ∈ s.calls)
    (hne : call ≠ who) : (call, c) ∈ s'.calls ∧ ∀ r, .replied call r ∉ events := by
  have hwithout : (call, c) ∈ s.calls.filter (·.1 != who) := Calls.mem_without.mpr ⟨hc, hne⟩
  cases h with
  | @startRefused source =>
    obtain ⟨sources, heq⟩ := s.abandon_eq source
    rw [heq]
    exact ⟨hwithout, by simp [hne]⟩
  | @stopTaken source =>
    obtain ⟨sources, heq⟩ := ({ s with running := none } : System α).requestStop_eq source
    rw [takeOver, heq]
    exact ⟨List.mem_append_left _ hwithout, by simp⟩
  | _ => exact ⟨hwithout, by simp [hne]⟩

theorem untouched_of_did (h : s.Did a s' events) (hc : (call, c) ∈ s.calls)
    (hresume : a ≠ .resume call) (habort : a ≠ .abort call) :
    (call, c) ∈ s'.calls ∧ ∀ r, .replied call r ∉ events := by
  have hother {w : Nat} (hunused : s.unused w = true) : call ≠ w := by
    rintro rfl
    exact Calls.not_mem_of_lookup (call?_eq_none_of_unused hunused) hc
  have hwithout {w : Nat} (hne : call ≠ w) : (call, c) ∈ s.calls.filter (·.1 != w) :=
    Calls.mem_without.mpr ⟨hc, hne⟩
  have hasked {a : Action α} {w : Nat} {k : Call α} {s₁ : System α} (ha : s.Asks a w k s₁)
      (hne : call ≠ w) : (call, c) ∈ (s₁.ask w k).calls :=
    List.mem_append_left _ (ha.calls ▸ hwithout hne)
  cases h with
  | asked ha _ hunused => exact ⟨hasked ha (hother hunused), by simp⟩
  | atOnce ha _ hunused hwent =>
    exact untouched_of_went hwent (hasked ha (hother hunused)) (hother hunused)
  | sendWaits hunused | reserveWaits hunused =>
    exact ⟨List.mem_append_left _ (hwithout (hother hunused)), by simp⟩
  | sent hunused | refused hunused | reserved hunused | notReserved hunused =>
    exact ⟨hc, by simp [hother hunused]⟩
  | @startAborted _ source =>
    obtain ⟨sources, heq⟩ := s.abandon_eq source
    rw [heq]
    exact ⟨hwithout fun h => habort (h ▸ rfl), by simp⟩
  | stopAborted | stoppingAborted => exact ⟨hwithout fun h => habort (h ▸ rfl), by simp⟩
  | @sendAborted w source | @reserveAborted w source =>
    obtain ⟨sources, heq⟩ := s.leaveChannel_eq source w
    rw [heq]
    exact ⟨hwithout fun h => habort (h ▸ rfl), by simp⟩
  | resumed hwent => exact untouched_of_went hwent hc fun h => hresume (h ▸ rfl)
  | _ => exact ⟨hc, by simp⟩

end System

end Batchflow.Chunker
