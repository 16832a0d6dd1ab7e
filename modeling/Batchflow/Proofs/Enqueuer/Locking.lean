import Batchflow.Proofs.Enqueuer.Failures

/-!
# Who gets the lock

A call to start or stop does its work when it gets the lock: at once if the lock is free, and
otherwise when it goes on with the lock.  A pending call is left alone until it goes on or is given
up.
-/

namespace Batchflow.Enqueuer

namespace System

/-- The call to start or stop that does its work by an action, since it has the lock now. -/
def entered? (s : System) : Action → Option (Caller × Call)
  | .start caller sink =>
    if s.mayCall caller ∧ 0 < s.lock.free then some (caller, .start sink) else none
  | .stop caller => if s.mayCall caller ∧ 0 < s.lock.free then some (caller, .stop) else none
  | .resume caller =>
    match s.call? caller with
    | some c => if c.stand = .waiting ∧ s.lock.holds caller then some (caller, c) else none
    | none => none
  | _ => none

structure Finds (s : System) (caller : Caller) (c : Call) (x : System) : Prop where
  eq : x = s ∨ s.mayCall caller = true ∧ x = s.ask caller c
  pending : x.call? caller = some c
  held : caller ∈ x.lock.held
  waiting : c.stand = .waiting

variable {s s' x : System} {a : Action} {out : Outcome} {events : List Event}
  {caller w : Caller} {c : Call}

namespace Finds

variable (h : s.Finds caller c x)

include h

theorem options : x.options = s.options := by
  rcases h.eq with rfl | ⟨-, rfl⟩ <;> rfl

theorem state : x.state = s.state := by
  rcases h.eq with rfl | ⟨-, rfl⟩ <;> rfl

theorem slot : x.slot = s.slot := by
  rcases h.eq with rfl | ⟨-, rfl⟩ <;> rfl

theorem intake : x.intake = s.intake := by
  rcases h.eq with rfl | ⟨-, rfl⟩ <;> rfl

theorem pipelines : x.pipelines = s.pipelines := by
  rcases h.eq with rfl | ⟨-, rfl⟩ <;> rfl

theorem now : x.now = s.now := by
  rcases h.eq with rfl | ⟨-, rfl⟩ <;> rfl

theorem reachable : s.reachable = true := by
  rcases h.eq with rfl | ⟨hcall, -⟩
  · exact reachable_of_call h.pending
  · exact reachable_of_mayCall hcall

theorem not_inside {k : Call} (hs : s.WellFormed) (hk : (w, k) ∈ s.calls) :
    k.stand ≠ .inside := by
  rcases h.eq with rfl | ⟨hcall, rfl⟩
  · exact hs.guarded.not_inside h.held (Calls.mem_of_lookup h.pending) h.waiting hk
  · refine (hs.ask hcall h.waiting).guarded.not_inside h.held (Calls.mem_of_lookup h.pending)
      h.waiting (Calls.mem_await.mpr (.inl ⟨hk, ?_⟩))
    rintro rfl
    exact Calls.not_mem_of_lookup (call?_eq_none_of_mayCall hcall) hk

end Finds

theorem Finds.resume?_start {sink : Nat} (h : s.Finds caller (.start sink) x) :
    x.resume? caller = some (x.runStart caller sink) := by
  simp only [resume?, h.pending, Permits.holds_iff.mpr h.held, if_true]

theorem Finds.resume?_stop (h : s.Finds caller .stop x) :
    x.resume? caller = some (x.runStop caller) := by
  simp only [resume?, h.pending, Permits.holds_iff.mpr h.held, if_true]

theorem finds_ask (hcall : s.mayCall caller = true) (hfree : 0 < s.lock.free)
    (hc : c.stand = .waiting) : s.Finds caller c (s.ask caller c) where
  eq := .inr ⟨hcall, rfl⟩
  pending := Calls.lookup_await (call?_eq_none_of_mayCall hcall)
  held := Permits.mem_held_request hfree
  waiting := hc

/-- A call that gets the lock does the same at once as it does when it had to wait. -/
theorem exists_finds (h : s.entered? a = some (caller, c)) :
    ∃ x, s.Finds caller c x ∧ s.step a = x.resume? caller := by
  cases a with
  | start w sink =>
    simp only [entered?, Option.ite_none_right_eq_some, Option.some.injEq, Prod.mk.injEq] at h
    obtain ⟨⟨hcall, hfree⟩, rfl, rfl⟩ := h
    have hfinds := finds_ask (c := .start sink) hcall hfree rfl
    have hholds : (s.lock.request w).holds w = true :=
      Permits.holds_iff.mpr (Permits.mem_held_request hfree)
    refine ⟨_, hfinds, ?_⟩
    simp only [step, hcall, if_true, takeLock, hholds, resume?, hfinds.pending,
      Permits.holds_iff.mpr hfinds.held]
    exact congrArg some (runStart_await _ w _ sink).symm
  | stop w =>
    simp only [entered?, Option.ite_none_right_eq_some, Option.some.injEq, Prod.mk.injEq] at h
    obtain ⟨⟨hcall, hfree⟩, rfl, rfl⟩ := h
    have hfinds := finds_ask (c := .stop) hcall hfree rfl
    have hholds : (s.lock.request w).holds w = true :=
      Permits.holds_iff.mpr (Permits.mem_held_request hfree)
    refine ⟨_, hfinds, ?_⟩
    simp only [step, hcall, if_true, takeLock, hholds, resume?, hfinds.pending,
      Permits.holds_iff.mpr hfinds.held]
    exact congrArg some (runStop_await _ w _).symm
  | resume w =>
    simp only [entered?] at h
    split at h
    · simp only [Option.ite_none_right_eq_some, Option.some.injEq, Prod.mk.injEq] at h
      obtain ⟨⟨hwaiting, hholds⟩, rfl, rfl⟩ := h
      exact ⟨s, ⟨.inl rfl, ‹_›, Permits.holds_iff.mp hholds, hwaiting⟩, rfl⟩
    · contradiction
  | _ => simp [entered?] at h

theorem held_of_went (h : s.Went caller s' events) (hcall : s.call? caller = some c)
    (hc : c.stand = .waiting) : caller ∈ s.lock.held := by
  cases h with
  | started _ hheld | startRefused _ _ hheld | stopTaken _ hheld | stopRefused _ _ hheld =>
    exact hheld
  | workerEnded hother | stopped hother | enqueued hother | rejected hother =>
    obtain rfl := Option.some.inj (hother.symm.trans hcall)
    cases hc

theorem entered_of_resumed (h : s.Went caller s' events) (hcall : s.call? caller = some c)
    (hc : c.stand = .waiting) : s.entered? (.resume caller) = some (caller, c) := by
  simp [entered?, hcall, hc, Permits.holds_iff.mpr (held_of_went h hcall hc)]

theorem entered_of_atOnce (hs : s.WellFormed) (ha : Asks a caller c)
    (hcall : s.mayCall caller = true) (h : (s.ask caller c).Went caller s' events) :
    s.entered? a = some (caller, c) := by
  have hnone := call?_eq_none_of_mayCall hcall
  have hheld : caller ∈ (s.lock.request caller).held :=
    held_of_went h (Calls.lookup_await hnone) ha.stand
  have hfree := hs.guarded.free_of_held_request (fun _ => Calls.not_mem_of_lookup hnone) hheld
  cases ha <;> simp [entered?, hcall, hfree]

/-- Whoever is told how a call to start went has got the lock by this very action. -/
theorem entered_of_started {r : Except Error Unit} (hs : s.WellFormed) (h : s.step a = some out)
    (hreply : .replied caller (.started r) ∈ out.2) :
    ∃ sink, s.entered? a = some (caller, .start sink) := by
  have hstart {w : Caller} {t y : System} {events : List Event} (hwent : t.Went w y events)
      (hreply : .replied caller (.started r) ∈ events) :
      w = caller ∧ ∃ sink, t.call? w = some (.start sink) := by
    cases hwent with
    | started hcall | startRefused _ hcall =>
      simp only [List.mem_cons, Event.replied.injEq, reduceCtorEq, List.not_mem_nil, or_false,
        false_or] at hreply
      exact ⟨hreply.1.symm, _, hcall⟩
    | @stopped _ worker _ reporter =>
      cases hresult : stopResult worker reporter <;> simp [stopEvents, hresult] at hreply
    | _ => simp at hreply
  obtain ⟨x, hdid, -⟩ := does_of_step h
  generalize out.2 = events at hdid hreply
  cases hdid with
  | @atOnce _ w c _ _ ha hcall hwent =>
    obtain ⟨rfl, sink, hsink⟩ := hstart hwent hreply
    obtain rfl : c = .start sink := Option.some.inj
      ((Calls.lookup_await (call?_eq_none_of_mayCall hcall)).symm.trans hsink)
    exact ⟨sink, entered_of_atOnce hs ha hcall hwent⟩
  | resumed hwent =>
    obtain ⟨rfl, sink, hsink⟩ := hstart hwent hreply
    exact ⟨sink, entered_of_resumed hwent hsink rfl⟩
  | moved =>
    obtain ⟨n, -, hn⟩ := List.mem_map.mp hreply
    cases n <;> cases hn
  | _ => simp at hreply

/-- A call that goes on concerns nobody else who waits. -/
theorem untouched_of_went (h : s.Went w s' events) (hc : (caller, c) ∈ s.calls)
    (hne : caller ≠ w) : (caller, c) ∈ s'.calls ∧ ∀ r, .replied caller r ∉ events := by
  have hwithout : (caller, c) ∈ s.calls.filter (·.1 != w) := Calls.mem_without.mpr ⟨hc, hne⟩
  cases h with
  | @started sink =>
    have hcalls : (s.startRun sink).calls = s.calls := s.calls_dropIntake
    exact ⟨Calls.mem_without.mpr ⟨hcalls ▸ hc, hne⟩, by simp [hne]⟩
  | startRefused | stopRefused | enqueued | rejected => exact ⟨hwithout, by simp [hne]⟩
  | stopTaken => exact ⟨List.mem_append_left _ hwithout, by simp⟩
  | workerEnded =>
    exact ⟨List.mem_append_left _ (s.calls_dropIntake.symm ▸ hwithout), by simp⟩
  | @stopped _ worker _ reporter =>
    refine ⟨hwithout, fun r => ?_⟩
    cases stopResult worker reporter <;> simp [stopEvents, hne]

theorem untouched_of_did (h : s.Did a s' events) (hc : (caller, c) ∈ s.calls)
    (hresume : a ≠ .resume caller) (habort : a ≠ .abort caller) :
    (caller, c) ∈ s'.calls ∧ ∀ r, .replied caller r ∉ events := by
  have hother {w : Caller} (hcall : s.mayCall w = true) : caller ≠ w := by
    rintro rfl
    exact Calls.not_mem_of_lookup (call?_eq_none_of_mayCall hcall) hc
  have hwithout {w : Caller} (hne : caller ≠ w) : (caller, c) ∈ s.calls.filter (·.1 != w) :=
    Calls.mem_without.mpr ⟨hc, hne⟩
  cases h with
  | asked _ hcall | enqueueWaits hcall =>
    exact ⟨List.mem_append_left _ (hwithout (hother hcall)), by simp⟩
  | atOnce _ hcall hwent =>
    exact untouched_of_went hwent (List.mem_append_left _ (hwithout (hother hcall))) (hother hcall)
  | enqueued hcall | rejected hcall | notRunning hcall => exact ⟨hc, by simp [hother hcall]⟩
  | lockAborted | stoppingAborted | drainingAborted =>
    exact ⟨hwithout fun heq => habort (heq ▸ rfl), by simp⟩
  | enqueueAborted =>
    unfold leaveIntake
    split <;> exact ⟨hwithout fun heq => habort (heq ▸ rfl), by simp⟩
  | handleAdded | handleDropped | advanced => exact ⟨hc, by simp⟩
  | resumed hwent => exact untouched_of_went hwent hc fun heq => hresume (heq ▸ rfl)
  | moved =>
    refine ⟨hc, fun r hr => ?_⟩
    obtain ⟨n, -, hn⟩ := List.mem_map.mp hr
    cases n <;> cases hn

/-- Whoever waits is left alone until it goes on itself or gives up. -/
theorem untouched_of_step (h : s.step a = some out) (hc : (caller, c) ∈ s.calls)
    (hresume : a ≠ .resume caller) (habort : a ≠ .abort caller) :
    (caller, c) ∈ out.1.calls ∧ ∀ r, .replied caller r ∉ out.2 := by
  obtain ⟨x, hdid, hx⟩ := does_of_step h
  obtain ⟨hmem, hreply⟩ := untouched_of_did hdid hc hresume habort
  refine ⟨?_, hreply⟩
  rcases hx with hx | hx
  · rwa [hx]
  · rwa [hx, calls_release]

end System

end Batchflow.Enqueuer
