import Batchflow.Chunker.System
import Batchflow.Proofs.Calls
import Batchflow.Proofs.Chunker.Worker

/-!
# What an action of a chunker does

Two relations say all that can happen: one for a pending call that goes on, and one for an action.
What an action keeps, or changes, or what is seen of it, is then a matter of going through the
cases.
-/

namespace Batchflow.Chunker.System

variable {α : Type}

/-- A new source waits for a call to start. -/
def offer (s : System α) (capacity : Nat) : System α :=
  { s with sources := s.sources ++ [.offered (.ofCapacity capacity 1)] }

def ask (s : System α) (call : Nat) (c : Call α) : System α :=
  ({ s with lock := s.lock.request call } : System α).await call c

def begin (s : System α) (source : Nat) (x : Source α) : System α :=
  ({ s with state := .running, running := some source } : System α).setFeed source
    (.start x.channel s.now)

def takeOver (s : System α) (call source : Nat) : System α :=
  (({ s with running := none } : System α).requestStop source).await call (.stopping source)

inductive Asks (s : System α) : Action α → Nat → Call α → System α → Prop
  | start (call capacity : Nat) :
      Asks s (.start call capacity) call (.start s.sources.length) (s.offer capacity)
  | stop (call : Nat) : Asks s (.stop call) call .stop s

/-- How a pending call may go on. -/
inductive Went (s : System α) (call : Nat) : System α → List (Event α) → Prop
  | started {source x} : s.call? call = some (.start source) → call ∈ s.lock.held →
      s.state = .stopped → s.options.validate = .ok () → s.sources[source]? = some x →
      Went s call (((s.begin source x).unlock call).forget call)
        [.replied call (.started (.ok ()))]
  | startLost {source} : s.call? call = some (.start source) → call ∈ s.lock.held →
      s.sources[source]? = none →
      Went s call ((s.unlock call).forget call) [.replied call (.started (.ok ()))]
  | startRefused {source} (e : Error) : s.call? call = some (.start source) →
      call ∈ s.lock.held →
      Went s call (((s.abandon source).unlock call).forget call)
        [.replied call (.started (.error e))]
  | stopTaken {source} : s.call? call = some .stop → call ∈ s.lock.held → s.state = .running →
      s.running = some source → Went s call (s.takeOver call source) []
  | stopRefused (state : Lifecycle) : s.call? call = some .stop → call ∈ s.lock.held →
      s.state ≠ .running ∧ state = s.state ∨ s.running = none ∧ state = .stopped →
      Went s call ((({ s with state } : System α).unlock call).forget call)
        [.replied call (.stopped (.error .notRunning))]
  | stopped {source f outcome} : s.call? call = some (.stopping source) →
      s.feed? source = some f → f.worker.outcome? = some outcome →
      Went s call ((({ s with state := .stopped } : System α).unlock call).forget call)
        [.replied call (.stopped (stopResult outcome))]
  | sent {source item x} : s.call? call = some (.send source item) →
      s.sources[source]? = some x → x.channel.resume? call = some .accepted →
      Went s call ((s.setChannel source (x.channel.fill call item)).forget call)
        [.took source item, .replied call .accepted]
  | refused {source item x} : s.call? call = some (.send source item) →
      s.sources[source]? = some x → x.channel.resume? call = some .refused →
      Went s call ((s.setChannel source (x.channel.leave call)).forget call)
        [.replied call (.refused item)]
  | reserved {source x} : s.call? call = some (.reserve source) →
      s.sources[source]? = some x → x.channel.resume? call = some .accepted →
      Went s call (s.forget call) [.replied call .reserved]
  | notReserved {source x} : s.call? call = some (.reserve source) →
      s.sources[source]? = some x → x.channel.resume? call = some .refused →
      Went s call ((s.setChannel source (x.channel.leave call)).forget call)
        [.replied call .notReserved]

inductive Did (s : System α) : Action α → System α → List (Event α) → Prop
  | asked {a call c s₁} : s.Asks a call c s₁ → s.owned = true → s.unused call = true →
      Did s a (s₁.ask call c) []
  | atOnce {a call c s₁ s' events} : s.Asks a call c s₁ → s.owned = true →
      s.unused call = true → (s₁.ask call c).Went call s' events → Did s a s' events
  | sent {call source item x c} : s.unused call = true → s.sources[source]? = some x →
      0 < x.channel.handles → x.channel.send call item = (c, .accepted) →
      Did s (.send call source item) (s.setChannel source c)
        [.took source item, .replied call .accepted]
  | sendWaits {call source item x c} : s.unused call = true → s.sources[source]? = some x →
      0 < x.channel.handles → x.channel.send call item = (c, .waiting) →
      Did s (.send call source item) ((s.setChannel source c).await call (.send source item)) []
  | refused {call source item x c} : s.unused call = true → s.sources[source]? = some x →
      0 < x.channel.handles → x.channel.send call item = (c, .refused) →
      Did s (.send call source item) (s.setChannel source c) [.replied call (.refused item)]
  | reserved {call source x c} : s.unused call = true → s.sources[source]? = some x →
      0 < x.channel.handles → x.channel.reserve call = (c, .accepted) →
      Did s (.reserve call source) (s.setChannel source c) [.replied call .reserved]
  | reserveWaits {call source x c} : s.unused call = true → s.sources[source]? = some x →
      0 < x.channel.handles → x.channel.reserve call = (c, .waiting) →
      Did s (.reserve call source) ((s.setChannel source c).await call (.reserve source)) []
  | notReserved {call source x c} : s.unused call = true → s.sources[source]? = some x →
      0 < x.channel.handles → x.channel.reserve call = (c, .refused) →
      Did s (.reserve call source) (s.setChannel source c) [.replied call .notReserved]
  | filled {call source item x} : s.call? call = none → s.sources[source]? = some x →
      call ∈ x.channel.places.held →
      Did s (.fill call source item) (s.setChannel source (x.channel.fill call item))
        [.took source item]
  | gaveBack {call source x} : s.call? call = none → s.sources[source]? = some x →
      call ∈ x.channel.places.held →
      Did s (.giveBack call source) (s.setChannel source (x.channel.leave call)) []
  | startAborted {call source} : s.call? call = some (.start source) →
      Did s (.abort call)
        (({ s.abandon source with lock := s.lock.leave call } : System α).forget call) []
  | stopAborted {call} : s.call? call = some .stop →
      Did s (.abort call) (({ s with lock := s.lock.leave call } : System α).forget call) []
  | stoppingAborted {call source} : s.call? call = some (.stopping source) →
      Did s (.abort call) ((s.unlock call).forget call) []
  | sendAborted {call source item} : s.call? call = some (.send source item) →
      Did s (.abort call) ((s.leaveChannel source call).forget call) []
  | reserveAborted {call source} : s.call? call = some (.reserve source) →
      Did s (.abort call) ((s.leaveChannel source call).forget call) []
  | handleAdded {source x} : s.sources[source]? = some x → 0 < x.channel.handles →
      Did s (.addHandle source) (s.setChannel source x.channel.addHandle) []
  | handleDropped {source x} : s.sources[source]? = some x → 0 < x.channel.handles →
      Did s (.dropHandle source) (s.setChannel source x.channel.dropHandle) []
  | dropped : s.owned = true → Did s .drop { s with owned := false } []
  | resumed {call s' events} : s.Went call s' events → Did s (.resume call) s' events
  | moved {source m f f' chunk} : s.feed? source = some f →
      f.Moved s.options s.now m f' chunk →
      Did s (.move source m) (s.setFeed source f') (chunk.toList.map (.chunk source))
  | advanced {now} : s.advance? now = some { s with now } → Did s (.advance now) { s with now } []

variable {s s' : System α} {call source : Nat} {a : Action α} {events : List (Event α)}
  {out : Outcome α}

theorem call?_eq_none_of_unused (h : s.unused call = true) : s.call? call = none := by
  simp only [unused, Bool.and_eq_true, Option.isNone_iff_eq_none] at h
  exact h.1

theorem openChannel?_eq_some {c : Channel Nat α} (h : s.openChannel? source = some c) :
    ∃ x, s.sources[source]? = some x ∧ x.channel = c ∧ 0 < x.channel.handles := by
  unfold openChannel? at h
  split at h
  · rename_i x hx
    split at h
    · obtain rfl := Option.some.inj h
      exact ⟨x, hx, rfl, ‹_›⟩
    · contradiction
  · contradiction

theorem went_of_runStart (hcall : s.call? call = some (.start source))
    (hheld : call ∈ s.lock.held) :
    s.Went call (s.runStart call source).1 (s.runStart call source).2 := by
  unfold runStart
  split
  · rename_i hstate
    split
    · exact .startRefused _ hcall hheld
    · rename_i hvalid
      split
      · rename_i x hx
        exact .started hcall hheld hstate hvalid hx
      · exact .startLost hcall hheld ‹_›
  · exact .startRefused _ hcall hheld

theorem went_of_runStop (hcall : s.call? call = some .stop) (hheld : call ∈ s.lock.held) :
    s.Went call (s.runStop call).1 (s.runStop call).2 := by
  unfold runStop
  split
  · rename_i hstate
    split
    · rename_i source hrunning
      exact .stopTaken hcall hheld hstate hrunning
    · rename_i hrunning
      exact .stopRefused .stopped hcall hheld (.inr ⟨hrunning, rfl⟩)
  · rename_i hstate
    exact .stopRefused s.state hcall hheld (.inl ⟨hstate, rfl⟩)

theorem went_of_resume (h : s.resume? call = some out) : s.Went call out.1 out.2 := by
  unfold resume? at h
  split at h
  · contradiction
  · split at h <;> simp only [Option.some.injEq, reduceCtorEq] at h
    exact h ▸ went_of_runStart ‹_› (Permits.holds_iff.mp ‹_›)
  · split at h <;> simp only [Option.some.injEq, reduceCtorEq] at h
    exact h ▸ went_of_runStop ‹_› (Permits.holds_iff.mp ‹_›)
  · split at h <;> simp only [Option.some.injEq, reduceCtorEq] at h
    rename_i hcall _ _ houtcome
    obtain ⟨f, hf, houtcome⟩ := Option.bind_eq_some_iff.mp houtcome
    exact h ▸ .stopped hcall hf houtcome
  · split at h
    · contradiction
    · split at h <;> simp only [Option.some.injEq, reduceCtorEq] at h
      · exact h ▸ .sent ‹_› ‹_› ‹_›
      · exact h ▸ .refused ‹_› ‹_› ‹_›
  · split at h
    · contradiction
    · split at h <;> simp only [Option.some.injEq, reduceCtorEq] at h
      · exact h ▸ .reserved ‹_› ‹_› ‹_›
      · exact h ▸ .notReserved ‹_› ‹_› ‹_›

theorem forget_await (s : System α) (call : Nat) (c : Call α) :
    (s.await call c).forget call = s.forget call := by
  simp only [forget, await, Calls.without_await]

theorem await_await (s : System α) (call : Nat) (c k : Call α) :
    (s.await call c).await call k = s.await call k := by
  simp only [await, Calls.without_await]

theorem abandon_await (s : System α) (call source : Nat) (c : Call α) :
    (s.await call c).abandon source = (s.abandon source).await call c := by
  unfold abandon
  dsimp only [await]
  split <;> rfl

theorem requestStop_await (s : System α) (call source : Nat) (c : Call α) :
    (s.await call c).requestStop source = (s.requestStop source).await call c := by
  unfold requestStop
  have hfeed : (s.await call c).feed? source = s.feed? source := rfl
  rw [hfeed]
  split <;> rfl

theorem runStart_await (s : System α) (call source : Nat) (c : Call α) :
    (s.await call c).runStart call source = s.runStart call source := by
  have hreply (t : System α) (r : Reply α) : (t.await call c).reply call r = t.reply call r := by
    simp only [reply, forget_await]
  have hrefused (r : Reply α) :
      (((s.await call c).abandon source).unlock call).reply call r =
        ((s.abandon source).unlock call).reply call r := by
    rw [abandon_await]
    exact hreply ((s.abandon source).unlock call) r
  have hstate : (s.await call c).state = s.state := rfl
  have hoptions : (s.await call c).options = s.options := rfl
  have hsources : (s.await call c).sources = s.sources := rfl
  unfold runStart
  rw [hstate, hoptions, hsources]
  simp only [hrefused]
  split
  · split
    · rfl
    · split
      · exact hreply ((s.begin source _).unlock call) _
      · exact hreply (s.unlock call) _
  · rfl

theorem runStop_await (s : System α) (call : Nat) (c : Call α) :
    (s.await call c).runStop call = s.runStop call := by
  have hreply (state : Lifecycle) (r : Reply α) :
      ((({ s.await call c with state } : System α).unlock call).reply call r) =
        (({ s with state } : System α).unlock call).reply call r :=
    congrArg (·, _) (forget_await (({ s with state } : System α).unlock call) call c)
  have htaken (source : Nat) : (s.await call c).takeOver call source = s.takeOver call source := by
    show ((({ s with running := none } : System α).await call c).requestStop source).await call
      (.stopping source) = s.takeOver call source
    rw [requestStop_await, await_await]
    rfl
  have hstate : (s.await call c).state = s.state := rfl
  have hrunning : (s.await call c).running = s.running := rfl
  unfold runStop
  rw [hstate, hrunning]
  split
  · split
    · exact congrArg (·, []) (htaken _)
    · exact hreply .stopped _
  · exact hreply s.state _

theorem did_of_takeLock {c : Call α} {s₁ : System α} {run : System α → Outcome α}
    (ha : s.Asks a call c s₁) (howned : s.owned = true) (hunused : s.unused call = true)
    (hrun : ∀ t : System α, t.call? call = some c → call ∈ t.lock.held →
      t.Went call (run t).1 (run t).2)
    (hawait : ∀ t : System α, run (t.await call c) = run t) :
    s.Did a (s₁.takeLock call c run).1 (s₁.takeLock call c run).2 := by
  have hnone : s₁.call? call = none := by
    have := call?_eq_none_of_unused hunused
    cases ha <;> exact this
  unfold takeLock
  dsimp only
  split
  · rename_i hholds
    have hwent := hrun (s₁.ask call c) (Calls.lookup_await hnone) (Permits.holds_iff.mp hholds)
    rw [ask, hawait] at hwent
    exact .atOnce ha howned hunused hwent
  · exact .asked ha howned hunused

theorem did_of_send {item : α} (hunused : s.unused call = true)
    (h : s.send? call source item = some out) : s.Did (.send call source item) out.1 out.2 := by
  unfold send? at h
  split at h
  · contradiction
  · rename_i c hc
    obtain ⟨x, hx, rfl, hpos⟩ := openChannel?_eq_some hc
    dsimp only at h
    generalize hsend : x.channel.send call item = sent at h
    obtain ⟨c', arrival⟩ := sent
    cases arrival with
    | accepted => exact Option.some.inj h ▸ .sent hunused hx hpos hsend
    | waiting => exact Option.some.inj h ▸ .sendWaits hunused hx hpos hsend
    | refused => exact Option.some.inj h ▸ .refused hunused hx hpos hsend

theorem did_of_reserve (hunused : s.unused call = true)
    (h : s.reserve? call source = some out) : s.Did (.reserve call source) out.1 out.2 := by
  unfold reserve? at h
  split at h
  · contradiction
  · rename_i c hc
    obtain ⟨x, hx, rfl, hpos⟩ := openChannel?_eq_some hc
    dsimp only at h
    generalize hreserve : x.channel.reserve call = reserved at h
    obtain ⟨c', arrival⟩ := reserved
    cases arrival with
    | accepted => exact Option.some.inj h ▸ .reserved hunused hx hpos hreserve
    | waiting => exact Option.some.inj h ▸ .reserveWaits hunused hx hpos hreserve
    | refused => exact Option.some.inj h ▸ .notReserved hunused hx hpos hreserve

theorem did_of_abort (h : s.abort? call = some s') : s.Did (.abort call) s' [] := by
  unfold abort? at h
  split at h <;> simp only [Option.some.injEq, reduceCtorEq] at h <;> subst h
  · exact .startAborted ‹_›
  · exact .stopAborted ‹_›
  · exact .stoppingAborted ‹_›
  · exact .sendAborted ‹_›
  · exact .reserveAborted ‹_›

theorem did_of_move {m : Move} (h : s.move? source m = some out) :
    s.Did (.move source m) out.1 out.2 := by
  unfold move? at h
  split at h
  · contradiction
  · rename_i f hf
    split at h <;> simp only [Option.some.injEq, reduceCtorEq] at h <;> subst h
    · exact .moved hf (Feed.moved_of_step ‹_›)
    · exact .moved hf (Feed.moved_of_step ‹_›)

theorem did_of_step (h : s.step a = some out) : s.Did a out.1 out.2 := by
  cases a with
  | start call capacity =>
    simp only [step, Option.ite_none_right_eq_some, Bool.and_eq_true] at h
    obtain ⟨⟨howned, hunused⟩, h⟩ := h
    have hdid := did_of_takeLock (.start call capacity) howned hunused
      (fun _ => went_of_runStart) fun t => t.runStart_await call s.sources.length _
    exact Option.some.inj h ▸ hdid
  | stop call =>
    simp only [step, Option.ite_none_right_eq_some, Bool.and_eq_true] at h
    obtain ⟨⟨howned, hunused⟩, h⟩ := h
    have hdid := did_of_takeLock (.stop call) howned hunused (fun _ => went_of_runStop)
      fun t => t.runStop_await call _
    exact Option.some.inj h ▸ hdid
  | send call source item =>
    simp only [step, Option.ite_none_right_eq_some] at h
    exact did_of_send h.1 h.2
  | reserve call source =>
    simp only [step, Option.ite_none_right_eq_some] at h
    exact did_of_reserve h.1 h.2
  | fill call source item =>
    simp only [step, fill?] at h
    split at h
    · contradiction
    · simp only [Option.ite_none_right_eq_some, Option.some.injEq,
        Permits.holds_iff, Option.isNone_iff_eq_none] at h
      obtain ⟨⟨hheld, hcall⟩, rfl⟩ := h
      exact .filled hcall ‹_› hheld
  | giveBack call source =>
    simp only [step, giveBack?] at h
    split at h
    · contradiction
    · simp only [Option.ite_none_right_eq_some, Option.some.injEq,
        Permits.holds_iff, Option.isNone_iff_eq_none] at h
      obtain ⟨⟨hheld, hcall⟩, rfl⟩ := h
      exact .gaveBack hcall ‹_› hheld
  | abort call =>
    simp only [step, Option.map_eq_some_iff] at h
    obtain ⟨_, hs, rfl⟩ := h
    exact did_of_abort hs
  | addHandle source =>
    simp only [step, addHandle?, Option.map_eq_some_iff] at h
    obtain ⟨_, ⟨c, hc, rfl⟩, rfl⟩ := h
    obtain ⟨x, hx, rfl, hpos⟩ := openChannel?_eq_some hc
    exact .handleAdded hx hpos
  | dropHandle source =>
    simp only [step, dropHandle?, Option.map_eq_some_iff] at h
    obtain ⟨_, ⟨c, hc, rfl⟩, rfl⟩ := h
    obtain ⟨x, hx, rfl, hpos⟩ := openChannel?_eq_some hc
    exact .handleDropped hx hpos
  | drop =>
    simp only [step, Option.ite_none_right_eq_some, Option.some.injEq] at h
    obtain ⟨howned, rfl⟩ := h
    exact .dropped howned
  | resume call => exact .resumed (went_of_resume h)
  | move source m => exact did_of_move h
  | advance now =>
    simp only [step, Option.map_eq_some_iff] at h
    obtain ⟨s', hs, rfl⟩ := h
    have heq : s' = { s with now } := by
      simp only [advance?, Option.ite_none_right_eq_some, Option.some.injEq] at hs
      exact hs.2.symm
    subst heq
    exact .advanced hs

end Batchflow.Chunker.System
