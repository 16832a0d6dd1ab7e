import Batchflow.Enqueuer.System
import Batchflow.Proofs.Enqueuer.Pipeline
import Batchflow.Proofs.Lock

/-!
# What an action of an enqueuer does

Two relations say all that can happen: one for a pending call that goes on, and one for an action.
An enqueuer that nobody can get at any more may let go of what it holds after any action.
-/

namespace Batchflow.Enqueuer

/-- What a pending call has to do with the lock of starting and stopping. -/
def Call.stand : Call → Stand
  | .start _ => .waiting
  | .stop => .waiting
  | .stopping _ => .inside
  | .draining .. => .inside
  | .enqueue .. => .outside

inductive Asks : Action → Caller → Call → Prop
  | start (caller : Caller) (sink : Nat) : Asks (.start caller sink) caller (.start sink)
  | stop (caller : Caller) : Asks (.stop caller) caller .stop

theorem Asks.stand {a : Action} {caller : Caller} {c : Call} (h : Asks a caller c) :
    c.stand = .waiting := by
  cases h <;> rfl

namespace System

/-- The call is over. -/
def without (s : System) (caller : Caller) : System :=
  { s with calls := s.calls.filter (·.1 != caller) }

def ask (s : System) (caller : Caller) (c : Call) : System :=
  ({ s with lock := s.lock.request caller } : System).await caller c

def takeOver (s : System) (caller : Caller) (run : Nat) : System :=
  (({ s with slot := none } : System).modifyPipeline run fun p =>
    { p with feed := { p.feed with stopRequested := true } }).await caller (.stopping run)

def conclude (s : System) (run : Nat) : System :=
  { s.modifyPipeline run fun p => { p with cancelled := true } with state := .stopped }

/-- What is seen when a run is over. -/
def stopEvents (caller : Caller) (result : Except Error Unit) : List Event :=
  match result with
  | .ok () => [.log .stopped, .replied caller (.stopped result)]
  | .error _ => [.replied caller (.stopped result)]

theorem replied_stopEvents {caller w : Caller} {result : Except Error Unit} {r : Reply} :
    .replied caller r ∈ stopEvents w result ↔ caller = w ∧ r = .stopped result := by
  cases result <;> simp [stopEvents]

/-- How a pending call may go on. -/
inductive Went (s : System) (caller : Caller) : System → List Event → Prop
  | started {sink} : s.call? caller = some (.start sink) → caller ∈ s.lock.held →
      s.state = .stopped → s.options.validate = .ok () →
      Went s caller (((s.startRun sink).unlock caller).without caller)
        [.log (.started s.options), .replied caller (.started (.ok ()))]
  | startRefused {sink} (e : Error) : s.call? caller = some (.start sink) →
      caller ∈ s.lock.held →
      Went s caller ((s.unlock caller).without caller) [.replied caller (.started (.error e))]
  | stopTaken {run} : s.call? caller = some .stop → caller ∈ s.lock.held → s.state = .running →
      s.slot = some run → Went s caller (s.takeOver caller run) []
  | stopRefused (state : Lifecycle) : s.call? caller = some .stop → caller ∈ s.lock.held →
      s.state ≠ .running ∧ state = s.state ∨ s.slot = none ∧ state = .stopped →
      Went s caller ((({ s with state } : System).unlock caller).without caller)
        [.replied caller (.stopped (.error .notRunning))]
  | workerEnded {run p worker} : s.call? caller = some (.stopping run) →
      s.pipelines[run]? = some p → p.feed.worker.outcome? = some worker →
      Went s caller (s.workerEnded caller run worker) []
  | stopped {run worker p reporter} : s.call? caller = some (.draining run worker) →
      s.pipelines[run]? = some p → p.reporter.outcome? = some reporter →
      Went s caller (((s.conclude run).unlock caller).without caller)
        (stopEvents caller (stopResult worker reporter))
  | enqueued {run m p} : s.call? caller = some (.enqueue run m) → s.pipelines[run]? = some p →
      p.feed.channel.resume? caller = some .accepted →
      Went s caller ((s.setChannel run (p.feed.channel.fill caller m)).without caller)
        [.took run m, .replied caller (.enqueued (.ok ()))]
  | rejected {run m p} : s.call? caller = some (.enqueue run m) → s.pipelines[run]? = some p →
      p.feed.channel.resume? caller = some .refused →
      Went s caller ((s.setChannel run (p.feed.channel.leave caller)).without caller)
        [.replied caller (.enqueued (.error (.rejected m)))]

inductive Did (s : System) : Action → System → List Event → Prop
  | asked {a caller c} : Asks a caller c → s.mayCall caller = true → Did s a (s.ask caller c) []
  | atOnce {a caller c s' events} : Asks a caller c → s.mayCall caller = true →
      (s.ask caller c).Went caller s' events → Did s a s' events
  | enqueued {caller m run p c} : s.mayCall caller = true → s.state = .running →
      s.intake = some run → s.pipelines[run]? = some p →
      p.feed.channel.send caller m = (c, .accepted) →
      Did s (.enqueue caller m) (s.setChannel run c)
        [.took run m, .replied caller (.enqueued (.ok ()))]
  | enqueueWaits {caller m run p c} : s.mayCall caller = true → s.state = .running →
      s.intake = some run → s.pipelines[run]? = some p →
      p.feed.channel.send caller m = (c, .waiting) →
      Did s (.enqueue caller m) ((s.setChannel run c).await caller (.enqueue run m)) []
  | rejected {caller m run p c} : s.mayCall caller = true → s.state = .running →
      s.intake = some run → s.pipelines[run]? = some p →
      p.feed.channel.send caller m = (c, .refused) →
      Did s (.enqueue caller m) (s.setChannel run c)
        [.replied caller (.enqueued (.error (.rejected m)))]
  | notRunning {caller m} : s.mayCall caller = true →
      Did s (.enqueue caller m) s [.replied caller (.enqueued (.error .notRunning))]
  | lockAborted {caller c} : s.call? caller = some c → c.stand = .waiting →
      Did s (.abort caller) (({ s with lock := s.lock.leave caller } : System).without caller) []
  | stoppingAborted {caller run} : s.call? caller = some (.stopping run) →
      Did s (.abort caller)
        (((s.modifyPipeline run Pipeline.dropFailures).unlock caller).without caller) []
  | drainingAborted {caller run worker} : s.call? caller = some (.draining run worker) →
      Did s (.abort caller) ((s.unlock caller).without caller) []
  | enqueueAborted {caller run m} : s.call? caller = some (.enqueue run m) →
      Did s (.abort caller) ((s.leaveIntake run caller).without caller) []
  | handleAdded : 0 < s.handles → Did s .addHandle { s with handles := s.handles + 1 } []
  | handleDropped : 0 < s.handles → Did s .dropHandle { s with handles := s.handles - 1 } []
  | resumed {caller s' events} : s.Went caller s' events → Did s (.resume caller) s' events
  | moved {run m p p' notes} : s.pipelines[run]? = some p → s.allowed run m = true →
      p.Moved s.options (s.options.hasHandler && s.reachable) s.now m p' notes →
      Did s (.move run m) (s.modifyPipeline run fun _ => p') (notes.map (Event.ofNote run))
  | advanced {now} : s.advance? now = some { s with now } → Did s (.advance now) { s with now } []

variable {s s' : System} {caller : Caller} {a : Action} {events : List Event} {out : Outcome}

/-- A pending call goes on in one of those ways, and what nobody can get at is let go. -/
def Goes (s : System) (caller : Caller) (out : Outcome) : Prop :=
  ∃ x, s.Went caller x out.2 ∧ (out.1 = x ∨ out.1 = x.release)

def Does (s : System) (a : Action) (out : Outcome) : Prop :=
  ∃ x, s.Did a x out.2 ∧ (out.1 = x ∨ out.1 = x.release)

theorem Goes.does (h : s.Goes caller out) : s.Does (.resume caller) out :=
  h.imp fun _ h => ⟨.resumed h.1, h.2⟩

theorem goes_of_runStart {sink : Nat} (hcall : s.call? caller = some (.start sink))
    (hheld : caller ∈ s.lock.held) : s.Goes caller (s.runStart caller sink) := by
  unfold runStart
  split
  · rename_i hstate
    split
    · exact ⟨_, .startRefused _ hcall hheld, .inr rfl⟩
    · rename_i hvalid
      exact ⟨_, .started hcall hheld hstate hvalid, .inr rfl⟩
  · exact ⟨_, .startRefused _ hcall hheld, .inr rfl⟩

theorem goes_of_runStop (hcall : s.call? caller = some .stop) (hheld : caller ∈ s.lock.held) :
    s.Goes caller (s.runStop caller) := by
  unfold runStop
  split
  · rename_i hstate
    split
    · rename_i run hslot
      exact ⟨_, .stopTaken hcall hheld hstate hslot, .inl rfl⟩
    · rename_i hslot
      exact ⟨_, .stopRefused .stopped hcall hheld (.inr ⟨hslot, rfl⟩), .inr rfl⟩
  · rename_i hstate
    exact ⟨_, .stopRefused s.state hcall hheld (.inl ⟨hstate, rfl⟩), .inr rfl⟩

theorem goes_of_finishStop {run : Nat} {worker reporter : Except Panic Unit} {p : Pipeline Caller}
    (hcall : s.call? caller = some (.draining run worker)) (hp : s.pipelines[run]? = some p)
    (hreporter : p.reporter.outcome? = some reporter) :
    s.Goes caller (s.finishStop caller run worker reporter) := by
  have hwent := Went.stopped hcall hp hreporter
  unfold finishStop
  dsimp only [reply, stopEvents] at *
  split at hwent <;> rename_i hresult <;> simp only [hresult] at hwent ⊢ <;>
    exact ⟨_, hwent, .inr rfl⟩

theorem goes_of_resumeEnqueue {run : Nat} {m : Message}
    (hcall : s.call? caller = some (.enqueue run m))
    (h : s.resumeEnqueue? caller run m = some out) : s.Goes caller out := by
  unfold resumeEnqueue? at h
  split at h
  · contradiction
  · rename_i p hp
    split at h
    · obtain rfl := Option.some.inj h
      exact ⟨_, .enqueued hcall hp ‹_›, .inr rfl⟩
    · obtain rfl := Option.some.inj h
      exact ⟨_, .rejected hcall hp ‹_›, .inr rfl⟩
    · contradiction

theorem goes_of_resume (h : s.resume? caller = some out) : s.Goes caller out := by
  unfold resume? at h
  split at h
  · contradiction
  · split at h <;> simp only [Option.some.injEq, reduceCtorEq] at h
    exact h ▸ goes_of_runStart ‹_› (Permits.holds_iff.mp ‹_›)
  · split at h <;> simp only [Option.some.injEq, reduceCtorEq] at h
    exact h ▸ goes_of_runStop ‹_› (Permits.holds_iff.mp ‹_›)
  · split at h <;> simp only [Option.some.injEq, reduceCtorEq] at h
    rename_i hcall _ _ hworker
    obtain ⟨p, hp, hworker⟩ := Option.bind_eq_some_iff.mp hworker
    exact h ▸ ⟨_, .workerEnded hcall hp hworker, .inl rfl⟩
  · split at h <;> simp only [Option.some.injEq, reduceCtorEq] at h
    rename_i hcall _ _ hreporter
    obtain ⟨p, hp, hreporter⟩ := Option.bind_eq_some_iff.mp hreporter
    exact h ▸ goes_of_finishStop hcall hp hreporter
  · exact goes_of_resumeEnqueue ‹_› h

theorem call?_eq_none_of_mayCall (h : s.mayCall caller = true) : s.call? caller = none := by
  simp only [mayCall, Bool.and_eq_true, Option.isNone_iff_eq_none] at h
  exact h.1

theorem forget_await (s : System) (caller : Caller) (c : Call) :
    (s.await caller c).forget caller = s.forget caller := by
  simp only [forget, await, Calls.without_await]

theorem await_await (s : System) (caller : Caller) (c k : Call) :
    (s.await caller c).await caller k = s.await caller k := by
  simp only [await, Calls.without_await]

theorem reply_await (s : System) (caller : Caller) (c : Call) (r : Reply) :
    (s.await caller c).reply caller r = s.reply caller r := by
  simp only [reply, forget_await]

theorem startRun_await (s : System) (caller : Caller) (c : Call) (sink : Nat) :
    (s.await caller c).startRun sink = (s.startRun sink).await caller c := by
  unfold startRun dropIntake
  dsimp only [await]
  split <;> rfl

theorem runStart_await (s : System) (caller : Caller) (c : Call) (sink : Nat) :
    (s.await caller c).runStart caller sink = s.runStart caller sink := by
  have hstarted : (((s.await caller c).startRun sink).unlock caller).reply caller
      (.started (.ok ())) = ((s.startRun sink).unlock caller).reply caller (.started (.ok ())) := by
    rw [startRun_await]
    exact reply_await ((s.startRun sink).unlock caller) caller c _
  have hrefused (r : Reply) :
      ((s.await caller c).unlock caller).reply caller r = (s.unlock caller).reply caller r :=
    reply_await (s.unlock caller) caller c r
  unfold runStart
  rw [hstarted]
  simp only [hrefused]
  rfl

theorem takeOver_await (s : System) (caller : Caller) (c : Call) (run : Nat) :
    (s.await caller c).takeOver caller run = s.takeOver caller run :=
  await_await (({ s with slot := none } : System).modifyPipeline run fun p =>
    { p with feed := { p.feed with stopRequested := true } }) caller c (.stopping run)

theorem runStop_await (s : System) (caller : Caller) (c : Call) :
    (s.await caller c).runStop caller = s.runStop caller := by
  have hrefused (state : Lifecycle) (r : Reply) :
      (({ s.await caller c with state } : System).unlock caller).reply caller r =
        (({ s with state } : System).unlock caller).reply caller r :=
    reply_await (({ s with state } : System).unlock caller) caller c r
  have hstate : (s.await caller c).state = s.state := rfl
  have hslot : (s.await caller c).slot = s.slot := rfl
  unfold runStop
  rw [hstate, hslot]
  split
  · split
    · exact congrArg (·, []) (takeOver_await s caller c _)
    · exact hrefused .stopped _
  · exact hrefused s.state _

theorem does_of_takeLock {c : Call} {run : System → Outcome} (ha : Asks a caller c)
    (hcall : s.mayCall caller = true)
    (hrun : ∀ s : System, s.call? caller = some c → caller ∈ s.lock.held →
      s.Goes caller (run s))
    (hawait : ∀ s : System, run (s.await caller c) = run s) :
    s.Does a (s.takeLock caller c run) := by
  unfold takeLock
  dsimp only
  split
  · rename_i hholds
    obtain ⟨x, hwent, hx⟩ := hrun (s.ask caller c)
      (Calls.lookup_await (call?_eq_none_of_mayCall hcall)) (Permits.holds_iff.mp hholds)
    rw [ask, hawait] at hwent hx
    exact ⟨x, .atOnce ha hcall hwent, hx⟩
  · exact ⟨_, .asked ha hcall, .inl rfl⟩

theorem does_enqueue {m : Message} (hcall : s.mayCall caller = true) :
    s.Does (.enqueue caller m) (s.enqueue caller m) := by
  unfold enqueue
  dsimp only
  split
  · rename_i hstate
    split
    · exact ⟨_, .notRunning hcall, .inl rfl⟩
    · rename_i run hintake
      split
      · exact ⟨_, .notRunning hcall, .inl rfl⟩
      · rename_i p hp
        generalize hsend : p.feed.channel.send caller m = sent
        obtain ⟨c, arrival⟩ := sent
        cases arrival with
        | accepted => exact ⟨_, .enqueued hcall hstate hintake hp hsend, .inl rfl⟩
        | waiting => exact ⟨_, .enqueueWaits hcall hstate hintake hp hsend, .inl rfl⟩
        | refused => exact ⟨_, .rejected hcall hstate hintake hp hsend, .inl rfl⟩
  · exact ⟨_, .notRunning hcall, .inl rfl⟩

theorem does_of_abort (h : s.abort? caller = some s') : s.Does (.abort caller) (s', []) := by
  unfold abort? at h
  split at h <;> simp only [Option.some.injEq, reduceCtorEq] at h <;> subst h
  · exact ⟨_, .lockAborted ‹_› rfl, .inr rfl⟩
  · exact ⟨_, .lockAborted ‹_› rfl, .inr rfl⟩
  · exact ⟨_, .stoppingAborted ‹_›, .inr rfl⟩
  · exact ⟨_, .drainingAborted ‹_›, .inr rfl⟩
  · exact ⟨_, .enqueueAborted ‹_›, .inr rfl⟩

theorem does_of_move {run : Nat} {m : Move} (h : s.move? run m = some out) :
    s.Does (.move run m) out := by
  unfold move? at h
  split at h
  · contradiction
  · rename_i p hp
    split at h
    · rename_i hallowed
      split at h
      · contradiction
      · rename_i hstep
        obtain rfl := Option.some.inj h
        exact ⟨_, .moved hp hallowed (Pipeline.moved_of_step hstep), .inr rfl⟩
    · contradiction

theorem does_of_step (h : s.step a = some out) : s.Does a out := by
  cases a with
  | start caller sink =>
    simp only [step, Option.ite_none_right_eq_some, Option.some.injEq] at h
    exact h.2 ▸ does_of_takeLock (.start caller sink) h.1 (fun _ => goes_of_runStart)
      fun s => runStart_await s caller _ sink
  | stop caller =>
    simp only [step, Option.ite_none_right_eq_some, Option.some.injEq] at h
    exact h.2 ▸ does_of_takeLock (.stop caller) h.1 (fun _ => goes_of_runStop)
      fun s => runStop_await s caller _
  | enqueue caller m =>
    simp only [step, Option.ite_none_right_eq_some, Option.some.injEq] at h
    exact h.2 ▸ does_enqueue h.1
  | abort caller =>
    simp only [step, Option.map_eq_some_iff] at h
    obtain ⟨s', hs', rfl⟩ := h
    exact does_of_abort hs'
  | addHandle =>
    simp only [step, Option.ite_none_right_eq_some, Option.some.injEq] at h
    exact h.2 ▸ ⟨_, .handleAdded h.1, .inl rfl⟩
  | dropHandle =>
    simp only [step, Option.ite_none_right_eq_some, Option.some.injEq] at h
    exact h.2 ▸ ⟨_, .handleDropped h.1, .inr rfl⟩
  | resume caller => exact (goes_of_resume h).does
  | move run m => exact does_of_move h
  | advance now =>
    simp only [step, Option.map_eq_some_iff] at h
    obtain ⟨s', hs', rfl⟩ := h
    have heq : s' = { s with now } := by
      simp only [advance?, Option.ite_none_right_eq_some, Option.some.injEq] at hs'
      exact hs'.2.symm
    subst heq
    exact ⟨_, .advanced hs', .inl rfl⟩

end System

end Batchflow.Enqueuer
