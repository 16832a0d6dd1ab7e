import Batchflow.Pool.System
import Batchflow.Proofs.Calls
import Batchflow.Proofs.Channel

/-!
# What an action of a pool does

To submit work and to tell a worker to exit are one thing with two jobs: the inbox takes the job,
or the call waits for it, or it is sent away.  Relations say all that can happen to a caller that
looks at the list, to a pending call that goes on, to a worker that moves, and by an action.
-/

namespace Batchflow.Pool

variable {ω : Type}

namespace Job

/-- The call that brings a job to a worker. -/
def action (call worker : Nat) : Job ω → Action ω
  | .work w => .submit call worker w
  | .stop => .exit call worker

/-- The call that waits to bring a job to a worker. -/
def call (worker : Nat) : Job ω → Call ω
  | .work w => .submit worker w
  | .stop => .exit worker

def takenReply : Job ω → Reply ω
  | .work _ => .accepted
  | .stop => .exited

def refusedReply : Job ω → Reply ω
  | .work w => .exitedWorker w
  | .stop => .exited

end Job

def Worker.offered (w : Worker ω) (inbox : Channel Nat (Job ω)) : Job ω → Worker ω
  | .work _ => { w with inbox }
  | .stop => ({ w with inbox } : Worker ω).retire

namespace System

def ask (s : System ω) (call : Nat) : System ω :=
  ({ s with turn := s.turn.request call } : System ω).await call .acquire

/-- What a caller finds on the list when it is its turn. -/
inductive Took (s : System ω) (call : Nat) : Outcome ω → Prop
  | skipped {worker available} : s.available = worker :: available → s.hasExited worker = true →
      Took s call ({ s with available }, [])
  | acquired {worker available} : s.available = worker :: available → s.hasExited worker = false →
      Took s call (({ s with available, turn := s.turn.giveBack call } : System ω).reply call
        (.acquired (some worker)))
  | nobody : s.available = [] → s.live = 0 →
      Took s call (({ s with turn := s.turn.giveBack call } : System ω).reply call (.acquired none))

/-- How a pending call may go on. -/
inductive Went (s : System ω) (call : Nat) : Outcome ω → Prop
  | took {out} : s.call? call = some .acquire → call ∈ s.turn.held → s.Took call out →
      Went s call out
  | sent {worker w} (job : Job ω) : s.call? call = some (job.call worker) →
      s.worker? worker = some w → w.inbox.resume? call = some .accepted →
      Went s call ((s.setWorker worker { w with inbox := w.inbox.fill call job }).forget call,
        [.took worker job, .replied call job.takenReply])
  | sentAway {worker w} (job : Job ω) : s.call? call = some (job.call worker) →
      s.worker? worker = some w → w.inbox.resume? call = some .refused →
      Went s call ((s.setWorker worker { w with inbox := w.inbox.leave call }).reply call
        job.refusedReply)
  | waited {released} : s.call? call = some (.wait released) → released = true ∨ s.active = 0 →
      Went s call (s.reply call .waited)

/-- How a worker may move. -/
inductive Moved (s : System ω) (worker : Nat) (w : Worker ω) : Move → Outcome ω → Prop
  | registered : w.phase = .free → s.listening = true →
      Moved s worker w .register
        (({ s with available := s.available ++ [worker] } : System ω).setWorker worker
          { w with phase := .waiting }, [.registered worker])
  | unheard : w.phase = .free → s.listening = false →
      Moved s worker w .register (s.endWorker worker w)
  | began {work inbox} : w.phase = .waiting → w.inbox.receive? = some (.work work, inbox) →
      Moved s worker w .receive
        (s.setWorker worker { w with inbox, phase := .working work }, [.began worker work])
  | stopped {inbox} : w.phase = .waiting → w.inbox.receive? = some (.stop, inbox) →
      Moved s worker w .receive (s.endWorker worker { w with inbox })
  | deserted : w.phase = .waiting → w.inbox.exhausted = true →
      Moved s worker w .noticeEnd (s.endWorker worker w)
  | kept {work} : w.phase = .working work →
      Moved s worker w (.workReturns true) (s.setWorker worker { w with phase := .free }, [])
  | gone {work} : w.phase = .working work →
      Moved s worker w (.workReturns false) (s.endWorker worker w)
  | panicked {work} (p : Panic) : w.phase = .working work →
      Moved s worker w (.workPanics p)
        ((s.setWorker worker (w.finish (.panicked p))).releaseWaiting, [.ended worker])

inductive Did (s : System ω) : Action ω → Outcome ω → Prop
  | added : s.owned = true →
      Did s .addWorker ({ s with workers := s.workers ++ [.new], live := s.live + 1 }, [])
  | asked {call} : s.owned = true → s.call? call = none → Did s (.acquire call) (s.ask call, [])
  | atOnce {call out} : s.owned = true → s.call? call = none → call ∈ (s.ask call).turn.held →
      (s.ask call).Took call out → Did s (.acquire call) out
  | late {call worker w} (job : Job ω) : s.call? call = none → s.worker? worker = some w →
      w.exited = true → Did s (job.action call worker) (s, [.replied call job.refusedReply])
  | sent {call worker w inbox} (job : Job ω) : s.call? call = none → s.worker? worker = some w →
      w.exited = false → w.inbox.send call job = (inbox, .accepted) →
      Did s (job.action call worker) (s.setWorker worker (w.offered inbox job),
        [.took worker job, .replied call job.takenReply])
  | sendWaits {call worker w inbox} (job : Job ω) : s.call? call = none →
      s.worker? worker = some w → w.exited = false → w.inbox.send call job = (inbox, .waiting) →
      Did s (job.action call worker)
        ((s.setWorker worker (w.offered inbox job)).await call (job.call worker), [])
  | sentAway {call worker w inbox} (job : Job ω) : s.call? call = none →
      s.worker? worker = some w → w.exited = false → w.inbox.send call job = (inbox, .refused) →
      Did s (job.action call worker)
        (s.setWorker worker (w.offered inbox job), [.replied call job.refusedReply])
  | waited {call} : s.owned = true → s.call? call = none → s.active = 0 →
      Did s (.wait call) ({ s with closed := true }, [.replied call .waited])
  | waits {call} : s.owned = true → s.call? call = none → s.active ≠ 0 →
      Did s (.wait call) (({ s with closed := true } : System ω).await call (.wait false), [])
  | dropped : s.owned = true →
      Did s .drop (({ s with owned := false } : System ω).releasePool, [])
  | acquireAborted {call} : s.call? call = some .acquire →
      Did s (.abort call) (({ s with turn := s.turn.leave call } : System ω).forget call, [])
  | sendAborted {call worker} (job : Job ω) : s.call? call = some (job.call worker) →
      Did s (.abort call) ((s.leaveInbox worker call).forget call, [])
  | waitAborted {call released} : s.call? call = some (.wait released) →
      Did s (.abort call) (s.forget call, [])
  | resumed {call out} : s.Went call out → Did s (.resume call) out
  | moved {worker w m out} : s.worker? worker = some w → s.Moved worker w m out →
      Did s (.move worker m) out

variable {s s' : System ω} {call worker : Nat} {a : Action ω} {out : Outcome ω}

theorem took_of_takeAvailable (h : s.takeAvailable call = some out) : s.Took call out := by
  unfold takeAvailable at h
  split at h
  · rename_i worker available havailable
    dsimp only at h
    split at h
    · rename_i hexited
      obtain rfl := Option.some.inj h
      exact .skipped havailable hexited
    · rename_i hexited
      obtain rfl := Option.some.inj h
      exact .acquired havailable (Bool.eq_false_iff.mpr hexited)
  · rename_i havailable
    split at h
    · rename_i hlive
      obtain rfl := Option.some.inj h
      exact .nobody havailable hlive
    · cases h

theorem did_of_acquire (howned : s.owned = true) (hnew : s.call? call = none) :
    s.Did (.acquire call) (s.acquire call) := by
  change s.Did _ (if (s.ask call).turn.holds call then
    ((s.ask call).takeAvailable call).getD (s.ask call, []) else (s.ask call, []))
  split
  · rename_i hholds
    cases htake : (s.ask call).takeAvailable call with
    | none => exact .asked howned hnew
    | some out =>
      exact .atOnce howned hnew (Permits.holds_iff.mp hholds) (took_of_takeAvailable htake)
  · exact .asked howned hnew

theorem did_of_submit {work : ω} (hnew : s.call? call = none)
    (h : s.submit? call worker work = some out) : s.Did (.submit call worker work) out := by
  unfold submit? at h
  split at h
  · cases h
  · rename_i w hw
    split at h
    · rename_i hexited
      obtain rfl := Option.some.inj h
      exact .late (.work work) hnew hw hexited
    · rename_i hexited
      rw [Bool.not_eq_true] at hexited
      rcases hsend : w.inbox.send call (.work work) with ⟨inbox, arrival⟩
      rw [hsend] at h
      cases arrival with
      | accepted =>
        obtain rfl := Option.some.inj h
        exact .sent (.work work) hnew hw hexited hsend
      | waiting =>
        obtain rfl := Option.some.inj h
        exact .sendWaits (.work work) hnew hw hexited hsend
      | refused =>
        obtain rfl := Option.some.inj h
        exact .sentAway (.work work) hnew hw hexited hsend

theorem did_of_exit (hnew : s.call? call = none) (h : s.exit? call worker = some out) :
    s.Did (.exit call worker) out := by
  unfold exit? at h
  split at h
  · cases h
  · rename_i w hw
    split at h
    · rename_i hexited
      obtain rfl := Option.some.inj h
      exact .late .stop hnew hw hexited
    · rename_i hexited
      rw [Bool.not_eq_true] at hexited
      rcases hsend : w.inbox.send call .stop with ⟨inbox, arrival⟩
      rw [hsend] at h
      cases arrival with
      | accepted =>
        obtain rfl := Option.some.inj h
        exact .sent .stop hnew hw hexited hsend
      | waiting =>
        obtain rfl := Option.some.inj h
        exact .sendWaits .stop hnew hw hexited hsend
      | refused =>
        obtain rfl := Option.some.inj h
        exact .sentAway .stop hnew hw hexited hsend

theorem went_of_resumeSend (job : Job ω) (hcall : s.call? call = some (job.call worker))
    (h : s.resumeSend call worker job job.takenReply job.refusedReply = some out) :
    s.Went call out := by
  unfold resumeSend at h
  split at h
  · cases h
  · rename_i w hw
    split at h
    · rename_i hresume
      obtain rfl := Option.some.inj h
      exact .sent job hcall hw hresume
    · rename_i hresume
      obtain rfl := Option.some.inj h
      exact .sentAway job hcall hw hresume
    · cases h

theorem went_of_resume (h : s.resume? call = some out) : s.Went call out := by
  unfold resume? at h
  split at h
  · cases h
  · rename_i hcall
    obtain ⟨hholds, h⟩ := Option.ite_none_right_eq_some.mp h
    exact .took hcall (Permits.holds_iff.mp hholds) (took_of_takeAvailable h)
  · rename_i worker work hcall
    exact went_of_resumeSend (.work work) hcall h
  · rename_i worker hcall
    exact went_of_resumeSend .stop hcall h
  · rename_i released hcall
    obtain ⟨hreleased, h⟩ := Option.ite_none_right_eq_some.mp h
    obtain rfl := Option.some.inj h
    exact .waited hcall (by simpa using hreleased)

theorem did_of_abort (h : s.abort? call = some s') : s.Did (.abort call) (s', []) := by
  unfold abort? at h
  split at h
  · cases h
  · obtain rfl := Option.some.inj h
    exact .acquireAborted ‹_›
  · rename_i worker work hcall
    obtain rfl := Option.some.inj h
    exact .sendAborted (.work work) hcall
  · rename_i worker hcall
    obtain rfl := Option.some.inj h
    exact .sendAborted .stop hcall
  · obtain rfl := Option.some.inj h
    exact .waitAborted ‹_›

theorem moved_of_move {m : Move} (h : s.move? worker m = some out) :
    ∃ w, s.worker? worker = some w ∧ s.Moved worker w m out := by
  unfold move? at h
  split at h
  · cases h
  · rename_i w hw
    refine ⟨w, hw, ?_⟩
    split at h
    · rename_i hphase
      split at h
      · rename_i hlistening
        obtain rfl := Option.some.inj h
        exact .registered hphase hlistening
      · rename_i hdeaf
        obtain rfl := Option.some.inj h
        exact .unheard hphase (Bool.eq_false_iff.mpr hdeaf)
    · rename_i hphase
      unfold receive? at h
      split at h
      · cases h
      · rename_i hreceive
        obtain rfl := Option.some.inj h
        exact .began hphase hreceive
      · rename_i hreceive
        obtain rfl := Option.some.inj h
        exact .stopped hphase hreceive
    · rename_i hphase
      obtain ⟨hexhausted, h⟩ := Option.ite_none_right_eq_some.mp h
      obtain rfl := Option.some.inj h
      exact .deserted hphase hexhausted
    · rename_i hphase
      obtain rfl := Option.some.inj h
      exact .kept hphase
    · rename_i hphase
      obtain rfl := Option.some.inj h
      exact .gone hphase
    · rename_i p hphase
      obtain rfl := Option.some.inj h
      exact .panicked p hphase
    · cases h

theorem did_of_step (h : s.step a = some out) : s.Did a out := by
  cases a with
  | addWorker =>
    obtain ⟨howned, h⟩ := Option.ite_none_right_eq_some.mp h
    obtain rfl := Option.some.inj h
    exact .added howned
  | acquire call =>
    obtain ⟨hmay, h⟩ := Option.ite_none_right_eq_some.mp h
    obtain ⟨howned, hnew⟩ := Bool.and_eq_true_iff.mp hmay
    obtain rfl := Option.some.inj h
    exact did_of_acquire howned (Option.isNone_iff_eq_none.mp hnew)
  | submit call worker work =>
    obtain ⟨hnew, h⟩ := Option.ite_none_right_eq_some.mp h
    exact did_of_submit (Option.isNone_iff_eq_none.mp hnew) h
  | exit call worker =>
    obtain ⟨hnew, h⟩ := Option.ite_none_right_eq_some.mp h
    exact did_of_exit (Option.isNone_iff_eq_none.mp hnew) h
  | wait call =>
    obtain ⟨hmay, h⟩ := Option.ite_none_right_eq_some.mp h
    obtain ⟨howned, hnew⟩ := Bool.and_eq_true_iff.mp hmay
    rw [unused, Option.isNone_iff_eq_none] at hnew
    obtain rfl := Option.some.inj h
    change s.Did _ (if s.active = 0 then _ else _)
    split
    · rename_i hactive
      exact .waited howned hnew hactive
    · rename_i hactive
      exact .waits howned hnew hactive
  | drop =>
    obtain ⟨howned, h⟩ := Option.ite_none_right_eq_some.mp h
    obtain rfl := Option.some.inj h
    exact .dropped howned
  | abort call =>
    obtain ⟨s', habort, rfl⟩ := Option.map_eq_some_iff.mp h
    exact did_of_abort habort
  | resume call => exact .resumed (went_of_resume h)
  | move worker m =>
    obtain ⟨w, hw, hmoved⟩ := moved_of_move h
    exact .moved hw hmoved

end System

end Batchflow.Pool
