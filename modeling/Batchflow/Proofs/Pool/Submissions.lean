import Batchflow.Proofs.Pool.Liveness

/-!
# What becomes of a unit of work

A unit of work that somebody submits is taken by the inbox of the worker, or comes back because the
worker has exited, or waits with its call, and is dropped when the caller gives up.  Each has one
fate, and the caller hears which.
-/

namespace Batchflow.Pool

variable {ω : Type}

def Job.work? : Job ω → Option ω
  | .work w => some w
  | .stop => none

def Call.work? : Call ω → Option ω
  | .submit _ work => some work
  | _ => none

def Action.submitted? : Action ω → Option ω
  | .submit _ _ work => some work
  | _ => none

def Event.taken? : Event ω → Option ω
  | .took _ job => job.work?
  | _ => none

def Event.refused? : Event ω → Option ω
  | .replied _ (.exitedWorker work) => some work
  | _ => none

namespace Job

theorem submitted?_action (job : Job ω) (call worker : Nat) :
    (job.action call worker).submitted? = job.work? := by
  cases job <;> rfl

theorem work?_call (job : Job ω) (worker : Nat) : (job.call worker).work? = job.work? := by
  cases job <;> rfl

theorem taken_of_taken (job : Job ω) (call worker : Nat) :
    [.took worker job, .replied call job.takenReply].filterMap Event.taken? = job.work?.toList := by
  cases job <;> rfl

theorem refused_of_taken (job : Job ω) (call worker : Nat) :
    [.took worker job, .replied call job.takenReply].filterMap Event.refused? = [] := by
  cases job <;> rfl

theorem taken_of_refused (job : Job ω) (call : Nat) :
    [.replied call job.refusedReply].filterMap Event.taken? = [] := by
  cases job <;> rfl

theorem refused_of_refused (job : Job ω) (call : Nat) :
    [.replied call job.refusedReply].filterMap Event.refused? = job.work?.toList := by
  cases job <;> rfl

end Job

namespace System

variable {s s' : System ω} {a : Action ω} {events : List (Event ω)} {out : Outcome ω} {call : Nat}
  {c : Call ω} {turns : History ω} {name : String}

/-- The units of work that wait with their calls. -/
def waiting (s : System ω) : List ω := s.calls.filterMap fun e => e.2.work?

def dropped? (s : System ω) : Action ω → Option ω
  | .abort call => (s.call? call).bind Call.work?
  | _ => none

/-- The units of work that were submitted so far. -/
def submitted (turns : History ω) : List ω := turns.filterMap fun t => t.action.submitted?

def taken (turns : History ω) : List ω := turns.flatMap fun t => t.events.filterMap Event.taken?

def refused (turns : History ω) : List ω := turns.flatMap fun t => t.events.filterMap Event.refused?

def dropped (turns : History ω) : List ω := turns.filterMap fun t => t.before.dropped? t.action

def Brings (s : System ω) (a : Action ω) (call worker : Nat) (job : Job ω) : Prop :=
  a = job.action call worker ∨ a = .resume call ∧ s.call? call = some (job.call worker)

/-- What those who bring jobs may hear: that the inbox took the job, or that the worker has exited;
or nothing. -/
inductive Answered (s : System ω) (a : Action ω) : List (Event ω) → Prop
  | taken {call worker : Nat} {job : Job ω} : s.Brings a call worker job →
      Answered s a [.took worker job, .replied call job.takenReply]
  | refused {call worker : Nat} {job : Job ω} : s.Brings a call worker job →
      Answered s a [.replied call job.refusedReply]
  | silent {events : List (Event ω)} : (∀ worker job, .took worker job ∉ events) →
      (∀ call, .replied call .accepted ∉ events) →
      (∀ call work, .replied call (.exitedWorker work) ∉ events) → Answered s a events

theorem answered_of_took (h : s'.Took call out) : s.Answered a out.2 := by
  cases h <;> exact .silent (by simp [reply]) (by simp [reply]) (by simp [reply])

theorem answered_of_did (h : s.Did a out) : s.Answered a out.2 := by
  cases h with
  | atOnce _ _ _ htook => exact answered_of_took htook
  | late => exact .refused (.inl rfl)
  | sent => exact .taken (.inl rfl)
  | sentAway => exact .refused (.inl rfl)
  | resumed hwent =>
    cases hwent with
    | took _ _ htook => exact answered_of_took htook
    | sent _ hcall => exact .taken (.inr ⟨rfl, hcall⟩)
    | sentAway _ hcall => exact .refused (.inr ⟨rfl, hcall⟩)
    | waited => exact .silent (by simp [reply]) (by simp [reply]) (by simp [reply])
  | moved _ hmoved =>
    cases hmoved <;> exact .silent (by simp [endWorker]) (by simp [endWorker]) (by simp [endWorker])
  | _ => exact .silent (by simp) (by simp) (by simp)

theorem brings_of_took {worker : Nat} {job : Job ω} (h : s.step a = some (s', events))
    (htook : .took worker job ∈ events) :
    ∃ call, s.Brings a call worker job ∧ .replied call job.takenReply ∈ events := by
  have hanswered : s.Answered a events := answered_of_did (did_of_step h)
  cases hanswered with
  | @taken call _ _ hbrings =>
    obtain ⟨rfl, rfl⟩ : worker = _ ∧ job = _ := by simpa using htook
    exact ⟨call, hbrings, by simp⟩
  | refused => simp at htook
  | silent hnone => exact absurd htook (hnone worker job)

theorem brings_of_accepted (h : s.step a = some (s', events))
    (hreply : .replied call .accepted ∈ events) :
    ∃ worker work, s.Brings a call worker (.work work) ∧ .took worker (.work work) ∈ events := by
  have hanswered : s.Answered a events := answered_of_did (did_of_step h)
  cases hanswered with
  | @taken _ worker job hbrings =>
    cases job with
    | work work =>
      obtain rfl : call = _ := by simpa [Job.takenReply] using hreply
      exact ⟨worker, work, hbrings, List.mem_cons_self⟩
    | stop => simp [Job.takenReply] at hreply
  | @refused _ _ job => cases job <;> simp [Job.refusedReply] at hreply
  | silent _ hnone => exact absurd hreply (hnone call)

theorem brings_of_refused {work : ω} (h : s.step a = some (s', events))
    (hreply : .replied call (.exitedWorker work) ∈ events) :
    ∃ worker, s.Brings a call worker (.work work) := by
  have hanswered : s.Answered a events := answered_of_did (did_of_step h)
  cases hanswered with
  | @taken _ _ job => cases job <;> simp [Job.takenReply] at hreply
  | @refused _ worker job hbrings =>
    cases job with
    | work w =>
      obtain ⟨rfl, rfl⟩ : call = _ ∧ work = w := by simpa [Job.refusedReply] using hreply
      exact ⟨worker, hbrings⟩
    | stop => simp [Job.refusedReply] at hreply
  | silent _ _ hnone => exact absurd hreply (hnone call work)

theorem waiting_releaseWaiting (s : System ω) : s.releaseWaiting.waiting = s.waiting := by
  unfold releaseWaiting
  split
  · unfold waiting
    rw [List.filterMap_map]
    refine List.filterMap_congr ?_
    rintro ⟨n, c⟩ -
    cases c <;> rfl
  · rfl

theorem dropped?_action (s : System ω) (job : Job ω) (call worker : Nat) :
    s.dropped? (job.action call worker) = none := by
  cases job <;> rfl

theorem dropped?_abort (hcall : s.call? call = some c) : s.dropped? (.abort call) = c.work? := by
  rw [dropped?, hcall, Option.bind_some]

section Count

variable [DecidableEq ω]

/-- A call that is over takes its unit of work with it. -/
theorem count_forget (work : ω) (hkeys : (s.calls.map Prod.fst).Nodup)
    (hcall : s.call? call = some c) (r : System ω) (hcalls : r.calls = s.calls) :
    s.waiting.count work = c.work?.toList.count work + (r.forget call).waiting.count work := by
  have hperm := (Calls.perm_without hkeys (Calls.mem_of_lookup hcall)).filterMap
    fun e : Nat × Call ω => e.2.work?
  have hforget : (r.forget call).calls = s.calls.filter (·.1 != call) := by
    rw [forget, calls_releasePool, hcalls]
  rw [waiting, hperm.count_eq, waiting, hforget, List.filterMap_cons]
  cases hwork : c.work? with
  | none => simp
  | some x =>
    rw [List.count_cons, Option.toList_some, List.count_singleton]
    omega

theorem count_forget_same (work : ω) (hkeys : (s.calls.map Prod.fst).Nodup)
    (hcall : s.call? call = some c) (hcalls : s'.calls = s.calls) (hc : c.work? = none) :
    (s'.forget call).waiting.count work = s.waiting.count work := by
  rw [count_forget work hkeys hcall s' hcalls, hc, Option.toList_none, List.count_nil, Nat.zero_add]

theorem count_await (work : ω) (hnew : s.call? call = none) (hcalls : s'.calls = s.calls) :
    (s'.await call c).waiting.count work = s.waiting.count work + c.work?.toList.count work := by
  rw [waiting, await, hcalls, Calls.without_eq_self hnew, List.filterMap_append, List.count_append]
  cases c <;> rfl

/-- A unit of work that was submitted or that waited is taken, or comes back, or waits, or is
dropped. -/
def Fated (work : ω) (s : System ω) (a : Action ω) (out : Outcome ω) : Prop :=
  a.submitted?.toList.count work + s.waiting.count work =
    out.1.waiting.count work + (out.2.filterMap Event.taken?).count work +
      (out.2.filterMap Event.refused?).count work + (s.dropped? a).toList.count work

variable {work : ω}

theorem fated_of_same (ha : a.submitted? = none) (hdropped : s.dropped? a = none)
    (hwaiting : s'.waiting.count work = s.waiting.count work)
    (htaken : events.filterMap Event.taken? = [])
    (hrefused : events.filterMap Event.refused? = []) : s.Fated work a (s', events) := by
  simp [Fated, ha, hdropped, hwaiting, htaken, hrefused]

/-- A job is taken by the inbox, or comes back. -/
theorem fated_of_answer {job : Job ω} (worker : Nat)
    (hwork : a.submitted?.toList.count work + s.waiting.count work =
      job.work?.toList.count work + s'.waiting.count work) (hdropped : s.dropped? a = none)
    (hevents : events = [.took worker job, .replied call job.takenReply] ∨
      events = [.replied call job.refusedReply]) : s.Fated work a (s', events) := by
  rw [Fated, hwork, hdropped, Option.toList_none, List.count_nil]
  dsimp only
  rcases hevents with rfl | rfl
  · rw [job.taken_of_taken, job.refused_of_taken, List.count_nil]
    omega
  · rw [job.taken_of_refused, job.refused_of_refused, List.count_nil]
    omega

theorem fated_of_took (hkeys : (s.calls.map Prod.fst).Nodup) (hcall : s.call? call = some .acquire)
    (ha : a.submitted? = none) (hdropped : s.dropped? a = none) (h : s.Took call out) :
    s.Fated work a out := by
  cases h with
  | skipped => exact fated_of_same ha hdropped rfl rfl rfl
  | acquired => exact fated_of_same ha hdropped (count_forget_same work hkeys hcall rfl rfl) rfl rfl
  | nobody => exact fated_of_same ha hdropped (count_forget_same work hkeys hcall rfl rfl) rfl rfl

theorem fated_of_went (hkeys : (s.calls.map Prod.fst).Nodup) (h : s.Went call out) :
    s.Fated work (.resume call) out := by
  cases h with
  | took hcall _ htook => exact fated_of_took hkeys hcall rfl rfl htook
  | @sent worker w job hcall =>
    have hcount := count_forget work hkeys hcall
      (s.setWorker worker { w with inbox := w.inbox.fill call job }) rfl
    rw [job.work?_call] at hcount
    exact fated_of_answer worker ((Nat.zero_add _).trans hcount) rfl (.inl rfl)
  | @sentAway worker w job hcall =>
    have hcount := count_forget work hkeys hcall
      (s.setWorker worker { w with inbox := w.inbox.leave call }) rfl
    rw [job.work?_call] at hcount
    exact fated_of_answer worker ((Nat.zero_add _).trans hcount) rfl (.inr rfl)
  | waited hcall => exact fated_of_same rfl rfl (count_forget_same work hkeys hcall rfl rfl) rfl rfl

theorem fated_of_moved {worker : Nat} {w : Worker ω} {m : Move} (h : s.Moved worker w m out) :
    s.Fated work (.move worker m) out := by
  have hended (w : Worker ω) : s.Fated work (.move worker m) (s.endWorker worker w) :=
    fated_of_same rfl rfl (congrArg _ (waiting_releaseWaiting _)) rfl rfl
  cases h with
  | registered => exact fated_of_same rfl rfl rfl rfl rfl
  | unheard => exact hended _
  | began => exact fated_of_same rfl rfl rfl rfl rfl
  | stopped => exact hended _
  | deserted => exact hended _
  | kept => exact fated_of_same rfl rfl rfl rfl rfl
  | gone => exact hended _
  | panicked => exact fated_of_same rfl rfl (congrArg _ (waiting_releaseWaiting _)) rfl rfl

theorem fated_of_did (hkeys : (s.calls.map Prod.fst).Nodup) (h : s.Did a out) :
    s.Fated work a out := by
  have hsubmitted (job : Job ω) (call worker : Nat) :
      (job.action call worker).submitted?.toList.count work + s.waiting.count work =
        job.work?.toList.count work + s.waiting.count work := by
    rw [job.submitted?_action]
  cases h with
  | added => exact fated_of_same rfl rfl rfl rfl rfl
  | asked _ hnew => exact fated_of_same rfl rfl (count_await work hnew rfl) rfl rfl
  | @atOnce call _ _ hnew _ htook =>
    have hask : (s.ask call).waiting.count work = s.waiting.count work := count_await work hnew rfl
    have htaken : (s.ask call).Fated work (.acquire call) out :=
      fated_of_took (Calls.keys_await hkeys) (Calls.lookup_await hnew) rfl rfl htook
    rw [Fated, hask] at htaken
    exact htaken
  | @late call worker _ job =>
    exact fated_of_answer worker (hsubmitted job call worker) (dropped?_action ..) (.inr rfl)
  | @sent call worker _ _ job =>
    exact fated_of_answer worker (hsubmitted job call worker) (dropped?_action ..) (.inl rfl)
  | @sendWaits call worker w inbox job hnew =>
    have hcount : ((s.setWorker worker (w.offered inbox job)).await call
        (job.call worker)).waiting.count work = _ := count_await work hnew rfl
    rw [Fated, job.submitted?_action, hcount, job.work?_call, dropped?_action]
    exact Nat.add_comm _ _
  | @sentAway call worker _ _ job =>
    exact fated_of_answer worker (hsubmitted job call worker) (dropped?_action ..) (.inr rfl)
  | waited => exact fated_of_same rfl rfl rfl rfl rfl
  | waits _ hnew => exact fated_of_same rfl rfl (count_await work hnew rfl) rfl rfl
  | dropped =>
    refine fated_of_same rfl rfl ?_ rfl rfl
    rw [waiting, calls_releasePool, waiting]
  | acquireAborted hcall =>
    exact fated_of_same rfl (dropped?_abort hcall) (count_forget_same work hkeys hcall rfl rfl)
      rfl rfl
  | @sendAborted call worker job hcall =>
    have hcalls : (s.leaveInbox worker call).calls = s.calls := by
      unfold leaveInbox
      split <;> rfl
    rw [Fated, dropped?_abort hcall, count_forget work hkeys hcall _ hcalls, job.work?_call]
    exact (Nat.zero_add _).trans (Nat.add_comm _ _)
  | waitAborted hcall =>
    exact fated_of_same rfl (dropped?_abort hcall) (count_forget_same work hkeys hcall rfl rfl)
      rfl rfl
  | resumed hwent => exact fated_of_went hkeys hwent
  | moved _ hmoved => exact fated_of_moved hmoved

/-- Every unit of work that was submitted waits, was taken, came back, or was dropped. -/
theorem fates_of_run (h : Run step (new name) turns s) (work : ω) :
    (submitted turns).count work = s.waiting.count work + (taken turns).count work +
      (refused turns).count work + (dropped turns).count work := by
  induction h with
  | nil => rfl
  | @snoc turns s s' a events hrun hstep ih =>
    have hfated : s.Fated work a (s', events) :=
      fated_of_did (queued_of_run hrun).guarded.keys (did_of_step hstep)
    have hsubmitted : submitted (turns ++ [⟨s, a, events⟩]) =
        submitted turns ++ a.submitted?.toList := by
      rw [submitted, List.filterMap_append]
      cases ha : a.submitted? <;> simp [submitted, ha]
    have hdropped : dropped (turns ++ [⟨s, a, events⟩]) =
        dropped turns ++ (s.dropped? a).toList := by
      rw [dropped, List.filterMap_append]
      cases ha : s.dropped? a <;> simp [dropped, ha]
    rw [hsubmitted, hdropped, taken, refused, List.flatMap_append, List.flatMap_append,
      List.flatMap_singleton, List.flatMap_singleton]
    simp only [List.count_append]
    rw [Fated] at hfated
    dsimp only at hfated
    rw [taken, refused] at ih
    omega

end Count

end System

end Batchflow.Pool
