import Batchflow.Proofs.Pool.Liveness

/-!
# What happens to one worker

An action gives the inbox of a worker a job, lets a call join the line for it or leave it, or moves
the worker; or it does nothing to this worker.  All that is seen of a worker is that its inbox takes
a job, that it begins a unit of work, and that it ends.
-/

namespace Batchflow.Pool

variable {ω : Type}

/-- What can be seen of one worker. -/
inductive Sight (ω : Type) where
  | took (job : Job ω)
  | began (work : ω)
  | ended

def Event.sight? (worker : Nat) : Event ω → Option (Sight ω)
  | .took i job => if i = worker then some (.took job) else none
  | .began i work => if i = worker then some (.began work) else none
  | .ended i => if i = worker then some .ended else none
  | _ => none

/-- What shows it. -/
def Sight.event (worker : Nat) : Sight ω → Event ω
  | .took job => .took worker job
  | .began work => .began worker work
  | .ended => .ended worker

theorem sight?_eq_some {e : Event ω} {worker : Nat} {x : Sight ω} :
    e.sight? worker = some x ↔ e = x.event worker := by
  cases e <;> cases x <;> simp [Event.sight?, Sight.event]

def Action.move? (worker : Nat) : Action ω → Option Move
  | .move i m => if i = worker then some m else none
  | _ => none

namespace Job

theorem call_inj {job k : Job ω} {i j : Nat} (h : job.call i = k.call j) : job = k ∧ i = j := by
  cases job <;> cases k <;> simp_all [call]

theorem move?_action (job : Job ω) (call worker i : Nat) :
    (job.action call worker).move? i = none := by
  cases job <;> rfl

theorem acquire_ne_call (job : Job ω) (worker : Nat) : .acquire ≠ job.call worker := by
  cases job <;> nofun

theorem wait_ne_call (job : Job ω) (released : Bool) (worker : Nat) :
    .wait released ≠ job.call worker := by
  cases job <;> nofun

theorem released_call (job : Job ω) (worker : Nat) :
    (job.call worker).released = job.call worker := by
  cases job <;> rfl

end Job

theorem Call.eq_of_released {c : Call ω} {job : Job ω} {worker : Nat}
    (h : c.released = job.call worker) : c = job.call worker := by
  cases c with
  | wait => cases job <;> cases h
  | _ => exact h

namespace Worker

/-- How a worker may end, in a pool whose list somebody reads or not, and what is left of it. -/
inductive Leaves (heard : Bool) (w : Worker ω) : Move → Worker ω → Prop
  | unheard : w.phase = .free → heard = false →
      Leaves heard w .register (w.retire.finish .returned)
  | stopped {inbox} : w.phase = .waiting → w.inbox.receive? = some (.stop, inbox) →
      Leaves heard w .receive (({ w with inbox } : Worker ω).retire.finish .returned)
  | deserted : w.phase = .waiting → w.inbox.exhausted = true →
      Leaves heard w .noticeEnd (w.retire.finish .returned)
  | gone {work} : w.phase = .working work →
      Leaves heard w (.workReturns false) (w.retire.finish .returned)
  | panicked {work} (p : Panic) : w.phase = .working work →
      Leaves heard w (.workPanics p) (w.finish (.panicked p))

end Worker

namespace System

variable {s s' : System ω} {a : Action ω} {events : List (Event ω)} {out : Outcome ω}
  {call other i j : Nat} {w w' : Worker ω} {k : Call ω} {job : Job ω} {m : Move}

def sights (worker : Nat) (events : List (Event ω)) : List (Sight ω) :=
  events.filterMap (Event.sight? worker)

theorem mem_sights {x : Sight ω} : x ∈ sights i events ↔ x.event i ∈ events := by
  simp [sights, List.mem_filterMap, sight?_eq_some]

def Sends (s : System ω) (worker call : Nat) (job : Job ω) : Prop :=
  s.call? call = some (job.call worker)

def SameSends (s s' : System ω) (worker : Nat) : Prop :=
  ∀ call job, s'.Sends worker call job ↔ s.Sends worker call job

theorem worker?_set_self (hw : s.worker? i = some w) (h : s'.workers = s.workers.set i w') :
    s'.worker? i = some w' := by
  obtain ⟨hlt, -⟩ := List.getElem?_eq_some_iff.mp hw
  rw [worker?, h, List.getElem?_set_self hlt]

theorem worker?_set_of_ne (hne : j ≠ i) (h : s'.workers = s.workers.set j w') :
    s'.worker? i = s.worker? i := by
  rw [worker?, h, List.getElem?_set_ne hne]
  rfl

theorem call?_forget_self : (s.forget call).call? call = none := by
  rw [call?, forget, calls_releasePool]
  exact Calls.lookup_without_self

theorem call?_forget_of_ne (h : other ≠ call) : (s.forget call).call? other = s.call? other := by
  rw [call?, forget, calls_releasePool]
  exact Calls.lookup_without_of_ne h

theorem workers_forget (s : System ω) (call : Nat) : (s.forget call).workers = s.workers :=
  workers_releasePool _

theorem worker?_forget : (s.forget call).worker? i = s.worker? i := by
  rw [worker?, workers_forget, worker?]

theorem sends_congr (h : s'.calls = s.calls) : s'.Sends i call job ↔ s.Sends i call job := by
  rw [Sends, Sends, call?, call?, h]

theorem sends_forget : (s.forget call).Sends i other job ↔ s.Sends i other job ∧ other ≠ call := by
  by_cases hne : other = call
  · subst hne
    simp [Sends, call?_forget_self]
  · simp [Sends, call?_forget_of_ne hne, hne]

theorem sends_forget_of_not (hcall : s.call? call = some k) (hk : ∀ job, k ≠ Job.call i job) :
    (s.forget call).Sends i other job ↔ s.Sends i other job := by
  rw [sends_forget, and_iff_left_iff_imp]
  rintro hsends rfl
  exact hk job (Option.some.inj (hcall.symm.trans hsends))

theorem sends_await (hnew : s.call? call = none) : (s.await call k).Sends i other job ↔
    s.Sends i other job ∨ other = call ∧ k = job.call i := by
  by_cases hne : other = call
  · subst hne
    have hnone : ¬ s.Sends i other job := by simp [Sends, hnew]
    have hcall : (s.await other k).call? other = some k := Calls.lookup_await hnew
    rw [Sends, hcall, Option.some.injEq]
    simp [hnone]
  · have hcall : (s.await call k).call? other = s.call? other := Calls.lookup_await_of_ne hne
    rw [Sends, hcall]
    simp [hne, Sends]

theorem sends_await_of_not (hnew : s.call? call = none) (hk : ∀ job, k ≠ Job.call i job) :
    (s.await call k).Sends i other job ↔ s.Sends i other job := by
  rw [sends_await hnew, or_iff_left_iff_imp]
  rintro ⟨-, rfl⟩
  exact absurd rfl (hk job)

theorem sends_releaseWaiting : s.releaseWaiting.Sends i call job ↔ s.Sends i call job := by
  have hreleased : s.releaseWaiting.call? call = s.call? call ∨
      s.releaseWaiting.call? call = (s.call? call).map Call.released := by
    unfold releaseWaiting
    split
    · refine .inr ((congrArg _ (List.map_congr_left ?_)).trans (Calls.lookup_map Call.released))
      rintro ⟨n, c⟩ -
      cases c <;> rfl
    · exact .inl rfl
  rcases hreleased with h | h
  · rw [Sends, Sends, h]
  · rw [Sends, Sends, h, Option.map_eq_some_iff]
    constructor
    · rintro ⟨c, hc, hreleased⟩
      rw [hc, Call.eq_of_released hreleased]
    · intro hc
      exact ⟨_, hc, job.released_call i⟩

/-- What an action may do to a worker and to the calls that bring it jobs, with what is seen of
it. -/
inductive Tended (s s' : System ω) (i : Nat) (a : Action ω) (w : Worker ω) :
    Worker ω → List (Sight ω) → Prop
  | same : a.move? i = none → s.SameSends s' i →
      Tended s s' i a w w []
  | took {call : Nat} {inbox} (job : Job ω) : a = job.action call i → w.exited = false →
      w.inbox.send call job = (inbox, .accepted) →
      s.SameSends s' i →
      Tended s s' i a w (w.offered inbox job) [.took job]
  | joined {call : Nat} {inbox} (job : Job ω) : a = job.action call i → s.call? call = none →
      w.exited = false → w.inbox.send call job = (inbox, .waiting) →
      (∀ other k, s'.Sends i other k ↔ s.Sends i other k ∨ other = call ∧ k = job) →
      Tended s s' i a w (w.offered inbox job) []
  | refused {call : Nat} {inbox} (job : Job ω) : a = job.action call i → w.exited = false →
      w.inbox.send call job = (inbox, .refused) →
      s.SameSends s' i →
      Tended s s' i a w (w.offered inbox job) []
  | filled {call : Nat} (job : Job ω) : a = .resume call → s.Sends i call job →
      w.inbox.resume? call = some .accepted →
      (∀ other k, s'.Sends i other k ↔ s.Sends i other k ∧ other ≠ call) →
      Tended s s' i a w { w with inbox := w.inbox.fill call job } [.took job]
  | left {call : Nat} : a.move? i = none →
      (∀ other k, s'.Sends i other k ↔ s.Sends i other k ∧ other ≠ call) →
      Tended s s' i a w { w with inbox := w.inbox.leave call } []
  | registered : a = .move i .register → w.phase = .free →
      s.SameSends s' i →
      Tended s s' i a w { w with phase := .waiting } []
  | began {work inbox} : a = .move i .receive → w.phase = .waiting →
      w.inbox.receive? = some (.work work, inbox) →
      s.SameSends s' i →
      Tended s s' i a w { w with inbox, phase := .working work } [.began work]
  | kept {work} : a = .move i (.workReturns true) → w.phase = .working work →
      s.SameSends s' i →
      Tended s s' i a w { w with phase := .free } []
  | ended {m : Move} {w' : Worker ω} : a = .move i m → w.Leaves s.listening m w' →
      s.SameSends s' i →
      Tended s s' i a w w' [.ended]

inductive Fared (s s' : System ω) (i : Nat) (a : Action ω) (seen : List (Sight ω)) : Prop
  | absent : s.worker? i = none → s'.worker? i = none →
      (∀ call job, s'.Sends i call job → s.Sends i call job) → seen = [] → Fared s s' i a seen
  | hired : s.worker? i = none → s'.worker? i = some .new →
      s.SameSends s' i → seen = [] → Fared s s' i a seen
  | tended {w w' : Worker ω} : s.worker? i = some w → s'.worker? i = some w' →
      s.Tended s' i a w w' seen → Fared s s' i a seen

theorem Fared.same (hworker : s'.worker? i = s.worker? i) (ha : a.move? i = none)
    (hcalls : s.SameSends s' i)
    (hseen : sights i events = []) : s.Fared s' i a (sights i events) := by
  rw [hseen]
  cases hw : s.worker? i with
  | none => exact .absent hw (hworker.trans hw) (fun call job => (hcalls call job).mp) rfl
  | some w => exact .tended hw (hworker.trans hw) (.same ha hcalls)

/-- Whoever looks at the list does nothing to a worker. -/
theorem spared_of_took (hcall : s.call? call = some .acquire) (h : s.Took call out) (i : Nat) :
    out.1.worker? i = s.worker? i ∧
      s.SameSends out.1 i ∧ sights i out.2 = [] := by
  refine ⟨by rw [worker?, (same_of_took h).1, worker?], fun other job => ?_, by cases h <;> rfl⟩
  cases h with
  | skipped => exact sends_congr rfl
  | @acquired worker available =>
    exact sends_forget_of_not (s := { s with available, turn := _ }) hcall
      fun job => job.acquire_ne_call i
  | nobody =>
    exact sends_forget_of_not (s := { s with turn := _ }) hcall fun job => job.acquire_ne_call i

theorem sights_taken (j i call : Nat) (job : Job ω) :
    sights i [.took j job, .replied call job.takenReply] = if j = i then [.took job] else [] := by
  by_cases h : j = i <;> simp [sights, Event.sight?, h]

theorem sights_refused (i call : Nat) (job : Job ω) :
    sights i [.replied call job.refusedReply] = [] := by
  cases job <;> rfl

theorem fared_of_ne (hne : j ≠ i) (hworkers : s'.workers = s.workers.set j w')
    (ha : a.move? i = none)
    (hcalls : s.SameSends s' i)
    (hseen : sights i events = []) : s.Fared s' i a (sights i events) :=
  .same (worker?_set_of_ne hne hworkers) ha hcalls hseen

theorem call_ne_of_ne (hne : j ≠ i) (job k : Job ω) : job.call j ≠ k.call i :=
  fun h => hne (Job.call_inj h).2

theorem fared_of_went (h : s.Went call out) (i : Nat) :
    s.Fared out.1 i (.resume call) (sights i out.2) := by
  cases h with
  | took hcall _ htook =>
    obtain ⟨hworker, hcalls, hseen⟩ := spared_of_took hcall htook i
    exact .same hworker rfl hcalls hseen
  | @sent j w job hcall hw hresume =>
    have hworkers := workers_forget (s.setWorker j { w with inbox := w.inbox.fill call job }) call
    by_cases hne : j = i
    · subst hne
      rw [sights_taken, if_pos rfl]
      refine .tended hw (worker?_set_self hw hworkers) (.filled job rfl hcall hresume ?_)
      exact fun other k => sends_forget
    · refine fared_of_ne hne hworkers rfl ?_ (by rw [sights_taken, if_neg hne])
      exact fun other k => sends_forget_of_not hcall fun k => call_ne_of_ne hne job k
  | @sentAway j w job hcall hw hresume =>
    have hworkers := workers_forget (s.setWorker j { w with inbox := w.inbox.leave call }) call
    by_cases hne : j = i
    · subst hne
      refine .tended hw (worker?_set_self hw hworkers) (.left rfl ?_)
      exact fun other k => sends_forget
    · refine fared_of_ne hne hworkers rfl ?_ rfl
      exact fun other k => sends_forget_of_not hcall fun k => call_ne_of_ne hne job k
  | @waited released hcall =>
    exact .same worker?_forget rfl
      (fun other k => sends_forget_of_not hcall fun k => k.wait_ne_call released i) rfl

/-- A worker that comes to its end, in an orderly way or not. -/
theorem fared_of_leaves {m : Move} (hw : s.worker? j = some w) (hleaves : w.Leaves s.listening m w')
    (hworkers : s'.workers = s.workers.set j w')
    (hcalls : s.SameSends s' i) :
    s.Fared s' i (.move j m) (sights i [.ended j]) := by
  by_cases hne : j = i
  · subst hne
    have hseen : sights j [(.ended j : Event ω)] = [.ended] := by simp [sights, Event.sight?]
    rw [hseen]
    exact .tended hw (worker?_set_self hw hworkers) (.ended rfl hleaves hcalls)
  · refine fared_of_ne hne hworkers ?_ hcalls ?_
    · simp [Action.move?, hne]
    · simp [sights, Event.sight?, hne]

theorem fared_of_endWorker {m : Move} {v : Worker ω} (hw : s.worker? j = some w)
    (hleaves : w.Leaves s.listening m (v.retire.finish .returned)) (i : Nat) :
    s.Fared (s.endWorker j v).1 i (.move j m) (sights i (s.endWorker j v).2) := by
  refine fared_of_leaves hw hleaves (workers_releaseWaiting _) ?_
  exact fun other job => sends_releaseWaiting.trans (sends_congr rfl)

theorem fared_of_moved {m : Move} (hw : s.worker? j = some w) (h : s.Moved j w m out) (i : Nat) :
    s.Fared out.1 i (.move j m) (sights i out.2) := by
  have hmove (hne : j ≠ i) : (.move j m : Action ω).move? i = none := by
    simp [Action.move?, hne]
  have hcalls : s.SameSends s i := fun _ _ => .rfl
  cases h with
  | registered hphase =>
    by_cases hne : j = i
    · subst hne
      exact .tended hw (worker?_set_self hw rfl) (.registered rfl hphase hcalls)
    · exact fared_of_ne hne rfl (hmove hne) hcalls rfl
  | unheard hphase hdeaf => exact fared_of_endWorker hw (.unheard hphase hdeaf) i
  | @began work inbox hphase hreceive =>
    by_cases hne : j = i
    · subst hne
      have hseen : sights j [.began j work] = [.began work] := by simp [sights, Event.sight?]
      rw [hseen]
      exact .tended hw (worker?_set_self hw rfl) (.began rfl hphase hreceive hcalls)
    · exact fared_of_ne hne rfl (hmove hne) hcalls (by simp [sights, Event.sight?, hne])
  | stopped hphase hreceive => exact fared_of_endWorker hw (.stopped hphase hreceive) i
  | deserted hphase hexhausted => exact fared_of_endWorker hw (.deserted hphase hexhausted) i
  | kept hphase =>
    by_cases hne : j = i
    · subst hne
      exact .tended hw (worker?_set_self hw rfl) (.kept rfl hphase hcalls)
    · exact fared_of_ne hne rfl (hmove hne) hcalls rfl
  | gone hphase => exact fared_of_endWorker hw (.gone hphase) i
  | panicked p hphase =>
    refine fared_of_leaves hw (.panicked p hphase) (workers_releaseWaiting _) ?_
    exact fun other job => sends_releaseWaiting.trans (sends_congr rfl)

/-- Whoever is hired comes last, and the others stay as they are. -/
theorem fared_of_hire (hworkers : s'.workers = s.workers ++ [.new]) (ha : a.move? i = none)
    (hcalls : s.SameSends s' i) : s.Fared s' i a (sights i []) := by
  have hworker : s'.worker? i =
      if i < s.workers.length then s.worker? i else [Worker.new][i - s.workers.length]? := by
    rw [worker?, hworkers]
    exact List.getElem?_append
  cases hw : s.worker? i with
  | some w =>
    obtain ⟨hlt, -⟩ := List.getElem?_eq_some_iff.mp hw
    rw [if_pos hlt, hw] at hworker
    exact .tended hw hworker (.same ha hcalls)
  | none =>
    have hge := List.getElem?_eq_none_iff.mp hw
    rw [if_neg (Nat.not_lt.mpr hge)] at hworker
    rcases Nat.eq_zero_or_pos (i - s.workers.length) with hlast | hbeyond
    · rw [hlast] at hworker
      exact .hired hw hworker hcalls rfl
    · have hbeyond := hworker.trans (List.getElem?_eq_none hbeyond)
      exact .absent hw hbeyond (fun call job => (hcalls call job).mp) rfl

/-- Whoever gives up sending leaves the line of one worker. -/
theorem fared_of_leaveInbox {job : Job ω} (hcall : s.call? call = some (job.call j)) (i : Nat) :
    s.Fared ((s.leaveInbox j call).forget call) i (.abort call) (sights i []) := by
  rw [leaveInbox]
  split
  · rename_i w hw
    have hworkers := workers_forget (s.setWorker j { w with inbox := w.inbox.leave call }) call
    by_cases hne : j = i
    · subst hne
      refine .tended hw (worker?_set_self hw hworkers) (.left rfl ?_)
      exact fun other k => sends_forget
    · refine fared_of_ne hne hworkers rfl ?_ rfl
      exact fun other k => sends_forget_of_not hcall fun k => call_ne_of_ne hne job k
  · rename_i hw
    have hworker : (s.forget call).worker? i = s.worker? i := worker?_forget
    by_cases hne : j = i
    · subst hne
      exact .absent hw (hworker.trans hw) (fun _ _ hsends => (sends_forget.mp hsends).1) rfl
    · refine .same hworker rfl ?_ rfl
      exact fun other k => sends_forget_of_not hcall fun k => call_ne_of_ne hne job k

theorem fared_of_did (h : s.Did a out) (i : Nat) : s.Fared out.1 i a (sights i out.2) := by
  have hcalls : s.SameSends s i := fun _ _ => .rfl
  cases h with
  | added => exact fared_of_hire rfl rfl hcalls
  | asked _ hnew =>
    exact .same rfl rfl (fun _ _ => sends_await_of_not hnew fun job => job.acquire_ne_call i) rfl
  | @atOnce call _ _ hnew _ htook =>
    have hask : s.SameSends (s.ask call) i :=
      fun _ _ => sends_await_of_not hnew fun job => job.acquire_ne_call i
    have hcall : (s.ask call).call? call = some .acquire := Calls.lookup_await hnew
    obtain ⟨hworker, htaken, hseen⟩ := spared_of_took hcall htook i
    exact .same hworker rfl (fun other job => (htaken other job).trans (hask other job)) hseen
  | @late call j w job => exact .same rfl (job.move?_action ..) hcalls (sights_refused i call job)
  | @sent call j w inbox job hnew hw hexited hsend =>
    by_cases hne : j = i
    · subst hne
      rw [sights_taken, if_pos rfl]
      exact .tended hw (worker?_set_self hw rfl) (.took job rfl hexited hsend hcalls)
    · exact fared_of_ne hne rfl (job.move?_action ..) hcalls (by rw [sights_taken, if_neg hne])
  | @sendWaits call j w inbox job hnew hw hexited hsend =>
    by_cases hne : j = i
    · subst hne
      refine .tended hw (worker?_set_self hw rfl) (.joined job rfl hnew hexited hsend ?_)
      intro other k
      refine (sends_await (s := s.setWorker j _) hnew).trans (or_congr .rfl ?_)
      refine and_congr .rfl ⟨?_, ?_⟩
      · exact fun h => (Job.call_inj h).1.symm
      · rintro rfl
        rfl
    · refine fared_of_ne hne rfl (job.move?_action ..) ?_ rfl
      exact fun other k => sends_await_of_not (s := s.setWorker j _) hnew
        fun k => call_ne_of_ne hne job k
  | @sentAway call j w inbox job hnew hw hexited hsend =>
    by_cases hne : j = i
    · subst hne
      exact .tended hw (worker?_set_self hw rfl) (.refused job rfl hexited hsend hcalls)
    · exact fared_of_ne hne rfl (job.move?_action ..) hcalls (sights_refused i call job)
  | waited => exact .same rfl rfl hcalls rfl
  | @waits call _ hnew =>
    refine .same rfl rfl (fun _ _ => ?_) rfl
    exact sends_await_of_not (s := { s with closed := true }) hnew
      fun job => job.wait_ne_call false i
  | dropped =>
    refine .same (by rw [worker?, workers_releasePool, worker?]) rfl (fun _ _ => ?_) rfl
    exact sends_congr (calls_releasePool _)
  | @acquireAborted call hcall =>
    refine .same worker?_forget rfl (fun _ _ => ?_) rfl
    exact sends_forget_of_not (s := { s with turn := s.turn.leave call }) hcall
      fun job => job.acquire_ne_call i
  | @sendAborted call j job hcall => exact fared_of_leaveInbox hcall i
  | @waitAborted call released hcall =>
    refine .same worker?_forget rfl (fun _ _ => ?_) rfl
    exact sends_forget_of_not hcall fun job => job.wait_ne_call released i
  | resumed hwent => exact fared_of_went hwent i
  | moved hw hmoved => exact fared_of_moved hw hmoved i

end System

end Batchflow.Pool
