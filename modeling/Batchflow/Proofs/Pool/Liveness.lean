import Batchflow.Proofs.Lock
import Batchflow.Proofs.Pool.Action
import Batchflow.Proofs.Run

/-!
# Who counts as alive

A worker that comes to an orderly end stops counting, and nobody new may send to it.  A unit of work
that panics takes its worker with it on the spot: the worker keeps counting and still looks as if it
took work.  So the count is too high by the number of panics, and only then may a caller be handed a
worker that is gone, or wait for one although none is left.
-/

namespace Batchflow.Pool

variable {ω : Type}

def Phase.isPanicked : Phase ω → Bool
  | .panicked _ => true
  | _ => false

theorem Phase.ended_returned : (.returned : Phase ω).ended = true := rfl

theorem Phase.ended_panicked (p : Panic) : (.panicked p : Phase ω).ended = true := rfl

theorem Phase.isPanicked_returned : (.returned : Phase ω).isPanicked = false := rfl

theorem Phase.isPanicked_panicked (p : Panic) : (.panicked p : Phase ω).isPanicked = true := rfl

def Event.granted? : Event ω → Option (Nat × Option Nat)
  | .replied call (.acquired r) => some (call, r)
  | _ => none

theorem Event.eq_of_granted {e : Event ω} {call : Nat} {r : Option Nat}
    (h : e.granted? = some (call, r)) : e = .replied call (.acquired r) := by
  unfold granted? at h
  split at h
  · obtain ⟨rfl, rfl⟩ := Prod.mk.inj (Option.some.inj h)
    rfl
  · cases h

def Action.isPanic : Action ω → Bool
  | .move _ (.workPanics _) => true
  | _ => false

/-- The call after the last worker has ended. -/
def Call.released : Call ω → Call ω
  | .wait _ => .wait true
  | c => c

/-- Only calls to acquire take turns. -/
def Call.stand : Call ω → Stand
  | .acquire => .waiting
  | _ => .outside

theorem Job.stand_call (job : Job ω) (worker : Nat) : (job.call worker).stand = .outside := by
  cases job <;> rfl

theorem Phase.not_isPanicked {phase : Phase ω} (h : phase.ended = false) :
    phase.isPanicked = false := by
  cases phase with
  | panicked => cases h
  | _ => rfl

/-- To replace a worker changes a count by what the two of them are worth. -/
theorem countP_set {p : Worker ω → Bool} {workers : List (Worker ω)} {i : Nat} {w : Worker ω}
    (h : workers[i]? = some w) (w' : Worker ω) :
    (workers.set i w').countP p + (p w).toNat = workers.countP p + (p w').toNat := by
  obtain ⟨hlt, hget⟩ := List.getElem?_eq_some_iff.mp h
  have hle : (if p workers[i] = true then 1 else 0) ≤ workers.countP p :=
    List.boole_getElem_le_countP hlt
  have hworth (b : Bool) : (if b = true then 1 else 0) = b.toNat := by cases b <;> rfl
  rw [List.countP_set hlt]
  rw [hget] at hle ⊢
  rw [hworth] at hle ⊢
  rw [hworth]
  omega

namespace System

variable {s s' : System ω} {call worker : Nat} {w w' : Worker ω} {a : Action ω} {out : Outcome ω}

/-- Workers that went down with a unit of work. -/
def panicked (s : System ω) : Nat := s.workers.countP fun w => w.phase.isPanicked

/-- Nothing can happen but a new call, or that a unit of work ends. -/
def Quiet (s : System ω) : Prop :=
  (∀ call, s.resume? call = none) ∧
    ∀ worker m, (∀ keep, m ≠ .workReturns keep) → (∀ p, m ≠ .workPanics p) →
      s.move? worker m = none

/-- Whether the calls that are pending and the workers that there are can do nothing. -/
def quiet (s : System ω) : Bool :=
  (s.calls.all fun e => (s.resume? e.1).isNone) &&
    (List.range s.workers.length).all fun worker =>
      [Move.register, .receive, .noticeEnd].all fun m => (s.move? worker m).isNone

theorem quiet_iff : s.quiet = true ↔ s.Quiet := by
  simp only [quiet, Bool.and_eq_true, List.all_eq_true, List.mem_range, Option.isNone_iff_eq_none]
  constructor
  · rintro ⟨hcalls, hworkers⟩
    refine ⟨?_, ?_⟩
    · intro call
      cases hcall : s.call? call with
      | none => rw [resume?, hcall]
      | some c => exact hcalls _ (Calls.mem_of_lookup hcall)
    · intro worker m hreturns hpanics
      cases hw : s.worker? worker with
      | none => rw [move?, hw]
      | some w =>
        obtain ⟨hlt, -⟩ := List.getElem?_eq_some_iff.mp hw
        refine hworkers worker hlt m ?_
        cases m with
        | workReturns keep => exact absurd rfl (hreturns keep)
        | workPanics p => exact absurd rfl (hpanics p)
        | register | receive | noticeEnd => simp
  · rintro ⟨hcalls, hworkers⟩
    refine ⟨fun e _ => hcalls e.1, ?_⟩
    intro worker _ m hm
    refine hworkers worker m ?_ ?_
    · rintro keep rfl
      simp at hm
    · rintro p rfl
      simp at hm

@[simp] theorem workers_releasePool (s : System ω) : s.releasePool.workers = s.workers := by
  unfold releasePool
  split <;> rfl

@[simp] theorem live_releasePool (s : System ω) : s.releasePool.live = s.live := by
  unfold releasePool
  split <;> rfl

@[simp] theorem turn_releasePool (s : System ω) : s.releasePool.turn = s.turn := by
  unfold releasePool
  split <;> rfl

@[simp] theorem calls_releasePool (s : System ω) : s.releasePool.calls = s.calls := by
  unfold releasePool
  split <;> rfl

@[simp] theorem workers_releaseWaiting (s : System ω) : s.releaseWaiting.workers = s.workers := by
  unfold releaseWaiting
  split <;> rfl

@[simp] theorem live_releaseWaiting (s : System ω) : s.releaseWaiting.live = s.live := by
  unfold releaseWaiting
  split <;> rfl

theorem active_set (hw : s.worker? worker = some w)
    (h : s'.workers = s.workers.set worker w') :
    s'.active + (!w.phase.ended).toNat = s.active + (!w'.phase.ended).toNat := by
  rw [active, h]
  exact countP_set hw w'

theorem panicked_set (hw : s.worker? worker = some w)
    (h : s'.workers = s.workers.set worker w') :
    s'.panicked + w.phase.isPanicked.toNat = s.panicked + w'.phase.isPanicked.toNat := by
  rw [panicked, h]
  exact countP_set hw w'

/-- What an action may do to the workers and to the count of those alive. -/
inductive Change (s : System ω) (a : Action ω) (s' : System ω) : Prop
  | same : a.isPanic = false → s'.workers = s.workers → s'.live = s.live → Change s a s'
  | added : a.isPanic = false → s'.workers = s.workers ++ [.new] → s'.live = s.live + 1 →
      Change s a s'
  /-- A worker is neither more nor less alive. -/
  | tended {i : Nat} {v u : Worker ω} : a.isPanic = false → s.worker? i = some v →
      u.phase.ended = v.phase.ended → u.phase.isPanicked = v.phase.isPanicked →
      (v.exited = true → u.exited = true) → s'.workers = s.workers.set i u →
      s'.live = s.live → Change s a s'
  | ended {i : Nat} {v u : Worker ω} : a.isPanic = false → s.worker? i = some v →
      v.phase.ended = false → u.phase = .returned → u.exited = true →
      s'.workers = s.workers.set i u → s'.live = s.live - 1 → Change s a s'
  /-- A worker goes down with its unit of work, and nothing else is done about it. -/
  | panicked {i : Nat} {v u : Worker ω} (p : Panic) : a.isPanic = true →
      s.worker? i = some v → v.phase.ended = false → u.phase = .panicked p →
      s'.workers = s.workers.set i u → s'.live = s.live → Change s a s'

theorem Change.frame {s₁ : System ω} (h : s.Change a s₁) (hworkers : s'.workers = s₁.workers)
    (hlive : s'.live = s₁.live) : s.Change a s' := by
  cases h with
  | same ha hw hl => exact .same ha (hworkers.trans hw) (hlive.trans hl)
  | added ha hw hl => exact .added ha (hworkers.trans hw) (hlive.trans hl)
  | tended ha hget hended hpanicked hexited hw hl =>
    exact .tended ha hget hended hpanicked hexited (hworkers.trans hw) (hlive.trans hl)
  | ended ha hget halive hphase hexited hw hl =>
    exact .ended ha hget halive hphase hexited (hworkers.trans hw) (hlive.trans hl)
  | panicked p ha hget halive hphase hw hl =>
    exact .panicked p ha hget halive hphase (hworkers.trans hw) (hlive.trans hl)

theorem change_setWorker (ha : a.isPanic = false) (hw : s.worker? worker = some w)
    (hphase : w'.phase = w.phase) (hexited : w.exited = true → w'.exited = true) :
    s.Change a (s.setWorker worker w') :=
  .tended ha hw (by rw [hphase]) (by rw [hphase]) hexited rfl rfl

theorem change_endWorker (ha : a.isPanic = false) (hw : s.worker? worker = some w)
    (halive : w.phase.ended = false) (w' : Worker ω) : s.Change a (s.endWorker worker w').1 := by
  have hexited : w'.retire.exited = true := by
    unfold Worker.retire
    split_ifs with hexited
    · exact hexited
    · rfl
  exact .ended (u := w'.retire.finish .returned) ha hw halive rfl hexited
    (workers_releaseWaiting _) (live_releaseWaiting _)

theorem change_offered (ha : a.isPanic = false) (hw : s.worker? worker = some w)
    (inbox : Channel Nat (Job ω)) (job : Job ω) :
    s.Change a (s.setWorker worker (w.offered inbox job)) := by
  cases job with
  | work => exact change_setWorker ha hw rfl id
  | stop =>
    unfold Worker.offered Worker.retire
    split_ifs with hexited
    · exact change_setWorker ha hw rfl id
    · exact change_setWorker ha hw rfl fun _ => rfl

theorem same_of_took (h : s.Took call out) : out.1.workers = s.workers ∧ out.1.live = s.live := by
  cases h with
  | skipped => exact ⟨rfl, rfl⟩
  | acquired => exact ⟨workers_releasePool _, live_releasePool _⟩
  | nobody => exact ⟨workers_releasePool _, live_releasePool _⟩

theorem change_of_went (ha : a.isPanic = false) (h : s.Went call out) : s.Change a out.1 := by
  cases h with
  | took _ _ htook => exact .same ha (same_of_took htook).1 (same_of_took htook).2
  | @sent worker w job _ hw =>
    have hset : s.Change a (s.setWorker worker { w with inbox := w.inbox.fill call job }) :=
      change_setWorker ha hw rfl id
    exact hset.frame (workers_releasePool _) (live_releasePool _)
  | @sentAway worker w _ _ hw =>
    have hset : s.Change a (s.setWorker worker { w with inbox := w.inbox.leave call }) :=
      change_setWorker ha hw rfl id
    exact hset.frame (workers_releasePool _) (live_releasePool _)
  | waited => exact .same ha (workers_releasePool _) (live_releasePool _)

theorem change_of_moved {m : Move} (hw : s.worker? worker = some w)
    (h : s.Moved worker w m out) : s.Change (.move worker m) out.1 := by
  have halive : w.phase.ended = false := by
    cases h <;> simp_all [Phase.ended]
  have hpanicked := Phase.not_isPanicked halive
  cases h with
  | registered =>
    exact .tended (u := { w with phase := .waiting }) rfl hw halive.symm hpanicked.symm id rfl rfl
  | unheard => exact change_endWorker rfl hw halive _
  | @began work inbox =>
    exact .tended (u := { w with inbox, phase := .working work }) rfl hw halive.symm hpanicked.symm
      id rfl rfl
  | stopped => exact change_endWorker rfl hw halive _
  | deserted => exact change_endWorker rfl hw halive _
  | kept =>
    exact .tended (u := { w with phase := .free }) rfl hw halive.symm hpanicked.symm id rfl rfl
  | gone => exact change_endWorker rfl hw halive _
  | panicked p =>
    exact .panicked p rfl hw halive rfl (workers_releaseWaiting _) (live_releaseWaiting _)

theorem change_of_did (h : s.Did a out) : s.Change a out.1 := by
  have hjob (job : Job ω) (call worker : Nat) : (job.action call worker).isPanic = false := by
    cases job <;> rfl
  cases h with
  | added => exact .added rfl rfl rfl
  | asked => exact .same rfl rfl rfl
  | atOnce _ _ _ htook => exact .same rfl (same_of_took htook).1 (same_of_took htook).2
  | late job => exact .same (hjob ..) rfl rfl
  | sent job _ hw => exact change_offered (hjob ..) hw _ job
  | sendWaits job _ hw => exact (change_offered (hjob ..) hw _ job).frame rfl rfl
  | sentAway job _ hw => exact change_offered (hjob ..) hw _ job
  | waited => exact .same rfl rfl rfl
  | waits => exact .same rfl rfl rfl
  | dropped => exact .same rfl (workers_releasePool _) (live_releasePool _)
  | acquireAborted => exact .same rfl (workers_releasePool _) (live_releasePool _)
  | @sendAborted call worker =>
    have hleft : s.Change (.abort call) (s.leaveInbox worker call) := by
      unfold leaveInbox
      split
      · rename_i w hw
        exact change_setWorker rfl hw rfl id
      · exact .same rfl rfl rfl
    exact hleft.frame (workers_releasePool _) (live_releasePool _)
  | waitAborted => exact .same rfl (workers_releasePool _) (live_releasePool _)
  | resumed hwent => exact change_of_went rfl hwent
  | moved hw hmoved => exact change_of_moved hw hmoved

/-- The count and the signs by which a worker shows that it is gone, after so many panics. -/
structure Accounted (s : System ω) (panics : Nat) : Prop where
  live : s.live = s.active + panics
  panicked : s.panicked = panics
  exited : ∀ w ∈ s.workers, w.phase.ended = true → w.exited = true ∨ w.phase.isPanicked = true

namespace Accounted

variable {panics : Nat}

theorem new (name : String) : (System.new name : System ω).Accounted 0 where
  live := rfl
  panicked := rfl
  exited := by simp [System.new]

theorem exited_set (h : s.Accounted panics) (hworkers : s'.workers = s.workers.set worker w')
    (hw' : w'.phase.ended = true → w'.exited = true ∨ w'.phase.isPanicked = true) :
    ∀ w ∈ s'.workers, w.phase.ended = true → w.exited = true ∨ w.phase.isPanicked = true := by
  intro w hw hended
  rw [hworkers] at hw
  rcases List.mem_or_eq_of_mem_set hw with hw | rfl
  · exact h.exited w hw hended
  · exact hw' hended

theorem change (h : s.Accounted panics) (hchange : s.Change a s') :
    s'.Accounted (panics + a.isPanic.toNat) := by
  have hcount := h.live
  have hpanics := h.panicked
  cases hchange with
  | same ha hworkers hlive =>
    rw [ha]
    refine ⟨?_, ?_, hworkers ▸ h.exited⟩
    · rw [active, hworkers, hlive]
      exact hcount
    · rw [System.panicked, hworkers]
      exact hpanics
  | added ha hworkers hlive =>
    rw [ha]
    refine ⟨?_, ?_, ?_⟩
    · have hone : s'.active = s.active + 1 := by
        rw [active, hworkers, List.countP_append]
        rfl
      rw [hlive, hone, Bool.toNat_false]
      omega
    · rw [System.panicked, hworkers, List.countP_append]
      exact hpanics
    · intro w hw hended
      rcases List.mem_append.mp (hworkers ▸ hw) with hw | hw
      · exact h.exited w hw hended
      · obtain rfl := List.mem_singleton.mp hw
        cases hended
  | @tended i v v' ha hv hended hpanicked hexited hworkers hlive =>
    have hactive := active_set hv hworkers
    have hdown := panicked_set hv hworkers
    rw [hended] at hactive
    rw [hpanicked] at hdown
    rw [ha, Bool.toNat_false]
    refine ⟨by omega, by omega, h.exited_set hworkers fun hv' => ?_⟩
    rw [hpanicked]
    exact (h.exited v (List.mem_of_getElem? hv) (hended ▸ hv')).imp_left hexited
  | @ended i v v' ha hv halive hphase hexited hworkers hlive =>
    have hactive := active_set hv hworkers
    have hdown := panicked_set hv hworkers
    simp only [halive, Phase.not_isPanicked halive, hphase, Phase.ended_returned,
      Phase.isPanicked_returned, Bool.not_false, Bool.not_true, Bool.toNat_true,
      Bool.toNat_false] at hactive hdown
    rw [ha, Bool.toNat_false]
    exact ⟨by omega, by omega, h.exited_set hworkers fun _ => .inl hexited⟩
  | @panicked i v v' p ha hv halive hphase hworkers hlive =>
    have hactive := active_set hv hworkers
    have hdown := panicked_set hv hworkers
    simp only [halive, Phase.not_isPanicked halive, hphase, Phase.ended_panicked,
      Phase.isPanicked_panicked, Bool.not_false, Bool.not_true, Bool.toNat_true,
      Bool.toNat_false] at hactive hdown
    rw [ha, Bool.toNat_true]
    refine ⟨by omega, by omega, h.exited_set hworkers fun _ => .inr ?_⟩
    rw [hphase]
    rfl

end Accounted

/-- What has happened to a pool so far. -/
abbrev History (ω : Type) := List (Turn (System ω) (Action ω) (Event ω))

/-- The number of units of work that have panicked. -/
def panics (turns : History ω) : Nat := turns.countP fun t => t.action.isPanic

theorem accounted_of_run {name : String} {turns : History ω} (h : Run step (new name) turns s) :
    s.Accounted (panics turns) := by
  induction h with
  | nil => exact .new name
  | @snoc turns s s' a events _ hstep ih =>
    have hone : panics (turns ++ [⟨s, a, events⟩]) = panics turns + a.isPanic.toNat := by
      cases ha : a.isPanic <;> simp [panics, ha]
    rw [hone]
    exact ih.change (change_of_did (did_of_step hstep))

/-- Those who have the turn or wait for it are the pending calls to acquire. -/
structure Queued (s : System ω) : Prop where
  guarded : Guarded Call.stand s.turn s.calls
  fair : s.turn.Fair

namespace Queued

theorem frame (h : s.Queued) (hturn : s'.turn = s.turn) (hcalls : s'.calls = s.calls) :
    s'.Queued := by
  refine ⟨?_, hturn ▸ h.fair⟩
  rw [hturn, hcalls]
  exact h.guarded

theorem releaseWaiting (h : s.Queued) : s.releaseWaiting.Queued := by
  unfold System.releaseWaiting
  split
  · refine ⟨?_, h.fair⟩
    have hmap := h.guarded.map Call.released fun c => by cases c <;> rfl
    convert hmap using 3 with ⟨n, c⟩
    cases c <;> rfl
  · exact h

theorem forget {c : Call ω} (h : s.Queued) (hcall : s.call? call = some c)
    (hc : c.stand = .outside) : (s.forget call).Queued := by
  refine Queued.frame (s := { s with calls := s.calls.filter (·.1 != call) }) ?_
    (turn_releasePool _) (calls_releasePool _)
  exact ⟨h.guarded.without (Calls.mem_of_lookup hcall) hc, h.fair⟩

theorem leave (h : s.Queued) (call : Nat) :
    (({ s with turn := s.turn.leave call } : System ω).forget call).Queued := by
  refine Queued.frame (s := { s with turn := s.turn.leave call
                                     calls := s.calls.filter (·.1 != call) }) ?_
    (turn_releasePool _) (calls_releasePool _)
  exact ⟨h.guarded.leave call, h.fair.leave call⟩

theorem giveBack (h : s.Queued) (hheld : call ∈ s.turn.held) :
    (({ s with turn := s.turn.giveBack call } : System ω).forget call).Queued := by
  have hleave : s.turn.leave call = s.turn.giveBack call := if_pos hheld
  rw [← hleave]
  exact h.leave call

theorem await {c : Call ω} (h : s.Queued) (hnew : s.call? call = none)
    (hc : c.stand = .outside) : (s.await call c).Queued :=
  ⟨h.guarded.await (fun _ => Calls.not_mem_of_lookup hnew) hc, h.fair⟩

theorem ask (h : s.Queued) (hnew : s.call? call = none) : (s.ask call).Queued :=
  ⟨h.guarded.request (fun _ => Calls.not_mem_of_lookup hnew) rfl, h.fair.request call⟩

theorem took (h : s.Queued) (hheld : call ∈ s.turn.held) (htook : s.Took call out) :
    out.1.Queued := by
  cases htook with
  | skipped => exact h.frame rfl rfl
  | @acquired worker available =>
    exact Queued.giveBack (s := { s with available }) (h.frame rfl rfl) hheld
  | nobody => exact h.giveBack hheld

theorem went (h : s.Queued) (hwent : s.Went call out) : out.1.Queued := by
  cases hwent with
  | took _ hheld htook => exact h.took hheld htook
  | sent job hcall =>
    exact Queued.forget (s := s.setWorker _ _) (h.frame rfl rfl) hcall (job.stand_call _)
  | sentAway job hcall =>
    exact Queued.forget (s := s.setWorker _ _) (h.frame rfl rfl) hcall (job.stand_call _)
  | waited hcall => exact h.forget hcall rfl

theorem moved {m : Move} (h : s.Queued) (hmoved : s.Moved worker w m out) : out.1.Queued := by
  have hended (w : Worker ω) : (s.endWorker worker w).1.Queued :=
    Queued.releaseWaiting (s := { s.setWorker _ _ with live := _ }) (h.frame rfl rfl)
  cases hmoved with
  | registered => exact h.frame rfl rfl
  | unheard => exact hended _
  | began => exact h.frame rfl rfl
  | stopped => exact hended _
  | deserted => exact hended _
  | kept => exact h.frame rfl rfl
  | gone => exact hended _
  | panicked p =>
    exact Queued.releaseWaiting (s := s.setWorker _ _) (h.frame rfl rfl)

theorem did (h : s.Queued) (hdid : s.Did a out) : out.1.Queued := by
  cases hdid with
  | added => exact h.frame rfl rfl
  | asked _ hnew => exact h.ask hnew
  | atOnce _ hnew hheld htook => exact (h.ask hnew).took hheld htook
  | late => exact h
  | sent => exact h.frame rfl rfl
  | sendWaits job hnew =>
    exact Queued.await (s := s.setWorker _ _) (h.frame rfl rfl) hnew (job.stand_call _)
  | sentAway => exact h.frame rfl rfl
  | waited => exact h.frame rfl rfl
  | waits _ hnew => exact Queued.await (s := { s with closed := true }) (h.frame rfl rfl) hnew rfl
  | dropped => exact h.frame (turn_releasePool _) (calls_releasePool _)
  | acquireAborted => exact h.leave _
  | @sendAborted call worker job hcall =>
    unfold leaveInbox
    split
    · exact Queued.forget (s := s.setWorker _ _) (h.frame rfl rfl) hcall (job.stand_call _)
    · exact h.forget hcall (job.stand_call _)
  | waitAborted hcall => exact h.forget hcall rfl
  | resumed hwent => exact h.went hwent
  | moved _ hmoved => exact h.moved hmoved

end Queued

theorem queued_of_run {name : String} {turns : History ω} (h : Run step (new name) turns s) :
    s.Queued := by
  refine h.invariant ⟨.new, Permits.fair_ofFree 1⟩ ?_
  intro s a s' events hs hstep
  exact hs.did (did_of_step hstep)

/-- A caller gets a worker that still looks as if it took work, or hears that none is counted. -/
def Granted (s : System ω) (events : List (Event ω)) : Prop :=
  ∀ call r, .replied call (.acquired r) ∈ events →
    match r with
    | some worker => s.hasExited worker = false
    | none => s.live = 0

theorem granted_of_took (h : s.Took call out) : s.Granted out.2 := by
  intro w r hr
  cases h with
  | skipped => cases hr
  | acquired _ hexited =>
    obtain ⟨-, rfl⟩ : w = call ∧ r = some _ := by simpa [reply] using hr
    exact hexited
  | nobody _ hlive =>
    obtain ⟨-, rfl⟩ : w = call ∧ r = none := by simpa [reply] using hr
    exact hlive

theorem granted_of_step {events : List (Event ω)} (h : s.step a = some (s', events)) :
    s.Granted events := by
  have hjob (job : Job ω) (r : Option Nat) :
      job.takenReply ≠ .acquired r ∧ job.refusedReply ≠ .acquired r := by
    cases job <;> exact ⟨nofun, nofun⟩
  -- Whoever does not look at the list hears nothing of it.
  cases did_of_step h with
  | atOnce _ _ _ htook => exact granted_of_took htook
  | resumed hwent =>
    cases hwent with
    | took _ _ htook => exact granted_of_took htook
    | sent job =>
      intro w r hr
      simp [(hjob job r).1.symm] at hr
    | sentAway job =>
      intro w r hr
      simp [(hjob job r).2.symm] at hr
    | waited =>
      intro w r hr
      simp at hr
  | late job | sentAway job | sent job =>
    intro w r hr
    simp [(hjob job r).1.symm, (hjob job r).2.symm] at hr
  | moved _ hmoved =>
    intro w r hr
    cases hmoved <;> simp at hr
  | _ =>
    intro w r hr
    simp at hr

/-- With nothing to be done, whoever has the turn waits for a worker. -/
theorem live_of_quiet (h : s.Queued) (hquiet : s.Quiet) (hcall : s.call? call = some .acquire) :
    0 < s.live := by
  have hwaits := h.guarded.waiting call .acquire (Calls.mem_of_lookup hcall) rfl
  obtain ⟨w, hheld⟩ := h.guarded.exists_held h.fair hwaits
  obtain ⟨c, hc, hstand⟩ := h.guarded.pending w (List.mem_append_left _ hheld)
  have hlookup := Calls.lookup_of_mem h.guarded.keys hc
  have hnone := hquiet.1 w
  cases c with
  | acquire =>
    rw [resume?, call?, hlookup] at hnone
    simp only [Permits.holds_iff.mpr hheld, ↓reduceIte, takeAvailable] at hnone
    split at hnone
    · split at hnone <;> cases hnone
    · split at hnone
      · cases hnone
      · omega
  | submit | exit | wait => exact absurd rfl hstand

/-- The pool counts its workers that have not ended and those that went down with a unit of work;
every other worker shows when it is gone.  Without panics a caller is never handed a worker that is
gone, is told that there is none when none is left, and waits only while one is alive. -/
theorem liveness_accounted {name : String} {turns : History ω} (h : Run step (new name) turns s) :
    s.live = s.active + panics turns ∧ s.panicked = panics turns ∧
      (∀ w ∈ s.workers, w.phase.ended = true → w.exited = true ∨ w.phase.isPanicked = true) ∧
      (∀ t ∈ turns, ∀ call worker, .replied call (.acquired (some worker)) ∈ t.events →
        ∃ w, t.before.worker? worker = some w ∧
          (w.phase.ended = false ∨ w.phase.isPanicked = true)) ∧
      (∀ t ∈ turns, ∀ call, .replied call (.acquired none) ∈ t.events →
        t.before.active = 0 ∧ t.before.panicked = 0) ∧
      (s.Quiet → ∀ call, s.call? call = some .acquire → 0 < s.active ∨ 0 < s.panicked) := by
  have haccounted := accounted_of_run h
  refine ⟨haccounted.live, haccounted.panicked, haccounted.exited, ?_, ?_, ?_⟩
  · intro t ht call worker hr
    obtain ⟨before, -, s₁, -, hrun, hstep, -⟩ := h.split ht
    have hgranted : t.before.hasExited worker = false := granted_of_step hstep call _ hr
    unfold hasExited at hgranted
    split at hgranted
    · rename_i w hw
      refine ⟨w, hw, ?_⟩
      by_contra hnot
      rw [not_or, Bool.not_eq_false, Bool.not_eq_true] at hnot
      have := (accounted_of_run hrun).exited w (List.mem_of_getElem? hw) hnot.1
      simp [hgranted, hnot.2] at this
    · cases hgranted
  · intro t ht call hr
    obtain ⟨before, -, s₁, -, hrun, hstep, -⟩ := h.split ht
    have hlive : t.before.live = 0 := granted_of_step hstep call _ hr
    have hbefore := accounted_of_run hrun
    have hcount := hbefore.live
    have hpanics := hbefore.panicked
    omega
  · intro hquiet call hcall
    have hlive := live_of_quiet (queued_of_run h) hquiet hcall
    have hcount := haccounted.live
    have hpanics := haccounted.panicked
    omega

/-- What a call to acquire came back with. -/
def grants (turns : History ω) : List (Nat × Option Nat) :=
  turns.flatMap fun t => t.events.filterMap Event.granted?

def orderlyRun : List (Action Unit) :=
  [.addWorker, .move 0 .register, .acquire 1, .submit 0 0 (), .move 0 .receive, .acquire 2,
    .move 0 (.workReturns false), .resume 2]

theorem liveness_accounted_orderlyRun : ∃ turns s,
    Run step (new "pool" : System Unit) turns s ∧ panics turns = 0 ∧
      grants turns = [(1, some 0), (2, none)] ∧ s.live = s.active ∧
      ∀ w ∈ s.workers, w.phase.ended = true ∧ w.exited = true := by
  have hseen : (replay step (new "pool" : System Unit) orderlyRun).map (fun r =>
      (panics r.1, grants r.1, r.2.workers.all (·.phase.ended))) =
        some (0, [(1, some 0), (2, none)], true) := by
    decide +kernel
  obtain ⟨⟨turns, s⟩, hreplay, hseen⟩ := Option.map_eq_some_iff.mp hseen
  simp only [Prod.mk.injEq] at hseen
  obtain ⟨hpanics, hgrants, hended⟩ := hseen
  have hrun := Run.of_replay hreplay
  obtain ⟨hlive, hpanicked, hexited, -⟩ := liveness_accounted hrun
  refine ⟨turns, s, hrun, hpanics, hgrants, by rw [hlive, hpanics, Nat.add_zero], ?_⟩
  intro w hw
  have hw' : w.phase.ended = true := List.all_eq_true.mp hended w hw
  refine ⟨hw', (hexited w hw hw').resolve_right ?_⟩
  rw [hpanics] at hpanicked
  exact List.countP_eq_zero.mp hpanicked w hw

def isAcquiring (s : System ω) (call : Nat) : Bool :=
  match s.call? call with
  | some .acquire => true
  | _ => false

/-- The only worker goes down with the unit of work it was sent at once. -/
def panickedRun : List (Action Unit) :=
  [.addWorker, .move 0 .register, .submit 0 0 (), .move 0 .receive,
    .move 0 (.workPanics (.text "work failed")), .acquire 1, .acquire 2]

/-- No worker is alive, and yet one is counted, does not show that it is gone, is handed to a
caller, and keeps the next caller waiting for ever. -/
theorem live_ne_active_panickedRun : ∃ turns s,
    Run step (new "pool" : System Unit) turns s ∧ s.Quiet ∧ s.live = 1 ∧ s.active = 0 ∧
      (∃ w, s.worker? 0 = some w ∧ w.phase.ended = true ∧ w.exited = false) ∧
      (∃ t ∈ turns, .replied 1 (.acquired (some 0)) ∈ t.events ∧ t.before.active = 0) ∧
      s.call? 2 = some .acquire := by
  have hleft : (replay step (new "pool" : System Unit) panickedRun).map (fun r =>
      (r.2.quiet, r.2.live, r.2.active, r.2.isAcquiring 2)) = some (true, 1, 0, true) := by
    decide +kernel
  have hseen : (replay step (new "pool" : System Unit) panickedRun).map (fun r =>
      (r.2.workers.map fun w => (w.phase.ended, w.exited),
        r.1.any fun t => t.before.active == 0 && t.events.any (·.granted? == some (1, some 0)))) =
      some ([(true, false)], true) := by
    decide +kernel
  obtain ⟨⟨turns, s⟩, hreplay, hleft⟩ := Option.map_eq_some_iff.mp hleft
  rw [hreplay, Option.map_some, Option.some.injEq] at hseen
  simp only [Prod.mk.injEq] at hleft hseen
  obtain ⟨hquiet, hlive, hactive, hcall⟩ := hleft
  obtain ⟨hworkers, hgrants⟩ := hseen
  refine ⟨turns, s, Run.of_replay hreplay, quiet_iff.mp hquiet, hlive, hactive, ?_, ?_, ?_⟩
  · obtain ⟨w, hw, hsigns⟩ := List.map_eq_singleton_iff.mp hworkers
    obtain ⟨hended, hexited⟩ := Prod.mk.inj hsigns
    exact ⟨w, by simp [worker?, hw], hended, hexited⟩
  · obtain ⟨t, ht, hgrant⟩ := List.any_eq_true.mp hgrants
    rw [Bool.and_eq_true, beq_iff_eq, List.any_eq_true] at hgrant
    obtain ⟨hgone, e, he, hgrant⟩ := hgrant
    exact ⟨t, ht, Event.eq_of_granted (beq_iff_eq.mp hgrant) ▸ he, hgone⟩
  · unfold isAcquiring at hcall
    split at hcall
    · assumption
    · cases hcall

end System

end Batchflow.Pool
