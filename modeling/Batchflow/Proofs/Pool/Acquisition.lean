import Batchflow.Proofs.Pool.Registration

/-!
# Who gets which worker

Calls to acquire take turns in the order in which they are made.  Whoever has the turn takes one
entry after the other off the list, passes over the workers that have exited, and comes back at
once with the first that has not.  So between the list and the callers nothing is lost and nothing
is given twice, also when calls are given up at any time.
-/

namespace Batchflow

/-- Whoever is new stands behind all others. -/
theorem Permits.everybody_request_of_fair {ι : Type} {p : Permits ι} (h : p.Fair) (who : ι) :
    (p.request who).everybody = p.everybody ++ [who] := by
  unfold request everybody
  split
  · simp
  · rename_i free hfree
    simp [h (by omega)]

namespace Pool

variable {ω : Type}

structure Taking where
  call : Nat
  worker : Nat
  /-- The worker had exited when its entry was taken off. -/
  exited : Bool
  deriving DecidableEq

def Event.hired? : Event ω → Option (Nat × Nat)
  | .replied call (.acquired (some worker)) => some (call, worker)
  | _ => none

def Action.acquires (call : Nat) : Action ω → Bool
  | .acquire w => w = call
  | _ => false

theorem Event.hired?_eq_none {e : Event ω} (h : e.granted? = none) : e.hired? = none := by
  unfold hired?
  split
  · cases h
  · rfl

/-- Nobody comes back from a call to acquire, and no worker says that it is available. -/
def Silent (events : List (Event ω)) : Prop :=
  ∀ e ∈ events, e.registered? = none ∧ e.granted? = none

theorem Job.silent_of_taken (job : Job ω) (call worker : Nat) :
    Silent [Event.took worker job, .replied call job.takenReply] := by
  cases job <;> simp [Silent, Event.registered?, Event.granted?, takenReply]

theorem Job.silent_of_refused (job : Job ω) (call : Nat) :
    Silent [Event.replied call job.refusedReply] := by
  cases job <;> simp [Silent, Event.registered?, Event.granted?, refusedReply]

namespace System

variable {s s' : System ω} {a : Action ω} {events : List (Event ω)} {out : Outcome ω}
  {call worker : Nat} {turns : History ω} {name : String}

/-- The call that looks at the list by an action: it gets the turn as it is made, or has it and goes
on. -/
def looker? (s : System ω) : Action ω → Option Nat
  | .acquire call => if (s.ask call).turn.holds call then some call else none
  | .resume call => if s.isAcquiring call && s.turn.holds call then some call else none
  | _ => none

/-- The entry that is taken off the list in a turn. -/
def taking? (t : Turn (System ω) (Action ω) (Event ω)) : Option Taking :=
  match t.before.looker? t.action, t.before.available with
  | some call, worker :: _ => some { call, worker, exited := t.before.hasExited worker }
  | _, _ => none

/-- The entries that were taken off the list, in order. -/
def takings (turns : History ω) : List Taking := turns.filterMap taking?

/-- The workers that calls came back with, in order. -/
def hires (turns : History ω) : List (Nat × Nat) :=
  turns.flatMap fun t => t.events.filterMap Event.hired?

/-- The turn, counted from one, at which the latest call to acquire by some number was made. -/
def made (call : Nat) (turns : History ω) : Nat :=
  turns.length - turns.reverse.findIdx (·.action.acquires call)

theorem made_concat (call : Nat) (turns : History ω) (t : Turn (System ω) (Action ω) (Event ω)) :
    made call (turns ++ [t]) =
      bif t.action.acquires call then turns.length + 1 else made call turns := by
  cases h : t.action.acquires call <;> simp [made, List.findIdx_cons, h]

theorem made_le (call : Nat) (turns : History ω) : made call turns ≤ turns.length :=
  Nat.sub_le _ _

/-- The pool with the new call in line, if one is made. -/
def joined (s : System ω) : Action ω → System ω
  | .acquire call => s.ask call
  | _ => s

/-- What becomes of the list, of the line of those who wait for it, and of those who come back. -/
inductive Dealt (s : System ω) (a : Action ω) (s' : System ω) : List (Event ω) → Prop
  | passedOver {call worker : Nat} {available : List Nat} : s.looker? a = some call →
      s.available = worker :: available → s.hasExited worker = true →
      (s'.listening = true → s'.available = available) → s'.turn = (s.joined a).turn →
      Dealt s a s' []
  | handedOut {call worker : Nat} {available : List Nat} : s.looker? a = some call →
      s.available = worker :: available → s.hasExited worker = false →
      (s'.listening = true → s'.available = available) →
      s'.turn = (s.joined a).turn.giveBack call →
      Dealt s a s' [.replied call (.acquired (some worker))]
  | nobody {call : Nat} : s.looker? a = some call → s.available = [] → s.live = 0 →
      (s'.listening = true → s'.available = []) → s'.turn = (s.joined a).turn.giveBack call →
      Dealt s a s' [.replied call (.acquired none)]
  | dropped {call : Nat} : a = .abort call → (s'.listening = true → s'.available = s.available) →
      s'.turn = s.turn.leave call → Dealt s a s' []
  | other {events : List (Event ω)} : s.looker? a = none ∨ s.available = [] →
      (s'.listening = true → s'.available = s.available ++ events.filterMap Event.registered?) →
      s'.turn = (s.joined a).turn → (∀ e ∈ events, e.granted? = none) → Dealt s a s' events

theorem dealt_of_took {base : System ω} (hlooker : s.looker? a = some call)
    (hbase : s.joined a = base) (havailable : base.available = s.available)
    (hexited : ∀ worker, base.hasExited worker = s.hasExited worker) (hlive : base.live = s.live)
    (h : base.Took call out) : s.Dealt a out.1 out.2 := by
  subst hbase
  cases h with
  | skipped hlist hgone =>
    exact .passedOver hlooker (havailable ▸ hlist) (hexited _ ▸ hgone) (fun _ => rfl) rfl
  | acquired hlist hopen =>
    exact .handedOut hlooker (havailable ▸ hlist) (hexited _ ▸ hopen) (fun hl => (list_forget hl).2)
      (turn_releasePool _)
  | nobody hlist hnone =>
    exact .nobody hlooker (havailable ▸ hlist) (hlive ▸ hnone)
      (fun hl => (list_forget hl).2.trans hlist) (turn_releasePool _)

theorem dealt_of_acquire (h : s.step (.acquire call) = some (s', events)) :
    s.Dealt (.acquire call) s' events := by
  obtain ⟨-, h⟩ := Option.ite_none_right_eq_some.mp h
  have hout : s.acquire call = (s', events) := Option.some.inj h
  change (if (s.ask call).turn.holds call then
    ((s.ask call).takeAvailable call).getD (s.ask call, []) else (s.ask call, [])) = _ at hout
  have hwaits (hnone : s.looker? (.acquire call) = none ∨ s.available = []) :
      s.Dealt (.acquire call) (s.ask call) [] :=
    .other hnone (fun _ => (List.append_nil _).symm) rfl (by simp)
  split at hout
  · rename_i hholds
    have hlooker : s.looker? (.acquire call) = some call := if_pos hholds
    cases htake : (s.ask call).takeAvailable call with
    | none =>
      rw [htake] at hout
      obtain ⟨rfl, rfl⟩ := Prod.mk.inj hout
      refine hwaits (.inr ?_)
      unfold takeAvailable at htake
      split at htake
      · dsimp only at htake
        split at htake <;> cases htake
      · assumption
    | some out =>
      rw [htake] at hout
      obtain rfl : out = (s', events) := hout
      exact dealt_of_took hlooker rfl rfl (fun _ => rfl) rfl (took_of_takeAvailable htake)
  · rename_i hholds
    obtain ⟨rfl, rfl⟩ := Prod.mk.inj hout
    exact hwaits (.inl (if_neg hholds))

theorem dealt_of_silent (hlooker : s.looker? a = none)
    (hlist : s'.listening = true → s'.available = s.available) (hturn : s'.turn = (s.joined a).turn)
    (hsilent : Silent events) : s.Dealt a s' events := by
  have hnone : events.filterMap Event.registered? = [] :=
    List.filterMap_eq_nil_iff.mpr fun e he => (hsilent e he).1
  refine .other (.inl hlooker) (fun hl => ?_) hturn fun e he => (hsilent e he).2
  rw [hnone, List.append_nil]
  exact hlist hl

theorem dealt_of_resume (h : s.Went call out) : s.Dealt (.resume call) out.1 out.2 := by
  have hnot {c : Call ω} (hcall : s.call? call = some c) (hc : c.stand = .outside) :
      s.looker? (.resume call) = none := by
    have hacquiring : s.isAcquiring call = false := by
      unfold isAcquiring
      rw [hcall]
      cases c <;> first | rfl | cases hc
    simp [looker?, hacquiring]
  cases h with
  | took hcall hheld htook =>
    have hlooker : s.looker? (.resume call) = some call := by
      simp [looker?, isAcquiring, hcall, Permits.holds_iff.mpr hheld]
    exact dealt_of_took hlooker rfl rfl (fun _ => rfl) rfl htook
  | sent job hcall =>
    exact dealt_of_silent (hnot hcall (job.stand_call _)) (fun hl => (list_forget hl).2)
      (turn_releasePool _) (job.silent_of_taken call _)
  | sentAway job hcall =>
    exact dealt_of_silent (hnot hcall (job.stand_call _)) (fun hl => (list_forget hl).2)
      (turn_releasePool _) (job.silent_of_refused call)
  | waited hcall =>
    exact dealt_of_silent (hnot hcall rfl) (fun hl => (list_forget hl).2) (turn_releasePool _)
      (by simp [Silent, reply, Event.registered?, Event.granted?])

@[simp] theorem turn_releaseWaiting (s : System ω) : s.releaseWaiting.turn = s.turn := by
  unfold releaseWaiting
  split <;> rfl

theorem turn_leaveInbox (s : System ω) (worker call : Nat) :
    (s.leaveInbox worker call).turn = s.turn := by
  unfold leaveInbox
  split <;> rfl

theorem dealt_of_moved {w : Worker ω} {m : Move} (h : s.Moved worker w m out) :
    s.Dealt (.move worker m) out.1 out.2 := by
  have hended (v : Worker ω) : s.Dealt (.move worker m) (s.endWorker worker v).1
      (s.endWorker worker v).2 :=
    dealt_of_silent rfl (fun _ => (list_endWorker s worker v).2) (turn_releaseWaiting _)
      (by simp [Silent, endWorker, Event.registered?, Event.granted?])
  cases h with
  | registered =>
    exact .other (.inl rfl) (fun _ => rfl) rfl (by simp [Event.granted?])
  | unheard | stopped | deserted | gone => exact hended _
  | began =>
    exact dealt_of_silent rfl (fun _ => rfl) rfl
      (by simp [Silent, Event.registered?, Event.granted?])
  | kept => exact dealt_of_silent rfl (fun _ => rfl) rfl (by simp [Silent])
  | panicked p =>
    exact dealt_of_silent rfl (fun _ => (list_releaseWaiting _).2) (turn_releaseWaiting _)
      (by simp [Silent, Event.registered?, Event.granted?])

theorem dealt_of_step (h : s.step a = some (s', events)) : s.Dealt a s' events := by
  have hjob (job : Job ω) (call worker : Nat) : s.looker? (job.action call worker) = none ∧
      s.joined (job.action call worker) = s := by
    cases job <;> exact ⟨rfl, rfl⟩
  cases did_of_step h with
  | asked | atOnce => exact dealt_of_acquire h
  | resumed hwent => exact dealt_of_resume hwent
  | moved _ hmoved => exact dealt_of_moved hmoved
  | added => exact dealt_of_silent rfl (fun _ => rfl) rfl (by simp [Silent])
  | late job =>
    exact dealt_of_silent (hjob job _ _).1 (fun _ => rfl) (by rw [(hjob job _ _).2])
      (job.silent_of_refused _)
  | sent job =>
    exact dealt_of_silent (hjob job _ _).1 (fun _ => rfl) (by rw [(hjob job _ _).2]; rfl)
      (job.silent_of_taken _ _)
  | sendWaits job =>
    exact dealt_of_silent (hjob job _ _).1 (fun _ => rfl) (by rw [(hjob job _ _).2]; rfl)
      (by simp [Silent])
  | sentAway job =>
    exact dealt_of_silent (hjob job _ _).1 (fun _ => rfl) (by rw [(hjob job _ _).2]; rfl)
      (job.silent_of_refused _)
  | waited =>
    exact dealt_of_silent rfl (fun _ => rfl) rfl
      (by simp [Silent, Event.registered?, Event.granted?])
  | waits => exact dealt_of_silent rfl (fun _ => rfl) rfl (by simp [Silent])
  | dropped =>
    exact dealt_of_silent rfl (fun hl => (list_releasePool hl).2) (turn_releasePool _)
      (by simp [Silent])
  | acquireAborted =>
    exact .dropped rfl (fun hl => (list_forget hl).2) (turn_releasePool _)
  | @sendAborted call worker =>
    exact dealt_of_silent rfl
      (fun hl => (list_forget hl).2.trans (list_leaveInbox s worker call).2)
      ((turn_releasePool _).trans (turn_leaveInbox s worker call)) (by simp [Silent])
  | waitAborted =>
    exact dealt_of_silent rfl (fun hl => (list_forget hl).2) (turn_releasePool _)
      (by simp [Silent])

theorem taking?_eq_none (h : s.looker? a = none ∨ s.available = []) :
    taking? ⟨s, a, events⟩ = none := by
  unfold taking?
  dsimp only
  rcases h with h | h
  · rw [h]
  · rw [h]
    cases s.looker? a <;> rfl

theorem taking?_eq_some {available : List Nat} (hlooker : s.looker? a = some call)
    (hlist : s.available = worker :: available) (events : List (Event ω)) :
    taking? ⟨s, a, events⟩ = some { call, worker, exited := s.hasExited worker } := by
  simp only [taking?, hlooker, hlist]

theorem takings_concat (turns : History ω) (t : Turn (System ω) (Action ω) (Event ω)) :
    takings (turns ++ [t]) = takings turns ++ (taking? t).toList := by
  cases h : taking? t <;> simp [takings, h]

theorem hires_concat (turns : History ω) (s : System ω) (a : Action ω) (events : List (Event ω)) :
    hires (turns ++ [⟨s, a, events⟩]) = hires turns ++ events.filterMap Event.hired? := by
  simp [hires]

theorem hired?_of_silent (h : ∀ e ∈ events, e.granted? = none) :
    events.filterMap Event.hired? = [] :=
  List.filterMap_eq_nil_iff.mpr fun e he => Event.hired?_eq_none (h e he)

/-- Nothing is on the list once nobody can take from it. -/
def Swept (s : System ω) : Prop := s.listening = true ∨ s.available = []

theorem Swept.releasePool (h : s.Swept) : s.releasePool.Swept := by
  unfold System.releasePool
  split
  · exact h
  · exact .inr rfl

theorem Swept.frame (h : s.Swept) (hl : s'.listening = s.listening)
    (hlist : s'.available = s.available) : s'.Swept := by
  rwa [Swept, hl, hlist]

theorem Swept.took {base : System ω} (h : base.Swept) (htook : base.Took call out) :
    out.1.Swept := by
  cases htook with
  | skipped hlist => exact .inl (h.resolve_right (by simp [hlist]))
  | acquired hlist =>
    refine Swept.releasePool (.inl ?_)
    exact h.resolve_right (by simp [hlist])
  | nobody hlist => exact Swept.releasePool (.inr hlist)

theorem swept_of_did (h : s.Swept) (hdid : s.Did a out) : out.1.Swept := by
  have hforget {r : System ω} (h : r.Swept) (call : Nat) : (r.forget call).Swept :=
    Swept.releasePool (h.frame rfl rfl)
  cases hdid with
  | added | asked | late | sent | sendWaits | sentAway | waited | waits => exact h.frame rfl rfl
  | @atOnce call _ _ _ _ htook =>
    have hasked : (s.ask call).Swept := h.frame rfl rfl
    exact hasked.took htook
  | dropped => exact Swept.releasePool (h.frame rfl rfl)
  | @acquireAborted call =>
    exact hforget (r := { s with turn := s.turn.leave call }) (h.frame rfl rfl) _
  | sendAborted =>
    exact hforget (h.frame (list_leaveInbox s _ _).1 (list_leaveInbox s _ _).2) _
  | waitAborted => exact hforget h _
  | resumed hwent =>
    cases hwent with
    | took _ _ htook => exact h.took htook
    | sent | sentAway => exact hforget (r := s.setWorker _ _) (h.frame rfl rfl) _
    | waited => exact hforget h _
  | moved _ hmoved =>
    have hended (worker : Nat) (w : Worker ω) : (s.endWorker worker w).1.Swept :=
      h.frame (list_endWorker s worker w).1 (list_endWorker s worker w).2
    cases hmoved with
    | registered _ hl => exact .inl hl
    | unheard | stopped | deserted | gone => exact hended _ _
    | began | kept => exact h.frame rfl rfl
    | panicked p => exact h.frame (list_releaseWaiting _).1 (list_releaseWaiting _).2

theorem swept_of_run (h : Run step (new name) turns s) : s.Swept := by
  refine h.invariant (.inl rfl) ?_
  intro s a s' events hs hstep
  exact swept_of_did hs (did_of_step hstep)

/-- What became of the entries so far. -/
structure Drawn (turns : History ω) (s : System ω) : Prop where
  /-- Entries are taken off in the order in which the workers said that they are available. -/
  taken : (takings turns).map (·.worker) <+: registered turns
  /-- All that was not taken off is there, as long as anybody can take it. -/
  left : s.listening = true → registered turns = (takings turns).map (·.worker) ++ s.available
  /-- The calls that come back with a worker have one entry each, in order, and no entry is left out
  but those of workers that had exited when they were taken off. -/
  hired : hires turns = ((takings turns).filter fun k => !k.exited).map fun k => (k.call, k.worker)

theorem Drawn.untouched (h : Drawn turns s) (hnone : taking? ⟨s, a, events⟩ = none)
    (hl : s'.listening = true → s.listening = true ∧
      s'.available = s.available ++ events.filterMap Event.registered?)
    (hhired : events.filterMap Event.hired? = []) : Drawn (turns ++ [⟨s, a, events⟩]) s' where
  taken := by
    rw [takings_concat, hnone, registered_append]
    simpa using h.taken.trans (List.prefix_append _ _)
  left hlistening := by
    obtain ⟨hbefore, hlist⟩ := hl hlistening
    rw [takings_concat, hnone, registered_append, registered_singleton, h.left hbefore, hlist]
    simp
  hired := by
    rw [takings_concat, hnone, hires_concat, hhired, h.hired]
    simp

/-- The first entry is taken off the list. -/
theorem Drawn.drawn {available : List Nat} (h : Drawn turns s) (hswept : s.Swept)
    (hlooker : s.looker? a = some call) (hlist : s.available = worker :: available)
    (hl : s'.listening = true → s'.available = available)
    (hevents : events = if s.hasExited worker then [] else
      [.replied call (.acquired (some worker))]) : Drawn (turns ++ [⟨s, a, events⟩]) s' := by
  have htaking := taking?_eq_some hlooker hlist events
  have hleft := h.left (hswept.resolve_right (by simp [hlist]))
  have hnone : registered (turns ++ [⟨s, a, events⟩]) = registered turns := by
    rw [registered_append, registered_singleton, hevents]
    split <;> simp [Event.registered?]
  refine ⟨?_, ?_, ?_⟩
  · rw [hnone, takings_concat, htaking, hleft, hlist]
    exact ⟨available, by simp⟩
  · intro hlistening
    rw [hnone, takings_concat, htaking, hleft, hlist, hl hlistening]
    simp
  · rw [takings_concat, htaking, hires_concat, h.hired, hevents]
    cases s.hasExited worker <;> simp [Event.hired?]

theorem drawn_of_run (h : Run System.step (new name) turns s) : Drawn turns s := by
  induction h with
  | nil => exact ⟨List.prefix_refl _, fun _ => rfl, rfl⟩
  | @snoc turns s s' a events hrun hstep ih =>
    have hswept := swept_of_run hrun
    have hbefore (hl : s'.listening = true) : s.listening = true := (listed_of_step hstep hl).1
    cases dealt_of_step hstep with
    | passedOver hlooker hlist hexited hl =>
      exact ih.drawn hswept hlooker hlist hl (by rw [hexited]; rfl)
    | handedOut hlooker hlist hexited hl =>
      exact ih.drawn hswept hlooker hlist hl (by rw [hexited]; rfl)
    | nobody _ hlist _ hl =>
      exact ih.untouched (taking?_eq_none (.inr hlist))
        (fun h => ⟨hbefore h, by simp [hl h, hlist, Event.registered?]⟩) rfl
    | dropped haction hl =>
      subst haction
      exact ih.untouched (taking?_eq_none (.inl rfl))
        (fun h => ⟨hbefore h, by simp [hl h]⟩) rfl
    | other hlooker hl _ hsilent =>
      exact ih.untouched (taking?_eq_none hlooker) (fun h => ⟨hbefore h, hl h⟩)
        (hired?_of_silent hsilent)

/-- A call that takes an entry comes back by the same turn, unless the worker had exited. -/
theorem events_of_taking {k : Taking} (h : s.step a = some (s', events))
    (hk : taking? ⟨s, a, events⟩ = some k) :
    events = if k.exited then [] else [.replied k.call (.acquired (some k.worker))] := by
  have hnot (hnone : s.looker? a = none ∨ s.available = []) : False := by
    rw [taking?_eq_none hnone] at hk
    cases hk
  cases dealt_of_step h with
  | passedOver hlooker hlist hexited =>
    rw [taking?_eq_some hlooker hlist, hexited] at hk
    obtain rfl := Option.some.inj hk
    rfl
  | handedOut hlooker hlist hexited =>
    rw [taking?_eq_some hlooker hlist, hexited] at hk
    obtain rfl := Option.some.inj hk
    rfl
  | nobody _ hlist => exact (hnot (.inr hlist)).elim
  | dropped haction =>
    subst haction
    exact (hnot (.inl rfl)).elim
  | other hlooker => exact (hnot hlooker).elim

theorem held_of_looker (h : s.looker? a = some call) : call ∈ (s.joined a).turn.held := by
  cases a with
  | acquire w =>
    obtain ⟨hholds, hw⟩ := Option.ite_none_right_eq_some.mp h
    obtain rfl := Option.some.inj hw
    exact Permits.holds_iff.mp hholds
  | resume w =>
    obtain ⟨hholds, hw⟩ := Option.ite_none_right_eq_some.mp h
    obtain rfl := Option.some.inj hw
    exact Permits.holds_iff.mp (Bool.and_eq_true_iff.mp hholds).2
  | _ => cases h

theorem unused_of_acquires (h : s.step a = some (s', events)) (ha : a.acquires call = true) :
    a = .acquire call ∧ s.call? call = none := by
  cases a with
  | acquire w =>
    obtain rfl : w = call := by simpa [Action.acquires] using ha
    obtain ⟨hmay, -⟩ := Option.ite_none_right_eq_some.mp h
    exact ⟨rfl, Option.isNone_iff_eq_none.mp (Bool.and_eq_true_iff.mp hmay).2⟩
  | _ => cases ha

namespace Queued

theorem joined (hq : s.Queued) (h : s.step a = some (s', events)) : (s.joined a).Queued := by
  cases a with
  | acquire call => exact hq.ask (unused_of_acquires h (by simp [Action.acquires])).2
  | _ => exact hq

theorem acquires_eq_false (hq : s.Queued) (h : s.step a = some (s', events))
    (hcall : call ∈ s.turn.everybody) : a.acquires call = false := by
  rw [← Bool.not_eq_true]
  intro ha
  obtain ⟨c, hc, -⟩ := hq.guarded.pending call hcall
  exact Calls.not_mem_of_lookup (unused_of_acquires h ha).2 hc

theorem exists_joined (hq : s.Queued) (a : Action ω) : ∃ new : Option Nat,
    (∀ w ∈ new, a.acquires w = true) ∧
      (s.joined a).turn.everybody = s.turn.everybody ++ new.toList := by
  cases a with
  | acquire call =>
    refine ⟨some call, by simp [Action.acquires], ?_⟩
    exact Permits.everybody_request_of_fair hq.fair call
  | _ => exact ⟨none, by simp, (List.append_nil _).symm⟩

/-- Whoever has the turn stands before all others, and the others stay when it is over. -/
theorem everybody_of_held (hq : s.Queued) (hcall : call ∈ s.turn.held) :
    s.turn.everybody = call :: s.turn.line ∧
      (s.turn.giveBack call).everybody = s.turn.line := by
  have hheld : s.turn.held = [call] := by
    have hone := hq.guarded.single
    have hpos := List.length_pos_of_mem hcall
    simp only [Permits.total] at hone
    obtain ⟨v, hv⟩ := List.length_eq_one_iff.mp (show s.turn.held.length = 1 by omega)
    rw [hv, List.mem_singleton] at hcall
    rw [hv, hcall]
  have hall : s.turn.everybody = call :: s.turn.line := by
    rw [Permits.everybody, hheld]
    rfl
  rw [Permits.everybody_giveBack hcall, hall, List.erase_cons_head]
  exact ⟨rfl, rfl⟩

/-- Nobody gets into the line but by a new call. -/
theorem sublist_joined (hq : s.Queued) (h : s.step a = some (s', events)) :
    s'.turn.everybody.Sublist (s.joined a).turn.everybody := by
  have hjoined := hq.joined h
  cases dealt_of_step h with
  | passedOver _ _ _ _ hturn | other _ _ hturn => exact hturn ▸ .refl _
  | handedOut hlooker _ _ _ hturn | nobody hlooker _ _ _ hturn =>
    obtain ⟨hall, hleft⟩ := hjoined.everybody_of_held (held_of_looker hlooker)
    rw [hturn, hleft, hall]
    exact List.sublist_cons_self _ _
  | dropped haction _ hturn =>
    subst haction
    rw [hturn, Permits.everybody_leave]
    exact List.erase_sublist

/-- Whoever comes back was the first in line, and leaves the others there. -/
theorem first_of_returned {r : Option Nat} (hq : s.Queued) (h : s.step a = some (s', events))
    (hr : .replied call (.acquired r) ∈ events) :
    (s.joined a).turn.everybody = call :: s'.turn.everybody := by
  have hjoined := hq.joined h
  cases dealt_of_step h with
  | passedOver | dropped => cases hr
  | handedOut hlooker _ _ _ hturn | nobody hlooker _ _ _ hturn =>
    obtain ⟨rfl, -⟩ : call = _ ∧ r = _ := by simpa using hr
    obtain ⟨hall, hleft⟩ := hjoined.everybody_of_held (held_of_looker hlooker)
    rw [hturn, hleft, hall]
  | other _ _ _ hsilent =>
    have := hsilent _ hr
    cases this

end Queued

def Behind (n : Nat) (turns : History ω) (s : System ω) : Prop :=
  ∀ v ∈ s.turn.everybody, n < made v turns

def InLine (turns : History ω) (s : System ω) : Prop :=
  s.turn.everybody.Pairwise fun v w => made v turns < made w turns

section Line

variable {n : Nat} {more : History ω}

theorem Behind.joined (h : Behind n turns s) (hn : n ≤ turns.length) (hq : s.Queued)
    (hstep : s.step a = some (s', events)) :
    Behind n (turns ++ [⟨s, a, events⟩]) (s.joined a) := by
  obtain ⟨new, hnew, hall⟩ := hq.exists_joined a
  intro v hv
  rw [made_concat]
  rw [hall] at hv
  rcases List.mem_append.mp hv with hv | hv
  · rw [hq.acquires_eq_false hstep hv]
    exact h v hv
  · rw [hnew v (Option.mem_toList.mp hv)]
    exact Nat.lt_succ_of_le hn

theorem Behind.step (h : Behind n turns s) (hn : n ≤ turns.length) (hq : s.Queued)
    (hstep : s.step a = some (s', events)) : Behind n (turns ++ [⟨s, a, events⟩]) s' :=
  fun v hv => h.joined hn hq hstep v ((hq.sublist_joined hstep).subset hv)

theorem Behind.run (h : Behind n turns s) (hn : n ≤ turns.length)
    (hrun : Run System.step (new name) turns s) (hmore : Run System.step s more s') :
    Behind n (turns ++ more) s' := by
  induction hmore with
  | nil => simpa using h
  | snoc hmore hstep ih =>
    rw [← List.append_assoc]
    refine ih.step ?_ (queued_of_run (hrun.append hmore)) hstep
    rw [List.length_append]
    omega

theorem InLine.joined (h : InLine turns s) (hq : s.Queued)
    (hstep : s.step a = some (s', events)) :
    InLine (turns ++ [⟨s, a, events⟩]) (s.joined a) := by
  obtain ⟨new, hnew, hall⟩ := hq.exists_joined a
  have hold (v : Nat) (hv : v ∈ s.turn.everybody) :
      made v (turns ++ [⟨s, a, events⟩]) = made v turns := by
    rw [made_concat, hq.acquires_eq_false hstep hv]
    rfl
  rw [InLine, hall]
  refine List.pairwise_append.mpr ⟨?_, ?_, ?_⟩
  · exact h.imp_of_mem fun hv hw hlt => by rwa [hold _ hv, hold _ hw]
  · cases new <;> simp
  · intro v hv w hw
    rw [hold v hv, made_concat, hnew w (Option.mem_toList.mp hw)]
    exact Nat.lt_succ_of_le (made_le v turns)

theorem inLine_of_run (h : Run System.step (new name) turns s) : InLine turns s := by
  induction h with
  | nil => exact .nil
  | snoc hrun hstep ih =>
    have hq := queued_of_run hrun
    exact (ih.joined hq hstep).sublist (hq.sublist_joined hstep)

theorem behind_of_returned {r : Option Nat} (h : Run System.step (new name) turns s)
    (hstep : s.step a = some (s', events)) (hr : .replied call (.acquired r) ∈ events) :
    Behind (made call (turns ++ [⟨s, a, events⟩])) (turns ++ [⟨s, a, events⟩]) s' := by
  have hq := queued_of_run h
  have hline := (inLine_of_run h).joined hq hstep
  rw [InLine, hq.first_of_returned hstep hr] at hline
  exact (List.pairwise_cons.mp hline).1

/-- A call that is not in line gets there only when it is made. -/
theorem absent_of_run (habsent : call ∉ s.turn.everybody)
    (hrun : Run System.step (new name) turns s) (hmore : Run System.step s more s')
    (hnone : ∀ u ∈ more, u.action ≠ .acquire call) : call ∉ s'.turn.everybody := by
  induction hmore with
  | nil => exact habsent
  | @snoc more s₁ s₂ a events hmore hstep ih =>
    have hq := queued_of_run (hrun.append hmore)
    obtain ⟨new, hnew, hall⟩ := hq.exists_joined a
    intro hmem
    have hmem := (hq.sublist_joined hstep).subset hmem
    rw [hall] at hmem
    rcases List.mem_append.mp hmem with hmem | hmem
    · exact ih (fun u hu => hnone u (List.mem_append_left _ hu)) hmem
    · refine hnone ⟨s₁, a, events⟩ (by simp) ?_
      exact (unused_of_acquires hstep (hnew call (Option.mem_toList.mp hmem))).1

end Line

/-- What calls to acquire do with the entries of the list, whichever of them are given up. -/
structure Acquires (turns : History ω) (s : System ω) : Prop extends Drawn turns s where
  /-- A call comes back by the very turn that takes an entry off for it. -/
  atOnce : ∀ t ∈ turns, ∀ k, taking? t = some k →
    t.events = if k.exited then [] else [.replied k.call (.acquired (some k.worker))]
  /-- Calls come back in the order in which they were made. -/
  inOrder : ∀ before t between t' after call call' r r',
    turns = before ++ t :: (between ++ t' :: after) →
    .replied call (.acquired r) ∈ t.events → .replied call' (.acquired r') ∈ t'.events →
    made call (before ++ [t]) < made call' (before ++ t :: (between ++ [t']))
  /-- From the time it is made until it is given up, a call has taken off only entries of workers
  that had exited. -/
  givenUp : ∀ before t between t' after call,
    turns = before ++ t :: (between ++ t' :: after) → t.action = .acquire call →
    t'.action = .abort call → t'.before.call? call = some .acquire →
    (∀ u ∈ between, u.action ≠ .acquire call) →
    ∀ u ∈ t :: (between ++ [t']), ∀ k, taking? u = some k → k.call = call → k.exited = true
  /-- A call comes back with no worker only when none is counted and nothing is on the list. -/
  nobody : ∀ t ∈ turns, ∀ call, .replied call (.acquired none) ∈ t.events →
    t.before.live = 0 ∧ t.before.available = []

theorem made_lt_of_returned {before between after : History ω}
    {t t' : Turn (System ω) (Action ω) (Event ω)} {call' : Nat} {r r' : Option Nat}
    (h : Run System.step (new name) (before ++ t :: (between ++ t' :: after)) s)
    (hr : .replied call (.acquired r) ∈ t.events)
    (hr' : .replied call' (.acquired r') ∈ t'.events) :
    made call (before ++ [t]) < made call' (before ++ t :: (between ++ [t'])) := by
  have hturns : before ++ t :: (between ++ [t']) = before ++ [t] ++ between ++ [t'] := by simp
  rw [hturns]
  obtain ⟨hbefore, s₁, hstep, hmore⟩ := h.cut_turn
  obtain ⟨hbetween, s₂, hstep', -⟩ := hmore.cut_turn
  have hfirst := hbefore.snoc hstep
  have hrun := hfirst.append hbetween
  have hq := queued_of_run hrun
  have hbehind := (behind_of_returned hbefore hstep hr).run (made_le _ _) hfirst hbetween
  have hlater := hbehind.joined (Nat.le_trans (made_le _ _) (by simp)) hq hstep'
  refine hlater call' ?_
  rw [hq.first_of_returned hstep' hr']
  exact List.mem_cons_self

/-- A call that is pending has not come back since it was made. -/
theorem exited_of_pending {before after : History ω} {t : Turn (System ω) (Action ω) (Event ω)}
    {k : Taking} (h : Run System.step (new name) (before ++ t :: after) s)
    (hk : taking? t = some k) (hpending : s.call? k.call = some .acquire)
    (hnone : ∀ u ∈ after, u.action ≠ .acquire k.call) : k.exited = true := by
  rw [← Bool.not_eq_false]
  intro hopen
  have hpending := (queued_of_run h).guarded.waiting _ _ (Calls.mem_of_lookup hpending) rfl
  obtain ⟨hbefore, s₁, hstep, hmore⟩ := h.cut_turn
  refine absent_of_run ?_ (hbefore.snoc hstep) hmore hnone hpending
  have hr : .replied k.call (.acquired (some k.worker)) ∈ t.events := by
    rw [events_of_taking hstep hk, hopen]
    exact List.mem_singleton_self _
  have hq := queued_of_run hbefore
  have hnodup := (hq.joined hstep).guarded.nodup
  rw [hq.first_of_returned hstep hr] at hnodup
  exact (List.nodup_cons.mp hnodup).1

theorem nobody_of_returned (h : s.step a = some (s', events))
    (hr : .replied call (.acquired none) ∈ events) : s.live = 0 ∧ s.available = [] := by
  cases dealt_of_step h with
  | passedOver | dropped => cases hr
  | handedOut => simp at hr
  | nobody _ hlist hlive => exact ⟨hlive, hlist⟩
  | other _ _ _ hsilent =>
    have := hsilent _ hr
    cases this

/-- Entries go from the list to the calls in the order of both, but for those of workers that have
exited; and none is lost, whichever calls are given up. -/
theorem acquired_in_order (h : Run System.step (new name) turns s) : Acquires turns s := by
  refine { drawn_of_run h with
           atOnce := ?atOnce, inOrder := ?inOrder, givenUp := ?givenUp, nobody := ?nobody }
  case atOnce =>
    intro t ht k hk
    obtain ⟨-, -, s₁, -, -, hstep, -⟩ := h.split ht
    exact events_of_taking hstep hk
  case inOrder =>
    rintro before t between t' after call call' r r' rfl hr hr'
    exact made_lt_of_returned h hr hr'
  case givenUp =>
    rintro before t between t' after call rfl - habort hpending hnone u hu k hk rfl
    rw [← List.cons_append, ← List.append_assoc] at h
    rw [← List.cons_append] at hu
    obtain ⟨hrun, -⟩ := h.cut_turn
    rcases List.mem_append.mp hu with hu | hu
    · obtain ⟨earlier, later, hsplit⟩ := List.append_of_mem hu
      rw [hsplit, ← List.append_assoc] at hrun
      refine exited_of_pending hrun hk hpending fun v hv => hnone v ?_
      have hlater : later.Sublist between := by
        have htail := congrArg List.tail hsplit
        cases earlier <;> simp_all
      exact hlater.subset hv
    · obtain rfl := List.mem_singleton.mp hu
      rw [taking?, habort] at hk
      cases hk
  case nobody =>
    intro t ht call hr
    obtain ⟨-, -, s₁, -, -, hstep, -⟩ := h.split ht
    exact nobody_of_returned hstep hr

/-- The first call finds a worker that has exited and is given up, the second gets the other worker,
and the third comes back with none when both have ended. -/
def passedOverRun : List (Action Unit) :=
  [.addWorker, .addWorker, .acquire 1, .acquire 2, .move 0 .register, .exit 5 0, .resume 1,
    .abort 1, .acquire 3, .move 1 .register, .resume 2, .submit 6 1 (), .move 1 .receive,
    .move 1 (.workReturns false), .move 0 .receive, .resume 3]

theorem acquired_in_order_passedOverRun : ∃ turns s,
    Run System.step (new "pool" : System Unit) turns s ∧ Acquires turns s ∧
      takings turns = [⟨1, 0, true⟩, ⟨2, 1, false⟩] ∧ hires turns = [(2, 1)] ∧
      grants turns = [(2, some 1), (3, none)] := by
  have hseen : (replay System.step (new "pool" : System Unit) passedOverRun).map (fun r =>
      (takings r.1, grants r.1)) =
      some ([⟨1, 0, true⟩, ⟨2, 1, false⟩], [(2, some 1), (3, none)]) := by
    decide +kernel
  obtain ⟨⟨turns, s⟩, hreplay, hseen⟩ := Option.map_eq_some_iff.mp hseen
  obtain ⟨htakings, hgrants⟩ := Prod.mk.inj hseen
  have hacquires := acquired_in_order (Run.of_replay hreplay)
  refine ⟨turns, s, Run.of_replay hreplay, hacquires, htakings, ?_, hgrants⟩
  have htakings : takings turns = [⟨1, 0, true⟩, ⟨2, 1, false⟩] := htakings
  rw [hacquires.hired, htakings]
  rfl

end System

end Pool

end Batchflow
