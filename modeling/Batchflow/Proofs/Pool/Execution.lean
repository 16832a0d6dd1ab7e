import Batchflow.Proofs.Pool.Inbox
import Batchflow.Proofs.Pool.Submissions

/-!
# How a worker does its work

What the inbox of a worker has taken is what the worker has begun and what is still in the inbox.  A
worker begins the next unit of work only when the last one has told it to go on.  When it ends, all
that was taken is done, unless a unit told it to go, or panicked, or nobody was left to hear that it
is available.
-/

namespace Batchflow.Pool

variable {ω : Type}

def Sight.began? : Sight ω → Option ω
  | .began work => some work
  | _ => none

/-- The units of work among some jobs. -/
def units (jobs : List (Job ω)) : List ω := jobs.filterMap Job.work?

theorem units_append (jobs jobs' : List (Job ω)) :
    units (jobs ++ jobs') = units jobs ++ units jobs' :=
  List.filterMap_append

@[simp] theorem units_map_work (works : List ω) : units (works.map .work) = works := by
  rw [units, List.filterMap_map]
  exact List.filterMap_some

/-- If nothing comes after the order to stop, jobs are units of work and at most one such order. -/
theorem StopLast.eq {jobs : List (Job ω)} (h : StopLast jobs) :
    jobs = (units jobs).map .work ∨ jobs = (units jobs).map .work ++ [.stop] := by
  induction jobs with
  | nil => exact .inl rfl
  | cons job jobs ih =>
    obtain ⟨hfirst, hrest⟩ := List.pairwise_cons.mp h
    cases job with
    | work w =>
      have hunits : units (.work w :: jobs) = w :: units jobs := rfl
      rw [hunits, List.map_cons, List.cons_append]
      exact (ih hrest).imp (congrArg _) (congrArg _)
    | stop =>
      cases jobs with
      | nil => exact .inr rfl
      | cons job jobs => exact absurd (hfirst job List.mem_cons_self) nofun

theorem offered_eq (w : Worker ω) (inbox : Channel Nat (Job ω)) (job : Job ω) :
    (w.offered inbox job).inbox.closed = inbox.closed ∧
      (w.offered inbox job).phase = w.phase ∧
      (w.offered inbox job).inbox.buffer = inbox.buffer := by
  cases job with
  | work => exact ⟨rfl, rfl, rfl⟩
  | stop =>
    simp only [Worker.offered, Worker.retire]
    split <;> exact ⟨rfl, rfl, rfl⟩

namespace Worker.Leaves

variable {heard : Bool} {w w' : Worker ω} {m : Move}

theorem alive (h : w.Leaves heard m w') : w.phase.ended = false := by
  cases h <;> simp_all [Phase.ended]

theorem ended (h : w.Leaves heard m w') : w'.phase.ended = true := by
  cases h <;> rfl

theorem closed (h : w.Leaves heard m w') : w'.inbox.closed = true := by
  cases h <;> rfl

end Worker.Leaves

namespace System

variable {s s' : System ω} {a : Action ω} {events : List (Event ω)} {i call : Nat}
  {w w' : Worker ω} {job : Job ω} {turns more : History ω} {name : String} {seen : List (Sight ω)}

/-- The units of work that a worker has begun, in order. -/
def begun (worker : Nat) (turns : History ω) : List ω :=
  (System.seen worker turns).filterMap Sight.began?

/-- Why a worker may leave work in its inbox. -/
inductive CutShort (worker : Nat) (turns : History ω) : Prop
  | gone {t : Turn (System ω) (Action ω) (Event ω)} : t ∈ turns →
      t.action = .move worker (.workReturns false) → CutShort worker turns
  | panicked {t : Turn (System ω) (Action ω) (Event ω)} {p : Panic} : t ∈ turns →
      t.action = .move worker (.workPanics p) → CutShort worker turns
  /-- The pool was dropped, and nobody hears of the worker any more. -/
  | unheard {t u : Turn (System ω) (Action ω) (Event ω)} : u ∈ turns → u.action = .drop →
      t ∈ turns → t.action = .move worker .register → t.before.listening = false →
      CutShort worker turns

theorem CutShort.mono (h : CutShort i turns) (more : History ω) : CutShort i (turns ++ more) := by
  cases h with
  | gone ht haction => exact .gone (List.mem_append_left _ ht) haction
  | panicked ht haction => exact .panicked (List.mem_append_left _ ht) haction
  | unheard hu hdrop ht haction hdeaf =>
    exact .unheard (List.mem_append_left _ hu) hdrop (List.mem_append_left _ ht) haction hdeaf

structure Employed (worker : Nat) (turns : History ω) (w : Worker ω) : Prop where
  closed : w.inbox.closed = w.phase.ended
  jobs : ∃ left, accepted worker turns = (begun worker turns).map .work ++ left ∧
    (w.phase.ended = false → left = w.inbox.buffer) ∧
    (w.phase.ended = true → left = [] ∨ left = [.stop] ∨ CutShort worker turns)

namespace Employed

variable {t : Turn (System ω) (Action ω) (Event ω)}

theorem snoc_seen (t : Turn (System ω) (Action ω) (Event ω)) (turns : History ω)
    (hseen : sights i t.events = seen) :
    accepted i (turns ++ [t]) = accepted i turns ++ seen.filterMap Sight.took? ∧
      begun i (turns ++ [t]) = begun i turns ++ seen.filterMap Sight.began? := by
  subst hseen
  exact ⟨accepted_snoc i turns t, by simp [begun, seen_snoc]⟩

theorem keep (h : Employed i turns w) (hseen : sights i t.events = [])
    (hclosed : w'.inbox.closed = w.inbox.closed) (hended : w'.phase.ended = w.phase.ended)
    (hbuffer : w'.inbox.buffer = w.inbox.buffer) : Employed i (turns ++ [t]) w' := by
  obtain ⟨haccepted, hbegun⟩ := snoc_seen t turns hseen
  obtain ⟨left, hleft, halive, hover⟩ := h.jobs
  rw [List.filterMap_nil, List.append_nil] at haccepted hbegun
  refine ⟨by rw [hclosed, hended, h.closed], left, by rw [haccepted, hbegun, hleft], ?_, ?_⟩
  · rw [hended, hbuffer]
    exact halive
  · rw [hended]
    exact fun hw => (hover hw).imp_right fun h => h.imp_right fun h => h.mono [t]

theorem take (h : Employed i turns w) (hseen : sights i t.events = [.took job])
    (hopen : w.inbox.closed = false) (hclosed : w'.inbox.closed = w.inbox.closed)
    (hended : w'.phase.ended = w.phase.ended)
    (hbuffer : w'.inbox.buffer = w.inbox.buffer ++ [job]) : Employed i (turns ++ [t]) w' := by
  obtain ⟨haccepted, hbegun⟩ := snoc_seen t turns hseen
  obtain ⟨left, hleft, halive, -⟩ := h.jobs
  have hphase : w.phase.ended = false := h.closed.symm.trans hopen
  change _ = begun i turns ++ [] at hbegun
  change _ = accepted i turns ++ [job] at haccepted
  refine ⟨by rw [hclosed, hended, h.closed], left ++ [job], ?_, ?_, ?_⟩
  · rw [haccepted, hbegun, hleft, List.append_nil, List.append_assoc]
  · exact fun _ => by rw [hbuffer, halive hphase]
  · intro hw
    rw [hended, hphase] at hw
    cases hw

/-- The worker takes a unit of work from its inbox. -/
theorem begin {work : ω} {inbox : Channel Nat (Job ω)} (h : Employed i turns w)
    (hseen : sights i t.events = [.began work]) (halive : w.phase.ended = false)
    (hreceive : w.inbox.receive? = some (.work work, inbox)) :
    Employed i (turns ++ [t]) { w with inbox, phase := .working work } := by
  obtain ⟨haccepted, hbegun⟩ := snoc_seen t turns hseen
  obtain ⟨left, hleft, hbuffer, -⟩ := h.jobs
  change _ = begun i turns ++ [work] at hbegun
  change _ = accepted i turns ++ [] at haccepted
  refine ⟨?_, inbox.buffer, ?_, fun _ => rfl, nofun⟩
  · exact (Channel.closed_receive hreceive).trans (h.closed.trans halive)
  · rw [haccepted, hbegun, hleft, hbuffer halive, (Channel.receive?_eq_some hreceive).1]
    simp

/-- The worker ends, with what is still in its inbox. -/
theorem leave (h : Employed i turns w) (hcapacity : w.inbox.capacity = 1)
    (hseen : sights i t.events = [.ended]) {m : Move} (haction : t.action = .move i m)
    (hleaves : w.Leaves t.before.listening m w')
    (hdropped : t.before.listening = false → ∃ u ∈ turns, u.action = .drop) :
    Employed i (turns ++ [t]) w' := by
  obtain ⟨haccepted, hbegun⟩ := snoc_seen t turns hseen
  obtain ⟨left, hleft, hbuffer, -⟩ := h.jobs
  obtain rfl := hbuffer hleaves.alive
  change _ = begun i turns ++ [] at hbegun
  change _ = accepted i turns ++ [] at haccepted
  rw [List.append_nil] at haccepted hbegun
  have ht : t ∈ turns ++ [t] := List.mem_append_right _ List.mem_cons_self
  refine ⟨hleaves.closed.trans hleaves.ended.symm, w.inbox.buffer,
    by rw [haccepted, hbegun, hleft], ?_, fun _ => ?_⟩
  · intro hw'
    rw [hleaves.ended] at hw'
    cases hw'
  · cases hleaves with
    | unheard _ hdeaf =>
      obtain ⟨u, hu, hdrop⟩ := hdropped hdeaf
      exact .inr (.inr (.unheard (List.mem_append_left _ hu) hdrop ht haction hdeaf))
    | @stopped inbox _ hreceive =>
      -- The inbox has one place, so nothing stands behind the order to stop.
      rw [Channel.capacity, (Channel.receive?_eq_some hreceive).1, List.length_cons] at hcapacity
      have hnil : inbox.buffer = [] := List.length_eq_zero_iff.mp (by omega)
      rw [(Channel.receive?_eq_some hreceive).1, hnil]
      exact .inr (.inl rfl)
    | deserted _ hexhausted => exact .inl (Channel.exhausted_iff.mp hexhausted).1.1
    | gone => exact .inr (.inr (.gone ht haction))
    | panicked p => exact .inr (.inr (.panicked ht haction))

theorem tended (h : Employed i turns w) (hcapacity : w.inbox.capacity = 1)
    (ht : s.Tended s' i a w w' (sights i events))
    (hdropped : s.listening = false → ∃ u ∈ turns, u.action = .drop) :
    Employed i (turns ++ [⟨s, a, events⟩]) w' := by
  generalize hseen : sights i events = seen at ht
  cases ht with
  | same => exact h.keep hseen rfl rfl rfl
  | took job _ _ hsend =>
    obtain ⟨hopen, free, -, rfl⟩ := Channel.send_eq_accepted hsend
    obtain ⟨hclosed, hphase, hbuffer⟩ := offered_eq w _ job
    exact h.take hseen hopen hclosed (by rw [hphase]) hbuffer
  | joined job _ _ _ hsend =>
    obtain ⟨-, -, rfl⟩ := Channel.send_eq_waiting hsend
    obtain ⟨hclosed, hphase, hbuffer⟩ := offered_eq w _ job
    exact h.keep hseen hclosed (by rw [hphase]) hbuffer
  | refused job _ _ hsend =>
    obtain rfl := Channel.eq_of_send_refused hsend
    obtain ⟨hclosed, hphase, hbuffer⟩ := offered_eq w _ job
    exact h.keep hseen hclosed (by rw [hphase]) hbuffer
  | filled job _ _ hresume =>
    exact h.take hseen (Channel.resume?_eq_accepted hresume).1 rfl rfl rfl
  | left => exact h.keep hseen rfl rfl rfl
  | registered _ hphase => exact h.keep hseen rfl (by rw [hphase]; rfl) rfl
  | began _ hphase hreceive => exact h.begin hseen (by rw [hphase]; rfl) hreceive
  | kept _ hphase => exact h.keep hseen rfl (by rw [hphase]; rfl) rfl
  | ended haction hleaves => exact h.leave hcapacity hseen haction hleaves hdropped

end Employed

/-- The pool has its owner, and somebody can hear of the workers. -/
def Heard (s : System ω) : Prop := s.owned = true ∧ s.listening = true

theorem Heard.releasePool (h : s.Heard) : s.releasePool.Heard := by
  rw [System.releasePool, h.1]
  exact h

theorem Heard.endWorker (h : s.Heard) (worker : Nat) (w : Worker ω) :
    (s.endWorker worker w).1.Heard := by
  unfold System.endWorker releaseWaiting
  dsimp only
  split <;> exact h

theorem Heard.took {out : Outcome ω} (h : s.Heard) (htook : s.Took call out) : out.1.Heard := by
  cases htook with
  | skipped => exact h
  | acquired => exact Heard.releasePool h
  | nobody => exact Heard.releasePool h

/-- Only the owner of a pool can take it away. -/
theorem Heard.did {out : Outcome ω} (h : s.Heard) (hdid : s.Did a out) (ha : a ≠ .drop) :
    out.1.Heard := by
  cases hdid with
  | atOnce _ _ _ htook => exact Heard.took (s := s.ask _) h htook
  | dropped => exact absurd rfl ha
  | acquireAborted => exact Heard.releasePool h
  | sendAborted =>
    unfold leaveInbox
    split <;> exact Heard.releasePool h
  | waitAborted => exact Heard.releasePool h
  | resumed hwent =>
    cases hwent with
    | took _ _ htook => exact h.took htook
    | sent => exact Heard.releasePool h
    | sentAway => exact Heard.releasePool h
    | waited => exact Heard.releasePool h
  | moved _ hmoved =>
    cases hmoved with
    | unheard => exact h.endWorker _ _
    | stopped => exact h.endWorker _ _
    | deserted => exact h.endWorker _ _
    | gone => exact h.endWorker _ _
    | panicked =>
      unfold releaseWaiting
      split <;> exact h
    | _ => exact h
  | _ => exact h

theorem dropped_of_deaf (h : Run step (new name) turns s) (hdeaf : s.listening = false) :
    ∃ t ∈ turns, t.action = .drop := by
  by_contra hnot
  have hheard : s.Heard := by
    clear hdeaf
    induction h with
    | nil => exact ⟨rfl, rfl⟩
    | snoc _ hstep ih =>
      have hbefore := ih fun ⟨t, ht, hdrop⟩ => hnot ⟨t, List.mem_append_left _ ht, hdrop⟩
      refine hbefore.did (did_of_step hstep) fun hdrop => hnot ?_
      exact ⟨_, List.mem_append_right _ List.mem_cons_self, hdrop⟩
  simp [hheard.2] at hdeaf

theorem employed_of_run (h : Run step (new name) turns s) (hw : s.worker? i = some w) :
    Employed i turns w := by
  induction h generalizing w with
  | nil => cases hw
  | @snoc turns s _ a events hrun hstep ih =>
    cases fared_of_did (did_of_step hstep) i with
    | absent _ hw' => exact absurd (hw.symm.trans hw') nofun
    | hired hw₀ hw' _ hseen =>
      obtain rfl := Option.some.inj (hw.symm.trans hw')
      have hnothing : System.seen i (turns ++ [⟨s, a, events⟩]) = [] := by
        rw [seen_snoc, hseen, (seen_of_absent hrun hw₀).1, List.nil_append]
      exact ⟨rfl, [], by simp [accepted, begun, hnothing], fun _ => rfl, nofun⟩
    | tended hw₀ hw' ht =>
      obtain rfl := Option.some.inj (hw.symm.trans hw')
      exact (ih hw₀).tended (lined_of_run hrun hw₀).capacity ht (dropped_of_deaf hrun)

theorem tended_of_step (h : s.step a = some (s', events)) (hw : s.worker? i = some w) :
    ∃ w', s'.worker? i = some w' ∧ s.Tended s' i a w w' (sights i events) := by
  cases fared_of_did (did_of_step h) i with
  | absent hnone => exact absurd (hw.symm.trans hnone) nofun
  | hired hnone => exact absurd (hw.symm.trans hnone) nofun
  | tended hw₀ hw' ht =>
    obtain rfl := Option.some.inj (hw.symm.trans hw₀)
    exact ⟨_, hw', ht⟩

/-- The task of a worker has ended. -/
def HasEnded (s : System ω) (worker : Nat) : Prop :=
  ∃ w, s.worker? worker = some w ∧ w.phase.ended = true

def Occupied (s : System ω) (worker : Nat) : Prop :=
  ∃ w, s.worker? worker = some w ∧ ((∃ work, w.phase = .working work) ∨ w.phase.ended = true)

/-- Only a unit of work that returns true leaves the worker free. -/
theorem Occupied.step (h : s.Occupied i) (hstep : s.step a = some (s', events))
    (ha : a ≠ .move i (.workReturns true)) : s'.Occupied i := by
  obtain ⟨w, hw, hphase⟩ := h
  obtain ⟨w', hw', ht⟩ := tended_of_step hstep hw
  refine ⟨w', hw', ?_⟩
  generalize sights i events = seen at ht
  cases ht with
  | same | filled | left => exact hphase
  | took job | joined job | refused job =>
    rw [(offered_eq w _ job).2.1]
    exact hphase
  | registered _ hfree => simp [hfree, Phase.ended] at hphase
  | began => exact .inl ⟨_, rfl⟩
  | kept haction => exact absurd haction ha
  | ended _ hleaves => exact .inr hleaves.ended

theorem Occupied.run (h : s.Occupied i) (hrun : Run System.step s more s')
    (hmore : ∀ t ∈ more, t.action ≠ .move i (.workReturns true)) : s'.Occupied i := by
  induction hrun with
  | nil => exact h
  | snoc _ hstep ih =>
    have hbefore := ih fun t ht => hmore t (List.mem_append_left _ ht)
    exact hbefore.step hstep (hmore _ (List.mem_append_right _ List.mem_cons_self))

/-- A worker begins a unit of work when it does none. -/
theorem occupied_of_began {work : ω} (h : s.step a = some (s', events))
    (hbegan : .began i work ∈ events) : ¬ s.Occupied i ∧ s'.Occupied i := by
  have hmem : .began work ∈ sights i events := mem_sights.mpr hbegan
  generalize hseen : sights i events = seen at hmem
  cases hseen ▸ fared_of_did (did_of_step h) i with
  | absent _ _ _ hnil | hired _ _ _ hnil => simp [hnil] at hmem
  | @tended w w' hw hw' ht =>
    cases ht with
    | began _ hphase =>
      refine ⟨?_, _, hw', .inl ⟨_, rfl⟩⟩
      rintro ⟨v, hv, hoccupied⟩
      obtain rfl := Option.some.inj (hw.symm.trans hv)
      simp [hphase, Phase.ended] at hoccupied
    | _ => simp at hmem

/-- Nothing more is seen of a worker that has ended. -/
theorem HasEnded.step (h : Run System.step (new name) turns s) (hended : s.HasEnded i)
    (hstep : s.step a = some (s', events)) : s'.HasEnded i ∧ sights i events = [] := by
  obtain ⟨w, hw, hphase⟩ := hended
  have hclosed : w.inbox.closed = true := (employed_of_run h hw).closed.trans hphase
  obtain ⟨w', hw', ht⟩ := tended_of_step hstep hw
  generalize sights i events = seen at ht
  cases ht with
  | same | left => exact ⟨⟨_, hw', hphase⟩, rfl⟩
  | took _ _ _ hsend => simp [(Channel.send_eq_accepted hsend).1] at hclosed
  | joined _ _ _ _ hsend => simp [(Channel.send_eq_waiting hsend).1] at hclosed
  | refused job => exact ⟨⟨_, hw', (offered_eq w _ job).2.1 ▸ hphase⟩, rfl⟩
  | filled _ _ _ hresume => simp [(Channel.resume?_eq_accepted hresume).1] at hclosed
  | registered _ hfree => simp [hfree, Phase.ended] at hphase
  | began _ hwaiting => simp [hwaiting, Phase.ended] at hphase
  | kept _ hworking => simp [hworking, Phase.ended] at hphase
  | ended _ hleaves => simp [hleaves.alive] at hphase

theorem HasEnded.run (h : Run System.step (new name) turns s) (hended : s.HasEnded i)
    (hmore : Run System.step s more s') : s'.HasEnded i ∧ ∀ t ∈ more, sights i t.events = [] := by
  induction hmore with
  | nil => exact ⟨hended, by simp⟩
  | @snoc more s₁ s₂ a events hrun hstep ih =>
    obtain ⟨hbefore, hnothing⟩ := ih
    obtain ⟨hafter, hlast⟩ := hbefore.step (h.append hrun) hstep
    refine ⟨hafter, fun t ht => ?_⟩
    rcases List.mem_append.mp ht with ht | ht
    · exact hnothing t ht
    · obtain rfl := List.mem_singleton.mp ht
      exact hlast

/-- A worker ends when it says so. -/
theorem hasEnded_of_ended (h : s.step a = some (s', events)) (hended : .ended i ∈ events) :
    s'.HasEnded i := by
  have hmem : .ended ∈ sights i events := mem_sights.mpr hended
  generalize hseen : sights i events = seen at hmem
  cases hseen ▸ fared_of_did (did_of_step h) i with
  | absent _ _ _ hnil | hired _ _ _ hnil => simp [hnil] at hmem
  | tended _ hw' ht =>
    cases ht with
    | ended _ hleaves => exact ⟨_, hw', hleaves.ended⟩
    | _ => simp at hmem

theorem ended_of_move {m : Move} {out : Outcome ω} (h : s.step (.move i m) = some out)
    (hregister : m ≠ .register) (hreturn : m ≠ .workReturns true)
    (hreceive : m = .receive → ∀ work, .began i work ∉ out.2) : .ended i ∈ out.2 := by
  obtain ⟨w, hw, hmoved⟩ := moved_of_move h
  cases hmoved with
  | registered | unheard => exact absurd rfl hregister
  | began => exact absurd List.mem_cons_self (hreceive rfl _)
  | kept => exact absurd rfl hreturn
  | stopped | deserted | gone | panicked => exact List.mem_cons_self

/-- The worker takes no new callers. -/
def Shut (s : System ω) (worker : Nat) : Prop :=
  ∃ w, s.worker? worker = some w ∧ w.exited = true

theorem Shut.step (h : s.Shut i) (hstep : s.step a = some (s', events)) : s'.Shut i := by
  obtain ⟨w, hw, hexited⟩ := h
  obtain ⟨w', hw', ht⟩ := tended_of_step hstep hw
  refine ⟨w', hw', ?_⟩
  generalize sights i events = seen at ht
  cases ht with
  | took _ _ hopen | joined _ _ _ hopen | refused _ _ hopen => simp [hopen] at hexited
  | ended _ hleaves =>
    have hretire (v : Worker ω) : v.retire.exited = true := by
      unfold Worker.retire
      split
      · assumption
      · rfl
    cases hleaves with
    | panicked => exact hexited
    | unheard | stopped | deserted | gone => exact hretire _
  | _ => exact hexited

theorem Shut.run (h : s.Shut i) (hrun : Run System.step s more s') : s'.Shut i :=
  hrun.invariant (P := fun s => s.Shut i) h fun _ _ _ _ hs hstep => hs.step hstep

theorem shut_of_exit (h : s.step (.exit call i) = some (s', events)) : s'.Shut i := by
  obtain ⟨-, h⟩ := Option.ite_none_right_eq_some.mp h
  unfold exit? at h
  split at h
  · cases h
  · rename_i w hw
    split at h
    · rename_i hexited
      obtain ⟨rfl, -⟩ := Prod.mk.inj (Option.some.inj h)
      exact ⟨w, hw, hexited⟩
    · rename_i hexited
      have hretire (inbox : Channel Nat (Job ω)) :
          ({ w with inbox } : Worker ω).retire.exited = true := by
        simp [Worker.retire, hexited]
      rcases hsend : w.inbox.send call .stop with ⟨inbox, arrival⟩
      rw [hsend] at h
      refine ⟨({ w with inbox } : Worker ω).retire, ?_, hretire inbox⟩
      cases arrival with
      | accepted =>
        obtain ⟨rfl, -⟩ := Prod.mk.inj (Option.some.inj h)
        exact worker?_set_self hw rfl
      | waiting =>
        obtain ⟨rfl, -⟩ := Prod.mk.inj (Option.some.inj h)
        exact worker?_set_self hw rfl
      | refused =>
        obtain ⟨rfl, -⟩ := Prod.mk.inj (Option.some.inj h)
        exact worker?_set_self hw rfl

/-- A worker that takes no new callers, or has ended, sends work back at once. -/
theorem refused_of_submit {work : ω} (h : s.step (.submit call i work) = some (s', events))
    (hw : s.worker? i = some w) (hover : w.exited = true ∨ w.inbox.closed = true) :
    events = [.replied call (.exitedWorker work)] := by
  obtain ⟨-, h⟩ := Option.ite_none_right_eq_some.mp h
  simp only [submit?, hw] at h
  split at h
  · exact (Prod.mk.inj (Option.some.inj h)).2.symm
  · rename_i hopen
    have hclosed : w.inbox.closed = true := hover.resolve_left hopen
    simp only [Channel.send, hclosed, ↓reduceIte] at h
    exact (Prod.mk.inj (Option.some.inj h)).2.symm

theorem goes_of_ready (hsends : s.Sends i call job) (hw : s.worker? i = some w)
    (hready : w.inbox.closed = true ∨ call ∈ w.inbox.places.held) :
    ∃ s' events, s.step (.resume call) = some (s', events) ∧
      (.replied call job.takenReply ∈ events ∨ .replied call job.refusedReply ∈ events) := by
  have hresume : s.step (.resume call) =
      s.resumeSend call i job job.takenReply job.refusedReply := by
    change s.resume? call = _
    cases job <;> rw [resume?, hsends] <;> rfl
  rw [hresume]
  cases hclosed : w.inbox.closed with
  | true =>
    have hrefused : w.inbox.resume? call = some .refused := by simp [Channel.resume?, hclosed]
    simp only [resumeSend, hw, hrefused]
    exact ⟨_, _, rfl, .inr List.mem_cons_self⟩
  | false =>
    have hheld := hready.resolve_left (by simp [hclosed])
    have haccepted : w.inbox.resume? call = some .accepted := by
      simp [Channel.resume?, hclosed, Permits.holds_iff, hheld]
    simp only [resumeSend, hw, haccepted]
    exact ⟨_, _, rfl, .inl (List.mem_cons_of_mem _ List.mem_cons_self)⟩

theorem not_ready_of_quiet (hquiet : s.Quiet) (hsends : s.Sends i call job)
    (hw : s.worker? i = some w) : w.inbox.closed = false ∧ call ∉ w.inbox.places.held := by
  have hstuck : ¬ (w.inbox.closed = true ∨ call ∈ w.inbox.places.held) := by
    intro hready
    obtain ⟨s', events, hstep, -⟩ := goes_of_ready hsends hw hready
    exact absurd (hstep.symm.trans (hquiet.1 call)) nofun
  rw [not_or, Bool.not_eq_true] at hstuck
  exact hstuck

/-- How a worker does its work. -/
structure Executes (worker : Nat) (turns : History ω) (s : System ω) : Prop where
  /-- It runs units in the order in which its inbox took them, each once at most. -/
  ordered : begun worker turns <+: units (accepted worker turns)
  /-- It begins the next when the last has returned true. -/
  alone : ∀ before t between t' after work work',
    turns = before ++ t :: (between ++ t' :: after) → .began worker work ∈ t.events →
      .began worker work' ∈ t'.events → ∃ u ∈ between, u.action = .move worker (.workReturns true)
  /-- A unit that returns false or panics ends it, and so does the order to stop, ... -/
  ends : ∀ t ∈ turns, (t.action = .move worker (.workReturns false) ∨
      (∃ p, t.action = .move worker (.workPanics p)) ∨
      t.action = .move worker .receive ∧ ∀ work, .began worker work ∉ t.events) →
    .ended worker ∈ t.events
  /-- ... and nothing runs after that. -/
  still : ∀ before t after, turns = before ++ t :: after → .ended worker ∈ t.events →
    ∀ t' ∈ after, ∀ work, .began worker work ∉ t'.events
  /-- When it has ended it has run all that was taken, unless a unit cut it short or the pool was
  dropped. -/
  complete : s.HasEnded worker →
    begun worker turns = units (accepted worker turns) ∨ CutShort worker turns
  /-- Its inbox takes one order to stop at most, after all units of work. -/
  stops : accepted worker turns = (units (accepted worker turns)).map .work ∨
    accepted worker turns = (units (accepted worker turns)).map .work ++ [.stop]

/-- What becomes of work that is submitted. -/
structure Submits [DecidableEq ω] (turns : History ω) (s : System ω) : Prop where
  /-- Whatever an inbox takes, the caller who brought it hears so, ... -/
  taken : ∀ t ∈ turns, ∀ worker work, .took worker (.work work) ∈ t.events →
    ∃ call, t.before.Brings t.action call worker (.work work) ∧ .replied call .accepted ∈ t.events
  /-- ... and nobody else does. -/
  accepted : ∀ t ∈ turns, ∀ call, .replied call .accepted ∈ t.events →
    ∃ worker work, t.before.Brings t.action call worker (.work work) ∧
      .took worker (.work work) ∈ t.events
  refused : ∀ t ∈ turns, ∀ call work, .replied call (.exitedWorker work) ∈ t.events →
    ∃ worker, t.before.Brings t.action call worker (.work work)
  /-- Each unit waits, or was taken, or came back, or was dropped. -/
  fates : ∀ work, (submitted turns).count work = s.waiting.count work +
    (System.taken turns).count work + (System.refused turns).count work +
      (dropped turns).count work
  /-- A unit that came back or was dropped never runs. -/
  never : ∀ work, work ∈ System.refused turns ∨ work ∈ dropped turns →
    (submitted turns).count work = 1 → ∀ worker, work ∉ begun worker turns

/-- What an order to stop does to those who come after it. -/
structure Exits (worker : Nat) (turns : History ω) (s : System ω) : Prop where
  /-- Work that is submitted after a call to exit, or to a worker that has ended, comes back at
  once. -/
  late : ∀ before t after call work, turns = before ++ t :: after →
    t.action = .submit call worker work →
      (∃ u ∈ before, ∃ other, u.action = .exit other worker) ∨ t.before.HasEnded worker →
        t.events = [.replied call (.exitedWorker work)]
  /-- A call to exit that is pending can come back, or the worker has not ended and the place in its
  inbox is taken by a job or by a call that was there before. -/
  ready : ∀ call w, s.call? call = some (.exit worker) → s.worker? worker = some w →
    (∃ s' events, s.step (.resume call) = some (s', events) ∧ .replied call .exited ∈ events) ∨
      w.phase.ended = false ∧
        (w.inbox.buffer.length = 1 ∨ ∃ other, other ≠ call ∧ w.inbox.places.held = [other])
  /-- With nothing else to be done, it waits only while a job stands in the inbox of a worker that
  has not ended. -/
  waits : s.Quiet → ∀ call, s.call? call = some (.exit worker) →
    ∃ w, s.worker? worker = some w ∧ w.phase.ended = false ∧ w.inbox.buffer.length = 1

/-- Of what its inbox has taken a worker has run the first units, and when it has ended all of
them, unless it was cut short. -/
theorem jobs_of_run (h : Run System.step (new name) turns s) (i : Nat) :
    ∃ left, accepted i turns = (begun i turns).map .work ++ left ∧ StopLast (accepted i turns) ∧
      (s.HasEnded i → left = [] ∨ left = [.stop] ∨ CutShort i turns) := by
  cases hw : s.worker? i with
  | none =>
    obtain ⟨hnothing, -⟩ := seen_of_absent h hw
    refine ⟨[], by simp [accepted, begun, hnothing], ?_, fun _ => .inl rfl⟩
    rw [accepted, hnothing]
    exact .nil
  | some w =>
    obtain ⟨left, hleft, -, hover⟩ := (employed_of_run h hw).jobs
    obtain ⟨offers, -, -, hlast, -⟩ := (lined_of_run h hw).offers
    refine ⟨left, hleft, hlast.of_sublist (List.sublist_append_left _ _), ?_⟩
    rintro ⟨v, hv, hended⟩
    obtain rfl := Option.some.inj (hw.symm.trans hv)
    exact hover hended

theorem executes_of_run (h : Run System.step (new name) turns s) (i : Nat) :
    Executes i turns s := by
  obtain ⟨left, hleft, hlast, hover⟩ := jobs_of_run h i
  have hunits : units (accepted i turns) = begun i turns ++ units left := by
    rw [hleft, units_append, units_map_work]
  refine ⟨⟨units left, hunits.symm⟩, ?alone, ?ends, ?still, ?complete, hlast.eq⟩
  case alone =>
    rintro before t between t' after work work' rfl hbegan hbegan'
    by_contra hnot
    rw [List.append_cons, ← List.append_assoc, List.append_cons _ t'] at h
    obtain ⟨_, h, -⟩ := h.cut
    obtain ⟨h, hstep'⟩ := h.snoc_inv
    obtain ⟨_, h, hbetween⟩ := h.cut
    obtain ⟨-, hstep⟩ := h.snoc_inv
    refine (occupied_of_began hstep' hbegan').1 ((occupied_of_began hstep hbegan).2.run hbetween ?_)
    exact fun u hu haction => hnot ⟨u, hu, haction⟩
  case ends =>
    intro t ht hlast
    obtain ⟨-, -, s₁, -, -, hstep, -⟩ := h.split ht
    rcases hlast with haction | ⟨p, haction⟩ | ⟨haction, hnone⟩
    · rw [haction] at hstep
      exact ended_of_move hstep nofun nofun nofun
    · rw [haction] at hstep
      exact ended_of_move hstep nofun nofun nofun
    · rw [haction] at hstep
      exact ended_of_move hstep nofun nofun fun _ => hnone
  case still =>
    rintro before t after rfl hended t' ht' work hbegan
    rw [List.append_cons] at h
    obtain ⟨s₁, hrun, hafter⟩ := h.cut
    obtain ⟨-, hstep⟩ := hrun.snoc_inv
    have hnothing := ((hasEnded_of_ended hstep hended).run hrun hafter).2 t' ht'
    have hmem : .began work ∈ sights i t'.events := mem_sights.mpr hbegan
    simp [hnothing] at hmem
  case complete =>
    intro hended
    rcases hover hended with rfl | rfl | hcut
    · exact .inl (by rw [hunits]; exact (List.append_nil _).symm)
    · exact .inl (by rw [hunits]; exact (List.append_nil _).symm)
    · exact .inr hcut

theorem exits_of_run (h : Run System.step (new name) turns s) (i : Nat) : Exits i turns s := by
  refine ⟨?late, ?ready, ?waits⟩
  case late =>
    rintro before t after call work rfl haction hover
    rw [List.append_cons] at h
    obtain ⟨s₁, h, -⟩ := h.cut
    obtain ⟨hrun, hstep⟩ := h.snoc_inv
    rw [haction] at hstep
    rcases hover with ⟨u, hu, other, hexit⟩ | ⟨w, hw, hended⟩
    · obtain ⟨-, more, s₀, -, -, hstep₀, hmore⟩ := hrun.split hu
      obtain ⟨w, hw, hexited⟩ := (shut_of_exit (hexit ▸ hstep₀)).run hmore
      exact refused_of_submit hstep hw (.inl hexited)
    · exact refused_of_submit hstep hw (.inr ((employed_of_run hrun hw).closed.trans hended))
  case ready =>
    intro call w hcall hw
    have hsends : s.Sends i call .stop := hcall
    by_cases hready : w.inbox.closed = true ∨ call ∈ w.inbox.places.held
    · obtain ⟨s', events, hstep, hreply⟩ := goes_of_ready hsends hw hready
      exact .inl ⟨s', events, hstep, hreply.elim id id⟩
    · rw [not_or, Bool.not_eq_true] at hready
      obtain ⟨hopen, hout⟩ := hready
      refine .inr ⟨(employed_of_run h hw).closed.symm.trans hopen, ?_⟩
      refine ((lined_of_run h hw).taken_of_sends hopen hsends).imp_right ?_
      rintro ⟨other, hother⟩
      refine ⟨other, ?_, hother⟩
      rintro rfl
      simp [hother] at hout
  case waits =>
    intro hquiet call hcall
    have hsends : s.Sends i call .stop := hcall
    cases hw : s.worker? i with
    | none => exact absurd hsends ((seen_of_absent h hw).2 call .stop)
    | some w =>
      have hlined := lined_of_run h hw
      obtain ⟨hopen, -⟩ := not_ready_of_quiet hquiet hsends hw
      refine ⟨w, rfl, (employed_of_run h hw).closed.symm.trans hopen, ?_⟩
      refine (hlined.taken_of_sends hopen hsends).resolve_right ?_
      -- Whoever has been given the place would go on.
      rintro ⟨other, hother⟩
      have hheld : other ∈ w.inbox.places.held := by simp [hother]
      obtain ⟨job, hother⟩ := hlined.sends_of_mem (List.mem_append_left _ hheld)
      exact (not_ready_of_quiet hquiet hother hw).2 hheld

/-- What a worker runs was taken by its inbox. -/
theorem taken_of_begun {work : ω} (h : Run System.step (new name) turns s)
    (hbegun : work ∈ begun i turns) : work ∈ taken turns := by
  have hunits := (executes_of_run h i).ordered.subset hbegun
  obtain ⟨job, hjob, hwork⟩ := List.mem_filterMap.mp hunits
  obtain ⟨sight, hsight, htook⟩ := List.mem_filterMap.mp hjob
  obtain ⟨t, ht, hmem⟩ := List.mem_flatMap.mp hsight
  cases sight with
  | took k =>
    obtain rfl := Option.some.inj htook
    exact List.mem_flatMap.mpr ⟨t, ht, List.mem_filterMap.mpr ⟨_, mem_sights.mp hmem, hwork⟩⟩
  | began => cases htook
  | ended => cases htook

theorem submits_of_run [DecidableEq ω] (h : Run System.step (new name) turns s) :
    Submits turns s := by
  refine ⟨?taken, ?accepted, ?refused, fates_of_run h, ?never⟩
  case taken =>
    intro t ht worker work htook
    obtain ⟨-, -, s₁, -, -, hstep, -⟩ := h.split ht
    exact brings_of_took hstep htook
  case accepted =>
    intro t ht call hreply
    obtain ⟨-, -, s₁, -, -, hstep, -⟩ := h.split ht
    exact brings_of_accepted hstep hreply
  case refused =>
    intro t ht call work hreply
    obtain ⟨-, -, s₁, -, -, hstep, -⟩ := h.split ht
    exact brings_of_refused hstep hreply
  case never =>
    intro work hlost honce worker hbegun
    have hfates := fates_of_run h work
    have htaken := List.count_pos_iff.mpr (taken_of_begun h hbegun)
    rcases hlost with hlost | hlost
    · have := List.count_pos_iff.mpr hlost
      omega
    · have := List.count_pos_iff.mpr hlost
      omega

/-- Every worker runs what its inbox has taken, one unit after the other and in that order, until a
unit or an order to stop ends it; and whatever was not taken never runs. -/
theorem work_executed [DecidableEq ω] (h : Run System.step (new name) turns s) :
    Submits turns s ∧ ∀ worker, Executes worker turns s ∧ Exits worker turns s :=
  ⟨submits_of_run h, fun worker => ⟨executes_of_run h worker, exits_of_run h worker⟩⟩

/-- A worker is sent five units of work and told twice to exit.  One unit is given up, and one comes
too late. -/
def stoppedRun : List (Action Nat) :=
  [.addWorker, .move 0 .register, .submit 1 0 10, .move 0 .receive, .submit 2 0 20,
    .submit 3 0 30, .submit 4 0 40, .exit 5 0, .abort 4, .submit 6 0 60, .exit 7 0,
    .move 0 (.workReturns true), .move 0 .register, .move 0 .receive, .resume 3,
    .move 0 (.workReturns true), .move 0 .register, .move 0 .receive, .resume 5,
    .move 0 (.workReturns true), .move 0 .register, .move 0 .receive]

theorem work_executed_stoppedRun : ∃ turns s, Run System.step (new "pool" : System Nat) turns s ∧
    s.HasEnded 0 ∧ accepted 0 turns = [.work 10, .work 20, .work 30, .stop] ∧
    begun 0 turns = units (accepted 0 turns) ∧ (∀ worker, 40 ∉ begun worker turns) ∧
    ∀ worker, 60 ∉ begun worker turns := by
  have hseen : (replay System.step (new "pool" : System Nat) stoppedRun).map (fun r =>
      (accepted 0 r.1, begun 0 r.1, r.2.workers.map (·.phase.ended))) =
      some ([.work 10, .work 20, .work 30, .stop], [10, 20, 30], [true]) := by
    decide +kernel
  have hfates : (replay System.step (new "pool" : System Nat) stoppedRun).map (fun r =>
      (submitted r.1, refused r.1, dropped r.1)) =
      some ([10, 20, 30, 40, 60], [60], [40]) := by
    decide +kernel
  obtain ⟨⟨turns, s⟩, hreplay, hseen⟩ := Option.map_eq_some_iff.mp hseen
  rw [hreplay, Option.map_some, Option.some.injEq] at hfates
  simp only [Prod.mk.injEq] at hseen hfates
  obtain ⟨haccepted, hbegun, hended⟩ := hseen
  obtain ⟨hsubmitted, hrefused, hdropped⟩ := hfates
  have hrun := Run.of_replay hreplay
  obtain ⟨hsubmits, hworker⟩ := work_executed hrun
  have hended : s.HasEnded 0 := by
    obtain ⟨w, hw, hphase⟩ := List.map_eq_singleton_iff.mp hended
    exact ⟨w, by rw [worker?, hw]; rfl, hphase⟩
  refine ⟨turns, s, hrun, hended, haccepted, ?_, ?_, ?_⟩
  · refine (hworker 0).1.ordered.eq_of_length ?_
    rw [hbegun, haccepted]
    rfl
  · exact hsubmits.never 40 (.inr (by simp [hdropped])) (by rw [hsubmitted]; decide)
  · exact hsubmits.never 60 (.inl (by simp [hrefused])) (by rw [hsubmitted]; decide)

end System

end Batchflow.Pool
