import Batchflow.Proofs.Pool.Tending

/-!
# The line at an inbox

An inbox has one place, and whoever finds it taken stands in a line.  Those who stand there are the
calls that bring jobs to its worker, in the order in which they came.  The order to stop is the last
of all jobs, of those that were taken and of those that are still to come, since nobody who calls
after it gets into the line.
-/

namespace Batchflow.Pool

variable {ω : Type}

def Job.isStop : Job ω → Bool
  | .work _ => false
  | .stop => true

def Sight.took? : Sight ω → Option (Job ω)
  | .took job => some job
  | _ => none

/-- Nothing comes after the order to stop. -/
def StopLast (jobs : List (Job ω)) : Prop := jobs.Pairwise fun job _ => job.isStop = false

theorem StopLast.of_sublist {jobs jobs' : List (Job ω)} (h : StopLast jobs)
    (hsub : jobs'.Sublist jobs) : StopLast jobs' :=
  h.sublist hsub

theorem stopLast_snoc {jobs : List (Job ω)} (h : ∀ job ∈ jobs, job.isStop = false) (job : Job ω) :
    StopLast (jobs ++ [job]) := by
  refine List.pairwise_append.mpr ⟨?_, List.pairwise_singleton _ _, ?_⟩
  · exact List.pairwise_iff_forall_sublist.mpr fun hsub => h _ (hsub.subset List.mem_cons_self)
  · exact fun k hk _ _ => h k hk

theorem isStop_offered {w : Worker ω} (h : w.exited = false) (inbox : Channel Nat (Job ω))
    (job : Job ω) : (w.offered inbox job).exited = job.isStop := by
  cases job with
  | work => exact h
  | stop => simp [Worker.offered, Worker.retire, h, Job.isStop]

namespace System

variable {s s' : System ω} {a : Action ω} {i call : Nat} {w w' : Worker ω} {job k : Job ω}
  {inbox inbox' : Channel Nat (Job ω)} {exited : Bool} {taken : List (Job ω)}

theorem Sends.eq (h : s.Sends i call job) (h' : s.Sends i call k) : job = k :=
  (Job.call_inj (Option.some.inj (h.symm.trans h'))).1

/-- The inbox of a worker, with those who stand at it and the jobs that it has taken. -/
structure Lined (s : System ω) (i : Nat) (inbox : Channel Nat (Job ω)) (exited : Bool)
    (taken : List (Job ω)) : Prop where
  capacity : inbox.capacity = 1
  fair : inbox.places.Fair
  nodup : inbox.places.everybody.Nodup
  /-- Everybody who stands there brings a job. -/
  offers : ∃ offers : List (Nat × Job ω), offers.map Prod.fst = inbox.places.everybody ∧
    (∀ o ∈ offers, s.Sends i o.1 o.2) ∧ StopLast (taken ++ offers.map Prod.snd) ∧
    (exited = false → ∀ job ∈ taken ++ offers.map Prod.snd, job.isStop = false)
  /-- Everybody who brings a job stands there. -/
  stands : inbox.closed = false → ∀ call job, s.Sends i call job → call ∈ inbox.places.everybody

namespace Lined

theorem new (h : ∀ call job, ¬ s.Sends i call job) :
    s.Lined i (Worker.new : Worker ω).inbox false [] where
  capacity := rfl
  fair := Permits.fair_ofFree 1
  nodup := List.nodup_nil
  offers := ⟨[], rfl, by simp, List.Pairwise.nil, by simp⟩
  stands _ call job hsends := absurd hsends (h call job)

theorem congr (h : s.Lined i inbox exited taken) (hcalls : s.SameSends s' i) :
    s'.Lined i inbox exited taken where
  capacity := h.capacity
  fair := h.fair
  nodup := h.nodup
  offers := by
    obtain ⟨offers, hline, hsends, hlast⟩ := h.offers
    exact ⟨offers, hline, fun o ho => (hcalls o.1 o.2).mpr (hsends o ho), hlast⟩
  stands hopen call job hsends := h.stands hopen call job ((hcalls call job).mp hsends)

theorem exit (h : s.Lined i inbox exited taken) (handles : Nat) :
    s.Lined i { inbox with handles } true taken where
  capacity := h.capacity
  fair := h.fair
  nodup := h.nodup
  offers := by
    obtain ⟨offers, hline, hsends, hlast, -⟩ := h.offers
    exact ⟨offers, hline, hsends, hlast, by simp⟩
  stands := h.stands

theorem retire (h : s.Lined i w.inbox w.exited taken) :
    s.Lined i w.retire.inbox w.retire.exited taken := by
  unfold Worker.retire
  split
  · exact h
  · exact h.exit _

theorem offered (h : s.Lined i inbox job.isStop taken) (hexited : w.exited = false) :
    s.Lined i (w.offered inbox job).inbox (w.offered inbox job).exited taken := by
  rw [isStop_offered hexited]
  cases job with
  | work => exact h
  | stop =>
    simp only [Worker.offered, Worker.retire, hexited, Bool.false_eq_true, ↓reduceIte]
    exact h.exit _

theorem held_eq (h : s.Lined i inbox exited taken) (hheld : call ∈ inbox.places.held) :
    inbox.places.held = [call] ∧ inbox.buffer = [] := by
  have hcapacity := h.capacity
  have hpos := List.length_pos_of_mem hheld
  simp only [Channel.capacity, Permits.total] at hcapacity
  obtain ⟨v, hv⟩ := List.length_eq_one_iff.mp (by omega : inbox.places.held.length = 1)
  rw [hv, List.mem_singleton] at hheld
  exact ⟨by rw [hv, hheld], List.length_eq_zero_iff.mp (by omega)⟩

theorem everybody_eq_nil (h : s.Lined i inbox exited taken) (hfree : 0 < inbox.places.free) :
    inbox.places.everybody = [] := by
  have hcapacity := h.capacity
  simp only [Channel.capacity, Permits.total] at hcapacity
  have hheld : inbox.places.held = [] := List.length_eq_zero_iff.mp (by omega)
  rw [Permits.everybody, hheld, h.fair hfree, List.append_nil]

theorem sends_of_mem (h : s.Lined i inbox exited taken) (hmem : call ∈ inbox.places.everybody) :
    ∃ job, s.Sends i call job := by
  obtain ⟨offers, hline, hsends, -⟩ := h.offers
  obtain ⟨o, ho, rfl⟩ := List.mem_map.mp (hline ▸ hmem)
  exact ⟨o.2, hsends o ho⟩

/-- Nobody stands at an open inbox while its place is free. -/
theorem taken_of_sends (h : s.Lined i inbox exited taken) (hopen : inbox.closed = false)
    (hsends : s.Sends i call job) :
    inbox.buffer.length = 1 ∨ ∃ other, inbox.places.held = [other] := by
  have hfree : inbox.places.free = 0 := by
    by_contra hpos
    have hstands := h.stands hopen call job hsends
    rw [h.everybody_eq_nil (Nat.pos_of_ne_zero hpos)] at hstands
    cases hstands
  have hcapacity := h.capacity
  rw [Channel.capacity, Permits.total, hfree] at hcapacity
  cases hheld : inbox.places.held with
  | nil =>
    rw [hheld, List.length_nil] at hcapacity
    exact .inl (by omega)
  | cons other rest =>
    have hrest : rest = [] := by
      rw [hheld, List.length_cons] at hcapacity
      exact List.length_eq_zero_iff.mp (by omega)
    exact .inr ⟨other, by rw [hrest]⟩

/-- Whoever finds the place free comes after all others. -/
theorem send (h : s.Lined i inbox false taken)
    (hsend : inbox.send call job = (inbox', .accepted)) :
    s.Lined i inbox' job.isStop (taken ++ [job]) := by
  obtain ⟨hopen, free, hfree, rfl⟩ := Channel.send_eq_accepted hsend
  have hnobody := h.everybody_eq_nil (hfree ▸ Nat.succ_pos free)
  obtain ⟨offers, hline, -, -, hwork⟩ := h.offers
  rw [hnobody, List.map_eq_nil_iff] at hline
  subst hline
  rw [List.map_nil, List.append_nil] at hwork
  refine ⟨?_, ?_, h.nodup, ⟨[], hnobody.symm, by simp, ?_, ?_⟩, h.stands⟩
  · have hcapacity := Channel.capacity_send inbox call job
    rw [hsend] at hcapacity
    exact hcapacity.trans h.capacity
  · exact fun _ => h.fair (hfree ▸ Nat.succ_pos free)
  · rw [List.map_nil, List.append_nil]
    exact stopLast_snoc (hwork rfl) job
  · intro hjob k hk
    rw [List.map_nil, List.append_nil] at hk
    rcases List.mem_append.mp hk with hk | hk
    · exact hwork rfl k hk
    · exact List.mem_singleton.mp hk ▸ hjob

/-- Whoever finds the place taken goes to the end of the line. -/
theorem join (h : s.Lined i inbox false taken) (hnew : s.call? call = none)
    (hsend : inbox.send call job = (inbox', .waiting))
    (hcalls : ∀ other k, s'.Sends i other k ↔ s.Sends i other k ∨ other = call ∧ k = job) :
    s'.Lined i inbox' job.isStop taken := by
  obtain ⟨hopen, hfree, rfl⟩ := Channel.send_eq_waiting hsend
  obtain ⟨offers, hline, hsends, -, hwork⟩ := h.offers
  have hout : call ∉ inbox.places.everybody := by
    rw [← hline]
    intro hmem
    obtain ⟨o, ho, rfl⟩ := List.mem_map.mp hmem
    have := hsends o ho
    simp [Sends, hnew] at this
  have heverybody : (inbox.places.request call).everybody = inbox.places.everybody ++ [call] := by
    simp [Permits.request, hfree, Permits.everybody]
  refine ⟨?_, h.fair.request call, ?_, ⟨offers ++ [(call, job)], ?_, ?_, ?_, ?_⟩, ?_⟩
  · have hcapacity := Channel.capacity_send inbox call job
    rw [hsend] at hcapacity
    exact hcapacity.trans h.capacity
  · rw [heverybody]
    exact List.nodup_append.mpr ⟨h.nodup, List.nodup_singleton _, by grind⟩
  · rw [List.map_append, hline, heverybody]
    rfl
  · intro o ho
    rcases List.mem_append.mp ho with ho | ho
    · exact (hcalls o.1 o.2).mpr (.inl (hsends o ho))
    · obtain rfl := List.mem_singleton.mp ho
      exact (hcalls call job).mpr (.inr ⟨rfl, rfl⟩)
  · rw [List.map_append, ← List.append_assoc]
    exact stopLast_snoc (hwork rfl) job
  · intro hjob k hk
    rw [List.map_append, ← List.append_assoc] at hk
    rcases List.mem_append.mp hk with hk | hk
    · exact hwork rfl k hk
    · exact List.mem_singleton.mp hk ▸ hjob
  · intro _ other k hk
    rw [heverybody]
    rcases (hcalls other k).mp hk with hk | ⟨rfl, -⟩
    · exact List.mem_append_left _ (h.stands hopen other k hk)
    · exact List.mem_append_right _ List.mem_cons_self

/-- Whoever has the place was the first in the line. -/
theorem fill (h : s.Lined i inbox exited taken) (hcall : s.Sends i call job)
    (hheld : call ∈ inbox.places.held)
    (hcalls : ∀ other k, s'.Sends i other k ↔ s.Sends i other k ∧ other ≠ call) :
    s'.Lined i (inbox.fill call job) exited (taken ++ [job]) := by
  have heverybody := Permits.everybody_spend hheld
  obtain ⟨offers, hline, hsends, hlast, hwork⟩ := h.offers
  have hfirst : inbox.places.everybody = call :: inbox.places.line := by
    rw [Permits.everybody, (h.held_eq hheld).1]
    rfl
  obtain ⟨⟨c, k⟩, rest, rfl, rfl, hrest⟩ := List.map_eq_cons_iff.mp (hline.trans hfirst)
  obtain rfl := hcall.eq (hsends _ List.mem_cons_self)
  have hnodup := hfirst ▸ h.nodup
  refine ⟨(Channel.capacity_fill hheld job).trans h.capacity, h.fair, ?_,
    ⟨rest, ?_, ?_, ?_, ?_⟩, ?_⟩
  · rw [Channel.fill, heverybody]
    exact h.nodup.erase _
  · rw [hrest, Channel.fill, heverybody, hfirst, List.erase_cons_head]
  · intro o ho
    refine (hcalls o.1 o.2).mpr ⟨hsends o (List.mem_cons_of_mem _ ho), ?_⟩
    rintro hsame
    have hmem : o.1 ∈ inbox.places.line := hrest ▸ List.mem_map_of_mem ho
    exact (List.nodup_cons.mp hnodup).1 (hsame ▸ hmem)
  · rwa [List.append_assoc, List.singleton_append]
  · rwa [List.append_assoc, List.singleton_append]
  · intro hopen other k hk
    obtain ⟨hk, hne⟩ := (hcalls other k).mp hk
    rw [Channel.fill, heverybody]
    exact (List.mem_erase_of_ne hne).mpr (h.stands hopen other k hk)

theorem leave (h : s.Lined i inbox exited taken)
    (hcalls : ∀ other k, s'.Sends i other k ↔ s.Sends i other k ∧ other ≠ call) :
    s'.Lined i (inbox.leave call) exited taken := by
  have heverybody := Permits.everybody_leave inbox.places call
  obtain ⟨offers, hline, hsends, hlast, hwork⟩ := h.offers
  have hsub : (taken ++ (offers.filter (·.1 != call)).map Prod.snd).Sublist
      (taken ++ offers.map Prod.snd) :=
    (List.filter_sublist.map Prod.snd).append_left taken
  refine ⟨(Channel.capacity_leave inbox call).trans h.capacity, h.fair.leave call, ?_,
    ⟨offers.filter (·.1 != call), ?_, ?_, hlast.of_sublist hsub, ?_⟩, ?_⟩
  · rw [Channel.leave, heverybody]
    exact h.nodup.erase _
  · rw [Channel.leave, heverybody, h.nodup.erase_eq_filter, ← hline, List.filter_map]
    rfl
  · intro o ho
    obtain ⟨ho, hne⟩ := List.mem_filter.mp ho
    exact (hcalls o.1 o.2).mpr ⟨hsends o ho, by simpa using hne⟩
  · exact fun hexited k hk => hwork hexited k (hsub.subset hk)
  · intro hopen other k hk
    obtain ⟨hk, hne⟩ := (hcalls other k).mp hk
    rw [Channel.leave, heverybody]
    exact (List.mem_erase_of_ne hne).mpr (h.stands hopen other k hk)

theorem receive (h : s.Lined i inbox exited taken)
    (hreceive : inbox.receive? = some (job, inbox')) : s.Lined i inbox' exited taken := by
  have hcapacity := Channel.capacity_receive hreceive
  obtain ⟨-, hinbox⟩ := Channel.receive?_eq_some hreceive
  have hplaces : inbox'.places = inbox.places.add := by rw [hinbox]
  have hclosed := Channel.closed_receive hreceive
  have heverybody : inbox'.places.everybody = inbox.places.everybody := by
    rw [hplaces, Permits.everybody_add]
  refine ⟨hcapacity.trans h.capacity, hplaces ▸ h.fair.add, heverybody ▸ h.nodup, ?_, ?_⟩
  · rw [heverybody]
    exact h.offers
  · rw [heverybody, hclosed]
    exact h.stands

/-- When the worker is gone nobody gets the place any more. -/
theorem discard (h : s.Lined i inbox exited taken) : s.Lined i inbox.discard exited taken := by
  obtain ⟨offers, hline, hsends, hlast, hwork⟩ := h.offers
  have heverybody : inbox.discard.places.everybody = inbox.places.held := List.append_nil _
  have hsub : (taken ++ (offers.take inbox.places.held.length).map Prod.snd).Sublist
      (taken ++ offers.map Prod.snd) :=
    ((List.take_sublist _ _).map Prod.snd).append_left taken
  refine ⟨inbox.capacity_discard.trans h.capacity, fun _ => rfl, ?_,
    ⟨offers.take inbox.places.held.length, ?_, ?_, hlast.of_sublist hsub, ?_⟩, nofun⟩
  · rw [heverybody]
    exact h.nodup.sublist (List.sublist_append_left _ _)
  · rw [List.map_take, hline, heverybody, Permits.everybody, List.take_left]
  · exact fun o ho => hsends o (List.mem_of_mem_take ho)
  · exact fun hexited k hk => hwork hexited k (hsub.subset hk)

theorem of_false (h : s.Lined i inbox false taken) (exited : Bool) :
    s.Lined i inbox exited taken := by
  cases exited with
  | false => exact h
  | true => exact h.exit inbox.handles

/-- Whatever happens to a worker, those at its inbox are in order. -/
theorem tended {seen : List (Sight ω)} (h : s.Lined i w.inbox w.exited taken)
    (ht : s.Tended s' i a w w' seen) :
    s'.Lined i w'.inbox w'.exited (taken ++ seen.filterMap Sight.took?) := by
  cases ht with
  | same _ hcalls => simpa using h.congr hcalls
  | took job _ hexited hsend hcalls =>
    exact ((hexited ▸ h).send hsend).offered hexited |>.congr hcalls
  | joined job _ hnew hexited hsend hcalls =>
    simpa using ((hexited ▸ h).join hnew hsend hcalls).offered hexited
  | refused job _ hexited hsend hcalls =>
    obtain rfl := Channel.eq_of_send_refused hsend
    simpa using (((hexited ▸ h).of_false job.isStop).offered hexited).congr hcalls
  | filled job _ hcall hresume hcalls =>
    exact h.fill hcall (Channel.resume?_eq_accepted hresume).2 hcalls
  | left _ hcalls => simpa using h.leave hcalls
  | registered _ _ hcalls => simpa using h.congr hcalls
  | began _ _ hreceive hcalls =>
    rw [List.filterMap_cons_none rfl, List.filterMap_nil, List.append_nil]
    exact (h.receive hreceive).congr hcalls
  | kept _ _ hcalls => simpa using h.congr hcalls
  | ended _ hleaves hcalls =>
    have hleft : s.Lined i w'.inbox w'.exited taken := by
      cases hleaves with
      | unheard => exact h.retire.discard
      | @stopped inbox _ hreceive =>
        exact (Lined.retire (w := { w with inbox }) (h.receive hreceive)).discard
      | deserted => exact h.retire.discard
      | gone => exact h.retire.discard
      | panicked => exact h.discard
    rw [List.filterMap_cons_none rfl, List.filterMap_nil, List.append_nil]
    exact hleft.congr hcalls

end Lined

variable {turns : History ω} {name : String}

def seen (worker : Nat) (turns : History ω) : List (Sight ω) :=
  turns.flatMap fun t => sights worker t.events

/-- The jobs that the inbox of a worker has taken, in order. -/
def accepted (worker : Nat) (turns : History ω) : List (Job ω) :=
  (seen worker turns).filterMap Sight.took?

theorem seen_snoc (i : Nat) (turns : History ω) (t : Turn (System ω) (Action ω) (Event ω)) :
    seen i (turns ++ [t]) = seen i turns ++ sights i t.events := by
  simp [seen]

theorem accepted_snoc (i : Nat) (turns : History ω) (t : Turn (System ω) (Action ω) (Event ω)) :
    accepted i (turns ++ [t]) = accepted i turns ++ (sights i t.events).filterMap Sight.took? := by
  simp [accepted, seen_snoc]

theorem seen_of_absent (h : Run step (new name) turns s) (hw : s.worker? i = none) :
    seen i turns = [] ∧ ∀ call job, ¬ s.Sends i call job := by
  induction h with
  | nil => exact ⟨rfl, by simp [Sends, new, call?]⟩
  | snoc _ hstep ih =>
    cases fared_of_did (did_of_step hstep) i with
    | absent hw₀ _ hcalls hseen =>
      obtain ⟨hnothing, hnobody⟩ := ih hw₀
      refine ⟨?_, fun call job hsends => hnobody call job (hcalls call job hsends)⟩
      rw [seen_snoc, hnothing, hseen, List.nil_append]
    | hired _ hw' => simp [hw] at hw'
    | tended _ hw' => simp [hw] at hw'

theorem lined_of_run (h : Run step (new name) turns s) (hw : s.worker? i = some w) :
    s.Lined i w.inbox w.exited (accepted i turns) := by
  induction h generalizing w with
  | nil => cases hw
  | snoc hrun hstep ih =>
    rw [accepted_snoc]
    cases fared_of_did (did_of_step hstep) i with
    | absent _ hw' => exact absurd (hw.symm.trans hw') nofun
    | hired hw₀ hw' hcalls hseen =>
      obtain rfl := Option.some.inj (hw.symm.trans hw')
      obtain ⟨hnothing, hnobody⟩ := seen_of_absent hrun hw₀
      rw [accepted, hnothing, hseen]
      exact (Lined.new hnobody).congr hcalls
    | tended hw₀ hw' ht =>
      obtain rfl := Option.some.inj (hw.symm.trans hw')
      exact (ih hw₀).tended ht

end System

end Batchflow.Pool
