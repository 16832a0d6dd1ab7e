import Batchflow.Proofs.Enqueuer.Progress

/-!
# Who is let into an intake

The calls that wait at an intake stand there in the order in which they were made, first those that
have got a place and then the others.  A place that becomes free goes to the first of the others,
and a call that is new does not get past them.  When nobody can go on, nobody has a place that is
not filled, so that the intake of a call that waits is full.
-/

namespace Batchflow

theorem Permits.mem_held_add {ι : Type} {p : Permits ι} {w : ι} (h : w ∈ p.add.held) :
    w ∈ p.held ∨ p.line.head? = some w := by
  unfold add at h
  split at h
  · exact .inl h
  · rename_i v line hline
    rcases List.mem_append.mp h with h | h
    · exact .inl h
    · rw [hline, List.mem_singleton.mp h]
      exact .inr rfl

namespace Channel

variable {ι α : Type}

def LetsIn (c c' : Channel ι α) : Prop :=
  ∀ w ∈ c.places.line, w ∈ c'.places.held → w ∈ c.places.held ∨ c.places.line.head? = some w

variable {c c' : Channel ι α} {x : α} {taken : Option α} {n : Nat}

theorem letsIn_of_held (h : ∀ w ∈ c'.places.held, w ∈ c.places.held) : c.LetsIn c' :=
  fun w _ hw => .inl (h w hw)

theorem letsIn_of_receive (h : c.receive? = some (x, c')) : c.LetsIn c' := by
  intro w _ hw
  rw [(receive?_eq_some h).2] at hw
  exact Permits.mem_held_add hw

variable [DecidableEq ι]

/-- Whoever arrives gets a place only when nobody is in line. -/
theorem Sent.letsIn (h : c.Sent taken c') (hc : c.Sized n) : c.LetsIn c' := by
  cases h with
  | refused | accepted | counted => exact letsIn_of_held fun _ => id
  | requested who =>
    intro w hline hw
    unfold Permits.request at hw
    split at hw
    · exact .inl hw
    · rw [hc.fair (by omega)] at hline
      exact absurd hline List.not_mem_nil
  | filled => exact letsIn_of_held fun _ => List.mem_of_mem_erase
  | left who =>
    intro w _ hw
    simp only [Channel.leave, Permits.leave] at hw
    split at hw
    · exact (Permits.mem_held_add hw).imp_left List.mem_of_mem_erase
    · exact .inl hw

end Channel

theorem Chunker.Feed.Moved.letsIn {ι α : Type} {o : Options} {now : Nat} {f f' : Feed ι α}
    {m : Move} {chunk : Option (List α)} (h : f.Moved o now m f' chunk) :
    f.channel.LetsIn f'.channel := by
  rcases h.source with heq | ⟨x, hreceive⟩ | heq | heq
  · exact Channel.letsIn_of_held fun _ => heq ▸ id
  · exact Channel.letsIn_of_receive hreceive
  · exact Channel.letsIn_of_held fun _ => heq ▸ id
  · exact Channel.letsIn_of_held fun _ => heq ▸ id

namespace Enqueuer

open Pipeline

theorem Pipeline.Change.letsIn {o : Options} {hasHandler : Bool} {now : Nat} {move : Option Move}
    {x y : Option (Pipeline Caller)} {item : Option Message} {notes : List Note}
    {p : Pipeline Caller} (h : Change o hasHandler now move x item notes y)
    (hroomed : ∀ p ∈ x, p.Roomed o) (hx : x = some p) :
    ∀ q ∈ y, p.feed.channel.LetsIn q.feed.channel := by
  induction h with
  | same =>
    rintro q hq
    obtain rfl := Option.some.inj (hx.symm.trans hq)
    exact Channel.letsIn_of_held fun _ => id
  | born => cases hx
  | sent hsent =>
    cases hx
    rintro q ⟨⟩
    exact hsent.letsIn (hroomed _ rfl).intake
  | moved hm =>
    cases hx
    rintro q ⟨⟩
    rcases hm.feed with ⟨hfeed, -⟩ | ⟨k, chunk, hfeed, -⟩
    · exact Channel.letsIn_of_held fun _ => hfeed ▸ id
    · exact hfeed.letsIn
  | tended _ htended ih =>
    have hp := ih hroomed hx _ rfl
    rintro q ⟨⟩
    cases htended
    exact hp

def Action.enqueues (caller : Caller) : Action → Bool
  | .enqueue w _ => w = caller
  | _ => false

def age (caller : Caller) (turns : History) : Nat :=
  turns.reverse.findIdx (·.action.enqueues caller)

theorem age_concat (caller : Caller) (turns : History) (t : Turn System Action Event) :
    age caller (turns ++ [t]) = bif t.action.enqueues caller then 0 else age caller turns + 1 := by
  simp [age, List.findIdx_cons]

/-- Whoever stands before another has called earlier. -/
def InOrder (turns : History) (callers : List Caller) : Prop :=
  callers.Pairwise fun v w => age w turns < age v turns

namespace InOrder

variable {turns : History} {callers left : List Caller} {caller : Caller}
  {t : Turn System Action Event}

theorem concat (h : InOrder turns callers)
    (hold : ∀ v ∈ callers, t.action.enqueues v = false) : InOrder (turns ++ [t]) callers := by
  refine h.imp_of_mem fun hv hw hlt => ?_
  rw [age_concat, age_concat, hold _ hv, hold _ hw]
  exact Nat.succ_lt_succ hlt

/-- Whoever is new stands behind the others. -/
theorem join {new : Option Caller} (h : InOrder turns callers)
    (hold : ∀ v ∈ callers, t.action.enqueues v = false)
    (hnew : ∀ w ∈ new, t.action.enqueues w = true) :
    InOrder (turns ++ [t]) (callers ++ new.toList) := by
  cases new with
  | none => simpa using h.concat hold
  | some caller =>
    refine List.pairwise_append.mpr ⟨h.concat hold, List.pairwise_singleton _ _, ?_⟩
    intro v hv w hw
    obtain rfl := List.mem_singleton.mp hw
    rw [age_concat, age_concat, hold v hv, hnew w rfl]
    exact Nat.succ_pos _

end InOrder

namespace System

variable {o : Options} {s s' : System} {a : Action} {out : Outcome} {events : List Event}
  {caller v w : Caller} {turns : History} {run i : Nat} {m : Message} {p q : Pipeline Caller}

/-- Those at the intake of a run: who has got a place, and then who stands in line. -/
def queue (s : System) (run : Nat) : List Caller :=
  ((s.pipelines[run]?).map (·.feed.channel.places.everybody)).getD []

theorem queue_of_some (hp : s.pipelines[run]? = some p) :
    s.queue run = p.feed.channel.places.everybody := by
  simp [queue, hp]

/-- Nobody has joined those at any intake. -/
def NoneJoined (s s' : System) : Prop := ∀ run, (s'.queue run).Sublist (s.queue run)

theorem noneJoined_of_dwindles (h : Alike Dwindles s.pipelines s'.pipelines) :
    s.NoneJoined s' := by
  intro run
  cases hq : s'.pipelines[run]? with
  | none =>
    rw [queue, hq]
    exact List.nil_sublist _
  | some q =>
    obtain ⟨p, hp, hpq⟩ := h.exists_left hq
    rw [queue_of_some hp, queue_of_some hq]
    exact hpq.everybody

theorem noneJoined_release (s : System) : s.NoneJoined s.release :=
  noneJoined_of_dwindles s.dwindles_release

theorem noneJoined_setChannel {c : Channel Caller Message} (hp : s.pipelines[run]? = some p)
    (hc : c.places.everybody.Sublist p.feed.channel.places.everybody) :
    s.NoneJoined (s.setChannel run c) := by
  refine noneJoined_of_dwindles (.of_modify rfl .refl fun q hq => ?_)
  obtain rfl := Option.some.inj (hp.symm.trans hq)
  exact ⟨id, hc⟩

/-- Nobody stands at an intake that is new. -/
theorem noneJoined_startRun (s : System) (sink : Nat) : s.NoneJoined (s.startRun sink) := by
  intro run
  cases hq : (s.startRun sink).pipelines[run]? with
  | none =>
    rw [queue, hq]
    exact List.nil_sublist _
  | some q =>
    rw [queue_of_some hq]
    rcases getElem?_concat_eq_some hq with hq | ⟨-, rfl⟩
    · have hdropped := noneJoined_of_dwindles s.dwindles_dropIntake run
      rwa [queue_of_some hq] at hdropped
    · exact List.nil_sublist _

theorem noneJoined_of_went (h : s.Went caller s' events) : s.NoneJoined s' := by
  cases h with
  | started => exact s.noneJoined_startRun _
  | startRefused | stopRefused => exact noneJoined_of_dwindles (.refl .refl _)
  | stopTaken =>
    exact noneJoined_of_dwindles (.of_modify rfl .refl fun _ _ => ⟨fun _ => rfl, .refl _⟩)
  | workerEnded =>
    exact noneJoined_of_dwindles (s.dwindles_dropIntake.trans .trans
      (s.dropIntake.dwindles_modify _ fun _ => ⟨id, .refl _⟩))
  | stopped => exact noneJoined_of_dwindles (s.dwindles_modify _ fun _ => ⟨id, .refl _⟩)
  | enqueued _ hp hresume =>
    refine noneJoined_setChannel hp ?_
    have hheld := (Channel.resume?_eq_accepted hresume).2
    rw [Channel.fill, Permits.everybody_spend hheld]
    exact List.erase_sublist
  | rejected _ hp =>
    refine noneJoined_setChannel hp ?_
    rw [Channel.leave, Permits.everybody_leave]
    exact List.erase_sublist

def Joined (a : Action) (s s' : System) : Prop :=
  ∀ run, ∃ new : Option Caller, (∀ w ∈ new, a.enqueues w = true) ∧
    (s'.queue run).Sublist (s.queue run ++ new.toList)

theorem NoneJoined.joined (h : s.NoneJoined s') (a : Action) : Joined a s s' :=
  fun run => ⟨none, by simp, by simpa using h run⟩

/-- Who has to wait joins the end of the line, and nobody else joins. -/
theorem joined_of_did (h : s.Did a s' events) : Joined a s s' := by
  have hsame {x : System} (hx : x.pipelines = s.pipelines) : s.NoneJoined x :=
    noneJoined_of_dwindles (hx ▸ .refl .refl _)
  cases h with
  | asked | notRunning | lockAborted | drainingAborted | handleAdded | handleDropped | advanced =>
    exact (hsame rfl).joined _
  | @atOnce _ w c _ _ _ _ hwent =>
    have hnone : (s.ask w c).NoneJoined s' := noneJoined_of_went hwent
    exact hnone.joined _
  | resumed hwent => exact (noneJoined_of_went hwent).joined _
  | @enqueued _ _ _ p _ _ _ _ hp hsend =>
    obtain ⟨-, free, -, rfl⟩ := Channel.send_eq_accepted hsend
    refine (noneJoined_setChannel hp ?_).joined _
    exact .refl p.feed.channel.places.everybody
  | rejected _ _ _ hp hsend =>
    obtain rfl := Channel.eq_of_send_refused hsend
    exact (noneJoined_setChannel hp (.refl _)).joined _
  | @enqueueWaits caller m i p c _ _ _ hp hsend =>
    obtain ⟨-, hfull, rfl⟩ := Channel.send_eq_waiting hsend
    intro run
    by_cases hi : i = run
    · subst hi
      refine ⟨some caller, by simp [Action.enqueues], ?_⟩
      simp [queue, setChannel, modifyPipeline, await, hp, Permits.request, hfull,
        Permits.everybody]
    · exact ⟨none, by simp, by simp [queue, setChannel, modifyPipeline, await, hi]⟩
  | @stoppingAborted w i =>
    have hnone : s.NoneJoined (s.modifyPipeline i Pipeline.dropFailures) :=
      noneJoined_of_dwindles (s.dwindles_modify i fun _ => ⟨id, .refl _⟩)
    exact hnone.joined _
  | @enqueueAborted w i =>
    unfold leaveIntake pipeline?
    split
    · refine (noneJoined_setChannel ‹_› ?_).joined _
      rw [Channel.leave, Permits.everybody_leave]
      exact List.erase_sublist
    · exact (hsame rfl).joined _
  | moved hp _ hm =>
    refine (noneJoined_of_dwindles (.of_modify rfl .refl fun q hq => ?_)).joined _
    obtain rfl := Option.some.inj (hp.symm.trans hq)
    exact hm.dwindles

theorem joined_of_step (h : s.step a = some out) : Joined a s out.1 := by
  obtain ⟨x, hdid, hx⟩ := does_of_step h
  have hjoined := joined_of_did hdid
  rcases hx with hx | hx
  · exact hx ▸ hjoined
  · intro run
    obtain ⟨new, hnew, hsub⟩ := hjoined run
    exact ⟨new, hnew, hx ▸ (x.noneJoined_release run).trans hsub⟩

/-- A caller that waits at an intake makes no call. -/
theorem not_enqueues_of_mem (hs : s.Present) (hw : v ∈ s.queue run) (h : s.step a = some out) :
    a.enqueues v = false := by
  cases hp : s.pipelines[run]? with
  | none => simp [queue, hp] at hw
  | some p =>
    rw [queue_of_some hp] at hw
    obtain ⟨m, hmem⟩ := hs.pending hp hw
    cases a with
    | enqueue caller k =>
      simp only [step, Option.ite_none_right_eq_some] at h
      have hnone := Calls.not_mem_of_lookup (c := .enqueue run m) (call?_eq_none_of_mayCall h.1)
      refine decide_eq_false ?_
      rintro rfl
      exact hnone hmem
    | _ => rfl

theorem inOrder_of_run (h : Run step (new o) turns s) (run : Nat) :
    InOrder turns (s.queue run) := by
  induction h with
  | nil => simp [InOrder, queue, new]
  | snoc hrun hstep ih =>
    obtain ⟨new, hnew, hsub⟩ := joined_of_step hstep run
    exact (ih.join (fun v hv => not_enqueues_of_mem (present_of_run hrun) hv hstep) hnew).sublist
      hsub

/-- Places in the intake of a run are handed out in the order of the calls. -/
structure AdmitsInOrder (s : System) (turns : History) (run : Nat) (p : Pipeline Caller) :
    Prop where
  /-- Those at an open intake are those whose calls are pending there. -/
  pending : p.feed.channel.closed = false → ∀ caller,
    caller ∈ p.feed.channel.places.held ++ p.feed.channel.places.line ↔
      ∃ m, s.call? caller = some (.enqueue run m)
  /-- Who has a place has called before all who have none, and these stand in the order of their
  calls. -/
  ordered : (p.feed.channel.places.held ++ p.feed.channel.places.line).Pairwise
    fun v w => age w turns < age v turns
  fair : 0 < p.feed.channel.places.free → p.feed.channel.places.line = []
  /-- Of those who have none, who gets a place has called before all others. -/
  oldest : ∀ {a s' events q w}, s.step a = some (s', events) → s'.pipelines[run]? = some q →
    w ∈ p.feed.channel.places.line → w ∈ q.feed.channel.places.held →
    ∀ v ∈ p.feed.channel.places.line, v ≠ w → age v turns < age w turns
  /-- A new call gets past nobody. -/
  newcomer : ∀ {caller m s' events}, s.step (.enqueue caller m) = some (s', events) →
    .took run m ∈ events → p.feed.channel.places.line = []

theorem free_of_took (h : s.step (.enqueue caller m) = some (s', events))
    (htook : .took run m ∈ events) (hp : s.pipelines[run]? = some p) :
    0 < p.feed.channel.places.free := by
  obtain ⟨x, hdid, -⟩ := does_of_step h
  dsimp only at hdid
  cases hdid with
  | asked ha | atOnce ha => cases ha
  | @enqueued _ _ i q c _ _ _ hq hsend =>
    obtain rfl : run = i := by simpa using htook
    obtain rfl := Option.some.inj (hp.symm.trans hq)
    obtain ⟨-, free, hfree, -⟩ := Channel.send_eq_accepted hsend
    omega
  | enqueueWaits | rejected | notRunning => simp at htook

theorem admitsInOrder_of_run (h : Run step (new o) turns s) (hp : s.pipelines[run]? = some p) :
    s.AdmitsInOrder turns run p := by
  have hpresent := present_of_run h
  have hkeys := (wellFormed_of_run h).guarded.keys
  have hroomed := roomed_of_run h run p hp
  have hordered := inOrder_of_run h run
  rw [queue_of_some hp] at hordered
  refine ⟨fun hopen caller => ⟨fun hmem => ?_, ?_⟩, hordered, hroomed.intake.fair, ?_, ?_⟩
  · obtain ⟨m, hcall⟩ := hpresent.pending hp hmem
    exact ⟨m, Calls.lookup_of_mem hkeys hcall⟩
  · rintro ⟨m, hcall⟩
    have hserves := lined_of_run h caller run m p (Calls.mem_of_lookup hcall) hp
    exact hserves.resolve_left (by simp [hopen])
  · intro a s' events q w hstep hq hline hheld v hv hne
    obtain ⟨item, notes, hchange, -⟩ := effect_of_step hstep run
    rw [options_of_run h] at hchange
    have hlets := hchange.letsIn (roomed_of_run h run) hp q hq w hline hheld
    -- Nobody has a place and stands in line.
    have hfirst : p.feed.channel.places.line.head? = some w := by
      refine hlets.resolve_left fun hbefore => ?_
      exact (List.nodup_append.mp (hpresent.nodup hp)).2.2 w hbefore w hline rfl
    obtain ⟨rest, hrest⟩ := List.head?_eq_some_iff.mp hfirst
    have hline := (List.pairwise_append.mp hordered).2.1
    rw [hrest] at hline hv
    exact List.rel_of_pairwise_cons hline ((List.mem_cons.mp hv).resolve_left hne)
  · intro caller m s' events hstep htook
    exact hroomed.intake.fair (free_of_took hstep htook hp)

theorem resume?_of_quiet (hquiet : s.quiet = true) {c : Call} (hcall : s.call? caller = some c) :
    s.resume? caller = none := by
  have hall := List.all_eq_true.mp (Bool.and_eq_true_iff.mp hquiet).1 _ (Calls.mem_of_lookup hcall)
  simpa using hall

/-- When nobody can go on, a call to enqueue waits only at an intake that is full of messages. -/
theorem full_of_quiet (h : Run step (new o) turns s) (hquiet : s.quiet = true)
    (hp : s.pipelines[run]? = some p) (hcall : s.call? caller = some (.enqueue run m)) :
    p.feed.channel.buffer.length = o.bufferSize := by
  have hwf := wellFormed_of_run h
  have hblocked {w : Caller} {k : Message} (hw : s.call? w = some (.enqueue run k)) :
      p.feed.channel.resume? w = none := by
    rcases isSome_resume_or_waits hwf hw with hgoes | ⟨_, q, -, hq, hwaits⟩
    · simp [resume?_of_quiet hquiet hw] at hgoes
    · obtain rfl := Option.some.inj (hp.symm.trans hq)
      exact hwaits
  -- Who has a place would fill it.
  have hheld : p.feed.channel.places.held = [] := by
    refine List.eq_nil_iff_forall_not_mem.mpr fun w hw => ?_
    obtain ⟨k, hk⟩ := (present_of_run h).pending hp (List.mem_append_left _ hw)
    exact (Channel.resume?_eq_none.mp (hblocked (Calls.lookup_of_mem hwf.guarded.keys hk))).2 hw
  have hserves := lined_of_run h caller run m p (Calls.mem_of_lookup hcall) hp
  have hfull := ((roomed_of_run h run p hp).intake.full hserves (hblocked hcall)).2
  rwa [hheld, List.length_nil, Nat.add_zero] at hfull

end System

end Enqueuer

end Batchflow
