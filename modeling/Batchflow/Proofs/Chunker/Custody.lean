import Batchflow.Proofs.Chunker.Lifecycle

/-!
# Who answers for a worker

A worker that runs is the chunker's, until a call to stop takes it over and waits for its end.  When
that call is given up the worker goes on, but neither the chunker nor a call has it any more: it is
forsaken.  Every other worker that is alive is the only one of its kind and can be stopped.  After a
worker was forsaken the chunker says that it runs, until the next call to stop finds nothing to be
stopped, and from then on the chunker can be started beside the forsaken worker.
-/

namespace Batchflow.Chunker

variable {α : Type}

namespace System

/-- The source whose worker is forsaken by an action, since the call that stops it is given up. -/
def forsaken? (s : System α) : Action α → Option Nat
  | .abort call =>
    match s.call? call with
    | some (.stopping source) => some source
    | _ => none
  | _ => none

end System

/-- The sources whose workers were forsaken. -/
def forsaken (turns : History α) : List Nat := turns.filterMap fun t => t.before.forsaken? t.action

namespace System

variable {s s' s₁ t : System α} {a : Action α} {events : List (Event α)} {call who source i : Nat}
  {c : Call α} {o : Options} {turns before after : History α}

structure Unmoved (s s' : System α) : Prop where
  state : s'.state = s.state
  running : s'.running = s.running
  stopping : ∀ who i, (who, .stopping i) ∈ s'.calls ↔ (who, .stopping i) ∈ s.calls
  alive : ∀ i, s'.Alive i → s.Alive i

theorem Unmoved.refl (s : System α) : s.Unmoved s := ⟨rfl, rfl, fun _ _ => .rfl, fun _ => id⟩

theorem Unmoved.trans (h : s.Unmoved s₁) (h' : s₁.Unmoved s') : s.Unmoved s' where
  state := h'.state.trans h.state
  running := h'.running.trans h.running
  stopping who i := (h'.stopping who i).trans (h.stopping who i)
  alive i hi := h.alive i (h'.alive i hi)

/-- How an action may change who answers for the worker. -/
inductive Shift (s : System α) (a : Action α) (s' : System α) : Prop
  | same : s.Unmoved s' → Shift s a s'
  | started (i : Nat) : s.state = .stopped → s'.state = .running → s'.running = some i →
      (∀ who j, (who, .stopping j) ∈ s'.calls ↔ (who, .stopping j) ∈ s.calls) →
      (∀ j, j ≠ i → s'.Alive j → s.Alive j) → Shift s a s'
  /-- A call to stop takes the worker over. -/
  | taken (call i : Nat) : s.state = .running → s.running = some i → s'.state = .running →
      s'.running = none →
      (∀ who j, (who, .stopping j) ∈ s'.calls ↔
        (who, .stopping j) ∈ s.calls ∨ who = call ∧ j = i) →
      (∀ j, s'.Alive j → s.Alive j) → Shift s a s'
  /-- A call to stop finds no worker. -/
  | missed (call : Nat) : s.entered? a = some (call, .stop) → s.running = none →
      s'.state = .stopped → s'.running = none →
      (∀ who j, (who, .stopping j) ∈ s'.calls ↔ (who, .stopping j) ∈ s.calls) →
      (∀ j, s'.Alive j → s.Alive j) → Shift s a s'
  | ended (call i : Nat) : (call, .stopping i) ∈ s.calls → ¬ s'.Alive i → s'.state = .stopped →
      s'.running = s.running →
      (∀ who j, (who, .stopping j) ∈ s'.calls ↔ (who, .stopping j) ∈ s.calls ∧ who ≠ call) →
      (∀ j, s'.Alive j → s.Alive j) → Shift s a s'
  | forsaken (call i : Nat) : s.forsaken? a = some i → (call, .stopping i) ∈ s.calls →
      s'.state = s.state → s'.running = s.running →
      (∀ who j, (who, .stopping j) ∈ s'.calls ↔ (who, .stopping j) ∈ s.calls ∧ who ≠ call) →
      (∀ j, s'.Alive j → s.Alive j) → Shift s a s'

theorem not_alive_of_outcome {f : Feed Nat α} {outcome : Except Panic Unit}
    (hf : s.feed? i = some f) (houtcome : f.worker.outcome? = some outcome) : ¬ s.Alive i := by
  rintro ⟨g, hg, halive⟩
  obtain rfl := Option.some.inj (hf.symm.trans hg)
  simp [Worker.ended_of_outcome houtcome] at halive

theorem alive_abandon (h : (s.abandon source).Alive i) : s.Alive i := by
  obtain ⟨f, hf, halive⟩ := h
  exact ⟨f, (s.feed?_abandon source i).symm.trans hf, halive⟩

theorem unmoved_of_forget (hs : s.Locked) (hcall : s.call? call = some c) (hc : c.stand ≠ .inside)
    (hcalls : s'.calls = s.calls.filter (·.1 != call)) (hstate : s'.state = s.state)
    (hrunning : s'.running = s.running) (halive : ∀ j, s'.Alive j → s.Alive j) : s.Unmoved s' where
  state := hstate
  running := hrunning
  stopping who i := by
    rw [hcalls]
    exact hs.inside_without (Calls.mem_of_lookup hcall) hc rfl
  alive := halive

theorem unmoved_ask (ha : s.Asks a call c s₁) (hunused : s.unused call = true) :
    s.Unmoved (s₁.ask call c) := by
  have hnew (k : Call α) : (call, k) ∉ s₁.calls := by
    rw [ha.calls]
    exact Calls.not_mem_of_lookup (call?_eq_none_of_unused hunused)
  have hc : c.stand ≠ .inside := by simp [ha.stand]
  have hstopping (who i : Nat) : (who, .stopping i) ∈ (s₁.ask call c).calls ↔
      (who, .stopping i) ∈ s.calls := by
    rw [← ha.calls]
    exact Guarded.inside_await hnew hc rfl
  have halive (i : Nat) (h : (s₁.ask call c).Alive i) : s.Alive i := by
    obtain ⟨f, hf, halive⟩ := h
    exact ⟨f, (ha.feed? i).symm.trans hf, halive⟩
  cases ha <;> exact ⟨rfl, rfl, hstopping, halive⟩

/-- What a call does that takes the worker over. -/
theorem shift_taken (htaken : t.Unmoved s) (hs : s.Locked) (hcall : s.call? call = some .stop)
    (hstate : s.state = .running) (hrunning : s.running = some source) :
    t.Shift a (s.takeOver call source) := by
  have halive (j : Nat) (h : (s.takeOver call source).Alive j) : t.Alive j :=
    htaken.alive j (alive_requestStop h : ({ s with running := none } : System α).Alive j)
  have hstopping (who j : Nat) : (who, .stopping j) ∈ (s.takeOver call source).calls ↔
      (who, .stopping j) ∈ t.calls ∨ who = call ∧ j = source := by
    obtain ⟨sources, heq⟩ := ({ s with running := none } : System α).requestStop_eq source
    rw [takeOver, heq, ← htaken.stopping who j]
    refine Calls.mem_await.trans (or_congr ⟨And.left, fun h => ⟨h, ?_⟩⟩ (by simp))
    rintro rfl
    cases hs.eq_of_mem h (Calls.mem_of_lookup hcall)
  have hnone : (s.takeOver call source).running = none := by
    obtain ⟨sources, heq⟩ := ({ s with running := none } : System α).requestStop_eq source
    rw [takeOver, heq]
    rfl
  exact .taken call source (htaken.state.symm.trans hstate) (htaken.running.symm.trans hrunning)
    ((s.state_takeOver call source).trans hstate) hnone hstopping halive

/-- A call goes on, with the lock at once or after it had to wait for it. -/
theorem shift_of_went (hsame : t.Unmoved s) (hs : s.Locked)
    (hentered : ∀ c, s.call? call = some c → c.stand = .waiting → t.entered? a = some (call, c))
    (h : s.Went call s' events) : t.Shift a s' := by
  have hforget {x : System α} {k : Call α} (hcall : s.call? call = some k) (hk : k.stand ≠ .inside)
      (hcalls : x.calls = s.calls.filter (·.1 != call)) (hstate : x.state = s.state)
      (hrunning : x.running = s.running) (halive : ∀ j, x.Alive j → s.Alive j) : t.Shift a x :=
    .same (hsame.trans (unmoved_of_forget hs hcall hk hcalls hstate hrunning halive))
  cases h with
  | @started source x hcall _ hstate =>
    refine .started source (hsame.state.symm.trans hstate) rfl rfl (fun who j => ?_) ?_
    · rw [← hsame.stopping who j]
      exact hs.inside_without (Calls.mem_of_lookup hcall) (by simp [Call.stand]) rfl
    · rintro j hj ⟨f, hf, halive⟩
      exact hsame.alive j ⟨f, (feed?_eq (getElem?_setSource_of_ne _ _ hj)).symm.trans hf, halive⟩
  | startLost hcall => exact hforget hcall (by simp [Call.stand]) rfl rfl rfl fun _ => id
  | @startRefused source _ hcall =>
    have halive (j : Nat) (h : (s.abandon source).Alive j) : s.Alive j := alive_abandon h
    obtain ⟨sources, heq⟩ := s.abandon_eq source
    rw [heq] at halive ⊢
    exact hforget hcall (by simp [Call.stand]) rfl rfl rfl halive
  | stopTaken hcall _ hstate hrunning => exact shift_taken hsame hs hcall hstate hrunning
  | stopRefused state hcall _ hcase =>
    rcases hcase with ⟨-, rfl⟩ | ⟨hnone, rfl⟩
    · exact hforget hcall (by simp [Call.stand]) rfl rfl rfl fun _ => id
    · refine .missed call (hentered _ hcall rfl) (hsame.running.symm.trans hnone) rfl hnone
        (fun who j => ?_) hsame.alive
      rw [← hsame.stopping who j]
      exact hs.inside_without (Calls.mem_of_lookup hcall) (by simp [Call.stand]) rfl
  | @stopped i f outcome hcall hf houtcome =>
    have hmem := Calls.mem_of_lookup hcall
    refine .ended call i ((hsame.stopping _ _).mp hmem) (not_alive_of_outcome hf houtcome) rfl
      hsame.running (fun who j => ?_) hsame.alive
    rw [← hsame.stopping who j]
    exact Calls.mem_without
  | sent hcall | refused hcall | notReserved hcall =>
    exact hforget hcall (by simp [Call.stand]) rfl rfl rfl fun _ => alive_setChannel
  | reserved hcall => exact hforget hcall (by simp [Call.stand]) rfl rfl rfl fun _ => id

theorem shift_of_did (hs : s.Locked) (h : s.Did a s' events) : s.Shift a s' := by
  have hforget {x : System α} {call : Nat} {k : Call α} (hcall : s.call? call = some k)
      (hk : k.stand ≠ .inside) (hcalls : x.calls = s.calls.filter (·.1 != call))
      (hstate : x.state = s.state) (hrunning : x.running = s.running)
      (halive : ∀ j, x.Alive j → s.Alive j) : s.Shift a x :=
    .same (unmoved_of_forget hs hcall hk hcalls hstate hrunning halive)
  cases h with
  | asked ha _ hunused => exact .same (unmoved_ask ha hunused)
  | @atOnce _ call c s₁ _ _ ha howned hunused hwent =>
    have hnone := call?_eq_none_of_unused hunused
    refine shift_of_went (unmoved_ask ha hunused) (hs.ask ha hnone) (fun k hk _ => ?_) hwent
    rw [call?, ← ha.calls] at hnone
    obtain rfl := Option.some.inj ((Calls.lookup_await hnone).symm.trans hk)
    exact entered_of_atOnce hs ha howned hunused hwent
  | sent | refused | reserved | notReserved | filled | gaveBack | handleAdded | handleDropped =>
    exact .same ⟨rfl, rfl, fun _ _ => .rfl, fun _ => alive_setChannel⟩
  | @sendWaits call source item _ _ hunused | @reserveWaits call source _ _ hunused =>
    have hnew (k : Call α) : (call, k) ∉ s.calls :=
      Calls.not_mem_of_lookup (call?_eq_none_of_unused hunused)
    refine .same ⟨rfl, rfl, fun who i => ?_, fun _ => alive_setChannel⟩
    refine Calls.mem_await.trans ⟨fun h => ?_, fun h => .inl ⟨h, ?_⟩⟩
    · exact (h.resolve_right (by simp)).1
    · rintro rfl
      exact hnew _ h
  | @startAborted _ source hcall =>
    have halive (j : Nat) (h : (s.abandon source).Alive j) : s.Alive j := alive_abandon h
    obtain ⟨sources, heq⟩ := s.abandon_eq source
    rw [heq] at halive ⊢
    exact hforget hcall (by simp [Call.stand]) rfl rfl rfl halive
  | stopAborted hcall => exact hforget hcall (by simp [Call.stand]) rfl rfl rfl fun _ => id
  | @stoppingAborted call source hcall =>
    exact .forsaken call source (by simp [forsaken?, hcall]) (Calls.mem_of_lookup hcall) rfl rfl
      (fun _ _ => Calls.mem_without) fun _ => id
  | @sendAborted w source _ hcall | @reserveAborted w source hcall =>
    have halive (j : Nat) (h : (s.leaveChannel source w).Alive j) : s.Alive j :=
      alive_leaveChannel h
    obtain ⟨sources, heq⟩ := s.leaveChannel_eq source w
    rw [heq] at halive ⊢
    exact hforget hcall (by simp [Call.stand]) rfl rfl rfl halive
  | dropped | advanced => exact .same ⟨rfl, rfl, fun _ _ => .rfl, fun _ => id⟩
  | @resumed call _ _ hwent =>
    exact shift_of_went (.refl s) hs (fun _ hcall hc => entered_of_resumed hwent hcall hc) hwent
  | moved hf hm => exact .same ⟨rfl, rfl, fun _ _ => .rfl, fun _ => alive_moved hf hm⟩

/-- A worker that is alive is the chunker's, or is stopped by a call, or was forsaken. -/
structure Accounted (s : System α) (gone : List Nat) : Prop where
  locked : s.Locked
  stopping : ∀ {who i}, (who, .stopping i) ∈ s.calls → s.state = .running ∧ s.running = none
  running : ∀ {i}, s.running = some i → s.state = .running
  alive : ∀ {i}, s.Alive i → i ∈ gone ∨ s.running = some i ∨ ∃ who, (who, .stopping i) ∈ s.calls
  not_draining : s.state ≠ .draining

namespace Accounted

variable {gone : List Nat}

theorem new (o : Options) : (new o : System α).Accounted [] where
  locked := .new
  stopping := by simp [System.new]
  running := by simp [System.new]
  alive := by simp [System.new, Alive, System.feed?]
  not_draining := by simp [System.new]

theorem eq_of_stopping (hs : s.Accounted gone) (h : (call, .stopping i) ∈ s.calls)
    (hwho : (who, .stopping source) ∈ s.calls) : who = call ∧ source = i := by
  obtain rfl := hs.locked.eq_of_held (hs.locked.inside _ _ hwho rfl) (hs.locked.inside _ _ h rfl)
  exact ⟨rfl, Call.stopping.inj (hs.locked.eq_of_mem hwho h)⟩

theorem shift (hs : s.Accounted gone) (hlocked : s'.Locked) (h : s.Shift a s') :
    s'.Accounted (gone ++ (s.forsaken? a).toList) := by
  have hgone {j : Nat} (hj : j ∈ gone) : j ∈ gone ++ (s.forsaken? a).toList :=
    List.mem_append_left _ hj
  cases h with
  | same hsame =>
    refine ⟨hlocked, fun hmem => ?_, fun hi => ?_, fun {j} hj => ?_, hsame.state ▸ hs.not_draining⟩
    · rw [hsame.state, hsame.running]
      exact hs.stopping ((hsame.stopping _ _).mp hmem)
    · exact hsame.state.trans (hs.running (hsame.running.symm.trans hi))
    · rw [hsame.running]
      refine (hs.alive (hsame.alive j hj)).imp hgone (Or.imp id ?_)
      exact fun ⟨who, hmem⟩ => ⟨who, (hsame.stopping who j).mpr hmem⟩
  | started i hstate hstate' hrunning hstopping halive =>
    -- A stopped chunker has no source that runs and no call that stops a worker.
    have hnone {who j : Nat} (hmem : (who, .stopping j) ∈ s.calls) : False := by
      have := (hs.stopping hmem).1
      simp [hstate] at this
    refine ⟨hlocked, fun hmem => (hnone ((hstopping _ _).mp hmem)).elim, fun _ => hstate',
      fun {j} hj => ?_, by simp [hstate']⟩
    by_cases hij : j = i
    · exact .inr (.inl (hij ▸ hrunning))
    · rcases hs.alive (halive j hij hj) with hj | hj | ⟨who, hmem⟩
      · exact .inl (hgone hj)
      · have := hs.running hj
        simp [hstate] at this
      · exact (hnone hmem).elim
  | taken call i hstate hrunning hstate' hnone hstopping halive =>
    refine ⟨hlocked, fun _ => ⟨hstate', hnone⟩, fun _ => hstate', fun {j} hj => ?_,
      by simp [hstate']⟩
    rcases hs.alive (halive j hj) with hj | hj | ⟨who, hmem⟩
    · exact .inl (hgone hj)
    · obtain rfl := Option.some.inj (hj.symm.trans hrunning)
      exact .inr (.inr ⟨call, (hstopping _ _).mpr (.inr ⟨rfl, rfl⟩)⟩)
    · exact .inr (.inr ⟨who, (hstopping _ _).mpr (.inl hmem)⟩)
  | missed call hentered hnone hstate' hnone' hstopping halive =>
    obtain ⟨x, hx, -⟩ := exists_finds hentered
    have hno {who j : Nat} (hmem : (who, .stopping j) ∈ s.calls) : False :=
      hx.not_inside hs.locked hmem rfl
    refine ⟨hlocked, fun hmem => (hno ((hstopping _ _).mp hmem)).elim, fun hi => ?_,
      fun {j} hj => ?_, by simp [hstate']⟩
    · simp [hnone'] at hi
    · rcases hs.alive (halive j hj) with hj | hj | ⟨who, hmem⟩
      · exact .inl (hgone hj)
      · simp [hnone] at hj
      · exact (hno hmem).elim
  | ended call i hmem hended hstate' hrunning hstopping halive =>
    have hnone := (hs.stopping hmem).2
    refine ⟨hlocked, fun hother => ?_, fun hi => ?_, fun {j} hj => ?_, by simp [hstate']⟩
    · obtain ⟨hother, hne⟩ := (hstopping _ _).mp hother
      exact absurd (hs.eq_of_stopping hmem hother).1 hne
    · simp [hrunning, hnone] at hi
    · rcases hs.alive (halive j hj) with hj | hj | ⟨who, hother⟩
      · exact .inl (hgone hj)
      · simp [hnone] at hj
      · obtain ⟨-, rfl⟩ := hs.eq_of_stopping hmem hother
        exact absurd hj hended
  | forsaken call i hforsaken hmem hstate' hrunning hstopping halive =>
    refine ⟨hlocked, fun hother => ?_, fun hi => ?_, fun {j} hj => ?_, hstate' ▸ hs.not_draining⟩
    · obtain ⟨hother, hne⟩ := (hstopping _ _).mp hother
      exact absurd (hs.eq_of_stopping hmem hother).1 hne
    · simp [hrunning, (hs.stopping hmem).2] at hi
    · rcases hs.alive (halive j hj) with hj | hj | ⟨who, hother⟩
      · exact .inl (hgone hj)
      · simp [(hs.stopping hmem).2] at hj
      · obtain ⟨-, rfl⟩ := hs.eq_of_stopping hmem hother
        exact .inl (List.mem_append_right _ (by simp [hforsaken]))

end Accounted

theorem accounted_of_run (h : Run step (new o) turns s) : s.Accounted (forsaken turns) := by
  induction h with
  | nil => exact .new o
  | @snoc turns s₁ s₂ a events hrun hstep ih =>
    have hdid := did_of_step hstep
    have hshift := ih.shift (ih.locked.did hdid) (shift_of_did ih.locked hdid)
    rw [forsaken, List.filterMap_append]
    cases hforsaken : s₁.forsaken? a <;> simpa [forsaken, hforsaken] using hshift

/-- Nobody can start the chunker: whoever gets the lock to do so is told that it runs, and nothing
changes. -/
def Refuses (s : System α) : Prop :=
  ∀ {a call i s' events}, s.entered? a = some (call, .start i) → s.step a = some (s', events) →
    s.Untouched s' ∧ events = [.replied call (.started (.error (.alreadyStarted .running)))]

theorem refuses_of_running (hstate : s.state = .running) : s.Refuses := by
  intro a call i s' events hentered hstep
  obtain ⟨x, hx, heq⟩ := exists_finds hentered
  have hrefused := untouched_of_refused hx i
  rw [heq, hx.resume?_start, runStart_running (hx.settled.2.1.trans hstate)] at hstep
  obtain ⟨rfl, rfl⟩ := Prod.mk.inj (Option.some.inj hstep)
  exact ⟨hrefused, rfl⟩

/-- The worker of a source is in good hands: nobody starts another one beside it, and a call to
stop takes it over, or has done so already. -/
structure Tended (s : System α) (i : Nat) : Prop where
  state : s.state = .running
  owner : s.running = some i ∨ ∃ who, (who, .stopping i) ∈ s.calls
  start : s.Refuses
  stop : ∀ {a call s' events}, s.entered? a = some (call, .stop) → s.step a = some (s', events) →
    s'.state = .running ∧ (call, .stopping i) ∈ s'.calls ∧ events = [] ∧
      s'.feed? i = (s.feed? i).map fun f => { f with stopRequested := true }

theorem Accounted.tended_of_owner {gone : List Nat} (hs : s.Accounted gone)
    (howner : s.running = some i ∨ ∃ who, (who, .stopping i) ∈ s.calls) : s.Tended i := by
  have hstate : s.state = .running := by
    rcases howner with hrunning | ⟨who, hmem⟩
    · exact hs.running hrunning
    · exact (hs.stopping hmem).1
  refine ⟨hstate, howner, refuses_of_running hstate, fun {a call s' events} hentered hstep => ?_⟩
  obtain ⟨x, hx, heq⟩ := exists_finds hentered
  obtain ⟨-, hstate', hrunning', -⟩ := hx.settled
  -- Whoever gets the lock finds nobody who stops the worker.
  have hrunning : s.running = some i := by
    rcases howner with hrunning | ⟨who, hmem⟩
    · exact hrunning
    · exact absurd rfl (hx.not_inside hs.locked hmem)
  rw [heq, hx.resume?_stop,
    runStop_taken (hstate'.trans hstate) (hrunning'.trans hrunning)] at hstep
  obtain ⟨rfl, rfl⟩ := Prod.mk.inj (Option.some.inj hstep)
  refine ⟨(x.state_takeOver call i).trans (hstate'.trans hstate),
    Calls.mem_await.mpr (.inr ⟨rfl, rfl⟩), rfl, ?_⟩
  have hfeed := ({ x with running := none } : System α).feed?_requestStop i i
  rw [if_pos rfl] at hfeed
  exact hfeed.trans (congrArg _ (hx.feed? i))

theorem Accounted.tended {gone : List Nat} (hs : s.Accounted gone) (hi : s.Alive i)
    (hgone : i ∉ gone) : s.Tended i :=
  hs.tended_of_owner ((hs.alive hi).resolve_left hgone)

/-- The chunker says that it runs, but nobody has a worker that could be stopped. -/
structure Adrift (s : System α) : Prop where
  state : s.state = .running
  running : s.running = none
  stopping : ∀ who i, (who, .stopping i) ∉ s.calls

theorem Accounted.adrift_of_forsaken {gone : List Nat} (hs : s.Accounted gone)
    (h : s.step a = some (s', events)) (hforsaken : s.forsaken? a = some i) : s'.Adrift := by
  unfold forsaken? at hforsaken
  split at hforsaken
  · rename_i call
    split at hforsaken
    · rename_i source hcall
      have hmem := Calls.mem_of_lookup hcall
      simp only [step, abort?, hcall, Option.map_some, Option.some.injEq, Prod.mk.injEq] at h
      obtain ⟨rfl, -⟩ := h
      refine ⟨(hs.stopping hmem).1, (hs.stopping hmem).2, fun who j hother => ?_⟩
      obtain ⟨hother, hne⟩ := Calls.mem_without.mp hother
      exact hne (hs.eq_of_stopping hmem hother).1
    · contradiction
  · contradiction

namespace Adrift

/-- Nothing but a call to stop brings the chunker out of it. -/
theorem shift (hs : s.Adrift) (h : s.Shift a s') (hno : ∀ call, s.entered? a ≠ some (call, .stop)) :
    s'.Adrift := by
  cases h with
  | same hsame =>
    exact ⟨hsame.state.trans hs.state, hsame.running.trans hs.running,
      fun who i hmem => hs.stopping who i ((hsame.stopping who i).mp hmem)⟩
  | started _ hstate =>
    rw [hs.state] at hstate
    contradiction
  | taken _ _ _ hrunning =>
    rw [hs.running] at hrunning
    contradiction
  | missed call hentered => exact absurd hentered (hno call)
  | ended _ _ hmem | forsaken _ _ _ hmem => exact absurd hmem (hs.stopping _ _)

theorem of_run (hs : s.Adrift) (hlocked : s.Locked) (h : Run step s turns s')
    (hno : ∀ u ∈ turns, ∀ call, u.before.entered? u.action ≠ some (call, .stop)) : s'.Adrift := by
  have hboth : s'.Adrift ∧ s'.Locked := by
    induction h with
    | nil => exact ⟨hs, hlocked⟩
    | @snoc turns s₁ s₂ a events _ hstep ih =>
      obtain ⟨hs₁, hlocked₁⟩ := ih fun u hu => hno u (by simp [hu])
      have hdid := did_of_step hstep
      exact ⟨hs₁.shift (shift_of_did hlocked₁ hdid) (hno ⟨s₁, a, events⟩ (by simp)),
        hlocked₁.did hdid⟩
  exact hboth.1

theorem stop (hs : s.Adrift) (hentered : s.entered? a = some (call, .stop))
    (h : s.step a = some (s', events)) :
    s'.state = .stopped ∧ events = [.replied call (.stopped (.error .notRunning))] ∧
      ∀ i, s'.feed? i = s.feed? i := by
  obtain ⟨x, hx, heq⟩ := exists_finds hentered
  obtain ⟨-, hstate, hrunning, -⟩ := hx.settled
  rw [heq, hx.resume?_stop] at h
  simp only [runStop, hstate.trans hs.state, hrunning.trans hs.running, if_true,
    Option.some.injEq] at h
  obtain ⟨rfl, rfl⟩ := Prod.mk.inj h
  exact ⟨rfl, rfl, hx.feed?⟩

end Adrift

/-- How a chunker and its workers get on, whichever calls are given up. -/
structure Custody (turns : History α) (s : System α) : Prop where
  tended : ∀ {i}, s.Alive i → i ∉ forsaken turns → s.Tended i
  one_tended : ∀ {i j}, s.Alive i → s.Alive j → i ∉ forsaken turns → j ∉ forsaken turns → i = j
  /-- A call that stops a worker waits for it and reports how it ended. -/
  waits : ∀ {a call i s' events}, (call, .stopping i) ∈ s.calls → s.step a = some (s', events) →
    a ≠ .abort call → (call, .stopping i) ∈ s'.calls ∧ (∀ r, .replied call r ∉ events) ∨
      ∃ f outcome, s.feed? i = some f ∧ f.worker.outcome? = some outcome ∧
        s'.state = .stopped ∧ events = [.replied call (.stopped (stopResult outcome))]
  /-- From the moment at which a worker is forsaken to the next call to stop the chunker says that
  it runs and cannot be started. -/
  refuses : ∀ {before t after i}, turns = before ++ t :: after →
    t.before.forsaken? t.action = some i →
    (∀ u ∈ after, ∀ call, u.before.entered? u.action ≠ some (call, .stop)) →
    s.state = .running ∧ s.Refuses
  /-- That call is told that the chunker does not run, although the worker may be alive, and from
  then on the chunker can be started. -/
  misses : ∀ {before t after i}, turns = before ++ t :: after →
    t.before.forsaken? t.action = some i →
    (∀ u ∈ after, ∀ call, u.before.entered? u.action ≠ some (call, .stop)) →
    ∀ {a call s' events}, s.entered? a = some (call, .stop) → s.step a = some (s', events) →
      s'.state = .stopped ∧ events = [.replied call (.stopped (.error .notRunning))] ∧
        ∀ j, s'.feed? j = s.feed? j

theorem adrift_of_run {u : Turn (System α) (Action α) (Event α)}
    (h : Run step (new o) (before ++ u :: after) s)
    (hforsaken : u.before.forsaken? u.action = some i)
    (hno : ∀ v ∈ after, ∀ call, v.before.entered? v.action ≠ some (call, .stop)) : s.Adrift := by
  rw [List.append_cons] at h
  obtain ⟨s₁, hupto, hafter⟩ := h.cut
  obtain ⟨hbefore, hstep⟩ := hupto.snoc_inv
  have hadrift := (accounted_of_run hbefore).adrift_of_forsaken hstep hforsaken
  exact hadrift.of_run (locked_of_run hupto) hafter hno

theorem stops_given_up (h : Run step (new o) turns s) : Custody turns s where
  tended hi hgone := (accounted_of_run h).tended hi hgone
  one_tended {i j} hi hj hgone hgone' := by
    have hs := accounted_of_run h
    -- The lock is held by whoever stops a worker, and then no worker is the chunker's.
    rcases (hs.tended hi hgone).owner with hi | ⟨v, hv⟩ <;>
      rcases (hs.tended hj hgone').owner with hj | ⟨w, hw⟩
    · exact Option.some.inj (hi.symm.trans hj)
    · simp [(hs.stopping hw).2] at hi
    · simp [(hs.stopping hv).2] at hj
    · exact (hs.eq_of_stopping hw hv).2
  waits {a call i s' events} hmem hstep habort := by
    have hlocked := locked_of_run h
    by_cases hresume : a = .resume call
    · subst hresume
      exact .inr (ends_of_went hlocked (went_of_resume hstep) hmem)
    · exact .inl (untouched_of_did (did_of_step hstep) hmem hresume habort)
  refuses heq hforsaken hno := by
    subst heq
    have hadrift := adrift_of_run h hforsaken hno
    exact ⟨hadrift.state, refuses_of_running hadrift.state⟩
  misses heq hforsaken hno _ _ _ _ hentered hstep := by
    subst heq
    exact (adrift_of_run h hforsaken hno).stop hentered hstep

def singleOptions : Options := { size := 1 }

/-- The handler has an item when one call takes the worker over and another waits for the lock; the
one that waits is given up. -/
def abortedRun : List (Action Nat) :=
  [.start 0 1, .send 1 0 10, .move 0 .receive, .stop 2, .stop 3, .abort 3]

/-- The call that waited was no matter to the worker, but the one that took it over is. -/
theorem stops_given_up_abortedRun : ∃ turns s t s',
    replay step (new singleOptions) abortedRun = some (turns, s) ∧ s.Alive 0 ∧
      forsaken turns = [] ∧ s.Tended 0 ∧
      replay step (new singleOptions) (abortedRun ++ [.abort 2]) = some (turns ++ [t], s') ∧
      s'.Alive 0 ∧ t.before.forsaken? t.action = some 0 ∧ s'.Refuses := by
  obtain ⟨turns, s, hreplay, halive, hgone⟩ : ∃ turns s,
      replay step (new singleOptions) abortedRun = some (turns, s) ∧ s.Alive 0 ∧
        forsaken turns = [] := ⟨_, _, rfl, ⟨_, rfl, rfl⟩, rfl⟩
  obtain ⟨t, s', hreplay', halive', hforsaken⟩ : ∃ t s',
      replay step (new singleOptions) (abortedRun ++ [.abort 2]) = some (turns ++ [t], s') ∧
        s'.Alive 0 ∧ t.before.forsaken? t.action = some 0 := by
    obtain ⟨rfl, rfl⟩ := Prod.mk.inj (Option.some.inj hreplay)
    exact ⟨_, _, rfl, ⟨_, rfl, rfl⟩, rfl⟩
  have htended := (stops_given_up (.of_replay hreplay)).tended halive (by simp [hgone])
  have hrefuses := (stops_given_up (.of_replay hreplay')).refuses rfl hforsaken (by simp)
  exact ⟨turns, s, t, s', hreplay, halive, hgone, htended, hreplay', halive', hforsaken, hrefuses.2⟩

/-- While a worker that was forsaken is alive a call to stop is told that the chunker does not run,
and the chunker is stopped; then it is started, and two workers are alive. -/
theorem two_alive_forsakenRun : ∃ turns s s₁ s₂,
    replay step (new singleOptions) (abortedRun ++ [.abort 2]) = some (turns, s) ∧
      forsaken turns = [0] ∧ s.Alive 0 ∧ s.state = .running ∧
      s.step (.stop 4) = some (s₁, [.replied 4 (.stopped (.error .notRunning))]) ∧
      s₁.Alive 0 ∧ s₁.state = .stopped ∧
      s₁.step (.start 5 1) = some (s₂, [.replied 5 (.started (.ok ()))]) ∧
      s₂.Alive 0 ∧ s₂.Alive 1 := by
  refine ⟨_, _, _, _, rfl, rfl, ?_, rfl, rfl, ?_, rfl, rfl, ?_, ?_⟩
  · exact ⟨_, rfl, rfl⟩
  · exact ⟨_, rfl, rfl⟩
  · exact ⟨_, rfl, rfl⟩
  · exact ⟨_, rfl, rfl⟩

end System

end Batchflow.Chunker
