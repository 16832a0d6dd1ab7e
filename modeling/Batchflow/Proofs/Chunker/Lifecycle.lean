import Batchflow.Proofs.Alternation
import Batchflow.Proofs.Chunker.Locking

/-!
# The life of a chunker

As long as no call to start or stop is given up, the state of a chunker, the source whose worker
runs and the calls that are pending agree: at most one worker is alive, and it is the one that the
next call to stop takes over or that a call to stop waits for.  So a call that gets the lock finds
the chunker stopped or running, and what it does is told by that.
-/

namespace Batchflow.Chunker

variable {α : Type}

theorem Call.stand_eq_inside {c : Call α} : c.stand = .inside ↔ ∃ source, c = .stopping source := by
  cases c <;> simp [stand]

/-- A caller is told that a worker has begun. -/
def Event.isStart : Event α → Bool
  | .replied _ (.started (.ok ())) => true
  | _ => false

namespace System

def Alive (s : System α) (source : Nat) : Prop :=
  ∃ f, s.feed? source = some f ∧ f.worker.ended = false

def stage (s : System α) : Stage := .of Call.stand s.state s.calls

def Endures (s : System α) (a : Action α) : Prop :=
  ∀ call c, a = .abort call → s.call? call = some c → c.stand = .outside

end System

/-- No call to start or stop was given up. -/
def Patient (turns : History α) : Prop := ∀ t ∈ turns, t.before.Endures t.action

/-- The mark of a turn: a call to start gets the lock and succeeds, or a call to stop gets it and
finds the chunker running. -/
def mark? (t : Turn (System α) (Action α) (Event α)) : Option Mark :=
  match t.before.entered? t.action with
  | some (_, .start _) => if t.events.any Event.isStart then some .start else none
  | some (_, .stop) => if t.before.state = .running then some .stop else none
  | _ => none

/-- The successful starts and the stops that found the chunker running, in the order in which they
got the lock. -/
def marks (turns : History α) : List Mark := turns.filterMap mark?

namespace System

/-- The chunker is as it was to everybody who may start, stop or use it. -/
structure Untouched (s s' : System α) : Prop where
  state : s'.state = s.state
  running : s'.running = s.running
  feed? : ∀ i, s'.feed? i = s.feed? i

/-- What a call to start or stop does that gets the lock. -/
inductive Served (s : System α) (call : Nat) : Call α → System α → List (Event α) → Prop
  | started {source s' channel} : s.state = .stopped → s.options.validate = .ok () →
      s'.state = .running → s'.running = some source →
      s'.feed? source = some (.start channel s.now) → (∀ i, i ≠ source → s'.feed? i = s.feed? i) →
      Served s call (.start source) s' [.replied call (.started (.ok ()))]
  | alreadyStarted {source s'} : s.state = .running → s.options.validate = .ok () →
      s.Untouched s' →
      Served s call (.start source) s'
        [.replied call (.started (.error (.alreadyStarted .running)))]
  | invalid {source s' e} : s.state = .stopped → s.options.validate = .error e → s.Untouched s' →
      Served s call (.start source) s' [.replied call (.started (.error (.config e)))]
  | stopping {source s'} : s.state = .running → s.running = some source →
      s'.state = .running → (call, .stopping source) ∈ s'.calls →
      (∀ i, s'.feed? i = if i = source then (s.feed? i).map fun f => { f with stopRequested := true }
        else s.feed? i) → Served s call .stop s' []
  | notRunning {s'} : s.state = .stopped → s.Untouched s' →
      Served s call .stop s' [.replied call (.stopped (.error .notRunning))]

variable {s s' s₁ x : System α} {a : Action α} {events : List (Event α)} {out : Outcome α}
  {call who source i : Nat} {c : Call α} {o : Options} {turns before mid : History α}

theorem feed?_eq (h : s'.sources[i]? = s.sources[i]?) : s'.feed? i = s.feed? i := by
  rw [feed?, feed?, h]

theorem feed?_abandon (s : System α) (source i : Nat) : (s.abandon source).feed? i = s.feed? i := by
  by_cases hi : i = source
  · subst hi
    unfold abandon
    split
    · rename_i c hc
      rw [feed?, getElem?_setSource_self s _ hc, feed?, hc]
      rfl
    · rfl
  · exact feed?_eq (abandon_others hi)

theorem feed?_requestStop (s : System α) (source i : Nat) : (s.requestStop source).feed? i =
    if i = source then (s.feed? i).map fun f => { f with stopRequested := true }
    else s.feed? i := by
  unfold requestStop
  split
  · rename_i f hf
    split
    · rename_i hi
      subst hi
      rw [hf, setFeed, feed?, getElem?_setSource_self s _ (feed?_eq_some hf)]
      rfl
    · rename_i hi
      exact feed?_eq (getElem?_setSource_of_ne s _ hi)
  · rename_i hnone
    split
    · rename_i hi
      rw [hi, hnone]
      rfl
    · rfl

theorem alive_setChannel {d : Channel Nat α} (h : (s.setChannel source d).Alive i) : s.Alive i := by
  obtain ⟨f, hf, halive⟩ := h
  by_cases hi : i = source
  · subst hi
    have hread := feed?_eq_some hf
    rw [getElem?_setChannel_self] at hread
    obtain ⟨y, hy, hset⟩ := Option.map_eq_some_iff.mp hread
    cases y with
    | read g =>
      obtain rfl := Source.read.inj hset
      exact ⟨g, feed?_of_read hy, halive⟩
    | offered | abandoned => cases hset
  · exact ⟨f, (feed?_eq (getElem?_setChannel_of_ne s d hi)).symm.trans hf, halive⟩

theorem alive_leaveChannel (h : (s.leaveChannel source call).Alive i) : s.Alive i := by
  unfold leaveChannel at h
  split at h
  · exact alive_setChannel h
  · exact h

theorem alive_moved {f f' : Feed Nat α} {m : Move} {chunk : Option (List α)}
    (hf : s.feed? source = some f) (hm : f.Moved o s.now m f' chunk)
    (h : (s.setFeed source f').Alive i) : s.Alive i := by
  by_cases hi : i = source
  · exact ⟨f, hi ▸ hf, hm.not_ended⟩
  · obtain ⟨g, hg, halive⟩ := h
    exact ⟨g, (feed?_eq (getElem?_setSource_of_ne s _ hi)).symm.trans hg, halive⟩

theorem alive_requestStop (h : (s.requestStop source).Alive i) : s.Alive i := by
  obtain ⟨f, hf, halive⟩ := h
  rw [feed?_requestStop] at hf
  split at hf
  · obtain ⟨g, hg, rfl⟩ := Option.map_eq_some_iff.mp hf
    exact ⟨g, hg, halive⟩
  · exact ⟨f, hf, halive⟩

structure Orderly (s : System α) : Prop where
  locked : s.Locked
  stopping : ∀ {who source}, (who, .stopping source) ∈ s.calls →
    s.state = .running ∧ s.running = none
  running : ∀ {source}, s.running = some source → s.state = .running
  owned : s.state = .running → (∃ source, s.running = some source) ∨
    ∃ who source, (who, .stopping source) ∈ s.calls
  alive : ∀ {source}, s.Alive source → s.running = some source ∨
    ∃ who, (who, .stopping source) ∈ s.calls
  valid : s.state = .running → s.options.validate = .ok ()
  not_draining : s.state ≠ .draining

theorem orderly_new (o : Options) : (new o : System α).Orderly where
  locked := .new
  stopping := by simp [new]
  running := by simp [new]
  owned := by simp [new]
  alive := by simp [new, Alive, feed?]
  valid := by simp [new]
  not_draining := by simp [new]

namespace Orderly

theorem frame (hs : s.Orderly) (hlocked : s'.Locked) (hstate : s'.state = s.state)
    (hrunning : s'.running = s.running) (hoptions : s'.options = s.options)
    (hcalls : ∀ {w k}, k.stand = .inside → ((w, k) ∈ s'.calls ↔ (w, k) ∈ s.calls))
    (halive : ∀ {i}, s'.Alive i → s.Alive i) : s'.Orderly where
  locked := hlocked
  stopping h := by
    rw [hstate, hrunning]
    exact hs.stopping ((hcalls rfl).mp h)
  running h := hstate.trans (hs.running (hrunning.symm.trans h))
  owned h := by
    rw [hrunning]
    exact (hs.owned (hstate.symm.trans h)).imp id fun ⟨w, i, hmem⟩ => ⟨w, i, (hcalls rfl).mpr hmem⟩
  alive h := by
    rw [hrunning]
    exact (hs.alive (halive h)).imp id fun ⟨w, hmem⟩ => ⟨w, (hcalls rfl).mpr hmem⟩
  valid h := by
    rw [hoptions]
    exact hs.valid (hstate.symm.trans h)
  not_draining := hstate ▸ hs.not_draining

theorem forget (hs : s.Orderly) (hlocked : s'.Locked) (hcall : s.call? call = some c)
    (hc : c.stand ≠ .inside) (hcalls : s'.calls = s.calls.filter (·.1 != call))
    (hstate : s'.state = s.state) (hrunning : s'.running = s.running)
    (hoptions : s'.options = s.options) (halive : ∀ {i}, s'.Alive i → s.Alive i) :
    s'.Orderly := by
  refine hs.frame hlocked hstate hrunning hoptions (fun hk => ?_) halive
  rw [hcalls]
  exact hs.locked.inside_without (Calls.mem_of_lookup hcall) hc hk

theorem not_alive (hs : s.Orderly) (hstate : s.state = .stopped) : ¬ s.Alive i := by
  intro h
  have hrunning : s.state = .running := by
    rcases hs.alive h with h | ⟨w, h⟩
    · exact hs.running h
    · exact (hs.stopping h).1
  rw [hstate] at hrunning
  cases hrunning

theorem not_inside (hs : s.Orderly) (hrunning : s.running = some source)
    (hc : (who, c) ∈ s.calls) : c.stand ≠ .inside := by
  intro hin
  obtain ⟨i, rfl⟩ := Call.stand_eq_inside.mp hin
  have := (hs.stopping hc).2
  rw [hrunning] at this
  cases this

theorem exists_running (hs : s.Orderly) (hstate : s.state = .running)
    (hno : ∀ {w c}, (w, c) ∈ s.calls → c.stand ≠ .inside) : ∃ source, s.running = some source := by
  rcases hs.owned hstate with h | ⟨w, i, h⟩
  · exact h
  · exact absurd rfl (hno h)

theorem started {y : Source α} (hs : s.Orderly) (hstate : s.state = .stopped)
    (hvalid : s.options.validate = .ok ())
    (hlocked : (((s.begin source y).unlock call).forget call).Locked) :
    (((s.begin source y).unlock call).forget call).Orderly where
  locked := hlocked
  stopping h := by
    have hrunning := (hs.stopping (Calls.mem_without.mp h).1).1
    rw [hstate] at hrunning
    cases hrunning
  running _ := rfl
  owned _ := .inl ⟨source, rfl⟩
  alive {i} h := by
    by_cases hi : i = source
    · exact .inl (congrArg some hi.symm)
    · obtain ⟨f, hf, halive⟩ := h
      have hold : s.Alive i :=
        ⟨f, (feed?_eq (getElem?_setSource_of_ne _ _ hi)).symm.trans hf, halive⟩
      exact absurd hold (hs.not_alive hstate)
  valid _ := hvalid
  not_draining := nofun

/-- The worker that ran is the one that is now stopped. -/
theorem taken (hs : s.Orderly) (hstate : s.state = .running) (hrunning : s.running = some source)
    (hlocked : (s.takeOver call source).Locked) : (s.takeOver call source).Orderly := by
  have halive {i : Nat} (h : (({ s with running := none } : System α).requestStop source).Alive i) :
      s.Alive i := (alive_requestStop h : ({ s with running := none } : System α).Alive i)
  obtain ⟨sources, heq⟩ := ({ s with running := none } : System α).requestStop_eq source
  unfold takeOver at hlocked ⊢
  rw [heq] at hlocked halive ⊢
  refine ⟨hlocked, fun _ => ⟨hstate, rfl⟩, nofun, fun _ => .inr ?_, fun {i} h => .inr ?_,
    fun _ => hs.valid hstate, hs.not_draining⟩
  · exact ⟨call, source, Calls.mem_await.mpr (.inr ⟨rfl, rfl⟩)⟩
  · rcases hs.alive (halive h) with hi | ⟨w, hmem⟩
    · obtain rfl := Option.some.inj (hrunning.symm.trans hi)
      exact ⟨call, Calls.mem_await.mpr (.inr ⟨rfl, rfl⟩)⟩
    · exact absurd rfl (hs.not_inside hrunning hmem)

/-- The worker whose end was awaited is the only one that was left. -/
theorem stopped {f : Feed Nat α} {outcome : Except Panic Unit} (hs : s.Orderly)
    (hmem : (call, .stopping source) ∈ s.calls) (hf : s.feed? source = some f)
    (houtcome : f.worker.outcome? = some outcome)
    (hlocked : ((({ s with state := .stopped } : System α).unlock call).forget call).Locked) :
    ((({ s with state := .stopped } : System α).unlock call).forget call).Orderly := by
  have hheld := hs.locked.inside _ _ hmem rfl
  have hnone := (hs.stopping hmem).2
  refine ⟨hlocked, fun h => ?_, fun h => ?_, nofun, fun {i} h => ?_, nofun, nofun⟩
  · obtain ⟨h, hne⟩ := Calls.mem_without.mp h
    exact absurd (hs.locked.eq_of_held (hs.locked.inside _ _ h rfl) hheld) hne
  · rw [show s.running = some _ from h] at hnone
    cases hnone
  · obtain ⟨g, hg, halive⟩ := h
    rcases hs.alive ⟨g, hg, halive⟩ with hi | ⟨w, hi⟩
    · rw [hnone] at hi
      cases hi
    · obtain rfl := hs.locked.eq_of_held (hs.locked.inside _ _ hi rfl) hheld
      obtain rfl := Call.stopping.inj (hs.locked.eq_of_mem hmem hi)
      obtain rfl := Option.some.inj (hf.symm.trans hg)
      simp [Worker.ended_of_outcome houtcome] at halive

/-- A call to stop that is refused while nobody stops the worker leaves the state. -/
theorem eq_of_refused {state : Lifecycle} (hs : s.Orderly)
    (hno : ∀ {w c}, (w, c) ∈ s.calls → c.stand ≠ .inside)
    (h : s.state ≠ .running ∧ state = s.state ∨ s.running = none ∧ state = .stopped) :
    state = s.state := by
  rcases h with ⟨-, h⟩ | ⟨hnone, rfl⟩
  · exact h
  · cases hstate : s.state with
    | stopped => rfl
    | draining => exact absurd hstate hs.not_draining
    | running =>
      obtain ⟨source, hsome⟩ := hs.exists_running hstate hno
      rw [hnone] at hsome
      cases hsome

theorem went (hs : s.Orderly) (h : s.Went call s' events) : s'.Orderly := by
  have hlocked := hs.locked.went h
  cases h with
  | started _ _ hstate hvalid => exact hs.started hstate hvalid hlocked
  | startLost hcall => exact hs.forget hlocked hcall (by simp [Call.stand]) rfl rfl rfl rfl id
  | @startRefused source _ hcall =>
    obtain ⟨sources, heq⟩ := s.abandon_eq source
    have hfeed := s.feed?_abandon source
    rw [heq] at hlocked hfeed ⊢
    refine hs.forget hlocked hcall (by simp [Call.stand]) rfl rfl rfl rfl ?_
    rintro i ⟨f, hf, halive⟩
    exact ⟨f, (hfeed i).symm.trans hf, halive⟩
  | stopTaken _ _ hstate hrunning => exact hs.taken hstate hrunning hlocked
  | stopRefused state hcall hheld hcase =>
    have hstate := hs.eq_of_refused
      (fun h => hs.locked.not_inside hheld (Calls.mem_of_lookup hcall) rfl h) hcase
    exact hs.forget hlocked hcall (by simp [Call.stand]) rfl hstate rfl rfl id
  | stopped hcall hf houtcome =>
    exact hs.stopped (Calls.mem_of_lookup hcall) hf houtcome hlocked
  | sent hcall | refused hcall | notReserved hcall =>
    exact hs.forget hlocked hcall (by simp [Call.stand]) rfl rfl rfl rfl alive_setChannel
  | reserved hcall => exact hs.forget hlocked hcall (by simp [Call.stand]) rfl rfl rfl rfl id

theorem ask (hs : s.Orderly) (ha : s.Asks a call c s₁) (hunused : s.unused call = true) :
    (s₁.ask call c).Orderly := by
  have hnew (k : Call α) : (call, k) ∉ s.calls :=
    Calls.not_mem_of_lookup (call?_eq_none_of_unused hunused)
  have hc : c.stand ≠ .inside := by simp [ha.stand]
  have halive {i : Nat} (h : (s₁.ask call c).Alive i) : s.Alive i := by
    obtain ⟨f, hf, halive⟩ := h
    exact ⟨f, (ha.feed? i).symm.trans hf, halive⟩
  have hlocked := hs.locked.ask ha (call?_eq_none_of_unused hunused)
  cases ha <;> exact hs.frame hlocked rfl rfl rfl (Guarded.inside_await hnew hc) halive

theorem did (hs : s.Orderly) (hendures : s.Endures a) (h : s.Did a s' events) : s'.Orderly := by
  have hlocked := hs.locked.did h
  have hgiven {call : Nat} {c : Call α} (ha : a = .abort call) (hcall : s.call? call = some c)
      (hc : c.stand ≠ .outside) : s'.Orderly := absurd (hendures call c ha hcall) hc
  cases h with
  | asked ha _ hunused => exact hs.ask ha hunused
  | atOnce ha _ hunused hwent => exact (hs.ask ha hunused).went hwent
  | sent | refused | reserved | notReserved | filled | gaveBack | handleAdded | handleDropped =>
    exact hs.frame hlocked rfl rfl rfl (fun _ => .rfl) alive_setChannel
  | @sendWaits call source item _ _ hunused | @reserveWaits call source _ _ hunused =>
    have hnone := call?_eq_none_of_unused hunused
    exact hs.frame hlocked rfl rfl rfl
      (Guarded.inside_await (fun _ => Calls.not_mem_of_lookup hnone) (by simp [Call.stand]))
      alive_setChannel
  | startAborted hcall | stopAborted hcall | stoppingAborted hcall =>
    exact hgiven rfl hcall (by simp [Call.stand])
  | @sendAborted w source item hcall | @reserveAborted w source hcall =>
    obtain ⟨sources, heq⟩ := s.leaveChannel_eq source w
    have halive {i : Nat} (h : (s.leaveChannel source w).Alive i) : s.Alive i :=
      alive_leaveChannel h
    rw [heq] at hlocked halive ⊢
    exact hs.forget hlocked hcall (by simp [Call.stand]) rfl rfl rfl rfl halive
  | dropped | advanced => exact hs.frame hlocked rfl rfl rfl (fun _ => .rfl) id
  | resumed hwent => exact hs.went hwent
  | moved hf hm => exact hs.frame hlocked rfl rfl rfl (fun _ => .rfl) (alive_moved hf hm)

end Orderly

theorem orderly_of_run (h : Run step (new o) turns s) (hpatient : Patient turns) : s.Orderly := by
  induction h with
  | nil => exact orderly_new o
  | @snoc turns s₁ s₂ a events _ hstep ih =>
    have hs₁ := ih fun t ht => hpatient t (by simp [ht])
    exact hs₁.did (hpatient ⟨s₁, a, events⟩ (by simp)) (did_of_step hstep)

theorem runStart_started {y : Source α} (hstate : s.state = .stopped)
    (hvalid : s.options.validate = .ok ()) (hy : s.sources[source]? = some y) :
    s.runStart call source =
      (((s.begin source y).unlock call).forget call, [.replied call (.started (.ok ()))]) := by
  rw [runStart, hstate]
  dsimp only
  rw [hvalid, hy]
  rfl

theorem runStart_invalid {e : ConfigError} (hstate : s.state = .stopped)
    (hvalid : s.options.validate = .error e) :
    s.runStart call source = (((s.abandon source).unlock call).forget call,
      [.replied call (.started (.error (.config e)))]) := by
  rw [runStart, hstate]
  dsimp only
  rw [hvalid]
  rfl

theorem runStart_running (hstate : s.state = .running) :
    s.runStart call source = (((s.abandon source).unlock call).forget call,
      [.replied call (.started (.error (.alreadyStarted .running)))]) := by
  rw [runStart, hstate]
  rfl

theorem runStop_taken (hstate : s.state = .running) (hrunning : s.running = some source) :
    s.runStop call = (s.takeOver call source, []) := by
  rw [runStop, if_pos hstate, hrunning]
  rfl

theorem runStop_refused (hstate : s.state ≠ .running) : s.runStop call =
    ((s.unlock call).forget call, [.replied call (.stopped (.error .notRunning))]) := by
  rw [runStop, if_neg hstate]
  rfl

theorem state_takeOver (s : System α) (call source : Nat) :
    (s.takeOver call source).state = s.state := by
  obtain ⟨sources, heq⟩ := ({ s with running := none } : System α).requestStop_eq source
  rw [takeOver, heq]
  rfl

theorem untouched_of_refused (hx : s.Finds call c x) (source : Nat) :
    s.Untouched (((x.abandon source).unlock call).forget call) := by
  obtain ⟨-, hstate, hrunning, -⟩ := hx.settled
  have hfeed (i : Nat) : (x.abandon source).feed? i = s.feed? i :=
    (x.feed?_abandon source i).trans (hx.feed? i)
  obtain ⟨sources, heq⟩ := x.abandon_eq source
  rw [heq] at hfeed ⊢
  exact ⟨hstate, hrunning, hfeed⟩

theorem served_of_start (hw : s.WellFormed) (hs : s.Orderly)
    (hx : s.Finds call (.start source) x) :
    s.Served call (.start source) (x.runStart call source).1 (x.runStart call source).2 := by
  obtain ⟨hoptions, hstate, -, hnow⟩ := hx.settled
  have hrefused := untouched_of_refused hx source
  cases hcase : s.state with
  | draining => exact absurd hcase hs.not_draining
  | running =>
    rw [runStart_running (hstate.trans hcase)]
    exact .alreadyStarted hcase (hs.valid hcase) hrefused
  | stopped =>
    cases hvalid : s.options.validate with
    | error e =>
      rw [runStart_invalid (hstate.trans hcase) (hoptions ▸ hvalid)]
      exact .invalid hcase hvalid hrefused
    | ok =>
      obtain ⟨c, hc⟩ := (hx.wellFormed hw).offered _ _ (Calls.mem_of_lookup hx.pending)
      rw [runStart_started (hstate.trans hcase) (hoptions ▸ hvalid) hc]
      have hread : (x.begin source (.offered c)).feed? source = some (.start c s.now) :=
        feed?_of_read (hnow ▸ getElem?_setSource_self _ _ hc)
      refine .started hcase hvalid rfl rfl hread fun i hi => ?_
      exact (feed?_eq (getElem?_setSource_of_ne _ _ hi)).trans (hx.feed? i)

theorem served_of_stop (hs : s.Orderly) (hx : s.Finds call .stop x) :
    s.Served call .stop (x.runStop call).1 (x.runStop call).2 := by
  obtain ⟨-, hstate, hrunning, -⟩ := hx.settled
  cases hcase : s.state with
  | draining => exact absurd hcase hs.not_draining
  | stopped =>
    rw [runStop_refused (by simp [hstate, hcase])]
    exact .notRunning hcase ⟨hstate, hrunning, hx.feed?⟩
  | running =>
    obtain ⟨source, hsome⟩ := hs.exists_running hcase fun hk => hx.not_inside hs.locked hk
    rw [runStop_taken (hstate.trans hcase) (hrunning.trans hsome)]
    refine .stopping hcase hsome ((x.state_takeOver call source).trans (hstate.trans hcase))
      (Calls.mem_await.mpr (.inr ⟨rfl, rfl⟩)) fun i => ?_
    rw [← hx.feed? i]
    exact ({ x with running := none } : System α).feed?_requestStop source i

/-- What a call does that gets the lock is told by the state that it finds. -/
theorem served_of_entered (hw : s.WellFormed) (hs : s.Orderly)
    (hentered : s.entered? a = some (call, c)) (h : s.step a = some (s', events)) :
    s.Served call c s' events := by
  obtain ⟨x, hx, hstep⟩ := exists_finds hentered
  rw [hstep] at h
  have hwaiting := hx.waiting
  cases c with
  | start source =>
    have hserved := served_of_start hw hs hx
    rwa [Option.some.inj (hx.resume?_start.symm.trans h)] at hserved
  | stop =>
    have hserved := served_of_stop hs hx
    rwa [Option.some.inj (hx.resume?_stop.symm.trans h)] at hserved
  | stopping | send | reserve => cases hwaiting

/-- The call that gets the lock starts the chunker, begins to stop it, or changes nothing. -/
theorem passes_of_entered (hs : s.Orderly) (hs' : s'.Orderly)
    (hentered : s.entered? a = some (call, c)) (h : s.Served call c s' events) :
    Stage.Passes s.stage (mark? ⟨s, a, events⟩) s'.stage := by
  obtain ⟨x, hx, -⟩ := exists_finds hentered
  have hbefore : s.stage = if s.state = .running then .running else .stopped :=
    Stage.of_not_inside fun _ _ hk => hx.not_inside hs.locked hk
  have hstopped (hstate : s'.state = .stopped) : s'.stage = .stopped := by
    simp [stage, Stage.of, hstate]
  have hrunning {i : Nat} (hstate : s'.state = .running) (hsource : s'.running = some i) :
      s'.stage = .running := by
    rw [stage, Stage.of_not_inside fun _ _ hk => hs'.not_inside hsource hk, if_pos hstate]
  unfold mark?
  simp only [hentered]
  cases h with
  | started hstate _ hstate' hsource =>
    simpa [hbefore, hstate, hrunning hstate' hsource, Event.isStart] using Stage.Passes.started
  | alreadyStarted hstate _ hsame =>
    obtain ⟨source, hsource⟩ := hs.exists_running hstate fun hk => hx.not_inside hs.locked hk
    simpa [hbefore, hstate, hrunning (hsame.state.trans hstate) (hsame.running.trans hsource),
      Event.isStart] using Stage.Passes.stays .running
  | invalid hstate _ hsame =>
    simpa [hbefore, hstate, hstopped (hsame.state.trans hstate), Event.isStart] using
      Stage.Passes.stays .stopped
  | stopping hstate _ hstate' hmem =>
    have hstage : s'.stage = .stopping := by
      rw [stage, hstate']
      exact Stage.of_stopping hmem rfl
    simpa [hbefore, hstate, hstage] using Stage.Passes.taken
  | notRunning hstate hsame =>
    simpa [hbefore, hstate, hstopped (hsame.state.trans hstate)] using
      Stage.Passes.stays .stopped

/-- Without the lock nobody but a call that stops the worker gets any further. -/
theorem passes_of_went (hs : s.Orderly) (h : s.Went call s' events)
    (hentered : s.entered? (.resume call) = none) : Stage.Passes s.stage none s'.stage := by
  have hnot {c : Call α} (hcall : s.call? call = some c) (hc : c.stand = .waiting) : False := by
    simp [entered_of_resumed h hcall hc] at hentered
  have hover {c : Call α} (hcall : s.call? call = some c) (hc : c.stand = .outside)
      (hcalls : s'.calls = s.calls.filter (·.1 != call)) (hstate : s'.state = s.state) :
      Stage.Passes s.stage none s'.stage := by
    rw [stage, stage, hstate, hcalls]
    exact Stage.passes_of_congr fun _ _ =>
      hs.locked.inside_without (Calls.mem_of_lookup hcall) (by simp [hc])
  cases h with
  | started hcall | startLost hcall | startRefused _ hcall | stopTaken hcall
  | stopRefused _ hcall => exact (hnot hcall rfl).elim
  | stopped hcall =>
    have hmem := Calls.mem_of_lookup hcall
    have hstage : s.stage = .stopping := by
      rw [stage, (hs.stopping hmem).1]
      exact Stage.of_stopping hmem rfl
    rw [hstage]
    exact .ended
  | sent hcall | refused hcall | reserved hcall | notReserved hcall =>
    exact hover hcall rfl rfl rfl

theorem passes_of_did (hs : s.Orderly) (hendures : s.Endures a) (h : s.Did a s' events)
    (hentered : s.entered? a = none) : Stage.Passes s.stage none s'.stage := by
  have hsame (hstate : s'.state = s.state) (hcalls : ∀ w k, k.stand = .inside →
      ((w, k) ∈ s'.calls ↔ (w, k) ∈ s.calls)) : Stage.Passes s.stage none s'.stage := by
    rw [stage, stage, hstate]
    exact Stage.passes_of_congr hcalls
  have hgiven {call : Nat} {c : Call α} (ha : a = .abort call) (hcall : s.call? call = some c)
      (hc : c.stand ≠ .outside) : Stage.Passes s.stage none s'.stage :=
    absurd (hendures call c ha hcall) hc
  cases h with
  | @asked _ w c s₁ ha _ hunused =>
    have hnone := call?_eq_none_of_unused hunused
    have hcalls : ∀ v k, k.stand = .inside →
        ((v, k) ∈ (s₁.ask w c).calls ↔ (v, k) ∈ s.calls) := fun v k hk => by
      rw [← ha.calls]
      exact Guarded.inside_await
        (fun _ hmem => Calls.not_mem_of_lookup hnone (ha.calls ▸ hmem)) (by simp [ha.stand]) hk
    cases ha <;> exact hsame rfl hcalls
  | atOnce ha howned hunused hwent =>
    simp [entered_of_atOnce hs.locked ha howned hunused hwent] at hentered
  | sendWaits hunused | reserveWaits hunused =>
    have hnone := call?_eq_none_of_unused hunused
    exact hsame rfl fun _ _ =>
      Guarded.inside_await (fun _ => Calls.not_mem_of_lookup hnone) (by simp [Call.stand])
  | startAborted hcall | stopAborted hcall | stoppingAborted hcall =>
    exact hgiven rfl hcall (by simp [Call.stand])
  | @sendAborted w source item hcall | @reserveAborted w source hcall =>
    obtain ⟨sources, heq⟩ := s.leaveChannel_eq source w
    rw [heq] at hsame ⊢
    exact hsame rfl fun _ _ =>
      hs.locked.inside_without (Calls.mem_of_lookup hcall) (by simp [Call.stand])
  | resumed hwent => exact passes_of_went hs hwent hentered
  | _ => exact hsame rfl fun _ _ _ => .rfl

theorem passes_of_step (hw : s.WellFormed) (hs : s.Orderly) (hendures : s.Endures a)
    (h : s.step a = some (s', events)) :
    Stage.Passes s.stage (mark? ⟨s, a, events⟩) s'.stage := by
  have hdid := did_of_step h
  cases hentered : s.entered? a with
  | none =>
    have hmark : mark? ⟨s, a, events⟩ = none := by simp [mark?, hentered]
    rw [hmark]
    exact passes_of_did hs hendures hdid hentered
  | some e =>
    exact passes_of_entered hs (hs.did hendures hdid) hentered
      (served_of_entered hw hs hentered h)

theorem alternates_of_run (h : Run step (new o) turns s) (hpatient : Patient turns) :
    Alternates (marks turns) := by
  refine (Stage.alternates_of_run stage h rfl ?_).1
  rintro before t after s₁ rfl hrun hstep
  have hbefore : Patient before := fun u hu => hpatient u (by simp [hu])
  exact passes_of_step (wellFormed_of_run hrun) (orderly_of_run hrun hbefore)
    (hpatient t (by simp)) hstep

/-- A call that stops a worker returns with its end. -/
theorem ends_of_went (hs : s.Locked) (h : s.Went call s' events)
    (hmem : (call, .stopping source) ∈ s.calls) :
    ∃ f outcome, s.feed? source = some f ∧ f.worker.outcome? = some outcome ∧
      s'.state = .stopped ∧ events = [.replied call (.stopped (stopResult outcome))] := by
  have hlookup := Calls.lookup_of_mem hs.keys hmem
  cases h with
  | stopped hcall hf houtcome =>
    obtain rfl := Call.stopping.inj (hs.eq_of_mem (Calls.mem_of_lookup hcall) hmem)
    exact ⟨_, _, hf, houtcome, rfl, rfl⟩
  | started hcall | startLost hcall | startRefused _ hcall | stopTaken hcall
  | stopRefused _ hcall | sent hcall | refused hcall | reserved hcall | notReserved hcall =>
    rw [call?, hlookup] at hcall
    cases hcall

theorem stops_of_went (hs : s.Locked) (h : s.Went call s' events)
    (hmem : (call, .stopping source) ∈ s.calls) :
    ∃ outcome, s'.state = .stopped ∧ events = [.replied call (.stopped (stopResult outcome))] := by
  obtain ⟨_, outcome, -, -, hended⟩ := ends_of_went hs h hmem
  exact ⟨outcome, hended⟩

theorem stops_of_step (hs : s.Locked) (h : s.step a = some (s', events))
    (hmem : (call, .stopping source) ∈ s.calls) (ha : a ≠ .abort call) :
    (call, .stopping source) ∈ s'.calls ∧ (∀ r, .replied call r ∉ events) ∨
      ∃ outcome, s'.state = .stopped ∧
        events = [.replied call (.stopped (stopResult outcome))] := by
  by_cases hresume : a = .resume call
  · subst hresume
    exact .inr (stops_of_went hs (went_of_resume h) hmem)
  · exact .inl (untouched_of_did (did_of_step h) hmem hresume ha)

theorem stops_of_run (hbefore : Run step (new o) before s) (h : Run step s mid s')
    (hpatient : Patient mid) (hmem : (call, .stopping source) ∈ s.calls)
    (hmid : ∀ t ∈ mid, ∀ r, .replied call r ∉ t.events) :
    (call, .stopping source) ∈ s'.calls := by
  induction h with
  | nil => exact hmem
  | @snoc mid s₁ s₂ a events hrun hstep ih =>
    have hmem₁ := ih (fun t ht => hpatient t (by simp [ht])) fun t ht => hmid t (by simp [ht])
    have hlocked := locked_of_run (hbefore.append hrun)
    have habort : a ≠ .abort call := fun ha => by
      have := hpatient ⟨s₁, a, events⟩ (by simp) call _ ha
        (Calls.lookup_of_mem hlocked.keys hmem₁)
      cases this
    rcases stops_of_step hlocked hstep hmem₁ habort with h | ⟨outcome, -, rfl⟩
    · exact h.1
    · exact absurd (List.mem_singleton_self _) (hmid _ (List.mem_append_right _
        (List.mem_singleton_self _)) _)

/-- When the call to stop returns that found the chunker running, the worker has ended. -/
theorem stopped_of_entered {t₀ t : Turn (System α) (Action α) (Event α)} {reply : Reply α}
    (h : Run step (new o) (before ++ t₀ :: (mid ++ [t])) s)
    (hpatient : Patient (before ++ t₀ :: (mid ++ [t])))
    (hentered : t₀.before.entered? t₀.action = some (call, .stop))
    (hstate : t₀.before.state = .running) (hmid : ∀ u ∈ mid, ∀ r, .replied call r ∉ u.events)
    (hreply : .replied call reply ∈ t.events) :
    (∃ outcome, reply = .stopped (stopResult outcome)) ∧ s.state = .stopped ∧
      ∀ i, ¬ s.Alive i := by
  have horderly := orderly_of_run h hpatient
  rw [List.append_cons] at h
  obtain ⟨s₀, hupto, hrest⟩ := h.cut
  obtain ⟨hbefore, hfirst⟩ := hupto.snoc_inv
  obtain ⟨hbetween, hlast⟩ := hrest.snoc_inv
  have hserved := served_of_entered (wellFormed_of_run hbefore)
    (orderly_of_run hbefore fun u hu => hpatient u (by simp [hu])) hentered hfirst
  have hlocked := locked_of_run (hupto.append hbetween)
  generalize t₀.events = events₀ at hserved
  cases hserved with
  | notRunning hstopped => simp [hstate] at hstopped
  | @stopping source s₀ _ _ _ hmem =>
    have hmem' := stops_of_run hupto hbetween (fun u hu => hpatient u (by simp [hu])) hmem hmid
    have habort : t.action ≠ .abort call := fun ha => by
      have := hpatient t (by simp) call _ ha (Calls.lookup_of_mem hlocked.keys hmem')
      cases this
    rcases stops_of_step hlocked hlast hmem' habort with ⟨-, hnone⟩ | ⟨outcome, hstopped, hevents⟩
    · exact absurd hreply (hnone reply)
    · rw [hevents, List.mem_singleton, Event.replied.injEq] at hreply
      exact ⟨⟨outcome, hreply.2⟩, hstopped, fun i => horderly.not_alive hstopped⟩

end System

end Batchflow.Chunker
