import Batchflow.Proofs.Enqueuer.History

/-!
# What becomes of a message

Each call to enqueue a message waits, or is over: the intake of a run took the message, the message
was refused, or the call was given up.  A message is in a batch only if it was taken, and when a run
was stopped all that it took is in its batches.
-/

namespace Batchflow.Enqueuer

def Call.message? : Call → Option Message
  | .enqueue _ m => some m
  | _ => none

/-- How a call to enqueue ends. -/
inductive Fate where
  /-- The intake of a run took the message. -/
  | accepted (run : Nat)
  | refused (e : Error)
  /-- The call was given up. -/
  | dropped
  deriving DecidableEq

/-- What the caller is told. -/
def Fate.answer? : Fate → Option (Except Error Unit)
  | .accepted _ => some (.ok ())
  | .refused e => some (.error e)
  | .dropped => none

/-- What a caller is told that enqueues. -/
def Event.answer? : Event → Option (Except Error Unit)
  | .replied _ (.enqueued r) => some r
  | _ => none

/-- The end of a call to enqueue, by what is seen of it. -/
def Fate.ofEvents : List Event → Option Fate
  | [.took run _, .replied _ (.enqueued (.ok ()))] => some (.accepted run)
  | [.replied _ (.enqueued (.error e))] => some (.refused e)
  | _ => none

def System.subject? (s : System) : Action → Option Message
  | .enqueue _ m => some m
  | .resume caller => (s.call? caller).bind Call.message?
  | .abort caller => (s.call? caller).bind Call.message?
  | _ => none

def System.fate? (s : System) (a : Action) (events : List Event) : Option (Message × Fate) :=
  match a with
  | .abort _ => (s.subject? a).map (·, .dropped)
  | _ => (s.subject? a).bind fun m => (Fate.ofEvents events).map (m, ·)

def Action.made? : Action → Option Message
  | .enqueue _ m => some m
  | _ => none

/-- The message of a call that ended with the intake of a run. -/
def acceptedIn? (run : Nat) : Message × Fate → Option Message
  | (m, .accepted i) => if i = run then some m else none
  | _ => none

/-- The messages of all calls to enqueue, in the order in which these were made. -/
def made (turns : History) : List Message := turns.filterMap (·.action.made?)

/-- The calls to enqueue that are over, in the order in which they ended. -/
def fates (turns : History) : List (Message × Fate) :=
  turns.filterMap fun t => t.before.fate? t.action t.events

/-- All that callers were told who enqueue. -/
def answers (turns : History) : List (Except Error Unit) :=
  turns.flatMap fun t => t.events.filterMap Event.answer?

namespace System

/-- The messages of the calls that wait. -/
def waiting (s : System) : List Message := s.calls.filterMap (·.2.message?)

variable {o : Options} {s s' : System} {a : Action} {out : Outcome} {events : List Event}
  {caller : Caller} {turns : History} {run : Nat} {c : Call} {fate : Option (Message × Fate)}

theorem waiting_without (hs : s.WellFormed) (h : s.call? caller = some c) :
    s.waiting.Perm (c.message?.toList ++ (s.without caller).waiting) := by
  have hperm := (Calls.perm_without hs.guarded.keys (Calls.mem_of_lookup h)).filterMap
    (·.2.message?)
  rw [List.filterMap_cons] at hperm
  cases hm : c.message? <;> simp only [hm] at hperm <;> exact hperm

theorem waiting_without_of_none (h : s.call? caller = none) :
    (s.without caller).waiting = s.waiting := by
  rw [waiting, without, Calls.without_eq_self h]
  rfl

theorem waiting_await (s : System) (caller : Caller) (c : Call) :
    (s.await caller c).waiting.Perm (c.message?.toList ++ (s.without caller).waiting) := by
  have hperm := (List.perm_append_singleton (caller, c)
    (s.calls.filter (·.1 != caller))).filterMap (·.2.message?)
  rw [List.filterMap_cons] at hperm
  cases hm : c.message? <;> simp only [hm] at hperm <;> exact hperm

theorem waiting_eq (h : s'.calls = s.calls) : s'.waiting = s.waiting := by
  rw [waiting, h]
  rfl

theorem waiting_without_eq (h : s'.calls = s.calls) (caller : Caller) :
    (s'.without caller).waiting = (s.without caller).waiting := by
  rw [waiting, without, h]
  rfl

theorem waiting_ask (hcall : s.call? caller = none) (hc : c.message? = none) :
    s.waiting.Perm (s.ask caller c).waiting := by
  have hperm := waiting_await { s with lock := s.lock.request caller } caller c
  rw [hc] at hperm
  rw [← waiting_without_of_none hcall]
  exact hperm.symm

/-- A call may be made and may end, and the others wait on. -/
structure Fares (s s' : System) (fresh : Option Message) (events : List Event)
    (fate : Option (Message × Fate)) : Prop where
  perm : (fresh.toList ++ s.waiting).Perm ((fate.map Prod.fst).toList ++ s'.waiting)
  took : ∀ run, events.filterMap (Event.took? run) = (fate.bind (acceptedIn? run)).toList
  answer : events.filterMap Event.answer? = (fate.bind (·.2.answer?)).toList
  back : ∀ m m', fate = some (m, .refused (.rejected m')) → m' = m

theorem Fares.none (h : s.waiting.Perm s'.waiting)
    (htook : ∀ run, events.filterMap (Event.took? run) = [])
    (hanswer : events.filterMap Event.answer? = []) : Fares s s' none events none :=
  ⟨h, htook, hanswer, by simp⟩

theorem fares_of_other (hs : s.WellFormed) (hcall : s.call? caller = some c)
    (hc : c.message? = none) (hfate : s.fate? a events = none)
    (hwaiting : (s.without caller).waiting.Perm s'.waiting)
    (htook : ∀ run, events.filterMap (Event.took? run) = [])
    (hanswer : events.filterMap Event.answer? = []) :
    Fares s s' none events (s.fate? a events) := by
  have hperm := waiting_without hs hcall
  rw [hc] at hperm
  rw [hfate]
  exact .none (hperm.trans hwaiting) htook hanswer

theorem fate_of_other (hcall : s.call? caller = some c) (hc : c.message? = none) :
    s.fate? (.resume caller) events = none ∧ s.fate? (.abort caller) events = none := by
  simp [fate?, subject?, hcall, hc]

theorem fares_of_went (hs : s.WellFormed) (h : s.Went caller s' events) :
    Fares s s' none events (s.fate? (.resume caller) events) := by
  cases h with
  | @started sink hcall =>
    exact fares_of_other hs hcall rfl (fate_of_other hcall rfl).1
      (.of_eq (waiting_without_eq s.calls_dropIntake caller).symm) (fun _ => rfl) rfl
  | startRefused _ hcall | stopRefused _ hcall =>
    exact fares_of_other hs hcall rfl (fate_of_other hcall rfl).1 (.refl _) (fun _ => rfl) rfl
  | stopTaken hcall =>
    exact fares_of_other hs hcall rfl (fate_of_other hcall rfl).1
      (waiting_await _ caller (.stopping _)).symm (fun _ => rfl) rfl
  | @workerEnded run _ worker hcall =>
    have hperm := waiting_await (s.dropIntake.modifyPipeline run Pipeline.dropFailures) caller
      (.draining run worker)
    refine fares_of_other hs hcall rfl (fate_of_other hcall rfl).1 ?_ (fun _ => rfl) rfl
    rw [← waiting_without_eq s.calls_dropIntake caller]
    exact hperm.symm
  | @stopped run worker _ reporter hcall =>
    refine fares_of_other hs hcall rfl (fate_of_other hcall rfl).1 (.refl _) ?_ ?_
    · intro i
      exact (silent_stopEvents caller _ i).1
    · cases hresult : stopResult worker reporter <;> rfl
  | @enqueued run m p hcall =>
    have hfate : s.fate? (.resume caller) [.took run m, .replied caller (.enqueued (.ok ()))] =
        some (m, .accepted run) := by
      simp [fate?, subject?, hcall, Call.message?, Fate.ofEvents]
    rw [hfate]
    refine ⟨waiting_without hs hcall, ?_, rfl, by simp⟩
    intro i
    by_cases hi : run = i <;> simp [Event.took?, acceptedIn?, hi]
  | @rejected run m p hcall =>
    have hfate : s.fate? (.resume caller) [.replied caller (.enqueued (.error (.rejected m)))] =
        some (m, .refused (.rejected m)) := by
      simp [fate?, subject?, hcall, Call.message?, Fate.ofEvents]
    rw [hfate]
    exact ⟨waiting_without hs hcall, fun _ => rfl, rfl, by simp⟩

theorem fares_of_did (hs : s.WellFormed) (h : s.Did a s' events) :
    Fares s s' a.made? events (s.fate? a events) := by
  cases h with
  | @asked _ caller c ha hcall =>
    have hnone := call?_eq_none_of_mayCall hcall
    cases ha <;> exact .none (waiting_ask hnone rfl) (fun _ => rfl) rfl
  | @atOnce _ caller c _ _ ha hcall hwent =>
    have hnone := call?_eq_none_of_mayCall hcall
    have hfares := fares_of_went (hs.ask hcall ha.stand) hwent
    have hcall' : (s.ask caller c).call? caller = some c := Calls.lookup_await hnone
    have hc : c.message? = none := by cases ha <;> rfl
    rw [(fate_of_other hcall' hc).1] at hfares
    have hperm := (waiting_ask hnone hc).trans hfares.perm
    cases ha <;> exact .none hperm hfares.took hfares.answer
  | @enqueued caller m run =>
    have hfate : s.fate? (.enqueue caller m)
        [.took run m, .replied caller (.enqueued (.ok ()))] = some (m, .accepted run) := rfl
    rw [hfate]
    refine ⟨.refl _, ?_, rfl, by simp⟩
    intro i
    by_cases hi : run = i <;> simp [Event.took?, acceptedIn?, hi]
  | @enqueueWaits caller m run p c hcall =>
    have hnone : s.call? caller = none := call?_eq_none_of_mayCall hcall
    have hperm := waiting_await (s.setChannel run c) caller (.enqueue run m)
    rw [waiting_without_of_none (s := s.setChannel run c) hnone] at hperm
    exact ⟨hperm.symm, fun _ => rfl, rfl, by simp [fate?, subject?, Fate.ofEvents]⟩
  | rejected | notRunning =>
    exact ⟨.refl _, fun _ => rfl, rfl, by simp [fate?, subject?, Fate.ofEvents]⟩
  | @lockAborted caller c hcall hc =>
    have hm : c.message? = none := by cases c <;> first | rfl | cases hc
    exact fares_of_other hs hcall hm (fate_of_other hcall hm).2 (.refl _) (fun _ => rfl) rfl
  | stoppingAborted hcall | drainingAborted hcall =>
    exact fares_of_other hs hcall rfl (fate_of_other hcall rfl).2 (.refl _) (fun _ => rfl) rfl
  | @enqueueAborted caller run m hcall =>
    have hfate : s.fate? (.abort caller) [] = some (m, .dropped) := by
      simp [fate?, subject?, hcall, Call.message?]
    have hcalls : (s.leaveIntake run caller).calls = s.calls := by
      unfold leaveIntake
      split <;> rfl
    rw [hfate]
    refine ⟨?_, fun _ => rfl, rfl, by simp⟩
    rw [waiting_without_eq hcalls]
    exact waiting_without hs hcall
  | handleAdded | handleDropped | advanced => exact .none (.refl _) (fun _ => rfl) rfl
  | resumed hwent => exact fares_of_went hs hwent
  | @moved run m p p' notes hp _ hm =>
    refine .none (.refl _) (fun i => ?_) ?_
    · simp only [List.filterMap_map, List.filterMap_eq_nil_iff]
      intro n _
      cases n <;> rfl
    · simp only [List.filterMap_map, List.filterMap_eq_nil_iff]
      intro n _
      cases n <;> rfl

theorem calls_dropSlot (s : System) : s.dropSlot.calls = s.calls := by
  unfold dropSlot
  split <;> rfl

theorem calls_release (s : System) : s.release.calls = s.calls := by
  unfold release
  split
  · rfl
  · rw [calls_dropSlot, calls_dropIntake]

theorem fares_of_step (hs : s.WellFormed) (h : s.step a = some out) :
    Fares s out.1 a.made? out.2 (s.fate? a out.2) := by
  obtain ⟨x, hdid, hout | hout⟩ := does_of_step h
  · exact hout ▸ fares_of_did hs hdid
  · obtain ⟨hperm, htook, hanswer, hback⟩ := fares_of_did hs hdid
    refine ⟨?_, htook, hanswer, hback⟩
    rw [hout, waiting_eq (calls_release x)]
    exact hperm

theorem filterMap_concat {β γ : Type} (f : β → Option γ) (xs : List β) (x : β) :
    (xs ++ [x]).filterMap f = xs.filterMap f ++ (f x).toList := by
  rw [List.filterMap_append]
  cases hx : f x <;> simp [hx]

/-- Each call to enqueue waits or is over. -/
theorem made_perm (h : Run step (new o) turns s) :
    (made turns).Perm ((fates turns).map Prod.fst ++ s.waiting) := by
  induction h with
  | nil => exact .refl _
  | @snoc turns s₁ s₂ a events hrun hstep ih =>
    have hfares := fares_of_step (wellFormed_of_run hrun) hstep
    rw [made, fates, filterMap_concat, filterMap_concat, List.map_append, List.append_assoc]
    have hnew : (made turns ++ a.made?.toList).Perm
        ((fates turns).map Prod.fst ++ (a.made?.toList ++ s₁.waiting)) := by
      refine (ih.append_right _).trans ?_
      rw [List.append_assoc]
      exact List.perm_append_comm.append_left _
    refine hnew.trans (List.Perm.append_left _ ?_)
    cases hfate : s₁.fate? a events <;> simpa [hfate] using hfares.perm

theorem fares_of_turn (h : Run step (new o) turns s) {t : Turn System Action Event}
    (ht : t ∈ turns) : ∃ s', Fares t.before s' t.action.made? t.events
      (t.before.fate? t.action t.events) := by
  obtain ⟨before, after, s', -, hbefore, hstep, -⟩ := h.split ht
  exact ⟨s', fares_of_step (wellFormed_of_run hbefore) hstep⟩

theorem taken_eq (h : Run step (new o) turns s) (run : Nat) :
    taken run turns = (fates turns).filterMap (acceptedIn? run) := by
  rw [fates, List.filterMap_filterMap, taken, List.filterMap_eq_flatMap_toList]
  refine List.flatMap_congr fun t ht => ?_
  obtain ⟨s', hfares⟩ := fares_of_turn h ht
  exact hfares.took run

theorem answers_eq (h : Run step (new o) turns s) :
    answers turns = (fates turns).filterMap (·.2.answer?) := by
  rw [fates, List.filterMap_filterMap, answers, List.filterMap_eq_flatMap_toList]
  refine List.flatMap_congr fun t ht => ?_
  obtain ⟨s', hfares⟩ := fares_of_turn h ht
  exact hfares.answer

theorem eq_of_rejected (h : Run step (new o) turns s) {m m' : Message}
    (hm : (m, .refused (.rejected m')) ∈ fates turns) : m' = m := by
  obtain ⟨t, ht, hfate⟩ := List.mem_filterMap.mp hm
  obtain ⟨s', hfares⟩ := fares_of_turn h ht
  exact hfares.back m m' hfate

/-- A message that was enqueued by one call only has one fate. -/
theorem fate_unique (h : Run step (new o) turns s) {m : Message} {f f' : Fate}
    (hm : (made turns).count m = 1) (hf : (m, f) ∈ fates turns) (hf' : (m, f') ∈ fates turns) :
    f = f' := by
  have hcount : ((fates turns).map Prod.fst).count m ≤ 1 := by
    rw [← hm, (made_perm h).count_eq, List.count_append]
    exact Nat.le_add_right _ _
  by_contra hne
  obtain ⟨l₁, l₂, heq⟩ := List.append_of_mem hf
  have hrest : (m, f') ∈ l₁ ++ l₂ := by
    have hperm : (fates turns).Perm ((m, f) :: (l₁ ++ l₂)) := heq ▸ List.perm_middle
    rcases List.mem_cons.mp (hperm.mem_iff.mp hf') with h | h
    · exact absurd (Prod.mk.inj h).2.symm hne
    · exact h
  have hpos : 0 < ((l₁ ++ l₂).map Prod.fst).count m :=
    List.count_pos_iff.mpr (List.mem_map.mpr ⟨_, hrest, rfl⟩)
  rw [heq, (List.perm_middle.map Prod.fst).count_eq, List.map_cons, List.count_cons_self] at hcount
  omega

end System

end Batchflow.Enqueuer
