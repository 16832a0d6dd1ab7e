import Batchflow.Proofs.Pool.Execution
import Mathlib.Data.List.Infix

/-!
# Who is on the list

A worker puts itself on the list whenever it begins to wait for work, and a caller that is handed a
worker takes one entry off.  Nothing ties the two to each other: work may be sent to a worker that
nobody was handed, and then the worker is on the list while it works, and once more when it is done.
So the entries of a worker and the times it was handed out make up the units it has begun, and the
one it waits for.  As long as it was handed out for every unit that it begins, it is on the list
once while it waits for a caller, and otherwise not at all.
-/

namespace Batchflow.Pool

variable {ω : Type}

def Event.registered? : Event ω → Option Nat
  | .registered worker => some worker
  | _ => none

def Event.handed? : Event ω → Option Nat
  | .replied _ (.acquired worker) => worker
  | _ => none

theorem Job.unlisted_of_taken (job : Job ω) (call worker : Nat) :
    ∀ e ∈ [Event.took worker job, .replied call job.takenReply],
      e.registered? = none ∧ e.handed? = none := by
  cases job <;> simp [Event.registered?, Event.handed?, takenReply]

theorem Job.unlisted_of_refused (job : Job ω) (call : Nat) :
    ∀ e ∈ [Event.replied call job.refusedReply], e.registered? = none ∧ e.handed? = none := by
  cases job <;> simp [Event.registered?, Event.handed?, refusedReply]

/-- How often a worker in this phase has said that it is available since it last began to work. -/
def Phase.entries : Phase ω → Nat
  | .waiting => 1
  | _ => 0

theorem Phase.entries_le (phase : Phase ω) : phase.entries ≤ 1 := by
  cases phase <;> simp [entries]

namespace System

variable {s s' s₁ : System ω} {a : Action ω} {events : List (Event ω)} {out : Outcome ω}
  {call worker i : Nat} {w : Worker ω} {turns more : History ω} {name : String}

/-- What an action may do to the list, as long as somebody can take from it, with what is seen of
it. -/
inductive Listed (s : System ω) (a : Action ω) (available : List Nat) : List (Event ω) → Prop
  | same {events : List (Event ω)} : (∀ i, a.move? i ≠ some .register) →
      available = s.available → (∀ e ∈ events, e.registered? = none ∧ e.handed? = none) →
      Listed s a available events
  | registered {worker : Nat} {w : Worker ω} : a = .move worker .register →
      s.worker? worker = some w → available = s.available ++ [worker] →
      Listed s a available [.registered worker]
  | passedOver {worker : Nat} : (∀ i, a.move? i ≠ some .register) →
      s.available = worker :: available → s.hasExited worker = true → Listed s a available []
  | handedOut {call worker : Nat} : (∀ i, a.move? i ≠ some .register) →
      s.available = worker :: available → s.hasExited worker = false →
      Listed s a available [.replied call (.acquired (some worker))]

theorem list_releasePool (h : s.releasePool.listening = true) :
    s.listening = true ∧ s.releasePool.available = s.available := by
  unfold releasePool at h ⊢
  split at h
  · rename_i hkept
    rw [if_pos hkept]
    exact ⟨h, rfl⟩
  · cases h

theorem list_forget (h : (s.forget call).listening = true) :
    s.listening = true ∧ (s.forget call).available = s.available :=
  list_releasePool h

theorem list_releaseWaiting (s : System ω) :
    s.releaseWaiting.listening = s.listening ∧ s.releaseWaiting.available = s.available := by
  unfold releaseWaiting
  split <;> exact ⟨rfl, rfl⟩

theorem list_endWorker (s : System ω) (worker : Nat) (w : Worker ω) :
    (s.endWorker worker w).1.listening = s.listening ∧
      (s.endWorker worker w).1.available = s.available :=
  list_releaseWaiting _

theorem list_leaveInbox (s : System ω) (worker call : Nat) :
    (s.leaveInbox worker call).listening = s.listening ∧
      (s.leaveInbox worker call).available = s.available := by
  unfold leaveInbox
  split <;> exact ⟨rfl, rfl⟩

theorem listed_of_took (ha : ∀ i, a.move? i ≠ some .register) (h : s.Took call out)
    (hl : out.1.listening = true) : s.listening = true ∧ s.Listed a out.1.available out.2 := by
  cases h with
  | skipped havailable hexited => exact ⟨hl, .passedOver ha havailable hexited⟩
  | @acquired worker available havailable hexited =>
    obtain ⟨hlistening, hlist⟩ := list_forget hl
    have hlisted : s.Listed a available [.replied call (.acquired (some worker))] :=
      .handedOut ha havailable hexited
    exact ⟨hlistening, hlist.symm ▸ hlisted⟩
  | nobody =>
    obtain ⟨hlistening, hlist⟩ := list_forget hl
    exact ⟨hlistening, .same ha hlist (by simp [reply, Event.registered?, Event.handed?])⟩

theorem listed_of_went (h : s.Went call out) (hl : out.1.listening = true) :
    s.listening = true ∧ s.Listed (.resume call) out.1.available out.2 := by
  have ha (i : Nat) : (.resume call : Action ω).move? i ≠ some .register := nofun
  cases h with
  | took _ _ htook => exact listed_of_took ha htook hl
  | sent job =>
    obtain ⟨hlistening, hlist⟩ := list_forget hl
    exact ⟨hlistening, .same ha hlist (job.unlisted_of_taken call _)⟩
  | sentAway job =>
    obtain ⟨hlistening, hlist⟩ := list_forget hl
    exact ⟨hlistening, .same ha hlist (job.unlisted_of_refused call)⟩
  | waited =>
    obtain ⟨hlistening, hlist⟩ := list_forget hl
    exact ⟨hlistening, .same ha hlist (by simp [reply, Event.registered?, Event.handed?])⟩

theorem listed_of_moved {m : Move} (hw : s.worker? worker = some w)
    (h : s.Moved worker w m out) (hl : out.1.listening = true) :
    s.listening = true ∧ s.Listed (.move worker m) out.1.available out.2 := by
  have hother (hm : m ≠ .register) (i : Nat) :
      (.move worker m : Action ω).move? i ≠ some .register := by
    by_cases hi : worker = i <;> simp [Action.move?, hi, hm]
  have hended (hm : m ≠ .register) (v : Worker ω)
      (hl : (s.endWorker worker v).1.listening = true) : s.listening = true ∧
        s.Listed (.move worker m) (s.endWorker worker v).1.available [.ended worker] := by
    obtain ⟨hlistening, hlist⟩ := list_endWorker s worker v
    exact ⟨hlistening ▸ hl, .same (hother hm) hlist
      (by simp [Event.registered?, Event.handed?])⟩
  cases h with
  | registered _ hlistening => exact ⟨hlistening, .registered rfl hw rfl⟩
  | unheard _ hdeaf =>
    rw [(list_endWorker s worker w).1, hdeaf] at hl
    cases hl
  | began => exact ⟨hl, .same (hother (by simp)) rfl (by simp [Event.registered?, Event.handed?])⟩
  | stopped => exact hended (by simp) _ hl
  | deserted => exact hended (by simp) _ hl
  | kept => exact ⟨hl, .same (hother (by simp)) rfl (by simp)⟩
  | gone => exact hended (by simp) _ hl
  | panicked p =>
    obtain ⟨hlistening, hlist⟩ :=
      list_releaseWaiting (s.setWorker worker (w.finish (.panicked p)))
    exact ⟨hlistening ▸ hl, .same (hother (by simp)) hlist
      (by simp [Event.registered?, Event.handed?])⟩

theorem listed_of_did (h : s.Did a out) (hl : out.1.listening = true) :
    s.listening = true ∧ s.Listed a out.1.available out.2 := by
  have hjob (job : Job ω) (call worker i : Nat) :
      (job.action call worker).move? i ≠ some .register := by
    rw [job.move?_action]
    nofun
  cases h with
  | added => exact ⟨hl, .same nofun rfl (by simp)⟩
  | asked => exact ⟨hl, .same nofun rfl (by simp)⟩
  | @atOnce call _ _ _ _ htook =>
    have hlisted := listed_of_took (a := .acquire call) nofun htook hl
    refine ⟨hlisted.1, ?_⟩
    generalize out.2 = events at hlisted
    cases hlisted.2 with
    | same ha hlist hevents => exact .same ha hlist hevents
    | registered haction => cases haction
    | passedOver ha hlist hexited => exact .passedOver ha hlist hexited
    | handedOut ha hlist hexited => exact .handedOut ha hlist hexited
  | late job => exact ⟨hl, .same (hjob job _ _) rfl (job.unlisted_of_refused _)⟩
  | sent job => exact ⟨hl, .same (hjob job _ _) rfl (job.unlisted_of_taken _ _)⟩
  | sendWaits job => exact ⟨hl, .same (hjob job _ _) rfl (by simp)⟩
  | sentAway job => exact ⟨hl, .same (hjob job _ _) rfl (job.unlisted_of_refused _)⟩
  | waited => exact ⟨hl, .same nofun rfl (by simp [Event.registered?, Event.handed?])⟩
  | waits => exact ⟨hl, .same nofun rfl (by simp)⟩
  | dropped =>
    obtain ⟨hlistening, hlist⟩ := list_releasePool hl
    exact ⟨hlistening, .same nofun hlist (by simp)⟩
  | acquireAborted =>
    obtain ⟨hlistening, hlist⟩ := list_forget hl
    exact ⟨hlistening, .same nofun hlist (by simp)⟩
  | @sendAborted call worker =>
    obtain ⟨hlistening, hlist⟩ := list_forget hl
    obtain ⟨hleft, hkept⟩ := list_leaveInbox s worker call
    exact ⟨hleft ▸ hlistening, .same nofun (hlist.trans hkept) (by simp)⟩
  | waitAborted =>
    obtain ⟨hlistening, hlist⟩ := list_forget hl
    exact ⟨hlistening, .same nofun hlist (by simp)⟩
  | resumed hwent => exact listed_of_went hwent hl
  | moved hw hmoved => exact listed_of_moved hw hmoved hl

theorem listed_of_step (h : s.step a = some (s', events)) (hl : s'.listening = true) :
    s.listening = true ∧ s.Listed a s'.available events :=
  listed_of_did (did_of_step h) hl

theorem listening_of_run (h : Run System.step s more s') (hl : s'.listening = true) :
    s.listening = true := by
  induction h with
  | nil => exact hl
  | snoc _ hstep ih => exact ih (listed_of_step hstep hl).1

/-- The workers that have said that they are available, in order. -/
def registered (turns : History ω) : List Nat :=
  turns.flatMap fun t => t.events.filterMap Event.registered?

/-- The workers that callers were handed, in order. -/
def handedOut (turns : History ω) : List Nat :=
  turns.flatMap fun t => t.events.filterMap Event.handed?

theorem registered_append (turns more : History ω) :
    registered (turns ++ more) = registered turns ++ registered more :=
  List.flatMap_append

theorem handedOut_append (turns more : History ω) :
    handedOut (turns ++ more) = handedOut turns ++ handedOut more :=
  List.flatMap_append

theorem begun_append (i : Nat) (turns more : History ω) :
    begun i (turns ++ more) = begun i turns ++ begun i more := by
  simp [begun, System.seen]

theorem registered_singleton (s : System ω) (a : Action ω) (events : List (Event ω)) :
    registered [⟨s, a, events⟩] = events.filterMap Event.registered? := by
  simp [registered]

theorem handedOut_singleton (s : System ω) (a : Action ω) (events : List (Event ω)) :
    handedOut [⟨s, a, events⟩] = events.filterMap Event.handed? := by
  simp [handedOut]

theorem begun_singleton (i : Nat) (s : System ω) (a : Action ω) (events : List (Event ω)) :
    begun i [⟨s, a, events⟩] = (sights i events).filterMap Sight.began? := by
  simp [begun, System.seen]

theorem Listed.count_registered {available : List Nat} (h : s.Listed a available events)
    (i : Nat) : (events.filterMap Event.registered?).count i =
      if a.move? i = some .register then 1 else 0 := by
  cases h with
  | same ha _ hevents =>
    rw [if_neg (ha i), List.filterMap_eq_nil_iff.mpr fun e he => (hevents e he).1]
    rfl
  | @registered worker w haction =>
    subst haction
    by_cases hi : worker = i <;> simp [Event.registered?, Action.move?, hi]
  | passedOver ha => rw [if_neg (ha i)]; rfl
  | handedOut ha => rw [if_neg (ha i)]; rfl

/-- How often a worker has said that it is available. -/
structure Announced (worker : Nat) (turns : History ω) (w : Worker ω) : Prop where
  alive : w.phase ≠ .returned →
    (registered turns).count worker = (begun worker turns).length + w.phase.entries
  bounded : (registered turns).count worker ≤ (begun worker turns).length + 1

theorem Announced.next {w' : Worker ω} {later : History ω} {said units : Nat}
    (h : Announced i turns w) (hsaid : (registered later).count i = (registered turns).count i + said)
    (hunits : (begun i later).length = (begun i turns).length + units)
    (halive : w'.phase ≠ .returned →
      w.phase ≠ .returned ∧ w.phase.entries + said = units + w'.phase.entries)
    (hreturned : w'.phase = .returned → said = 0) : Announced i later w' where
  alive hphase := by
    obtain ⟨hbefore, hentries⟩ := halive hphase
    have hcount := h.alive hbefore
    omega
  bounded := by
    have hle := h.bounded
    have hone := w'.phase.entries_le
    by_cases hphase : w'.phase = .returned
    · have hnone := hreturned hphase
      omega
    · obtain ⟨hbefore, hentries⟩ := halive hphase
      have hcount := h.alive hbefore
      omega

/-- A worker says that it is available before each unit that it begins. -/
theorem Announced.tended {w' : Worker ω} {seen : List (Sight ω)} (h : Announced i turns w)
    (hl : s.listening = true) (ht : s.Tended s' i a w w' seen) (hseen : sights i events = seen)
    (hsaid : (events.filterMap Event.registered?).count i =
      if a.move? i = some .register then 1 else 0) :
    Announced i (turns ++ [⟨s, a, events⟩]) w' := by
  have hcount : (registered (turns ++ [⟨s, a, events⟩])).count i =
      (registered turns).count i + if a.move? i = some .register then 1 else 0 := by
    rw [registered_append, List.count_append, registered_singleton, hsaid]
  have hlength : (begun i (turns ++ [⟨s, a, events⟩])).length =
      (begun i turns).length + (seen.filterMap Sight.began?).length := by
    rw [begun_append, List.length_append, begun_singleton, hseen]
  -- Whoever only tends to the inbox leaves the worker in its phase.
  have hkept (hmove : a.move? i = none) (hphase : w'.phase = w.phase)
      (hnone : seen.filterMap Sight.began? = []) : Announced i (turns ++ [⟨s, a, events⟩]) w' := by
    refine h.next hcount hlength (fun hw => ?_) fun _ => by simp [hmove]
    exact ⟨hphase ▸ hw, by simp [hmove, hnone, hphase]⟩
  cases ht with
  | same ha | left ha => exact hkept ha rfl rfl
  | took job ha | joined job ha | refused job ha =>
    exact hkept (by rw [ha, job.move?_action]) (offered_eq w _ job).2.1 rfl
  | filled job ha => exact hkept (by rw [ha]; rfl) rfl rfl
  | registered ha hphase | began ha hphase | kept ha hphase =>
    refine h.next hcount hlength (fun _ => ?_) fun hreturned => by cases hreturned
    simp [ha, hphase, Action.move?, Phase.entries, Sight.began?]
  | @ended m _ ha hleaves =>
    have hmove : a.move? i ≠ some .register := by
      intro hregister
      simp only [ha, Action.move?, if_true, Option.some.injEq] at hregister
      subst hregister
      cases hleaves with
      | unheard _ hdeaf => simp [hl] at hdeaf
    refine h.next hcount hlength ?_ fun _ => if_neg hmove
    rw [if_neg hmove]
    cases hleaves with
    | panicked p hphase => exact fun _ => ⟨by simp [hphase], by rw [hphase]; rfl⟩
    | unheard | stopped | deserted | gone => exact fun hreturned => absurd rfl hreturned

theorem announced_of_run (h : Run System.step (new name) turns s) (hl : s.listening = true)
    (i : Nat) : (s.worker? i = none → (registered turns).count i = 0) ∧
      ∀ w, s.worker? i = some w → Announced i turns w := by
  induction h with
  | nil => exact ⟨fun _ => rfl, fun w hw => by simp [new, worker?] at hw⟩
  | @snoc turns s₁ s₂ a events hrun hstep ih =>
    obtain ⟨hlistening, hlisted⟩ := listed_of_step hstep hl
    obtain ⟨habsent, hpresent⟩ := ih hlistening
    have hcount := hlisted.count_registered i
    have hregistered : (registered (turns ++ [⟨s₁, a, events⟩])).count i =
        (registered turns).count i + (events.filterMap Event.registered?).count i := by
      rw [registered_append, List.count_append, registered_singleton]
    -- A worker that is not there yet says nothing.
    have hsilent (hw : s₁.worker? i = none) :
        (registered (turns ++ [⟨s₁, a, events⟩])).count i = 0 := by
      have hmove : a.move? i ≠ some .register := by
        intro hmove
        cases hlisted with
        | @registered worker _ haction hw' =>
          subst haction
          by_cases hi : worker = i
          · subst hi
            simp [hw] at hw'
          · simp [Action.move?, hi] at hmove
        | same ha | passedOver ha | handedOut ha => exact ha i hmove
      rw [hregistered, habsent hw, hcount, if_neg hmove]
    cases fared_of_did (did_of_step hstep) i with
    | absent hw hw' => exact ⟨fun _ => hsilent hw, fun w hw₂ => by simp [hw'] at hw₂⟩
    | hired hw hw' _ hseen =>
      refine ⟨fun _ => hsilent hw, fun w hw₂ => ?_⟩
      obtain rfl := Option.some.inj (hw'.symm.trans hw₂)
      have hbegun : begun i (turns ++ [⟨s₁, a, events⟩]) = [] := by
        rw [begun_append, begun_singleton, hseen, begun, (seen_of_absent hrun hw).1]
        rfl
      refine ⟨fun _ => ?_, ?_⟩ <;> rw [hsilent hw, hbegun]
      · rfl
      · simp
    | @tended w w' hw hw' ht =>
      refine ⟨fun hnone => by simp [hw'] at hnone, fun w₂ hw₂ => ?_⟩
      obtain rfl := Option.some.inj (hw'.symm.trans hw₂)
      exact (hpresent w hw).tended hlistening ht rfl hcount

/-- Every entry is still on the list, was handed out, or was passed over since its worker has
exited. -/
theorem tally_of_run (h : Run System.step (new name) turns s) (hl : s.listening = true) (i : Nat) :
    s.available.count i + (handedOut turns).count i ≤ (registered turns).count i ∧
      (¬ s.Shut i →
        s.available.count i + (handedOut turns).count i = (registered turns).count i) := by
  induction h with
  | nil => exact ⟨Nat.le_refl _, fun _ => rfl⟩
  | @snoc turns s₁ s₂ a events hrun hstep ih =>
    obtain ⟨hlistening, hlisted⟩ := listed_of_step hstep hl
    obtain ⟨hle, heq⟩ := ih hlistening
    have hopen (hs₂ : ¬ s₂.Shut i) : ¬ s₁.Shut i := fun hshut => hs₂ (hshut.step hstep)
    rw [registered_append, handedOut_append, List.count_append, List.count_append,
      registered_singleton, handedOut_singleton]
    cases hlisted with
    | same _ hlist hevents =>
      rw [hlist, List.filterMap_eq_nil_iff.mpr fun e he => (hevents e he).1,
        List.filterMap_eq_nil_iff.mpr fun e he => (hevents e he).2]
      exact ⟨hle, fun hs₂ => heq (hopen hs₂)⟩
    | registered _ _ hlist =>
      simp only [hlist, Event.registered?, Event.handed?, List.filterMap_cons, List.filterMap_nil,
        List.count_append, List.count_nil]
      exact ⟨by omega, fun hs₂ => by have := heq (hopen hs₂); omega⟩
    | @passedOver worker _ hlist hexited =>
      rw [hlist, List.count_cons] at hle heq
      simp only [List.filterMap_nil, List.count_nil, Nat.add_zero]
      refine ⟨by omega, fun hs₂ => ?_⟩
      have hcount := heq (hopen hs₂)
      -- Only a worker that is there can be on the list.
      have hne : ¬ (worker == i) = true := by
        intro hi
        obtain rfl := beq_iff_eq.mp hi
        unfold hasExited at hexited
        split at hexited
        · rename_i w hw
          exact hopen hs₂ ⟨w, hw, hexited⟩
        · rename_i hw
          have hnone := (announced_of_run hrun hlistening worker).1 hw
          rw [if_pos hi] at hcount
          omega
      rw [if_neg hne] at hcount
      exact hcount
    | handedOut _ hlist =>
      rw [hlist, List.count_cons] at hle heq
      simp only [Event.registered?, Event.handed?, List.filterMap_cons, List.filterMap_nil,
        List.count_nil, List.count_cons]
      exact ⟨by omega, fun hs₂ => by have := heq (hopen hs₂); omega⟩

/-- The entries of a worker and the times it was handed out make up what it has begun and what it
waits for. -/
theorem entries_of_run (h : Run System.step (new name) turns s) (hl : s.listening = true)
    (hw : s.worker? i = some w) :
    s.available.count i + (handedOut turns).count i ≤ (begun i turns).length + 1 ∧
      (w.phase ≠ .returned → s.available.count i + (handedOut turns).count i ≤
        (begun i turns).length + w.phase.entries) ∧
      (w.exited = false → s.available.count i + (handedOut turns).count i =
        (begun i turns).length + w.phase.entries) := by
  obtain ⟨hle, heq⟩ := tally_of_run h hl i
  obtain ⟨halive, hbounded⟩ := (announced_of_run h hl i).2 w hw
  refine ⟨Nat.le_trans hle hbounded, fun hphase => halive hphase ▸ hle, fun hopen => ?_⟩
  have hphase : w.phase ≠ .returned := by
    intro hreturned
    have hended := (accounted_of_run h).exited w (List.mem_of_getElem? hw)
    simp [hreturned, hopen, Phase.ended, Phase.isPanicked] at hended
  rw [← halive hphase]
  refine heq ?_
  rintro ⟨v, hv, hexited⟩
  obtain rfl := Option.some.inj (hw.symm.trans hv)
  simp [hopen] at hexited

/-- At any time a worker was handed out for every unit of work that it has begun. -/
def Covered (worker : Nat) (turns : History ω) : Prop :=
  ∀ before, before <+: turns → (begun worker before).length ≤ (handedOut before).count worker

/-- A worker is on the list while it does a unit of work. -/
def BusyOnList (s : System ω) (worker : Nat) : Prop :=
  ∃ w work, s.worker? worker = some w ∧ w.phase = .working work ∧ worker ∈ s.available

/-- What the list has to do with a worker. -/
structure RegisteredOnce (worker : Nat) (turns : History ω) (s : System ω) : Prop where
  /-- A worker that waits for work and was handed to nobody since it said so is on the list once. -/
  idle : ∀ before t after w, turns = before ++ t :: after → .registered worker ∈ t.events →
    worker ∉ handedOut after → s.worker? worker = some w → w.phase = .waiting →
    w.exited = false → s.available.count worker = 1
  once : s.available.count worker ≤ 1
  busy : ¬ s.BusyOnList worker
  /-- Callers are handed the worker only while it waits for work. -/
  granted : ∀ t ∈ turns, ∀ call, .replied call (.acquired (some worker)) ∈ t.events →
    ∃ w, t.before.worker? worker = some w ∧ w.phase = .waiting ∧ w.exited = false
  /-- Between two callers that are handed the worker it has begun a unit of work. -/
  apart : ∀ before t between t' after call call',
    turns = before ++ t :: (between ++ t' :: after) →
    .replied call (.acquired (some worker)) ∈ t.events →
    .replied call' (.acquired (some worker)) ∈ t'.events → begun worker between ≠ []

instance (worker : Nat) (turns : History ω) : Decidable (Covered worker turns) :=
  decidable_of_iff (∀ before ∈ turns.inits,
    (begun worker before).length ≤ (handedOut before).count worker) (by simp [Covered, List.mem_inits])

theorem Covered.of_prefix (h : Covered i (turns ++ more)) : Covered i turns :=
  fun before hbefore => h before (hbefore.trans (List.prefix_append _ _))

theorem Covered.le (h : Covered i turns) :
    (begun i turns).length ≤ (handedOut turns).count i := h turns (List.prefix_refl _)

theorem free_of_registered (h : s.step a = some (s', events)) (hl : s'.listening = true)
    (hevent : .registered i ∈ events) :
    events = [.registered i] ∧ ∃ w, s.worker? i = some w ∧ w.phase = .free := by
  have hmem : i ∈ events.filterMap Event.registered? :=
    List.mem_filterMap.mpr ⟨_, hevent, rfl⟩
  cases (listed_of_step h hl).2 with
  | same _ _ hevents => exact absurd (hevents _ hevent).1 nofun
  | registered haction =>
    obtain rfl : i = _ := by simpa [Event.registered?] using hmem
    subst haction
    obtain ⟨w, hw, hmoved⟩ := moved_of_move h
    cases hmoved with
    | registered hphase => exact ⟨rfl, w, hw, hphase⟩
  | passedOver => cases hevent
  | handedOut => simp [Event.registered?] at hmem

theorem listed_of_handedOut (h : s.step a = some (s', events)) (hl : s'.listening = true)
    (hevent : .replied call (.acquired (some i)) ∈ events) :
    events = [.replied call (.acquired (some i))] ∧ i ∈ s.available ∧ s.hasExited i = false := by
  cases (listed_of_step h hl).2 with
  | same _ _ hevents => exact absurd (hevents _ hevent).2 nofun
  | registered => simp at hevent
  | passedOver => cases hevent
  | handedOut _ hlist hexited =>
    obtain ⟨rfl, rfl⟩ : call = _ ∧ i = _ := by simpa using hevent
    exact ⟨rfl, by simp [hlist], hexited⟩

/-- A worker that is handed out waits for work, and has no other entry. -/
theorem waits_of_handedOut (h : Run System.step (new name) turns s)
    (hstep : s.step a = some (s', events)) (hl : s'.listening = true) (hcovered : Covered i turns)
    (hevent : .replied call (.acquired (some i)) ∈ events) :
    (∃ w, s.worker? i = some w ∧ w.phase = .waiting ∧ w.exited = false) ∧
      (handedOut turns).count i = (begun i turns).length := by
  obtain ⟨-, hlisted, hexited⟩ := listed_of_handedOut hstep hl hevent
  have hlistening := (listed_of_step hstep hl).1
  unfold hasExited at hexited
  split at hexited
  · rename_i w hw
    have hentries := (entries_of_run h hlistening hw).2.2 hexited
    have hle := hcovered.le
    have hpos := List.count_pos_iff.mpr hlisted
    have hwaiting : w.phase = .waiting := by
      cases hphase : w.phase with
      | waiting => rfl
      | _ =>
        simp only [hphase, Phase.entries] at hentries
        omega
    refine ⟨⟨w, hw, hwaiting, hexited⟩, ?_⟩
    simp only [hwaiting, Phase.entries] at hentries
    omega
  · cases hexited

theorem registeredOnce_of_covered (h : Run System.step (new name) turns s)
    (hl : s.listening = true) (hcovered : Covered i turns) : RegisteredOnce i turns s := by
  have hle := hcovered.le
  refine ⟨?idle, ?once, ?busy, ?granted, ?apart⟩
  case idle =>
    rintro before t after w rfl hevent hnobody hw hphase hopen
    have hnow := (entries_of_run h hl hw).2.2 hopen
    rw [List.append_cons] at h hnow hle hcovered
    obtain ⟨s₁, hrun, hafter⟩ := h.cut
    obtain ⟨hbefore, hstep⟩ := hrun.snoc_inv
    have hlistening := listening_of_run hafter hl
    obtain ⟨hevents, v, hv, hfree⟩ := free_of_registered hstep hlistening hevent
    -- Before it said so it had no entry, since it was handed out for all that it had begun.
    have hthen := (entries_of_run hbefore (listed_of_step hstep hlistening).1 hv).2.1
      (by simp [hfree])
    simp only [hfree, hphase, Phase.entries] at hthen hnow
    have hnone : (handedOut after).count i = 0 := List.count_eq_zero.mpr hnobody
    have hsilent : (handedOut [t]).count i = 0 := by
      simp [handedOut, hevents, List.filterMap_cons, Event.handed?]
    simp only [handedOut_append, begun_append, List.count_append, List.length_append, hnone,
      hsilent] at hnow hle
    omega
  case once =>
    cases hw : s.worker? i with
    | none =>
      have hnone := (announced_of_run h hl i).1 hw
      have htally := (tally_of_run h hl i).1
      omega
    | some w =>
      have hentries := (entries_of_run h hl hw).1
      omega
  case busy =>
    rintro ⟨w, work, hw, hphase, hmem⟩
    have hentries := (entries_of_run h hl hw).2.1 (by simp [hphase])
    have hpos := List.count_pos_iff.mpr hmem
    simp only [hphase, Phase.entries] at hentries
    omega
  case granted =>
    intro t ht call hevent
    obtain ⟨before, after, s₁, rfl, hbefore, hstep, hafter⟩ := h.split ht
    exact (waits_of_handedOut hbefore hstep (listening_of_run hafter hl) hcovered.of_prefix
      hevent).1
  case apart =>
    rintro before t between t' after call call' rfl hevent hevent'
    rw [List.append_cons, ← List.append_assoc, List.append_cons _ t'] at h hcovered
    obtain ⟨s₃, hrun, hafter⟩ := h.cut
    obtain ⟨hbetween, hstep'⟩ := hrun.snoc_inv
    have hlistening' := listening_of_run hafter hl
    obtain ⟨s₁, hfirst, hmore⟩ := hbetween.cut
    obtain ⟨hbefore, hstep⟩ := hfirst.snoc_inv
    have hlistening := listening_of_run hmore (listed_of_step hstep' hlistening').1
    have hcovered' := hcovered.of_prefix.of_prefix
    have hat := (waits_of_handedOut hbefore hstep hlistening
      hcovered'.of_prefix.of_prefix hevent).2
    have hat' := (waits_of_handedOut hbetween hstep' hlistening' hcovered' hevent').2
    have hevents := (listed_of_handedOut hstep hlistening hevent).1
    have hgrant : (handedOut [t]).count i = 1 := by
      simp [handedOut, hevents, Event.handed?]
    have hbegan : begun i [t] = [] := by
      simp [begun, System.seen, sights, hevents, Event.sight?]
    intro hnothing
    simp only [handedOut_append, begun_append, List.count_append, List.length_append, hgrant,
      hbegan, hnothing, List.length_nil] at hat'
    omega

/-- A worker that begins a unit of work for which it was not handed out is on the list meanwhile. -/
theorem busy_of_not_covered (h : Run System.step (new name) turns s) (hl : s.listening = true)
    (hw : s.worker? i = some w) (hopen : w.exited = false) (hnot : ¬ Covered i turns) :
    ∃ before s₁, before <+: turns ∧ Run System.step (new name) before s₁ ∧ s₁.BusyOnList i := by
  have hshut : ¬ s.Shut i := by
    rintro ⟨v, hv, hexited⟩
    obtain rfl := Option.some.inj (hw.symm.trans hv)
    simp [hopen] at hexited
  clear hw hopen
  induction h with
  | nil =>
    refine absurd ?_ hnot
    intro before hbefore
    obtain rfl := List.prefix_nil.mp hbefore
    exact Nat.le_refl 0
  | @snoc turns s₁ s₂ a events hrun hstep ih =>
    have hlistening := (listed_of_step hstep hl).1
    by_cases hcovered : Covered i turns
    · -- The last action is the first that begins too much.
      have hmore : (handedOut (turns ++ [⟨s₁, a, events⟩])).count i <
          (begun i (turns ++ [⟨s₁, a, events⟩])).length := by
        by_contra hfew
        refine hnot fun before hbefore => ?_
        rcases List.prefix_concat_iff.mp hbefore with rfl | hbefore
        · omega
        · exact hcovered before hbefore
      have hrun' : Run System.step (new name) (turns ++ [⟨s₁, a, events⟩]) s₂ := hrun.snoc hstep
      refine ⟨_, s₂, List.prefix_refl _, hrun', ?_⟩
      have hle := hcovered.le
      rw [handedOut_append, List.count_append, begun_append, List.length_append,
        begun_singleton] at hmore
      have hnothing (hnone : (sights i events).filterMap Sight.began? = []) : False := by
        rw [hnone] at hmore
        simp only [List.length_nil] at hmore
        omega
      cases fared_of_did (did_of_step hstep) i with
      | absent _ _ _ hnil | hired _ _ _ hnil => exact (hnothing (by rw [hnil]; rfl)).elim
      | @tended v v' hv hv' ht =>
        have hentries := (entries_of_run hrun' hl hv').2.2 (by
          rw [← Bool.not_eq_true]
          exact fun hexited => hshut ⟨v', hv', hexited⟩)
        rw [handedOut_append, List.count_append, begun_append, List.length_append,
          begun_singleton] at hentries
        generalize hseen : sights i events = seen at hnothing hmore hentries
        cases hseen ▸ ht with
        | began =>
          refine ⟨_, _, hv', rfl, List.count_pos_iff.mp ?_⟩
          omega
        | _ => exact (hnothing rfl).elim
    · obtain ⟨before, s₀, hbefore, hreached, hbusy⟩ :=
        ih hlistening hcovered fun hshut₁ => hshut (hshut₁.step hstep)
      exact ⟨before, s₀, hbefore.trans (List.prefix_append _ _), hreached, hbusy⟩

/-- The entries of a worker and the times it was handed out are as many as the units it has begun,
and one more while it waits.  So it is on the list as it should be if at any time it was handed out
for each unit that it had begun; otherwise it was on the list while it did one. -/
theorem registrations_accounted (h : Run System.step (new name) turns s)
    (hl : s.listening = true) (worker : Nat) :
    (∀ w, s.worker? worker = some w → w.exited = false →
      s.available.count worker + (handedOut turns).count worker =
        (begun worker turns).length + w.phase.entries) ∧
    (Covered worker turns → RegisteredOnce worker turns s) ∧
    (∀ w, s.worker? worker = some w → w.exited = false → ¬ Covered worker turns →
      ∃ before s₁, before <+: turns ∧ Run System.step (new name) before s₁ ∧
        s₁.BusyOnList worker) :=
  ⟨fun _ hw => (entries_of_run h hl hw).2.2, registeredOnce_of_covered h hl,
    fun _ => busy_of_not_covered h hl⟩

/-- A worker is handed out, does one unit of work, and waits for the next caller. -/
def returnedRun : List (Action Unit) :=
  [.addWorker, .move 0 .register, .acquire 1, .submit 2 0 (), .move 0 .receive,
    .move 0 (.workReturns true), .move 0 .register]

theorem registrations_accounted_returnedRun : ∃ turns s,
    Run System.step (new "pool" : System Unit) turns s ∧ s.listening = true ∧ Covered 0 turns ∧
      handedOut turns = [0] ∧ (begun 0 turns).length = 1 ∧ s.available.count 0 = 1 ∧
      RegisteredOnce 0 turns s := by
  have hseen : (replay System.step (new "pool" : System Unit) returnedRun).map (fun r =>
      (r.2.listening, handedOut r.1, (begun 0 r.1).length)) = some (true, [0], 1) := by
    decide +kernel
  have hleft : (replay System.step (new "pool" : System Unit) returnedRun).map (fun r =>
      (decide (Covered 0 r.1), r.2.workers.map fun w => (w.exited, w.phase.entries))) =
      some (true, [(false, 1)]) := by
    decide +kernel
  obtain ⟨⟨turns, s⟩, hreplay, hseen⟩ := Option.map_eq_some_iff.mp hseen
  rw [hreplay, Option.map_some, Option.some.injEq] at hleft
  simp only [Prod.mk.injEq, decide_eq_true_eq] at hseen hleft
  obtain ⟨hl, hhanded, hbegun⟩ := hseen
  obtain ⟨hcovered, hworkers⟩ := hleft
  obtain ⟨w, hw, hsigns⟩ := List.map_eq_singleton_iff.mp hworkers
  obtain ⟨hopen, hentries⟩ := Prod.mk.inj hsigns
  have hrun := Run.of_replay hreplay
  obtain ⟨hcount, honce, -⟩ := registrations_accounted hrun hl 0
  refine ⟨turns, s, hrun, hl, hcovered, hhanded, hbegun, ?_, honce hcovered⟩
  have hsum := hcount w (by rw [worker?, hw]; rfl) hopen
  rw [hhanded, hbegun, hentries] at hsum
  simpa using hsum

/-- Work is sent at once to a worker that was just added. -/
def sentRun : List (Action Unit) :=
  [.addWorker, .move 0 .register, .submit 0 0 (), .move 0 .receive]

/-- The work is done, and the worker waits for more. -/
def doneRun : List (Action Unit) := [.move 0 (.workReturns true), .move 0 .register]

/-- The worker is on the list while it works, and then twice although nobody was handed it; so two
callers get it one after the other, and it has done nothing in between. -/
theorem registered_twice_doneRun : ∃ before s₁ after s₂ last s₃,
    Run System.step (new "pool" : System Unit) before s₁ ∧ s₁.BusyOnList 0 ∧
      Run System.step s₁ after s₂ ∧ s₂.Quiet ∧ s₂.available = [0, 0] ∧
      (∃ w, s₂.worker? 0 = some w ∧ w.phase = .waiting ∧ w.exited = false) ∧
      handedOut (before ++ after) = [] ∧ Run System.step s₂ last s₃ ∧
      handedOut last = [0, 0] ∧ begun 0 last = [] := by
  refine ⟨_, _, _, _, _, _,
    .of_replay (show replay System.step (new "pool") sentRun = some (_, _) from rfl),
    ⟨_, (), rfl, rfl, by decide⟩,
    .of_replay (show replay System.step _ doneRun = some (_, _) from rfl), ?_, rfl,
    ⟨_, rfl, rfl, rfl⟩, rfl,
    .of_replay (show replay System.step _ [.acquire 1, .acquire 2] = some (_, _) from rfl),
    rfl, rfl⟩
  exact quiet_iff.mp (by decide +kernel)

end System

end Batchflow.Pool
