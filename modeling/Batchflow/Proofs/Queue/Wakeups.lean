import Batchflow.Proofs.Queue.History
import Mathlib.Algebra.GroupWithZero.Nat

/-!
# When a call to dequeue comes back

A call that finds nothing sleeps until an instant that it computes from the store as it is then.
Later batches wake it, deliveries to others only hide messages for longer, and deletions take them
away, so the call wakes no later than any message that it could have.  Whenever nothing but time
can go on, a call that still waits has nothing to wait for any longer.
-/

namespace Batchflow.Queue

open Store

/-- A call to dequeue, as it was made. -/
structure Request where
  token : String
  count : Nat
  wait : Duration
  time : Nat
  deriving DecidableEq

/-- When the patience of the call ends. -/
def Request.deadline (q : Request) : Nat := q.time + q.wait.total

/-- The call to dequeue that a turn makes by some number. -/
def request? (call : Nat) (t : Turn System Action Event) : Option Request :=
  match t.action with
  | .dequeue caller token count wait =>
    if caller = call then some { token, count, wait, time := t.before.now } else none
  | _ => none

/-- The latest call to dequeue by some number. -/
def requested? (call : Nat) (turns : History) : Option Request :=
  (turns.filterMap (request? call)).getLast?

/-- The token of a call is cancelled, and since this instant only, unless the call is as new. -/
def CancelledNow (q : Request) (turns : History) (s : System) : Prop :=
  s.isCancelled q.token = true ∧
    ((∃ t ∈ turns, t.action = .cancel q.token ∧ t.before.now = s.now) ∨ q.time = s.now)

/-- A call has reason to wait: it has patience, may go on, and no message is there to be had. -/
structure Resting (q : Request) (s : System) : Prop where
  patient : s.now < q.deadline
  allowed : s.isCancelled q.token = false
  hidden : ∀ e ∈ s.store.entries, s.now < e.visibleAt

/-- How a call comes back, and when. -/
inductive Ends (q : Request) (turns : History) (s : System) : Reply → Prop
  | found {m : Message} {ms : List Message} :
      (∀ m' ∈ m :: ms, ∃ e ∈ s.store.entries, e.visibleAt ≤ s.now ∧
        m' = { e.message with handle := m'.handle }) →
      s.now ≤ Instant.tick q.deadline → Ends q turns s (.messages (m :: ms))
  | nothing : q.deadline ≤ s.now → s.now ≤ Instant.tick q.deadline →
      (∀ e ∈ s.store.entries, s.now < e.visibleAt) → Ends q turns s (.messages [])
  | cancelled : CancelledNow q turns s → s.now ≤ Instant.tick q.deadline →
      Ends q turns s (.refused .cancelled)

/-- A pending call goes on by itself. -/
def Action.isOwn : Action → Bool
  | .look _ => true
  | .noticeCancel _ => true
  | _ => false

theorem requested?_snoc (call : Nat) (turns : History) (t : Turn System Action Event) :
    requested? call (turns ++ [t]) = (request? call t).or (requested? call turns) := by
  unfold requested?
  cases h : request? call t <;> simp [h]

theorem requested?_eq {call : Nat} {q : Request} {before after : History}
    {t : Turn System Action Event} (ht : request? call t = some q)
    (hlast : ∀ t' ∈ after, request? call t' = none) :
    requested? call (before ++ t :: after) = some q := by
  have hnone : after.filterMap (request? call) = [] := List.filterMap_eq_nil_iff.mpr hlast
  simp [requested?, ht, hnone]

theorem CancelledNow.mono {q : Request} {turns : History} {s : System}
    (h : CancelledNow q turns s) (t : Turn System Action Event) :
    CancelledNow q (turns ++ [t]) s := by
  obtain ⟨hcancelled, hnow⟩ := h
  refine ⟨hcancelled, hnow.imp_left ?_⟩
  rintro ⟨t', ht', hrest⟩
  exact ⟨t', List.mem_append_left _ ht', hrest⟩

namespace System

variable {s s' : System} {a : Action} {out : Outcome} {events : List Event} {turns : History}
  {call count deadline : Nat} {token : String} {c : Call} {q : Request}

theorem wakeTime_le_deadline : s.wakeTime deadline ≤ deadline := by
  unfold wakeTime
  split
  · exact Nat.min_le_right _ _
  · exact Nat.le_refl _

/-- A call looks again before any hidden message becomes visible. -/
theorem wakeTime_le {e : Entry} (he : e ∈ s.store.entries) (hhidden : s.now < e.visibleAt) :
    s.wakeTime deadline ≤ e.visibleAt := by
  have hmem : e.visibleAt ∈ (s.store.entries.map Entry.visibleAt).filter (s.now < ·) := by
    simpa using ⟨⟨e, he, rfl⟩, hhidden⟩
  unfold wakeTime nextVisible?
  split
  · rename_i t hmin
    exact Nat.le_trans (Nat.min_le_left _ _) ((List.min?_eq_some_iff.mp hmin).2 _ hmem)
  · rename_i hnone
    rw [List.min?_eq_none_iff.mp hnone] at hmem
    cases hmem

theorem lt_wakeTime (h : s.now < deadline) : s.now < s.wakeTime deadline := by
  unfold wakeTime nextVisible?
  split
  · rename_i t hmin
    have ht := List.min?_mem hmin
    have hlater : s.now < t := by simpa using (List.mem_filter.mp ht).2
    omega
  · exact h

/-- A pending call can neither look again nor see that it is cancelled. -/
def Calm (s : System) (c : Call) : Prop :=
  ¬ (c.notified = true ∨ c.wakeAt ≤ s.now) ∧ s.isCancelled c.token = false

theorem calm_of_quiet (hquiet : s.quiet = true) (hcall : s.call? call = some c) : s.Calm c := by
  have hidle := List.all_eq_true.mp hquiet _ (Calls.mem_of_lookup hcall)
  rw [Bool.and_eq_true, Option.isNone_iff_eq_none, Option.isNone_iff_eq_none] at hidle
  obtain ⟨hlook, hnotice⟩ := hidle
  refine ⟨?_, ?_⟩
  · intro hdue
    rw [look?, hcall] at hlook
    simp [hdue] at hlook
  · rw [Bool.eq_false_iff]
    intro hcancelled
    rw [noticeCancel?, hcall] at hnotice
    simp [hcancelled] at hnotice

/-- A pending call is the latest of its number.  Unless it was told of a new batch, it looks again
before any message in the store becomes visible. -/
structure Waits (turns : History) (s : System) (call : Nat) (c : Call) (q : Request) : Prop where
  request : requested? call turns = some q
  token : c.token = q.token
  count : c.count = q.count
  deadline : c.deadline = q.deadline
  wanted : q.count ≠ 0
  time : s.now ≤ Instant.tick q.deadline
  wakes : c.wakeAt ≤ q.deadline
  watches : c.notified = true ∨ ∀ e ∈ s.store.entries, c.wakeAt ≤ e.visibleAt
  cancelled : s.isCancelled q.token = true → CancelledNow q turns s

namespace Waits

theorem turn {t : Turn System Action Event} (h : Waits turns s call c q)
    (ht : request? call t = none) : Waits (turns ++ [t]) s call c q where
  request := by rw [requested?_snoc, ht, Option.none_or, h.request]
  token := h.token
  count := h.count
  deadline := h.deadline
  wanted := h.wanted
  time := h.time
  wakes := h.wakes
  watches := h.watches
  cancelled hcancelled := (h.cancelled hcancelled).mono t

/-- Messages may go, or become visible later. -/
theorem state (h : Waits turns s call c q) (hnow : s'.now = s.now)
    (hcancelled : s'.cancelled = s.cancelled)
    (hentries : ∀ e ∈ s'.store.entries, ∃ e₀ ∈ s.store.entries, e₀.visibleAt ≤ e.visibleAt) :
    Waits turns s' call c q where
  request := h.request
  token := h.token
  count := h.count
  deadline := h.deadline
  wanted := h.wanted
  time := hnow ▸ h.time
  wakes := h.wakes
  watches := by
    refine h.watches.imp_right fun hwatches e he => ?_
    obtain ⟨e₀, he₀, hle⟩ := hentries e he
    exact Nat.le_trans (hwatches e₀ he₀) hle
  cancelled := by
    unfold CancelledNow System.isCancelled
    rw [hnow, hcancelled]
    exact h.cancelled

/-- A call that is told of a new batch need not watch the store. -/
theorem notified (h : Waits turns s call c q) (hnow : s'.now = s.now)
    (hcancelled : s'.cancelled = s.cancelled) :
    Waits turns s' call { c with notified := true } q where
  request := h.request
  token := h.token
  count := h.count
  deadline := h.deadline
  wanted := h.wanted
  time := hnow ▸ h.time
  wakes := h.wakes
  watches := .inl rfl
  cancelled := by
    unfold CancelledNow System.isCancelled
    rw [hnow, hcancelled]
    exact h.cancelled

/-- When a token is cancelled, this happens now. -/
theorem cancel (h : Waits turns s call c q) {t : Turn System Action Event} (ht : t ∈ turns)
    (haction : t.action = .cancel token) (htime : t.before.now = s.now) :
    Waits turns { s with cancelled := token :: s.cancelled } call c q where
  request := h.request
  token := h.token
  count := h.count
  deadline := h.deadline
  wanted := h.wanted
  time := h.time
  wakes := h.wakes
  watches := h.watches
  cancelled hcancelled := by
    refine ⟨hcancelled, ?_⟩
    simp only [isCancelled, List.contains_cons, Bool.or_eq_true, beq_iff_eq] at hcancelled
    rcases hcancelled with heq | hbefore
    · exact .inl ⟨t, ht, heq ▸ haction, htime⟩
    · exact (h.cancelled hbefore).2

theorem watchful (h : Waits turns s call c q) (hcalm : s.Calm c) :
    s.now < c.wakeAt ∧ ∀ e ∈ s.store.entries, c.wakeAt ≤ e.visibleAt := by
  have hnot := not_or.mp hcalm.1
  exact ⟨Nat.not_le.mp hnot.2, h.watches.resolve_left hnot.1⟩

theorem resting (h : Waits turns s call c q) (hcalm : s.Calm c) : Resting q s := by
  obtain ⟨hlater, hwatches⟩ := h.watchful hcalm
  refine ⟨Nat.lt_of_lt_of_le hlater h.wakes, ?_, ?_⟩
  · rw [← h.token]
    exact hcalm.2
  · intro e he
    exact Nat.lt_of_lt_of_le hlater (hwatches e he)

/-- Time that passes while a call rests does not pass the end of its patience. -/
theorem advance {now : Nat} (h : Waits turns s call c q) (hrest : Resting q s)
    (hdue : now ≤ Instant.tick c.wakeAt) : Waits turns { s with now } call c q where
  request := h.request
  token := h.token
  count := h.count
  deadline := h.deadline
  wanted := h.wanted
  time := Nat.le_trans hdue (Instant.tick_mono h.wakes)
  wakes := h.wakes
  watches := h.watches
  cancelled hcancelled := by
    have hallowed : s.isCancelled q.token = true := hcancelled
    rw [hrest.allowed] at hallowed
    cases hallowed

end Waits

/-- A call that found nothing looks again in time. -/
theorem waits_new (hrequest : requested? call turns = some q) (hwanted : q.count ≠ 0)
    (hcancelled : s.isCancelled q.token = true → CancelledNow q turns s)
    (hpatient : s.now < q.deadline) (hhidden : ∀ e ∈ s.store.entries, s.now < e.visibleAt) :
    Waits turns s call { token := q.token, count := q.count, deadline := q.deadline,
                         wakeAt := s.wakeTime q.deadline, notified := false } q where
  request := hrequest
  token := rfl
  count := rfl
  deadline := rfl
  wanted := hwanted
  time := Nat.le_trans (Nat.le_of_lt hpatient) (Instant.le_tick _)
  wakes := wakeTime_le_deadline
  watches := .inr fun e he => wakeTime_le he (hhidden e he)
  cancelled := hcancelled

theorem keys_of_looked (h : s.Looked call token count deadline out)
    (hkeys : (s.calls.map Prod.fst).Nodup) : (out.1.calls.map Prod.fst).Nodup := by
  cases h with
  | panicked => exact Calls.keys_without hkeys
  | found => exact Calls.keys_without hkeys
  | waits => exact Calls.keys_await hkeys

theorem keys_of_step (h : s.step a = some out) (hkeys : (s.calls.map Prod.fst).Nodup) :
    (out.1.calls.map Prod.fst).Nodup := by
  cases did_of_step h with
  | taken =>
    simp only [notifyAll, List.map_map]
    exact hkeys
  | asked _ _ _ hlooked => exact keys_of_looked hlooked hkeys
  | lookedAgain _ _ hlooked => exact keys_of_looked hlooked hkeys
  | aborted => exact Calls.keys_without hkeys
  | cancelNoticed => exact Calls.keys_without hkeys
  | _ => exact hkeys

theorem keys_of_run {o : Options} (h : Run step (new o) turns s) :
    (s.calls.map Prod.fst).Nodup := by
  refine h.invariant (P := fun s => (s.calls.map Prod.fst).Nodup) .nil ?_
  intro s a s' events hkeys hstep
  exact keys_of_step hstep hkeys

def Watched (turns : History) (s : System) : Prop :=
  ∀ call c, (call, c) ∈ s.calls → ∃ q, Waits turns s call c q

theorem request?_other {w : Nat} {wait : Duration} (hnew : s.call? call = none)
    (hw : (w, c) ∈ s.calls) : request? w ⟨s, .dequeue call token count wait, events⟩ = none := by
  have hne : call ≠ w := by
    rintro rfl
    exact Calls.not_mem_of_lookup hnew hw
  simp [request?, hne]

/-- A look for messages ends the call it is for, or puts it off; it hides messages from others at
most. -/
theorem watched_of_looked (h : s.Looked call q.token q.count q.deadline out)
    (hrange : ∀ e ∈ out.2, e.isPanic = false) (hrequest : requested? call turns = some q)
    (hwanted : q.count ≠ 0) (hcancelled : s.isCancelled q.token = true → CancelledNow q turns s)
    (hothers : ∀ w c, (w, c) ∈ s.calls → w ≠ call → ∃ q, Waits turns s w c q) :
    Watched turns out.1 := by
  cases h with
  | panicked =>
    have := hrange _ List.mem_cons_self
    contradiction
  | found hlease =>
    obtain ⟨entries, rfl, -, hleased⟩ := leased_of_lease hlease
    intro w c hw
    obtain ⟨hw, hne⟩ := Calls.mem_without.mp hw
    obtain ⟨q', hq'⟩ := hothers w c hw hne
    refine ⟨q', hq'.state rfl rfl fun e he => ?_⟩
    exact hleased.later (Nat.le_add_right _ _) he
  | waits hlease hpatient =>
    have hhidden := hidden_of_lease hlease hwanted
    obtain ⟨entries, rfl, -, hleased⟩ := leased_of_lease hlease
    obtain rfl := hleased.eq_self
    intro w c hw
    rcases Calls.mem_await.mp hw with ⟨hw, hne⟩ | ⟨rfl, rfl⟩
    · obtain ⟨q', hq'⟩ := hothers w c hw hne
      exact ⟨q', hq'.state rfl rfl fun e he => ⟨e, he, Nat.le_refl _⟩⟩
    · refine ⟨q, Waits.state (waits_new hrequest hwanted hcancelled hpatient hhidden) rfl rfl ?_⟩
      exact fun e he => ⟨e, he, Nat.le_refl _⟩

theorem Watched.kept {t : Turn System Action Event} (h : Watched turns s)
    (hcalls : ∀ w c, (w, c) ∈ s'.calls → (w, c) ∈ s.calls ∧ request? w t = none)
    (hnow : s'.now = s.now) (hcancelled : s'.cancelled = s.cancelled)
    (hentries : ∀ e ∈ s'.store.entries, e ∈ s.store.entries) :
    Watched (turns ++ [t]) s' := by
  intro w c hw
  obtain ⟨hw, hnone⟩ := hcalls w c hw
  obtain ⟨q, hq⟩ := h w c hw
  exact ⟨q, (hq.turn hnone).state hnow hcancelled fun e he => ⟨e, hentries e he, Nat.le_refl _⟩⟩

theorem watched_of_step (h : Watched turns s) (hkeys : (s.calls.map Prod.fst).Nodup)
    (hstep : s.step a = some (s', events)) (hrange : ∀ e ∈ events, e.isPanic = false) :
    Watched (turns ++ [⟨s, a, events⟩]) s' := by
  cases did_of_step hstep with
  | taken =>
    intro w c hw
    obtain ⟨⟨w', c₀⟩, hw', heq⟩ := List.mem_map.mp hw
    obtain ⟨rfl, rfl⟩ := Prod.mk.inj heq
    obtain ⟨q, hq⟩ := h w' c₀ hw'
    exact ⟨q, (hq.turn rfl).notified rfl rfl⟩
  | @notTaken _ _ _ r _ henqueue hr =>
    cases r with
    | taken verdicts => exact absurd rfl (hr verdicts)
    | refused e =>
      obtain rfl := eq_of_enqueue_refused henqueue
      exact h.kept (fun _ _ hw => ⟨hw, rfl⟩) rfl rfl fun _ he => he
    | panicked p =>
      have := hrange _ List.mem_cons_self
      contradiction
  | nothingWanted hnew =>
    exact h.kept (fun _ _ hw => ⟨hw, request?_other hnew hw⟩) rfl rfl fun _ he => he
  | overflowed =>
    have := hrange _ List.mem_cons_self
    contradiction
  | @asked call token count wait deadline _ hnew hcount hafter hlooked =>
    obtain rfl := Instant.eq_of_after? hafter
    let q : Request := { token, count, wait, time := s.now }
    refine watched_of_looked (q := q) hlooked hrange ?_ hcount ?_ ?_
    · rw [requested?_snoc]
      simp [request?, q]
    · exact fun hcancelled => ⟨hcancelled, .inr rfl⟩
    · intro w c hw hne
      obtain ⟨q', hq'⟩ := h w c hw
      exact ⟨q', hq'.turn (request?_other hnew hw)⟩
  | deleted hdelete =>
    obtain ⟨entries, rfl, hsublist⟩ := sublist_of_delete hdelete
    exact h.kept (fun _ _ hw => ⟨hw, rfl⟩) rfl rfl fun _ he => hsublist.subset he
  | @cancelled token =>
    intro w c hw
    obtain ⟨q, hq⟩ := h w c hw
    exact ⟨q, (hq.turn rfl).cancel (List.mem_append_right _ List.mem_cons_self) rfl rfl⟩
  | aborted =>
    exact h.kept (fun _ _ hw => ⟨(Calls.mem_without.mp hw).1, rfl⟩) rfl rfl fun _ he => he
  | @lookedAgain call c _ hcall _ hlooked =>
    obtain ⟨q, hq⟩ := h call c (Calls.mem_of_lookup hcall)
    have hq' : Waits (turns ++ [⟨s, .look call, events⟩]) s call c q := hq.turn rfl
    rw [hq.token, hq.count, hq.deadline] at hlooked
    refine watched_of_looked hlooked hrange hq'.request hq.wanted hq'.cancelled ?_
    intro w c' hw _
    obtain ⟨q', hq'⟩ := h w c' hw
    exact ⟨q', hq'.turn rfl⟩
  | cancelNoticed =>
    exact h.kept (fun _ _ hw => ⟨(Calls.mem_without.mp hw).1, rfl⟩) rfl rfl fun _ he => he
  | advanced _ hquiet hdues =>
    intro w c hw
    obtain ⟨q, hq⟩ := h w c hw
    have hrest := hq.resting (calm_of_quiet hquiet (Calls.lookup_of_mem hkeys hw))
    refine ⟨q, (hq.turn rfl).advance hrest (hdues _ ?_)⟩
    exact List.mem_map.mpr ⟨_, hw, rfl⟩

theorem watched_of_run {o : Options} (h : Run step (new o) turns s) (hrange : InRange turns) :
    Watched turns s := by
  induction h with
  | nil => exact fun _ _ hw => absurd hw List.not_mem_nil
  | snoc hrun hstep ih =>
    exact watched_of_step (ih hrange.left) (keys_of_run hrun) hstep hrange.last

theorem request?_eq_some {t : Turn System Action Event} (h : request? call t = some q) :
    t.action = .dequeue call q.token q.count q.wait ∧ q.time = t.before.now := by
  unfold request? at h
  split at h
  · rename_i caller token count wait haction
    obtain ⟨rfl, hq⟩ := Option.ite_none_right_eq_some.mp h
    obtain rfl := Option.some.inj hq
    exact ⟨haction, rfl⟩
  · cases h

theorem ends_of_looked {r : Reply} (h : s.Looked call token count q.deadline out)
    (hrange : ∀ e ∈ out.2, e.isPanic = false) (hwanted : count ≠ 0)
    (htime : s.now ≤ Instant.tick q.deadline) {w : Nat} (hreply : .replied w r ∈ out.2) :
    w = call ∧ Ends q turns s r := by
  cases h with
  | panicked =>
    have := hrange _ List.mem_cons_self
    contradiction
  | @found store messages hlease hreason =>
    obtain ⟨rfl, rfl⟩ : w = call ∧ r = .messages messages := by simpa [reply] using hreply
    refine ⟨rfl, ?_⟩
    cases messages with
    | nil =>
      have hlate := hreason.resolve_left fun h => h rfl
      exact .nothing hlate htime (hidden_of_lease hlease hwanted)
    | cons m ms =>
      obtain ⟨entries, -, -, hleased⟩ := leased_of_lease hlease
      exact .found (fun m' hm' => hleased.source hm') htime
  | waits => cases hreply

theorem ends_of_step {r : Reply} (h : Watched turns s) (hstep : s.step a = some (s', events))
    (hrange : ∀ e ∈ events, e.isPanic = false) (hreply : .replied call r ∈ events)
    (hrequest : requested? call (turns ++ [⟨s, a, events⟩]) = some q) (hwanted : q.count ≠ 0) :
    Ends q turns s r := by
  rw [requested?_snoc] at hrequest
  cases did_of_step hstep with
  | @nothingWanted w token wait =>
    obtain ⟨rfl, rfl⟩ : call = w ∧ r = .messages [] := by simpa using hreply
    simp only [request?, ↓reduceIte, Option.some_or, Option.some.injEq] at hrequest
    exact absurd (hrequest ▸ rfl) hwanted
  | overflowed =>
    have := hrange _ List.mem_cons_self
    contradiction
  | @asked w token count wait deadline _ _ hcount hafter hlooked =>
    obtain rfl := Instant.eq_of_after? hafter
    let new : Request := { token, count, wait, time := s.now }
    have htime : s.now ≤ Instant.tick new.deadline :=
      Nat.le_trans (Nat.le_add_right _ _) (Instant.le_tick _)
    obtain ⟨rfl, hends⟩ := ends_of_looked (q := new) hlooked hrange hcount htime hreply
    simp only [request?, ↓reduceIte, Option.some_or, Option.some.injEq] at hrequest
    exact hrequest ▸ hends
  | @lookedAgain w c _ hcall _ hlooked =>
    obtain ⟨q', hq⟩ := h w c (Calls.mem_of_lookup hcall)
    rw [hq.deadline] at hlooked
    obtain ⟨rfl, hends⟩ :=
      ends_of_looked hlooked hrange (hq.count ▸ hq.wanted) hq.time hreply
    simp only [request?, Option.none_or, hq.request, Option.some.injEq] at hrequest
    exact hrequest ▸ hends
  | @cancelNoticed w c hcall hcancelled =>
    obtain ⟨rfl, rfl⟩ : call = w ∧ r = .refused .cancelled := by simpa using hreply
    obtain ⟨q', hq⟩ := h call c (Calls.mem_of_lookup hcall)
    simp only [request?, Option.none_or, hq.request, Option.some.injEq] at hrequest
    rw [← hrequest]
    exact .cancelled (hq.cancelled (hq.token ▸ hcancelled)) hq.time
  | taken | notTaken | deleted => simp at hreply
  | cancelled | aborted | advanced => cases hreply

/-- A look for messages answers the call it is for, or leaves it pending, and so all others. -/
theorem pending_of_looked {w : Nat} (h : s.Looked w token count deadline out)
    (hcall : call = w ∨ ∃ c, (call, c) ∈ s.calls) :
    (∃ c, (call, c) ∈ out.1.calls) ∨ ∃ r, .replied call r ∈ out.2 := by
  by_cases hne : call = w
  · subst hne
    cases h with
    | panicked => exact .inr ⟨_, List.mem_cons_self⟩
    | found => exact .inr ⟨_, List.mem_cons_self⟩
    | waits => exact .inl ⟨_, Calls.mem_await.mpr (.inr ⟨rfl, rfl⟩)⟩
  · obtain ⟨c, hc⟩ := hcall.resolve_left hne
    cases h with
    | panicked => exact .inl ⟨c, Calls.mem_without.mpr ⟨hc, hne⟩⟩
    | found => exact .inl ⟨c, Calls.mem_without.mpr ⟨hc, hne⟩⟩
    | waits => exact .inl ⟨c, Calls.mem_await.mpr (.inl ⟨hc, hne⟩)⟩

/-- A pending call stays pending until it is answered or given up. -/
theorem pending_of_step (hc : (call, c) ∈ s.calls) (h : s.step a = some (s', events)) :
    (∃ c, (call, c) ∈ s'.calls) ∨ a = .abort call ∨ ∃ r, .replied call r ∈ events := by
  cases did_of_step h with
  | taken => exact .inl ⟨_, List.mem_map.mpr ⟨_, hc, rfl⟩⟩
  | asked _ _ _ hlooked => exact (pending_of_looked hlooked (.inr ⟨c, hc⟩)).imp_right .inr
  | lookedAgain _ _ hlooked => exact (pending_of_looked hlooked (.inr ⟨c, hc⟩)).imp_right .inr
  | @aborted w =>
    by_cases hne : call = w
    · exact .inr (.inl (by rw [hne]))
    · exact .inl ⟨c, Calls.mem_without.mpr ⟨hc, hne⟩⟩
  | @cancelNoticed w =>
    by_cases hne : call = w
    · subst hne
      exact .inr (.inr ⟨_, List.mem_cons_self⟩)
    · exact .inl ⟨c, Calls.mem_without.mpr ⟨hc, hne⟩⟩
  | _ => exact .inl ⟨c, hc⟩

theorem pending_of_dequeue {wait : Duration}
    (h : s.step (.dequeue call token count wait) = some (s', events)) (hwanted : count ≠ 0) :
    (∃ c, (call, c) ∈ s'.calls) ∨ ∃ r, .replied call r ∈ events := by
  cases did_of_step h with
  | nothingWanted => exact absurd rfl hwanted
  | overflowed => exact .inr ⟨_, List.mem_cons_self⟩
  | asked _ _ _ hlooked => exact pending_of_looked hlooked (.inl rfl)

/-- A call to dequeue is pending, was given up, or was answered. -/
theorem answered_of_run {o : Options} {before after : History} {t : Turn System Action Event}
    (h : Run step (new o) (before ++ t :: after) s) (ht : request? call t = some q)
    (hwanted : q.count ≠ 0) :
    (∃ c, (call, c) ∈ s.calls) ∨ (∃ t' ∈ after, t'.action = .abort call) ∨
      ∃ t' ∈ t :: after, ∃ r, .replied call r ∈ t'.events := by
  induction after using List.reverseRecOn generalizing s with
  | nil =>
    obtain ⟨-, hstep⟩ := h.snoc_inv
    rw [(request?_eq_some ht).1] at hstep
    rcases pending_of_dequeue hstep hwanted with hpending | ⟨r, hr⟩
    · exact .inl hpending
    · exact .inr (.inr ⟨t, by simp, r, hr⟩)
  | append_singleton after t' ih =>
    rw [← List.cons_append, ← List.append_assoc] at h
    obtain ⟨hrun, hstep⟩ := h.snoc_inv
    rcases ih hrun with ⟨c, hc⟩ | ⟨u, hu, habort⟩ | ⟨u, hu, hreply⟩
    · rcases pending_of_step hc hstep with hpending | habort | hreply
      · exact .inl hpending
      · exact .inr (.inl ⟨t', by simp, habort⟩)
      · exact .inr (.inr ⟨t', by simp, hreply⟩)
    · exact .inr (.inl ⟨u, List.mem_append_left _ hu, habort⟩)
    · refine .inr (.inr ⟨u, ?_, hreply⟩)
      rw [← List.cons_append]
      exact List.mem_append_left _ hu

/-- How often a pending call can still go on by itself at this instant. -/
def urgency (s : System) (c : Call) : Nat :=
  (decide (c.notified = true ∨ c.wakeAt ≤ s.now)).toNat + (s.isCancelled c.token).toNat

def unrest (s : System) : Nat := (s.calls.map fun e => s.urgency e.2).sum

theorem urgency_le (s : System) (c : Call) : s.urgency c ≤ 2 := by
  have htoNat (b : Bool) : b.toNat ≤ 1 := by cases b <;> decide
  exact Nat.add_le_add (htoNat _) (htoNat _)

theorem unrest_le (s : System) : s.unrest ≤ 2 * s.calls.length := by
  unfold unrest
  induction s.calls with
  | nil => simp
  | cons e calls ih =>
    have hle := s.urgency_le e.2
    rw [List.map_cons, List.sum_cons, List.length_cons]
    omega

theorem unrest_eq (hkeys : (s.calls.map Prod.fst).Nodup) (hcall : s.call? call = some c) :
    s.unrest = s.urgency c + ((s.calls.filter (·.1 != call)).map fun e => s.urgency e.2).sum := by
  have hperm := Calls.perm_without hkeys (Calls.mem_of_lookup hcall)
  exact ((hperm.map fun e : Nat × Call => s.urgency e.2).sum_nat).trans List.sum_cons

/-- A pending call that goes on comes back, or has less reason to go on again. -/
theorem unrest_lt_of_own (hkeys : (s.calls.map Prod.fst).Nodup) (ha : a.isOwn = true)
    (h : s.step a = some (s', events)) : s'.unrest < s.unrest ∧ s'.now = s.now := by
  cases did_of_step h with
  | @lookedAgain call c _ hcall hdue hlooked =>
    have hsum := unrest_eq hkeys hcall
    have hurgent : s.urgency c = 1 + (s.isCancelled c.token).toNat := by
      simp [urgency, hdue]
    cases hlooked with
    | panicked | found =>
      refine ⟨?_, rfl⟩
      rw [hsum, hurgent]
      change ((s.calls.filter (·.1 != call)).map fun e => s.urgency e.2).sum < _
      omega
    | @waits store hlease hpatient =>
      refine ⟨?_, rfl⟩
      have hlater : ¬ s.wakeTime c.deadline ≤ s.now := Nat.not_le.mpr (lt_wakeTime hpatient)
      let again : Call := { c with wakeAt := s.wakeTime c.deadline, notified := false }
      have hcalm : s.urgency again = (s.isCancelled c.token).toNat := by
        simp [urgency, hlater, again]
      rw [hsum, hurgent]
      change ((s.calls.filter (·.1 != call) ++ [(call, again)]).map fun e => s.urgency e.2).sum < _
      rw [List.map_append, List.sum_append, List.map_singleton, List.sum_singleton, hcalm]
      omega
  | @cancelNoticed call c hcall hcancelled =>
    have hsum := unrest_eq hkeys hcall
    have hurgent : 0 < s.urgency c := by
      rw [urgency, hcancelled, Bool.toNat_true]
      omega
    refine ⟨?_, rfl⟩
    rw [hsum]
    change ((s.calls.filter (·.1 != call)).map fun e => s.urgency e.2).sum < _
    omega
  | _ => cases ha

/-- Pending calls go on by themselves only so often. -/
theorem length_le_of_own {more : History} (h : Run step s more s')
    (hkeys : (s.calls.map Prod.fst).Nodup) (hown : ∀ t ∈ more, t.action.isOwn = true) :
    more.length + s'.unrest ≤ s.unrest ∧ (s'.calls.map Prod.fst).Nodup ∧ s'.now = s.now := by
  induction h with
  | nil => exact ⟨by simp, hkeys, rfl⟩
  | @snoc more s₁ s₂ a events _ hstep ih =>
    obtain ⟨hle, hkeys₁, hnow⟩ := ih fun t ht => hown t (List.mem_append_left _ ht)
    have hlast := hown _ (List.mem_append_right _ List.mem_cons_self)
    obtain ⟨hlt, hnow'⟩ := unrest_lt_of_own hkeys₁ hlast hstep
    refine ⟨?_, keys_of_step hstep hkeys₁, hnow'.trans hnow⟩
    rw [List.length_append, List.length_singleton]
    omega

theorem exists_own (h : s.quiet = false) : ∃ a out, a.isOwn = true ∧ s.step a = some out := by
  obtain ⟨⟨call, c⟩, -, hidle⟩ := List.all_eq_false.mp h
  rw [Bool.and_eq_true, not_and_or] at hidle
  rcases hidle with hlook | hnotice
  · obtain ⟨out, hout⟩ := Option.ne_none_iff_exists'.mp (by simpa using hlook)
    exact ⟨.look call, out, rfl, hout⟩
  · obtain ⟨out, hout⟩ := Option.ne_none_iff_exists'.mp (by simpa using hnotice)
    exact ⟨.noticeCancel call, out, rfl, hout⟩

/-- Whatever the pending calls do comes to rest at this instant. -/
theorem exists_rest (hkeys : (s.calls.map Prod.fst).Nodup) :
    ∃ more s', Run step s more s' ∧ (∀ t ∈ more, t.action.isOwn = true) ∧ s'.quiet = true := by
  generalize hn : s.unrest = n
  induction n using Nat.strongRecOn generalizing s with
  | ind n ih =>
    cases hquiet : s.quiet with
    | true => exact ⟨[], s, .nil, by simp, hquiet⟩
    | false =>
      obtain ⟨a, ⟨s₁, events⟩, ha, hstep⟩ := exists_own hquiet
      have hlt := (unrest_lt_of_own hkeys ha hstep).1
      obtain ⟨more, s', hrun, hown, hrest⟩ := ih _ (hn ▸ hlt) (keys_of_step hstep hkeys) rfl
      refine ⟨[⟨s, a, events⟩] ++ more, s', (Run.of_step hstep).append hrun, ?_, hrest⟩
      intro t ht
      rcases List.mem_append.mp ht with ht | ht
      · obtain rfl := List.mem_singleton.mp ht
        exact ha
      · exact hown t ht

/-- How it goes with a call to dequeue that was made in a turn between others. -/
structure Prompt (call : Nat) (q : Request) (before : History) (t₀ : Turn System Action Event)
    (after : History) (s : System) : Prop where
  /-- It is pending until it is given up or answered. -/
  pending : (s.call? call).isSome = true ∨ (∃ t ∈ after, t.action = .abort call) ∨
    ∃ t ∈ t₀ :: after, ∃ r, .replied call r ∈ t.events
  /-- It comes back at once if a message is there, or if it has no patience. -/
  starts : ((∃ e ∈ t₀.before.store.entries, e.visibleAt ≤ t₀.before.now) ∨ q.wait.total = 0) →
    ∃ ms, .replied call (.messages ms) ∈ t₀.events
  /-- When nothing can go on but by time or by another call, it has reason to wait. -/
  rests : s.quiet = true → (s.call? call).isSome = true → Resting q s
  /-- Whatever the pending calls do, soon nothing can go on, and no time has passed. -/
  settles : (∃ more s', Run step s more s' ∧ (∀ t ∈ more, t.action.isOwn = true) ∧
      s'.quiet = true) ∧
    ∀ more s', Run step s more s' → (∀ t ∈ more, t.action.isOwn = true) →
      more.length ≤ 2 * s.calls.length ∧ s'.now = s.now
  /-- Time passes only while it has reason to wait, and never past the end of its patience or the
  moment at which a message becomes visible. -/
  punctual : ∀ t ∈ after, ∀ now, t.action = .advance now → (t.before.call? call).isSome = true →
    Resting q t.before ∧ now ≤ Instant.tick q.deadline ∧
      ∀ e ∈ t.before.store.entries, now ≤ Instant.tick e.visibleAt
  ends : ∀ earlier t later r, t₀ :: after = earlier ++ t :: later → .replied call r ∈ t.events →
    Ends q (before ++ earlier) t.before r

theorem waits_of_pending {before after : History} {t₀ : Turn System Action Event}
    (hwatched : Watched (before ++ t₀ :: after) s) (hcall : request? call t₀ = some q)
    (hlast : ∀ t ∈ after, request? call t = none) (hpending : (s.call? call).isSome = true) :
    ∃ c, s.call? call = some c ∧ Waits (before ++ t₀ :: after) s call c q := by
  obtain ⟨c, hc⟩ := Option.isSome_iff_exists.mp hpending
  obtain ⟨q', hq⟩ := hwatched call c (Calls.mem_of_lookup hc)
  obtain rfl := Option.some.inj ((requested?_eq hcall hlast).symm.trans hq.request)
  exact ⟨c, hc, hq⟩

/-- A call that finds a message, or may not wait for one, comes back at once. -/
theorem replied_of_dequeue {wait : Duration}
    (h : s.step (.dequeue call token count wait) = some (s', events))
    (hrange : ∀ e ∈ events, e.isPanic = false) (hwanted : count ≠ 0)
    (hreason : (∃ e ∈ s.store.entries, e.visibleAt ≤ s.now) ∨ wait.total = 0) :
    ∃ ms, .replied call (.messages ms) ∈ events := by
  cases did_of_step h with
  | nothingWanted => exact absurd rfl hwanted
  | overflowed =>
    have := hrange _ List.mem_cons_self
    contradiction
  | asked _ _ hafter hlooked =>
    obtain rfl := Instant.eq_of_after? hafter
    cases hlooked with
    | panicked =>
      have := hrange _ List.mem_cons_self
      contradiction
    | found => exact ⟨_, List.mem_cons_self⟩
    | waits hlease hpatient =>
      rcases hreason with ⟨e, he, hvisible⟩ | hzero
      · exact absurd hvisible (Nat.not_le.mpr (hidden_of_lease hlease hwanted e he))
      · omega

theorem advanced_of_step {now : Nat} (h : s.step (.advance now) = some (s', events)) :
    s.quiet = true ∧ ∀ due ∈ s.dues, now ≤ Instant.tick due := by
  cases did_of_step h with
  | advanced _ hquiet hdues => exact ⟨hquiet, hdues⟩

/-- Time passes beside a pending call only while the call has reason to wait, and never past what
it waits for. -/
theorem resting_of_advance {o : Options} {before after : History} {t₀ t : Turn System Action Event}
    (h : Run step (new o) (before ++ t₀ :: after) s) (hrange : InRange (before ++ t₀ :: after))
    (hcall : request? call t₀ = some q) (hlast : ∀ t ∈ after, request? call t = none)
    (ht : t ∈ after) {now : Nat} (hadvance : t.action = .advance now)
    (hpending : (t.before.call? call).isSome = true) :
    Resting q t.before ∧ now ≤ Instant.tick q.deadline ∧
      ∀ e ∈ t.before.store.entries, now ≤ Instant.tick e.visibleAt := by
  obtain ⟨earlier, later, rfl⟩ := List.append_of_mem ht
  rw [← List.cons_append, ← List.append_assoc, List.append_cons] at h hrange
  obtain ⟨s₁, hturns, -⟩ := h.cut
  obtain ⟨hrun, hstep⟩ := hturns.snoc_inv
  obtain ⟨c, hc, hwaits⟩ := waits_of_pending (watched_of_run hrun hrange.left.left) hcall
    (fun u hu => hlast u (List.mem_append_left _ hu)) hpending
  obtain ⟨hquiet, hdues⟩ := advanced_of_step (hadvance ▸ hstep)
  have hdue : now ≤ Instant.tick c.wakeAt :=
    hdues _ (List.mem_map.mpr ⟨_, Calls.mem_of_lookup hc, rfl⟩)
  have hcalm := calm_of_quiet hquiet hc
  refine ⟨hwaits.resting hcalm, Nat.le_trans hdue (Instant.tick_mono hwaits.wakes), ?_⟩
  intro e he
  exact Nat.le_trans hdue (Instant.tick_mono ((hwaits.watchful hcalm).2 e he))

/-- Every answer to a call has a cause, in the turn that made the call or in a later one. -/
theorem ends_of_run {o : Options} {before after earlier later : History}
    {t₀ t : Turn System Action Event} {r : Reply}
    (h : Run step (new o) (before ++ t₀ :: after) s) (hrange : InRange (before ++ t₀ :: after))
    (hcall : request? call t₀ = some q) (hwanted : q.count ≠ 0)
    (hlast : ∀ t ∈ after, request? call t = none) (hsplit : t₀ :: after = earlier ++ t :: later)
    (hreply : .replied call r ∈ t.events) : Ends q (before ++ earlier) t.before r := by
  rw [hsplit, ← List.append_assoc, List.append_cons] at h hrange
  obtain ⟨s₁, hturns, -⟩ := h.cut
  obtain ⟨hrun, hstep⟩ := hturns.snoc_inv
  refine ends_of_step (watched_of_run hrun hrange.left.left) hstep hrange.left.last hreply ?_ hwanted
  rw [List.append_assoc]
  cases earlier with
  | nil =>
    obtain ⟨rfl, -⟩ := List.cons.inj hsplit
    exact requested?_eq hcall (by simp)
  | cons u earlier =>
    rw [List.cons_append] at hsplit
    obtain ⟨rfl, rfl⟩ := List.cons.inj hsplit
    refine requested?_eq hcall fun u hu => hlast u ?_
    rcases List.mem_append.mp hu with hu | hu
    · exact List.mem_append_left _ hu
    · obtain rfl := List.mem_singleton.mp hu
      exact List.mem_append_right _ List.mem_cons_self

/-- No call to dequeue misses a message: it waits only while there is nothing to be had, and comes
back at the first instant at which there is, or when it is cancelled or its patience is over. -/
theorem dequeues_prompt {o : Options} {before after : History} {t₀ : Turn System Action Event}
    (h : Run step (new o) (before ++ t₀ :: after) s) (hrange : InRange (before ++ t₀ :: after))
    (hcall : request? call t₀ = some q) (hwanted : q.count ≠ 0)
    (hlast : ∀ t ∈ after, request? call t = none) : Prompt call q before t₀ after s := by
  have hkeys := keys_of_run h
  refine ⟨?pending, ?starts, ?rests, ⟨exists_rest hkeys, ?settles⟩, ?punctual, ?ends⟩
  case pending =>
    refine (answered_of_run h hcall hwanted).imp_left ?_
    rintro ⟨c, hc⟩
    rw [call?, Calls.lookup_of_mem hkeys hc]
    rfl
  case starts =>
    intro hreason
    rw [List.append_cons] at h hrange
    obtain ⟨s₁, hturns, -⟩ := h.cut
    obtain ⟨-, hstep⟩ := hturns.snoc_inv
    rw [(request?_eq_some hcall).1] at hstep
    exact replied_of_dequeue hstep hrange.left.last hwanted hreason
  case rests =>
    intro hquiet hpending
    obtain ⟨c, hc, hwaits⟩ := waits_of_pending (watched_of_run h hrange) hcall hlast hpending
    exact hwaits.resting (calm_of_quiet hquiet hc)
  case settles =>
    intro more s' hmore hown
    obtain ⟨hle, -, hnow⟩ := length_le_of_own hmore hkeys hown
    have := s.unrest_le
    exact ⟨by omega, hnow⟩
  case punctual =>
    intro t ht now hadvance hpending
    exact resting_of_advance h hrange hcall hlast ht hadvance hpending
  case ends =>
    intro earlier t later r hsplit hreply
    exact ends_of_run h hrange hcall hwanted hlast hsplit hreply

def lateNote : Message :=
  { trace := "a", delay := .ofMillis 2, service := "orders", method := "create", body := [] }

/-- A call waits, is told of a message that is still hidden, and gets it when its delay is over. -/
def lateRun : List Action :=
  [.dequeue 1 "consumer" 2 (.ofMillis 10), .advance (Instant.ofMillis 3),
    .enqueue "producer" [lateNote], .look 1, .advance (Instant.ofMillis 5), .look 1]

theorem dequeues_prompt_lateRun : ∃ t₀ after s, Run step (new {}) (t₀ :: after) s ∧
    InRange (t₀ :: after) ∧
    Prompt 1 { token := "consumer", count := 2, wait := .ofMillis 10, time := 0 } [] t₀ after s ∧
    (deliveries (t₀ :: after)).map (fun d => (d.messages.map (·.trace), d.time)) =
      [(["a"], Instant.ofMillis 5)] := by
  let q : Request := { token := "consumer", count := 2, wait := .ofMillis 10, time := 0 }
  have hseen : (replay step (new {}) lateRun).map (fun r =>
      (r.1.map (request? 1), (deliveries r.1).map (fun d => (d.messages.map (·.trace), d.time)),
        r.1.all fun t => t.events.all fun e => !e.isPanic)) =
      some ([some q, none, none, none, none, none], [(["a"], Instant.ofMillis 5)], true) := by
    decide +kernel
  obtain ⟨⟨turns, s⟩, hreplay, hseen⟩ := Option.map_eq_some_iff.mp hseen
  simp only [Prod.mk.injEq] at hseen
  obtain ⟨hrequests, hdeliveries, hrange⟩ := hseen
  have hrange := InRange.of_all hrange
  have hrun := Run.of_replay hreplay
  obtain ⟨t₀, after, rfl, hcall, hlast⟩ := List.map_eq_cons_iff.mp hrequests
  have hlast : ∀ t ∈ after, request? 1 t = none := by
    intro t ht
    have hmem := List.mem_map_of_mem (f := request? 1) ht
    rw [hlast] at hmem
    simpa using hmem
  exact ⟨t₀, after, s, hrun, hrange, dequeues_prompt hrun hrange hcall (by decide) hlast,
    hdeliveries⟩

end System

end Batchflow.Queue
