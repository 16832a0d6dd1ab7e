import Batchflow.Proofs.Queue.History

/-!
# Who sees a message, and when

A message is hidden until its delay is over, and after each delivery until the lease runs out.  Both
are kept in one instant beside the message.  What the history says about that instant is an
invariant, and so every delivery comes after the delay, outside all earlier leases, and with
receipts that nobody has seen before.
-/

namespace Batchflow.Queue

open Store

def SentIn (turns : History) (a : Acceptance) : Prop :=
  ∃ t ∈ turns, ∃ token batch, t.action = .enqueue token batch ∧ t.before.now = a.time ∧
    ∃ m ∈ batch, a.message = { m with id := a.message.id }

/-- What a consumer may rely on when messages come back at some time after these turns. -/
structure Rightful (o : Options) (turns : History) (now : Nat) (messages : List Message) :
    Prop where
  distinct : (messages.map (·.id)).Nodup
  /-- Each is a message that was accepted, and its delay is over. -/
  accepted : ∀ m ∈ messages, ∃ a ∈ acceptances turns, SentIn turns a ∧
    m = { a.message with handle := m.handle } ∧ a.time + a.message.delay.total ≤ now ∧
    ∀ b ∈ acceptances turns, b.message.id = m.id → b = a
  /-- No earlier delivery of the same message still hides it. -/
  exclusive : ∀ d ∈ deliveries turns, ∀ m' ∈ d.messages, ∀ m ∈ messages, m'.id = m.id →
    d.time + o.visibility.total ≤ now
  /-- Each has a receipt of its own, which was never issued before. -/
  receipts : (messages.map (·.handle)).Nodup
  fresh : ∀ m ∈ messages, m.handle ≠ none ∧
    ∀ d ∈ deliveries turns, ∀ m' ∈ d.messages, m'.handle ≠ m.handle

/-- What the acceptances and deliveries so far say about the store. -/
structure Agrees (o : Options) (as : List Acceptance) (ds : List Delivery) (s : Store) : Prop where
  options : s.options = o
  minted : ∀ a ∈ as, Minted .message s.minted a.message.id
  ids : (as.map (·.message.id)).Nodup
  entries : (s.entries.map (·.message.id)).Nodup
  stored : ∀ e ∈ s.entries, ∃ a ∈ as, e.message = a.message ∧
    a.time + a.message.delay.total ≤ e.visibleAt
  issued : ∀ d ∈ ds, ∀ m ∈ d.messages,
    Minted .message s.minted m.id ∧ Minted .receipt s.minted m.handle
  hidden : ∀ d ∈ ds, ∀ m ∈ d.messages, ∀ e ∈ s.entries, m.id = e.message.id →
    d.time + o.visibility.total ≤ e.visibleAt

namespace Agrees

variable {o : Options} {as : List Acceptance} {ds : List Delivery} {s : Store}
  {entries : List Entry} {messages : List Message} {now : Nat}

theorem new (o : Options) : Agrees o [] [] { options := o } where
  options := rfl
  minted := by simp
  ids := .nil
  entries := .nil
  stored := by simp
  issued := by simp
  hidden := by simp

theorem minted_entry {e : Entry} (h : Agrees o as ds s) (he : e ∈ s.entries) :
    Minted .message s.minted e.message.id := by
  obtain ⟨a, ha, hmessage, -⟩ := h.stored e he
  rw [hmessage]
  exact h.minted a ha

theorem removed (h : Agrees o as ds s) (hsublist : entries.Sublist s.entries) :
    Agrees o as ds { s with entries } where
  options := h.options
  minted := h.minted
  ids := h.ids
  entries := h.entries.sublist (hsublist.map _)
  stored e he := h.stored e (hsublist.subset he)
  issued := h.issued
  hidden d hd m hm e he := h.hidden d hd m hm e (hsublist.subset he)

/-- New entries have ids that no message has had, so nothing delivered before concerns them. -/
theorem accepted {batch : List Message} {verdicts : List Verdict} (h : Agrees o as ds s)
    (haccepted : Accepted now s.minted batch entries verdicts) :
    Agrees o (as ++ (entries.map (·.message)).map (⟨·, now⟩)) ds
      { s with entries := s.entries ++ entries, minted := s.minted + entries.length } := by
  have hnames := names_nodup .message s.minted entries.length
  rw [← haccepted.ids] at hnames
  have hnew (e : Entry) (he : e ∈ entries) :
      e.message.id ∈ names .message s.minted entries.length := by
    rw [← haccepted.ids]
    exact List.mem_map_of_mem he
  have hle : s.minted ≤ s.minted + entries.length := Nat.le_add_right _ _
  refine ⟨h.options, ?minted, ?ids, ?entries, ?stored, ?issued, ?hidden⟩
  case minted =>
    intro a ha
    rcases List.mem_append.mp ha with ha | ha
    · exact (h.minted a ha).mono hle
    · obtain ⟨e, he, rfl⟩ := List.mem_map.mp (List.map_map ▸ ha)
      exact minted_of_mem_names (hnew e he)
  case ids =>
    rw [List.map_append, List.map_map, List.map_map]
    refine List.nodup_append.mpr ⟨h.ids, hnames, ?_⟩
    intro old hold new hnew'
    obtain ⟨a, ha, rfl⟩ := List.mem_map.mp hold
    obtain ⟨e, he, rfl⟩ := List.mem_map.mp hnew'
    exact (h.minted a ha).ne_of_mem_names (hnew e he)
  case entries =>
    rw [List.map_append]
    refine List.nodup_append.mpr ⟨h.entries, hnames, ?_⟩
    intro old hold new hnew'
    obtain ⟨e₀, he₀, rfl⟩ := List.mem_map.mp hold
    obtain ⟨e, he, rfl⟩ := List.mem_map.mp hnew'
    exact (h.minted_entry he₀).ne_of_mem_names (hnew e he)
  case stored =>
    intro e he
    rcases List.mem_append.mp he with he | he
    · obtain ⟨a, ha, hrest⟩ := h.stored e he
      exact ⟨a, List.mem_append_left _ ha, hrest⟩
    · refine ⟨⟨e.message, now⟩, List.mem_append_right _ ?_, rfl, ?_⟩
      · exact List.mem_map_of_mem (List.mem_map_of_mem he)
      · exact Nat.le_of_eq (haccepted.sent he).2.1.symm
  case issued =>
    intro d hd m hm
    obtain ⟨hid, hhandle⟩ := h.issued d hd m hm
    exact ⟨hid.mono hle, hhandle.mono hle⟩
  case hidden =>
    intro d hd m hm e he hid
    rcases List.mem_append.mp he with he | he
    · exact h.hidden d hd m hm e he hid
    · exact absurd hid ((h.issued d hd m hm).1.ne_of_mem_names (hnew e he))

/-- A message is delivered when it is visible, and then hidden for the time of a lease. -/
theorem delivered (h : Agrees o as ds s)
    (hleased : Leased now (now + s.options.visibility.total) s.minted s.entries entries messages) :
    Agrees o as (ds ++ [⟨messages, now⟩])
      { s with entries, minted := s.minted + messages.length } := by
  have hids : entries.map (·.message.id) = s.entries.map (·.message.id) := by
    have hmessages := congrArg (List.map (·.id)) hleased.messages_eq
    rwa [List.map_map, List.map_map] at hmessages
  have hle : s.minted ≤ s.minted + messages.length := Nat.le_add_right _ _
  refine ⟨h.options, ?minted, h.ids, ?entries, ?stored, ?issued, ?hidden⟩
  case minted =>
    intro a ha
    exact (h.minted a ha).mono hle
  case entries =>
    rw [hids]
    exact h.entries
  case stored =>
    intro e he
    rcases hleased.entry h.entries he with ⟨he, -⟩ | ⟨hagain, e₀, he₀, hmessage, hvisible⟩
    · exact h.stored e he
    · obtain ⟨a, ha, hsame, hdelay⟩ := h.stored e₀ he₀
      refine ⟨a, ha, hmessage.symm.trans hsame, ?_⟩
      omega
  case issued =>
    intro d hd m hm
    rcases List.mem_append.mp hd with hd | hd
    · obtain ⟨hid, hhandle⟩ := h.issued d hd m hm
      exact ⟨hid.mono hle, hhandle.mono hle⟩
    · obtain rfl := List.mem_singleton.mp hd
      obtain ⟨e, he, -, hsame⟩ := hleased.source hm
      refine ⟨?_, minted_of_mem_names (hleased.handles ▸ List.mem_map_of_mem hm)⟩
      rw [hsame]
      exact (h.minted_entry he).mono hle
  case hidden =>
    intro d hd m hm e he hid
    rcases List.mem_append.mp hd with hd | hd
    · rcases hleased.entry h.entries he with ⟨he, -⟩ | ⟨hagain, e₀, he₀, hmessage, hvisible⟩
      · exact h.hidden d hd m hm e he hid
      · have := h.hidden d hd m hm e₀ he₀ (by rw [hid, hmessage])
        omega
    · obtain rfl := List.mem_singleton.mp hd
      rcases hleased.entry h.entries he with ⟨-, hnot⟩ | ⟨hagain, -⟩
      · exact absurd (hid ▸ List.mem_map_of_mem hm) hnot
      · exact Nat.le_of_eq (by rw [hagain, h.options])

end Agrees

namespace System

variable {o : Options} {s s' : System} {turns : History}

theorem agrees_of_run (h : Run step (new o) turns s) (hrange : InRange turns) :
    Agrees o (acceptances turns) (deliveries turns) s.store := by
  induction h with
  | nil => exact .new o
  | snoc _ hstep ih =>
    have hagrees := ih hrange.left
    rw [acceptances_snoc, deliveries_snoc]
    cases effect_of_step hstep hrange.last with
    | accepted haccepted hstore =>
      have := hagrees.accepted haccepted
      rw [haccepted.messages] at this
      simpa [hstore, Event.accepted, List.filterMap_cons, Event.delivered?] using this
    | delivered hleased hstore =>
      simpa [hstore, Event.accepted, Event.delivered?] using hagrees.delivered hleased
    | removed hsublist hstore haccepted hdelivered =>
      simpa [hstore, haccepted, hdelivered] using hagrees.removed hsublist

theorem sent_of_run {a : Acceptance} (h : Run step (new o) turns s) (hrange : InRange turns)
    (ha : a ∈ acceptances turns) : SentIn turns a := by
  obtain ⟨t, ht, ha⟩ := List.mem_flatMap.mp ha
  obtain ⟨m, hm, rfl⟩ := List.mem_map.mp ha
  obtain ⟨-, -, s₁, -, -, hstep, -⟩ := h.split ht
  have hturn := hrange t ht
  obtain ⟨before, action, events⟩ := t
  cases effect_of_step hstep hturn with
  | @accepted token batch _ _ _ _ haccepted =>
    refine ⟨_, ht, token, batch, rfl, rfl, ?_⟩
    simp only [List.flatMap_singleton, Event.accepted, ← haccepted.messages] at hm
    obtain ⟨e, he, rfl⟩ := List.mem_map.mp hm
    exact (haccepted.sent he).1
  | delivered => simp [Event.accepted] at hm
  | removed _ _ hnone => simp [hnone] at hm

def Asked (turns : History) (s : System) : Prop :=
  ∀ call c, (call, c) ∈ s.calls → asked? call turns = some c.count

def Modest (turns : History) (events : List Event) : Prop :=
  ∀ call messages, .replied call (.messages messages) ∈ events →
    ∃ count, asked? call turns = some count ∧ messages.length ≤ count

theorem asked_of_looked {call count deadline : Nat} {token : String} {out : Outcome}
    (h : s.Looked call token count deadline out) (hcall : asked? call turns = some count)
    (hothers : ∀ w c, (w, c) ∈ s.calls → w ≠ call → asked? w turns = some c.count) :
    Asked turns out.1 ∧ Modest turns out.2 := by
  have hforgotten (store : Store) : Asked turns (({ s with store } : System).forget call) := by
    intro w c hw
    obtain ⟨hw, hne⟩ := Calls.mem_without.mp hw
    exact hothers w c hw hne
  cases h with
  | @panicked store p =>
    refine ⟨hforgotten store, ?_⟩
    intro w messages hw
    simp [reply] at hw
  | @found store messages hlease =>
    refine ⟨hforgotten store, ?_⟩
    intro w ms hw
    obtain ⟨rfl, rfl⟩ : w = call ∧ ms = messages := by simpa [reply] using hw
    obtain ⟨-, -, hcount, -⟩ := leased_of_lease hlease
    exact ⟨count, hcall, hcount⟩
  | waits =>
    refine ⟨?_, fun _ _ hw => absurd hw List.not_mem_nil⟩
    intro w c hw
    rcases Calls.mem_await.mp hw with ⟨hw, hne⟩ | ⟨rfl, rfl⟩
    · exact hothers w c hw hne
    · exact hcall

theorem Asked.kept {a : Action} {events : List Event} (h : Asked turns s)
    (hnone : ∀ call, a.count? call = none)
    (hcalls : ∀ call c, (call, c) ∈ s'.calls → ∃ c₀, (call, c₀) ∈ s.calls ∧ c.count = c₀.count) :
    Asked (turns ++ [⟨s, a, events⟩]) s' := by
  intro call c hc
  obtain ⟨c₀, hc₀, hcount⟩ := hcalls call c hc
  rw [asked?_snoc, hnone call, hcount]
  exact h call c₀ hc₀

theorem Asked.others {call count : Nat} {token : String} {wait : Duration} {events : List Event}
    (h : Asked turns s) (hnew : s.call? call = none) {w : Nat} {c : Call} (hw : (w, c) ∈ s.calls) :
    asked? w (turns ++ [⟨s, .dequeue call token count wait, events⟩]) = some c.count := by
  have hne : call ≠ w := by
    rintro rfl
    exact Calls.not_mem_of_lookup hnew hw
  rw [asked?_snoc]
  simpa [Action.count?, hne] using h w c hw

theorem Modest.of_none {events : List Event} (h : events.filterMap Event.delivered? = []) :
    Modest turns events := by
  intro call messages hreply
  exact absurd rfl (List.filterMap_eq_nil_iff.mp h _ hreply ▸ Option.some_ne_none messages)

theorem asked_of_step {a : Action} {events : List Event} (h : Asked turns s)
    (hstep : s.step a = some (s', events)) :
    Asked (turns ++ [⟨s, a, events⟩]) s' ∧ Modest (turns ++ [⟨s, a, events⟩]) events := by
  have hnew (call count token wait) : asked? call
      (turns ++ [⟨s, .dequeue call token count wait, events⟩]) = some count := by
    simp [asked?_snoc, Action.count?]
  cases did_of_step hstep with
  | taken =>
    refine ⟨h.kept (fun _ => rfl) ?_, .of_none rfl⟩
    intro call c hc
    obtain ⟨⟨w, c₀⟩, hc₀, heq⟩ := List.mem_map.mp hc
    obtain ⟨rfl, rfl⟩ := Prod.mk.inj heq
    exact ⟨c₀, hc₀, rfl⟩
  | @notTaken _ _ _ r _ _ hr =>
    refine ⟨h.kept (fun _ => rfl) fun _ c hc => ⟨c, hc, rfl⟩, .of_none rfl⟩
  | nothingWanted hfree =>
    refine ⟨fun w c hw => h.others hfree hw, ?_⟩
    intro w messages hw
    obtain ⟨rfl, rfl⟩ : w = _ ∧ messages = [] := by simpa using hw
    exact ⟨0, hnew .., Nat.le_refl _⟩
  | overflowed hfree => exact ⟨fun w c hw => h.others hfree hw, .of_none rfl⟩
  | asked hfree _ _ hlooked =>
    exact asked_of_looked hlooked (hnew ..) fun w c hw _ => h.others hfree hw
  | deleted => exact ⟨h.kept (fun _ => rfl) fun _ c hc => ⟨c, hc, rfl⟩, .of_none rfl⟩
  | cancelled => exact ⟨h.kept (fun _ => rfl) fun _ c hc => ⟨c, hc, rfl⟩, .of_none rfl⟩
  | aborted =>
    exact ⟨h.kept (fun _ => rfl) fun _ c hc => ⟨c, (Calls.mem_without.mp hc).1, rfl⟩, .of_none rfl⟩
  | @lookedAgain call _ _ hcall _ hlooked =>
    have hkept : Asked (turns ++ [⟨s, .look call, events⟩]) s :=
      h.kept (fun _ => rfl) fun _ c hc => ⟨c, hc, rfl⟩
    exact asked_of_looked hlooked (hkept _ _ (Calls.mem_of_lookup hcall)) fun w c hw _ =>
      hkept w c hw
  | cancelNoticed =>
    exact ⟨h.kept (fun _ => rfl) fun _ c hc => ⟨c, (Calls.mem_without.mp hc).1, rfl⟩, .of_none rfl⟩
  | advanced => exact ⟨h.kept (fun _ => rfl) fun _ c hc => ⟨c, hc, rfl⟩, .of_none rfl⟩

theorem asked_of_run (h : Run step (new o) turns s) : Asked turns s := by
  induction h with
  | nil => exact fun _ _ hc => absurd hc List.not_mem_nil
  | snoc _ hstep ih => exact (asked_of_step ih hstep).1

/-- Messages come back in the right number, after their delays, outside all earlier leases, as they
were accepted, and with new receipts. -/
theorem deliveries_rightful {t : Turn System Action Event} {call : Nat} {messages : List Message}
    (h : Run step (new o) (turns ++ [t]) s) (hrange : InRange (turns ++ [t]))
    (hreply : .replied call (.messages messages) ∈ t.events) :
    (∃ count, asked? call (turns ++ [t]) = some count ∧ messages.length ≤ count) ∧
      Rightful o turns t.before.now messages := by
  obtain ⟨hrun, hstep⟩ := h.snoc_inv
  refine ⟨(asked_of_step (asked_of_run hrun) hstep).2 call messages hreply, ?_⟩
  have hagrees := agrees_of_run hrun hrange.left
  have hturn := hrange.last
  obtain ⟨before, action, events⟩ := t
  cases effect_of_step hstep hturn with
  | accepted => simp at hreply
  | removed _ _ _ hnone =>
    exact absurd (List.filterMap_eq_nil_iff.mp hnone _ hreply) (Option.some_ne_none messages)
  | @delivered _ w entries ms s' hleased hstore =>
    obtain ⟨rfl, rfl⟩ : call = w ∧ messages = ms := by simpa using hreply
    have hnew (m : Message) (hm : m ∈ messages) :
        m.handle ∈ names .receipt before.store.minted messages.length := by
      rw [← hleased.handles]
      exact List.mem_map_of_mem hm
    constructor
    case distinct => exact hagrees.entries.sublist hleased.ids_sublist
    case accepted =>
      intro m hm
      obtain ⟨e, he, hvisible, hsame⟩ := hleased.source hm
      obtain ⟨a, ha, hmessage, hdelay⟩ := hagrees.stored e he
      rw [hmessage] at hsame
      have hsameId : m.id = a.message.id := by rw [hsame]
      refine ⟨a, ha, sent_of_run hrun hrange.left ha, hsame, Nat.le_trans hdelay hvisible, ?_⟩
      intro b hb hid
      exact List.inj_on_of_nodup_map hagrees.ids hb ha (hid.trans hsameId)
    case exclusive =>
      intro d hd m' hm' m hm hid
      obtain ⟨e, he, hvisible, hsame⟩ := hleased.source hm
      have hsameId : m.id = e.message.id := by rw [hsame]
      exact Nat.le_trans (hagrees.hidden d hd m' hm' e he (hid.trans hsameId)) hvisible
    case receipts =>
      rw [hleased.handles]
      exact names_nodup ..
    case fresh =>
      intro m hm
      refine ⟨?_, ?_⟩
      · obtain ⟨k, -, -, hk⟩ := mem_names.mp (hnew m hm)
        simp [hk]
      · intro d hd m' hm'
        exact (hagrees.issued d hd m' hm').2.ne_of_mem_names (hnew m hm)

def delayedNote : Message :=
  { trace := "a", delay := .ofMillis 2, service := "orders", method := "create", body := [] }

/-- A message is delivered when its delay is over, and again when its lease of three milliseconds
has run out; in between a call comes back with nothing. -/
def redeliveredRun : List Action :=
  [.enqueue "token" [delayedNote], .dequeue 0 "token" 5 (.ofMillis 10),
    .advance (Instant.ofMillis 2), .look 0, .advance (Instant.ofMillis 3),
    .dequeue 1 "token" 5 .zero, .advance (Instant.ofMillis 5), .dequeue 2 "token" 5 .zero]

theorem deliveries_rightful_redeliveredRun : ∃ turns t s call m,
    Run step (new { visibility := .ofMillis 3 }) (turns ++ [t]) s ∧ InRange (turns ++ [t]) ∧
      .replied call (.messages [m]) ∈ t.events ∧
      deliveries turns =
        [⟨[{ m with handle := some (Name.mint .receipt 1) }], Instant.ofMillis 2⟩,
          ⟨[], Instant.ofMillis 3⟩] ∧
      Rightful { visibility := .ofMillis 3 } turns t.before.now [m] := by
  let m : Message := { delayedNote with
    id := some (Name.mint .message 0), handle := some (Name.mint .receipt 2) }
  have hseen : (replay step (new { visibility := .ofMillis 3 }) redeliveredRun).map (fun r =>
      (deliveries r.1.dropLast, (r.1.getLast?.toList.flatMap (·.events)).filterMap Event.delivered?,
        r.1.all fun t => t.events.all fun e => !e.isPanic)) =
      some ([⟨[{ m with handle := some (Name.mint .receipt 1) }], Instant.ofMillis 2⟩,
        ⟨[], Instant.ofMillis 3⟩], [[m]], true) := by
    decide +kernel
  obtain ⟨⟨all, s⟩, hreplay, hseen⟩ := Option.map_eq_some_iff.mp hseen
  obtain ⟨hdeliveries, hlast, hrange⟩ := by simpa only [Prod.mk.injEq] using hseen
  rcases List.eq_nil_or_concat all with rfl | ⟨turns, t, rfl⟩
  · cases hlast
  simp only [List.concat_eq_append, List.dropLast_concat, List.getLast?_concat, Option.toList_some,
    List.flatMap_singleton] at hreplay hdeliveries hlast hrange
  have hrange : InRange (turns ++ [t]) := by
    intro t ht e he
    simpa using List.all_eq_true.mp (List.all_eq_true.mp hrange t ht) e he
  have hmem : [m] ∈ t.events.filterMap Event.delivered? := by
    rw [hlast]
    exact List.mem_cons_self
  obtain ⟨e, he, hdelivered⟩ := List.mem_filterMap.mp hmem
  cases e with
  | received | deleted => simp [Event.delivered?] at hdelivered
  | replied call r =>
    cases r with
    | refused | panicked => simp [Event.delivered?] at hdelivered
    | messages ms =>
      obtain rfl := Option.some.inj hdelivered
      have hrun := Run.of_replay hreplay
      obtain ⟨-, hrightful⟩ := deliveries_rightful hrun hrange he
      exact ⟨turns, t, s, call, m, hrun, hrange, he, hdeliveries, hrightful⟩

end System

end Batchflow.Queue
