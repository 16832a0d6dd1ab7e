import Batchflow.Proofs.Queue.Receipts

/-!
# What a call to dequeue changes

A call to dequeue may look at the store many times before it is over, and each look leases what it
finds.  A look that finds something ends the call, so whatever is hidden is handed out by the same
turn: a call that comes back with nothing, with an error, or not at all has changed no entry, and
the receipt and the hidden time of an entry are those of a delivery.
-/

namespace Batchflow.Queue

open Store

/-- The call that an action is about. -/
def Action.call? : Action → Option Nat
  | .dequeue call _ _ _ => some call
  | .abort call => some call
  | .look call => some call
  | .noticeCancel call => some call
  | _ => none

def IsOver (call : Nat) (t : Turn System Action Event) : Prop :=
  t.action = .abort call ∨ ∃ r, .replied call r ∈ t.events

structure Lasts (call : Nat) (turns : History) : Prop where
  made : ∃ t rest token count wait, turns = t :: rest ∧ t.action = .dequeue call token count wait
  pending : ∀ t ∈ turns, ¬ IsOver call t

structure Course (call : Nat) (earlier : History) (last : Turn System Action Event) : Prop where
  made : ∃ t rest token count wait, earlier ++ [last] = t :: rest ∧
    t.action = .dequeue call token count wait
  pending : ∀ t ∈ earlier, ¬ IsOver call t
  isOver : IsOver call last

def EmptyHanded (call : Nat) (t : Turn System Action Event) : Prop :=
  t.action = .abort call ∨ (∃ e, .replied call (.refused e) ∈ t.events) ∨
    .replied call (.messages []) ∈ t.events

def Keeps (t : Turn System Action Event) : Prop :=
  ∃ s', t.before.step t.action = some (s', t.events) ∧ s'.store.entries = t.before.store.entries

/-- An entry stays as it is, or its message is handed out: then it takes the receipt, which is
another than before, and is hidden. -/
inductive Marks (again : Nat) (messages : List Message) (e : Entry) : Entry → Prop
  | left : e.message.id ∉ messages.map (·.id) → Marks again messages e e
  | taken (m : Message) : m ∈ messages → m = { e.message with handle := m.handle } →
      m.handle ≠ e.receipt →
      Marks again messages e { e with visibleAt := again, receipt := m.handle }

def Marking (o : Options) (messages : List Message) (t : Turn System Action Event) : Prop :=
  ∃ s', t.before.step t.action = some (s', t.events) ∧
    List.Forall₂ (Marks (t.before.now + o.visibility.total) messages) t.before.store.entries
      s'.store.entries ∧
    (messages.map (·.id)).Sublist (t.before.store.entries.map (·.message.id)) ∧
    (messages.map (·.id)).Nodup

/-- Where the receipt and the hidden time of an entry come from: it is as it was accepted, or as a
call left it that came back with its message. -/
inductive Origin (o : Options) (turns : History) (e : Entry) : Prop
  | accepted (a : Acceptance) : a ∈ acceptances turns →
      e = { message := a.message, visibleAt := a.time + a.message.delay.total, receipt := none } →
      Origin o turns e
  | delivered (t : Turn System Action Event) (call : Nat) (messages : List Message) (m : Message) :
      t ∈ turns → t.action.call? = some call → .replied call (.messages messages) ∈ t.events →
      m ∈ messages → m = { e.message with handle := e.receipt } → e.receipt ≠ none →
      e.visibleAt = t.before.now + o.visibility.total → Origin o turns e

theorem Origin.mono {o : Options} {turns : History} {e : Entry} (h : Origin o turns e)
    (t : Turn System Action Event) : Origin o (turns ++ [t]) e := by
  cases h with
  | accepted a ha he =>
    refine .accepted a ?_ he
    rw [acceptances_snoc]
    exact List.mem_append_left _ ha
  | delivered u call messages m hu hcall hreply hm hsame hreceipt hvisible =>
    exact .delivered u call messages m (List.mem_append_left _ hu) hcall hreply hm hsame hreceipt
      hvisible

namespace Store

/-- A lease marks the entries of the messages that it hands out, also when they are a part of some
more. -/
theorem Leased.marks {now again n : Nat} {entries entries' : List Entry}
    {messages all : List Message} (h : Leased now again n entries entries' messages)
    (hids : (entries.map (·.message.id)).Nodup) (hpart : ∀ m ∈ messages, m ∈ all)
    (hothers : ∀ e ∈ entries, e.message.id ∈ all.map (·.id) → e.message.id ∈ messages.map (·.id))
    (hfresh : ∀ e ∈ entries, ∀ m ∈ all, m.handle ≠ e.receipt) :
    List.Forall₂ (Marks again all) entries entries' := by
  induction h with
  | nil => exact .nil
  | kept e hrest ih =>
    obtain ⟨hne, hids⟩ := List.nodup_cons.mp hids
    rw [List.forall_mem_cons] at hothers hfresh
    refine .cons (.left fun hmem => ?_) (ih hids hpart hothers.2 hfresh.2)
    exact hne (hrest.ids_sublist.subset (hothers.1 hmem))
  | @taken n entries entries' messages e _ hrest ih =>
    obtain ⟨hne, hids⟩ := List.nodup_cons.mp hids
    rw [List.forall_mem_cons] at hpart hothers hfresh
    refine .cons (.taken _ hpart.1 rfl (hfresh.1 _ hpart.1)) (ih hids hpart.2 ?_ hfresh.2)
    intro e' he' hmem
    refine (List.mem_cons.mp (hothers.2 e' he' hmem)).resolve_left fun heq => ?_
    exact hne (List.mem_map.mpr ⟨e', he', heq⟩)

end Store

theorem Conserves.receipt_fresh {o : Options} {as : List Acceptance} {ds : List Delivery}
    {spent : List String} {s : Store} {e : Entry} {count : Nat} {new : Option String}
    (h : Conserves as ds spent s) (hagrees : Agrees o as ds s) (he : e ∈ s.entries)
    (hnew : new ∈ names .receipt s.minted count) : new ≠ e.receipt := by
  rw [h.latest e he]
  cases hlatest : latest? e.message.id ds with
  | none =>
    obtain ⟨k, -, -, rfl⟩ := mem_names.mp hnew
    simp
  | some receipt =>
    obtain ⟨earlier, m, later, hissued, -, hhandle, -⟩ := latest?_eq_some hlatest
    have hm : m ∈ issued ds := by simp [hissued]
    rw [← hhandle]
    exact ((Conserves.minted_of_issued hagrees hm).2.ne_of_mem_names hnew).symm

namespace System

variable {o : Options} {s s' : System} {a : Action} {events : List Event} {turns : History}
  {call : Nat}

theorem replied_of_looked {caller count deadline : Nat} {token : String} {out : Outcome} {r : Reply}
    (h : s.Looked caller token count deadline out) (hr : .replied call r ∈ out.2) :
    call = caller ∧ ∀ c, (call, c) ∉ out.1.calls := by
  cases h with
  | panicked | found =>
    obtain ⟨rfl, -⟩ : call = caller ∧ _ := by simpa [reply] using hr
    exact ⟨rfl, fun c hc => (Calls.mem_without.mp hc).2 rfl⟩
  | waits => cases hr

theorem calls_of_looked {caller count deadline : Nat} {token : String} {out : Outcome} {c : Call}
    (h : s.Looked caller token count deadline out) (hc : (call, c) ∈ out.1.calls) :
    (call, c) ∈ s.calls ∨ call = caller := by
  cases h with
  | panicked | found => exact .inl (Calls.mem_without.mp hc).1
  | waits => exact (Calls.mem_await.mp hc).imp And.left And.left

/-- A call that is over was made before, or just now, and it is its own turn. -/
theorem own_of_over (hstep : s.step a = some (s', events)) (h : IsOver call ⟨s, a, events⟩) :
    a.call? = some call ∧
      ((∃ c, (call, c) ∈ s.calls) ∨ ∃ token count wait, a = .dequeue call token count wait) := by
  rcases h with rfl | ⟨r, hr⟩
  · cases did_of_step hstep with
    | aborted hc => exact ⟨rfl, .inl ⟨_, Calls.mem_of_lookup hc⟩⟩
  · dsimp only at hr
    cases did_of_step hstep with
    | nothingWanted | overflowed =>
      obtain ⟨rfl, -⟩ : call = _ ∧ _ := by simpa using hr
      exact ⟨rfl, .inr ⟨_, _, _, rfl⟩⟩
    | asked _ _ _ hlooked =>
      obtain ⟨rfl, -⟩ := replied_of_looked hlooked hr
      exact ⟨rfl, .inr ⟨_, _, _, rfl⟩⟩
    | lookedAgain hc _ hlooked =>
      obtain ⟨rfl, -⟩ := replied_of_looked hlooked hr
      exact ⟨rfl, .inl ⟨_, Calls.mem_of_lookup hc⟩⟩
    | cancelNoticed hc =>
      obtain ⟨rfl, -⟩ : call = _ ∧ _ := by simpa [reply] using hr
      exact ⟨rfl, .inl ⟨_, Calls.mem_of_lookup hc⟩⟩
    | taken | notTaken | deleted => simp at hr
    | cancelled | aborted | advanced => cases hr

/-- A call that is pending is not over, and was made before or just now. -/
theorem pending_before {c : Call} (hstep : s.step a = some (s', events))
    (hc : (call, c) ∈ s'.calls) :
    ¬ IsOver call ⟨s, a, events⟩ ∧
      ((∃ c, (call, c) ∈ s.calls) ∨ ∃ token count wait, a = .dequeue call token count wait) := by
  have hlasts {P : Prop} (h : P) (habort : a ≠ .abort call)
      (hevents : ∀ r, .replied call r ∉ events) : ¬ IsOver call ⟨s, a, events⟩ ∧ P := by
    refine ⟨?_, h⟩
    rintro (h | ⟨r, hr⟩)
    · exact habort h
    · exact hevents r hr
  cases did_of_step hstep with
  | taken =>
    obtain ⟨⟨w, c₀⟩, hc₀, heq⟩ := List.mem_map.mp hc
    obtain ⟨rfl, -⟩ := Prod.mk.inj heq
    exact hlasts (.inl ⟨c₀, hc₀⟩) (by simp) (by simp)
  | notTaken | deleted | cancelled | advanced => exact hlasts (.inl ⟨c, hc⟩) (by simp) (by simp)
  | @nothingWanted w _ _ hfree | @overflowed w _ _ _ hfree =>
    have hne : call ≠ w := by
      rintro rfl
      exact Calls.not_mem_of_lookup hfree hc
    exact hlasts (.inl ⟨c, hc⟩) (by simp) (by simp [hne])
  | asked _ _ _ hlooked =>
    refine hlasts ?_ (by simp) fun r hr => (replied_of_looked hlooked hr).2 c hc
    rcases calls_of_looked hlooked hc with hc | rfl
    · exact .inl ⟨c, hc⟩
    · exact .inr ⟨_, _, _, rfl⟩
  | lookedAgain hcall _ hlooked =>
    refine hlasts ?_ (by simp) fun r hr => (replied_of_looked hlooked hr).2 c hc
    rcases calls_of_looked hlooked hc with hc | rfl
    · exact .inl ⟨c, hc⟩
    · exact .inl ⟨_, Calls.mem_of_lookup hcall⟩
  | aborted =>
    obtain ⟨hc, hne⟩ := Calls.mem_without.mp hc
    exact hlasts (.inl ⟨c, hc⟩) (by simpa using hne.symm) (by simp)
  | cancelNoticed =>
    obtain ⟨hc, hne⟩ := Calls.mem_without.mp hc
    exact hlasts (.inl ⟨c, hc⟩) (by simp) (by simpa [reply] using hne)

/-- A pending call has lasted since it was made. -/
theorem lasts_of_run {c : Call} (h : Run step (new o) turns s) (hc : (call, c) ∈ s.calls) :
    ∃ before earlier, turns = before ++ earlier ∧ Lasts call earlier := by
  induction h generalizing c with
  | nil => cases hc
  | @snoc turns s s' a events hrun hstep ih =>
    obtain ⟨hnot, ⟨c₀, hc₀⟩ | ⟨token, count, wait, rfl⟩⟩ := pending_before hstep hc
    · obtain ⟨before, earlier, rfl, hlasts⟩ := ih hc₀
      obtain ⟨t, rest, token, count, wait, rfl, hmade⟩ := hlasts.made
      refine ⟨before, t :: rest ++ [⟨s, a, events⟩], List.append_assoc .., ⟨?_, ?_⟩⟩
      · exact ⟨t, rest ++ [_], token, count, wait, rfl, hmade⟩
      · intro u hu
        rcases List.mem_append.mp hu with hu | hu
        · exact hlasts.pending u hu
        · exact List.mem_singleton.mp hu ▸ hnot
    · refine ⟨turns, [_], rfl, ⟨⟨_, [], token, count, wait, rfl, rfl⟩, ?_⟩⟩
      intro u hu
      exact List.mem_singleton.mp hu ▸ hnot

theorem course_of_over {before after : History} {last : Turn System Action Event}
    (h : Run step (new o) (before ++ last :: after) s) (hover : IsOver call last) :
    ∃ others earlier, before = others ++ earlier ∧ Course call earlier last := by
  obtain ⟨hrun, s₁, hstep, -⟩ := h.cut_turn
  rcases (own_of_over hstep hover).2 with ⟨c, hc⟩ | ⟨token, count, wait, hmade⟩
  · obtain ⟨others, earlier, rfl, hlasts⟩ := lasts_of_run hrun hc
    obtain ⟨t, rest, token, count, wait, rfl, hmade⟩ := hlasts.made
    refine ⟨others, _, rfl, ?_, hlasts.pending, hover⟩
    exact ⟨t, rest ++ [last], token, count, wait, rfl, hmade⟩
  · refine ⟨before, [], (List.append_nil _).symm, ?_, by simp, hover⟩
    exact ⟨last, [], token, count, wait, rfl, hmade⟩

theorem keeps_or_delivers {t : Turn System Action Event} (hrange : InRange [t])
    (hstep : t.before.step t.action = some (s', t.events)) (hcall : t.action.call? = some call) :
    Keeps t ∨ ∃ m messages, t.events = [.replied call (.messages (m :: messages))] := by
  have hevents := hrange t (List.mem_singleton_self t)
  obtain ⟨before, action, events⟩ := t
  cases change_of_step hstep hevents with
  | accepted | deleted => cases hcall
  | @delivered _ caller _ messages _ hleased hstore =>
    obtain rfl : caller = call := by
      have hown := (own_of_over hstep (.inr ⟨_, List.mem_singleton_self _⟩)).1
      exact Option.some.inj (hown.symm.trans hcall)
    cases messages with
    | nil => exact .inl ⟨s', hstep, by rw [hstore, hleased.eq_self]⟩
    | cons m messages => exact .inr ⟨m, messages, rfl⟩
  | same hstore => exact .inl ⟨s', hstep, by rw [hstore]⟩

theorem keeps_of_pending {t : Turn System Action Event} (hrange : InRange [t])
    (hstep : t.before.step t.action = some (s', t.events)) (hcall : t.action.call? = some call)
    (hpending : ¬ IsOver call t) : Keeps t := by
  refine (keeps_or_delivers hrange hstep hcall).resolve_right ?_
  rintro ⟨m, messages, hevents⟩
  exact hpending (.inr ⟨_, hevents ▸ List.mem_singleton_self _⟩)

theorem keeps_of_emptyHanded {t : Turn System Action Event} (hrange : InRange [t])
    (hstep : t.before.step t.action = some (s', t.events)) (hcall : t.action.call? = some call)
    (hempty : EmptyHanded call t) : Keeps t := by
  refine (keeps_or_delivers hrange hstep hcall).resolve_right ?_
  rintro ⟨m, messages, hevents⟩
  obtain ⟨before, action, events⟩ := t
  obtain rfl := hevents
  rcases hempty with rfl | ⟨e, he⟩ | hnone
  · cases did_of_step hstep
  · simp at he
  · simp at hnone

/-- A turn that hands out messages changes their entries. -/
theorem marking_of_delivered {t : Turn System Action Event} {messages : List Message}
    (h : Run step (new o) turns t.before) (hrange : InRange (turns ++ [t]))
    (hstep : t.before.step t.action = some (s', t.events))
    (hreply : .replied call (.messages messages) ∈ t.events) : Marking o messages t := by
  have hagrees := agrees_of_run h hrange.left
  have hconserves := conserves_of_run h hrange.left
  have hevents := hrange.last
  obtain ⟨before, action, events⟩ := t
  cases change_of_step hstep hevents with
  | accepted | deleted => simp at hreply
  | delivered hleased hstore =>
    obtain ⟨rfl, rfl⟩ : call = _ ∧ messages = _ := by simpa using hreply
    refine ⟨s', hstep, ?_, hleased.ids_sublist, hagrees.entries.sublist hleased.ids_sublist⟩
    rw [hstore, ← hagrees.options]
    refine hleased.marks hagrees.entries (fun _ hm => hm) (fun _ _ hid => hid) ?_
    intro e he m hm
    exact hconserves.receipt_fresh hagrees he (hleased.handles ▸ List.mem_map_of_mem hm)
  | same _ _ hdelivered =>
    have := List.filterMap_eq_nil_iff.mp hdelivered _ hreply
    cases this

/-- What a lease leaves behind is as it was before, or as the call tells that hands it out. -/
theorem origin_of_leased {t : Turn System Action Event} {entries : List Entry}
    {messages : List Message} (hcall : t.action.call? = some call)
    (hevents : t.events = [.replied call (.messages messages)])
    (hids : (t.before.store.entries.map (·.message.id)).Nodup) {n : Nat}
    (hleased : Leased t.before.now (t.before.now + o.visibility.total) n t.before.store.entries
      entries messages)
    (hold : ∀ e ∈ t.before.store.entries, Origin o turns e) :
    ∀ e ∈ entries, Origin o (turns ++ [t]) e := by
  intro e' he'
  rcases hleased.entry_eq hids he' with ⟨he, -⟩ | ⟨e, he, m, hm, -, hid, rfl⟩
  · exact (hold e' he).mono t
  · obtain ⟨e₀, he₀, -, hm₀⟩ := hleased.source hm
    obtain rfl : e₀ = e := by
      refine List.inj_on_of_nodup_map hids he₀ he ?_
      rw [← hid, hm₀]
    have hhandle : m.handle ∈ names .receipt n messages.length :=
      hleased.handles ▸ List.mem_map_of_mem hm
    obtain ⟨k, -, -, hname⟩ := mem_names.mp hhandle
    exact .delivered t call messages m (by simp) hcall (by simp [hevents]) hm hm₀ (by simp [hname])
      rfl

theorem origin_of_run (h : Run step (new o) turns s) (hrange : InRange turns) :
    ∀ e ∈ s.store.entries, Origin o turns e := by
  induction h with
  | nil => simp [new]
  | @snoc turns s s' a events hrun hstep ih =>
    have hold := ih hrange.left
    have hagrees := agrees_of_run hrun hrange.left
    cases change_of_step hstep hrange.last with
    | @accepted token batch back entries verdicts _ haccepted hstore =>
      intro e he
      rw [hstore] at he
      rcases List.mem_append.mp he with he | he
      · exact (hold e he).mono _
      · obtain ⟨-, hvisible, hreceipt⟩ := haccepted.sent he
        refine .accepted ⟨e.message, s.now⟩ ?_ ?_
        · rw [acceptances_snoc]
          refine List.mem_append_right _ ?_
          simp only [List.flatMap_singleton, Event.accepted, ← haccepted.messages, List.map_map]
          exact List.mem_map_of_mem he
        · obtain ⟨message, visibleAt, receipt⟩ := e
          simp_all
    | delivered hleased hstore =>
      have hcall := (own_of_over hstep (.inr ⟨_, List.mem_singleton_self _⟩)).1
      rw [hstore]
      rw [hagrees.options] at hleased
      exact origin_of_leased (t := ⟨s, a, _⟩) hcall rfl hagrees.entries hleased hold
    | @deleted receipt before e after _ hentries _ hstore =>
      intro e' he'
      rw [hstore] at he'
      refine (hold e' ?_).mono _
      rw [hentries]
      exact ((List.sublist_cons_self e after).append_left before).subset he'
    | same hstore =>
      intro e he
      rw [hstore] at he
      exact (hold e he).mono _

/-- What calls to dequeue do to the entries in a run. -/
structure Hides (o : Options) (turns : History) (s : System) : Prop where
  /-- Whenever a call is over, it went through its course. -/
  course : ∀ before call last after, turns = before ++ last :: after → IsOver call last →
    ∃ others earlier, before = others ++ earlier ∧ Course call earlier last
  /-- A call that got nothing has changed no entry in any of its turns. -/
  emptyHanded : ∀ others call earlier last after, turns = others ++ earlier ++ last :: after →
    Course call earlier last → EmptyHanded call last →
    ∀ t ∈ earlier ++ [last], t.action.call? = some call → Keeps t
  /-- A call that comes back with messages changes their entries, and those in its last turn. -/
  delivering : ∀ others call earlier last after messages,
    turns = others ++ earlier ++ last :: after → Course call earlier last →
    .replied call (.messages messages) ∈ last.events →
    (∀ t ∈ earlier, t.action.call? = some call → Keeps t) ∧ last.action.call? = some call ∧
      Marking o messages last
  /-- So whatever hides a message was told to a caller. -/
  origin : ∀ e ∈ s.store.entries, Origin o turns e

/-- A call to dequeue that comes back with nothing, or not at all, has changed no entry; one that
comes back with messages has changed just theirs. -/
theorem hidden_only_by_delivery (h : Run step (new o) turns s) (hrange : InRange turns) :
    Hides o turns s := by
  have hturn (t : Turn System Action Event) (ht : t ∈ turns) :
      InRange [t] ∧ ∃ s', t.before.step t.action = some (s', t.events) := by
    obtain ⟨-, -, s', -, -, hstep, -⟩ := h.split ht
    exact ⟨fun u hu => List.mem_singleton.mp hu ▸ hrange t ht, s', hstep⟩
  refine { course := ?course, emptyHanded := ?emptyHanded, delivering := ?delivering
           origin := origin_of_run h hrange }
  case course =>
    rintro before call last after rfl hover
    exact course_of_over h hover
  case emptyHanded =>
    intro others call earlier last after hturns hcourse hempty t ht hcall
    rcases List.mem_append.mp ht with ht | ht
    · obtain ⟨ht', s', hstep⟩ := hturn t (by simp [hturns, ht])
      exact keeps_of_pending ht' hstep hcall (hcourse.pending t ht)
    · obtain rfl := List.mem_singleton.mp ht
      obtain ⟨ht', s', hstep⟩ := hturn t (by simp [hturns])
      exact keeps_of_emptyHanded ht' hstep hcall hempty
  case delivering =>
    intro others call earlier last after messages hturns hcourse hreply
    refine ⟨?_, ?_⟩
    · intro t ht hcall
      obtain ⟨ht', s', hstep⟩ := hturn t (by simp [hturns, ht])
      exact keeps_of_pending ht' hstep hcall (hcourse.pending t ht)
    · subst hturns
      obtain ⟨hrun, s', hstep, -⟩ := h.cut_turn
      rw [List.append_cons] at hrange
      exact ⟨(own_of_over hstep hcourse.isOver).1,
        marking_of_delivered hrun hrange.left hstep hreply⟩

/-- A call that is woken for nothing is given up, one is cancelled, one asks for nothing, and one
gets the message. -/
def emptyHandedRun : List Action :=
  [.dequeue 0 "a" 1 (.ofSecs 1),
    .enqueue "producer" [{ note "m" with delay := .ofMillis 5 }], .look 0, .abort 0,
    .dequeue 1 "b" 1 (.ofSecs 1), .cancel "b", .noticeCancel 1,
    .dequeue 2 "c" 0 (.ofSecs 1), .advance (Instant.ofMillis 5), .dequeue 3 "d" 1 .zero]

theorem hidden_only_by_delivery_emptyHandedRun : ∃ turns s,
    Run step (new {}) turns s ∧ InRange turns ∧ Hides {} turns s ∧
      s.store.entries.map (fun e => (e.receipt, e.visibleAt)) =
        [(some (Name.mint .receipt 1), Instant.ofMillis 30005)] := by
  have hseen : (replay step (new {}) emptyHandedRun).map (fun r =>
      (r.2.store.entries.map (fun e => (e.receipt, e.visibleAt)),
        r.1.all fun t => t.events.all fun e => !e.isPanic)) =
      some ([(some (Name.mint .receipt 1), Instant.ofMillis 30005)], true) := by
    decide +kernel
  obtain ⟨⟨turns, s⟩, hreplay, hseen⟩ := Option.map_eq_some_iff.mp hseen
  obtain ⟨hentries, hrange⟩ := Prod.mk.inj hseen
  have hrange := InRange.of_all hrange
  have hrun := Run.of_replay hreplay
  exact ⟨turns, s, hrun, hrange, hidden_only_by_delivery hrun hrange, hentries⟩

end System

end Batchflow.Queue
