import Batchflow.Proofs.Queue.Visibility

/-!
# Who may delete a message

Every delivery of a message comes with a receipt that nobody has seen before, and the entry of the
message keeps the latest.  So a receipt stands for one delivery of one message: it is good as long
as the message is stored and was not delivered again.  What is stored is what was accepted, in
order, but for the messages one of whose receipts was used up.
-/

namespace Batchflow.Queue

open Store

/-- The messages that calls have come back with, each with its receipt, in order. -/
def issued (ds : List Delivery) : List Message := ds.flatMap (·.messages)

def latest? (id : Option String) (ds : List Delivery) : Option String :=
  ((issued ds).filter (·.id == id)).getLast?.bind (·.handle)

def isDeleted (ds : List Delivery) (used : List String) (id : Option String) : Bool :=
  (issued ds).any fun m => m.id == id && used.any (m.handle == some ·)

theorem issued_snoc (ds : List Delivery) (d : Delivery) :
    issued (ds ++ [d]) = issued ds ++ d.messages := by
  simp [issued]

theorem used_snoc (turns : History) (t : Turn System Action Event) :
    used (turns ++ [t]) = used turns ++ (used? t.action t.events).toList := by
  cases h : used? t.action t.events <;> simp [used, h]

section Latest

variable {ds : List Delivery} {d : Delivery} {id : Option String} {m : Message} {receipt : String}

theorem latest?_eq_some (h : latest? id ds = some receipt) :
    ∃ earlier m later, issued ds = earlier ++ m :: later ∧ m.id = id ∧ m.handle = some receipt ∧
      ∀ m' ∈ later, m'.id ≠ id := by
  obtain ⟨m, hlast, hhandle⟩ := Option.bind_eq_some_iff.mp h
  obtain ⟨rest, hrest⟩ := List.getLast?_eq_some_iff.mp hlast
  obtain ⟨earlier, tail, hissued, -, htail⟩ := List.filter_eq_append_iff.mp hrest
  obtain ⟨skipped, later, rfl, -, hid, hlater⟩ := List.filter_eq_cons_iff.mp htail
  refine ⟨earlier ++ skipped, m, later, ?_, by simpa using hid, hhandle, ?_⟩
  · rw [hissued, List.append_assoc]
  · simpa using List.filter_eq_nil_iff.mp hlater

theorem latest?_eq_none (h : ∀ m ∈ issued ds, m.id ≠ id) : latest? id ds = none := by
  have hnone : (issued ds).filter (·.id == id) = [] := by
    simpa [List.filter_eq_nil_iff] using h
  rw [latest?, hnone]
  rfl

theorem latest?_of_not_mem (h : id ∉ d.messages.map (·.id)) :
    latest? id (ds ++ [d]) = latest? id ds := by
  have hnone : d.messages.filter (·.id == id) = [] := by
    rw [List.filter_eq_nil_iff]
    rintro m hm heq
    exact h (List.mem_map.mpr ⟨m, hm, by simpa using heq⟩)
  rw [latest?, issued_snoc, List.filter_append, hnone, List.append_nil]
  rfl

theorem latest?_of_mem (hids : (d.messages.map (·.id)).Nodup) (hm : m ∈ d.messages) :
    latest? m.id (ds ++ [d]) = m.handle := by
  have hmem : m ∈ d.messages.filter (·.id == m.id) := by simpa using hm
  obtain ⟨m', hlast⟩ : ∃ m', (d.messages.filter (·.id == m.id)).getLast? = some m' :=
    ⟨_, List.getLast?_eq_some_getLast (List.ne_nil_of_mem hmem)⟩
  obtain ⟨hm', hid⟩ := List.mem_filter.mp (List.mem_of_getLast? hlast)
  obtain rfl : m' = m := List.inj_on_of_nodup_map hids hm' hm (by simpa using hid)
  rw [latest?, issued_snoc, List.filter_append, List.getLast?_append, hlast]
  rfl

theorem eq_of_handle {m' : Message} (hreceipts : ((issued ds).map (·.handle)).Nodup)
    (hm : m ∈ issued ds) (hm' : m' ∈ issued ds) (h : m.handle = m'.handle) : m = m' :=
  List.inj_on_of_nodup_map hreceipts hm hm' h

/-- A receipt is no longer the latest once its message was delivered again. -/
theorem latest?_ne_of_later {earlier later : List Message} {m' : Message} {id : Option String}
    (hreceipts : ((issued ds).map (·.handle)).Nodup) (hm : issued ds = earlier ++ m :: later)
    (hm' : m' ∈ later) (hid : m'.id = m.id) (hhandle : m.handle = some receipt) :
    latest? id ds ≠ some receipt := by
  intro hlatest
  obtain ⟨before, x, after, hx, hxid, hxhandle, hlast⟩ := latest?_eq_some hlatest
  have hmem : m ∈ issued ds := by simp [hm]
  have hxmem : x ∈ issued ds := by simp [hx]
  obtain rfl : x = m := eq_of_handle hreceipts hxmem hmem (hxhandle.trans hhandle.symm)
  -- The message stands only once in the list, so both ways to split it there are one.
  have hnodup : (before ++ x :: after).Nodup := hx ▸ hreceipts.of_map
  have hsplit : after = later := by
    have hbefore : x ∉ before := fun h => (List.nodup_append.mp hnodup).2.2 x h x (by simp) rfl
    have hafter : x ∉ after := (List.nodup_cons.mp (List.nodup_append.mp hnodup).2.1).1
    exact ((List.append_cons_inj_of_notMem hbefore hafter).mp (hx.symm.trans hm)).2.2
  exact hlast m' (hsplit ▸ hm') (hid.trans hxid)

end Latest

section Deleted

variable {ds : List Delivery} {d : Delivery} {spent : List String} {id : Option String}

theorem isDeleted_iff : isDeleted ds spent id = true ↔
    ∃ m ∈ issued ds, m.id = id ∧ ∃ receipt ∈ spent, m.handle = some receipt := by
  simp [isDeleted]

theorem isDeleted_eq_false (h : ∀ m ∈ issued ds, m.id ≠ id) : isDeleted ds spent id = false := by
  rw [Bool.eq_false_iff, Ne, isDeleted_iff]
  rintro ⟨m, hm, hid, -⟩
  exact h m hm hid

theorem isDeleted_snoc (h : ∀ m ∈ d.messages, ∀ receipt ∈ spent, m.handle ≠ some receipt) :
    isDeleted (ds ++ [d]) spent id = isDeleted ds spent id := by
  have hnone : (d.messages.any fun m => m.id == id && spent.any (m.handle == some ·)) = false := by
    rw [List.any_eq_false]
    intro m hm hused
    simp only [Bool.and_eq_true, List.any_eq_true, beq_iff_eq] at hused
    obtain ⟨-, receipt, hreceipt, hhandle⟩ := hused
    exact h m hm receipt hreceipt hhandle
  rw [isDeleted, issued_snoc, List.any_append, hnone, Bool.or_false]
  rfl

theorem isDeleted_used {m : Message} {receipt : String}
    (hreceipts : ((issued ds).map (·.handle)).Nodup) (hm : m ∈ issued ds)
    (hhandle : m.handle = some receipt) :
    isDeleted ds (spent ++ [receipt]) id = (isDeleted ds spent id || m.id == id) := by
  rw [Bool.eq_iff_iff, Bool.or_eq_true, isDeleted_iff, isDeleted_iff, beq_iff_eq]
  constructor
  · rintro ⟨m', hm', hid, r, hr, hhandle'⟩
    rcases List.mem_append.mp hr with hr | hr
    · exact .inl ⟨m', hm', hid, r, hr, hhandle'⟩
    · obtain rfl := List.mem_singleton.mp hr
      obtain rfl := eq_of_handle hreceipts hm hm' (hhandle.trans hhandle'.symm)
      exact .inr hid
  · rintro (⟨m', hm', hid, r, hr, hhandle'⟩ | hid)
    · exact ⟨m', hm', hid, r, List.mem_append_left _ hr, hhandle'⟩
    · exact ⟨m, hm, hid, receipt, by simp, hhandle⟩

end Deleted

structure Conserves (as : List Acceptance) (ds : List Delivery) (spent : List String)
    (s : Store) : Prop where
  receipts : ((issued ds).map (·.handle)).Nodup
  latest : ∀ e ∈ s.entries, e.receipt = latest? e.message.id ds
  known : ∀ receipt ∈ spent, ∃ m ∈ issued ds, m.handle = some receipt
  stored : s.entries.map (·.message) =
    (as.map (·.message)).filter fun m => !isDeleted ds spent m.id
  count : s.entries.length + spent.length = as.length

namespace Conserves

variable {o : Options} {as : List Acceptance} {ds : List Delivery} {spent : List String}
  {s : Store} {entries : List Entry} {messages : List Message} {now : Nat}

theorem new (o : Options) : Conserves [] [] [] { options := o } where
  receipts := .nil
  latest := by simp
  known := by simp
  stored := rfl
  count := rfl

theorem minted_of_issued (hagrees : Agrees o as ds s) {m : Message} (hm : m ∈ issued ds) :
    Minted .message s.minted m.id ∧ Minted .receipt s.minted m.handle := by
  obtain ⟨d, hd, hm⟩ := List.mem_flatMap.mp hm
  exact hagrees.issued d hd m hm

/-- New messages were never delivered, so none of them is deleted or has a receipt. -/
theorem accepted {batch : List Message} {verdicts : List Verdict} (h : Conserves as ds spent s)
    (hagrees : Agrees o as ds s) (haccepted : Accepted now s.minted batch entries verdicts) :
    Conserves (as ++ (entries.map (·.message)).map (⟨·, now⟩)) ds spent
      { s with entries := s.entries ++ entries, minted := s.minted + entries.length } := by
  have hnew (e : Entry) (he : e ∈ entries) : ∀ m ∈ issued ds, m.id ≠ e.message.id := by
    intro m hm
    have hid : e.message.id ∈ names .message s.minted entries.length := by
      rw [← haccepted.ids]
      exact List.mem_map_of_mem he
    exact (minted_of_issued hagrees hm).1.ne_of_mem_names hid
  refine ⟨h.receipts, ?latest, h.known, ?stored, ?count⟩
  case latest =>
    intro e he
    rcases List.mem_append.mp he with he | he
    · exact h.latest e he
    · rw [(haccepted.sent he).2.2, latest?_eq_none (hnew e he)]
  case stored =>
    have hkept : (entries.map (·.message)).filter (fun m => !isDeleted ds spent m.id) =
        entries.map (·.message) := by
      rw [List.filter_eq_self]
      intro m hm
      obtain ⟨e, he, rfl⟩ := List.mem_map.mp hm
      rw [isDeleted_eq_false (hnew e he)]
      rfl
    have hmessages : ((entries.map (·.message)).map (Acceptance.mk · now)).map (·.message) =
        entries.map (·.message) := by
      rw [List.map_map]
      exact List.map_id _
    rw [List.map_append, List.map_append, List.filter_append, hmessages, hkept, h.stored]
  case count =>
    have := h.count
    simp only [List.length_append, List.length_map]
    omega

/-- The entries of the messages that are delivered take the new receipts. -/
theorem delivered (h : Conserves as ds spent s) (hagrees : Agrees o as ds s)
    (hleased : Leased now (now + s.options.visibility.total) s.minted s.entries entries messages) :
    Conserves as (ds ++ [⟨messages, now⟩]) spent
      { s with entries, minted := s.minted + messages.length } := by
  have hfresh (m : Message) (hm : m ∈ messages) :
      m.handle ∈ names .receipt s.minted messages.length := by
    rw [← hleased.handles]
    exact List.mem_map_of_mem hm
  have hids : (messages.map (·.id)).Nodup := hagrees.entries.sublist hleased.ids_sublist
  refine ⟨?receipts, ?latest, ?known, ?stored, ?count⟩
  case receipts =>
    rw [issued_snoc, List.map_append, hleased.handles]
    refine List.nodup_append.mpr ⟨h.receipts, names_nodup .., ?_⟩
    intro old hold new hnew
    obtain ⟨m, hm, rfl⟩ := List.mem_map.mp hold
    exact (minted_of_issued hagrees hm).2.ne_of_mem_names hnew
  case latest =>
    intro e' he'
    rcases hleased.entry_eq hagrees.entries he' with ⟨he, hnot⟩ | ⟨e, he, m, hm, -, hid, rfl⟩
    · rw [latest?_of_not_mem hnot]
      exact h.latest e' he
    · rw [← hid]
      exact (latest?_of_mem hids hm).symm
  case known =>
    intro receipt hreceipt
    obtain ⟨m, hm, hhandle⟩ := h.known receipt hreceipt
    exact ⟨m, issued_snoc ds _ ▸ List.mem_append_left _ hm, hhandle⟩
  case stored =>
    have hunused (m : Message) (hm : m ∈ messages) (receipt : String) (hreceipt : receipt ∈ spent) :
        m.handle ≠ some receipt := by
      obtain ⟨old, hold, hhandle⟩ := h.known receipt hreceipt
      rw [← hhandle]
      exact ((minted_of_issued hagrees hold).2.ne_of_mem_names (hfresh m hm)).symm
    rw [hleased.messages_eq, h.stored]
    exact List.filter_congr fun m _ => by rw [isDeleted_snoc hunused]
  case count =>
    have hlength := congrArg List.length hleased.messages_eq
    rw [List.length_map, List.length_map] at hlength
    change entries.length + spent.length = as.length
    rw [hlength]
    exact h.count

/-- Whoever has the receipt of an entry takes out that entry and no other. -/
theorem deleted {before after : List Entry} {e : Entry} {receipt : String}
    (h : Conserves as ds spent s) (hagrees : Agrees o as ds s)
    (hentries : s.entries = before ++ e :: after) (hreceipt : e.receipt = some receipt) :
    Conserves as ds (spent ++ [receipt]) { s with entries := before ++ after } := by
  have he : e ∈ s.entries := by simp [hentries]
  have hothers (e' : Entry) (he' : e' ∈ before ++ after) : e' ∈ s.entries := by
    rw [hentries]
    exact (List.sublist_cons_self e after).append_left before |>.subset he'
  obtain ⟨earlier, m, later, hissued, hid, hhandle, -⟩ :=
    latest?_eq_some ((h.latest e he).symm.trans hreceipt)
  have hm : m ∈ issued ds := by simp [hissued]
  refine ⟨h.receipts, fun e' he' => h.latest e' (hothers e' he'), ?known, ?stored, ?count⟩
  case known =>
    intro r hr
    rcases List.mem_append.mp hr with hr | hr
    · exact h.known r hr
    · obtain rfl := List.mem_singleton.mp hr
      exact ⟨m, hm, hhandle⟩
  case stored =>
    have hne : ∀ e' ∈ before ++ after, e'.message.id ≠ e.message.id := by
      have hperm : ((before ++ e :: after).map (·.message.id)).Nodup := hentries ▸ hagrees.entries
      rw [(List.perm_middle.map _).nodup_iff, List.map_cons, List.nodup_cons] at hperm
      intro e' he' heq
      exact hperm.1 (List.mem_map.mpr ⟨e', he', heq⟩)
    have hkept : ((before ++ after).map (·.message)).filter (fun m' => !(m.id == m'.id)) =
        (before ++ after).map (·.message) := by
      rw [List.filter_eq_self]
      intro m' hm'
      obtain ⟨e', he', rfl⟩ := List.mem_map.mp hm'
      simpa [hid] using (hne e' he').symm
    calc (before ++ after).map (·.message)
        = (s.entries.map (·.message)).filter (fun m' => !(m.id == m'.id)) := by
          rw [hentries, ← hkept]
          simp [hid]
      _ = (as.map (·.message)).filter fun m' => !isDeleted ds (spent ++ [receipt]) m'.id := by
          rw [h.stored, List.filter_filter]
          refine List.filter_congr fun m' _ => ?_
          rw [isDeleted_used h.receipts hm hhandle, Bool.not_or, Bool.and_comm]
  case count =>
    have := h.count
    rw [hentries] at this
    simp only [List.length_append, List.length_cons, List.length_nil] at this ⊢
    omega

theorem not_spent {e : Entry} {receipt : String} (h : Conserves as ds spent s)
    (he : e ∈ s.entries) (hreceipt : receipt ∈ spent) : latest? e.message.id ds ≠ some receipt := by
  intro hlatest
  obtain ⟨earlier, m, later, hissued, hid, hhandle, -⟩ := latest?_eq_some hlatest
  have hstored : e.message ∈ (as.map (·.message)).filter fun m => !isDeleted ds spent m.id := by
    rw [← h.stored]
    exact List.mem_map_of_mem he
  have hkept := (List.mem_filter.mp hstored).2
  have hgone : isDeleted ds spent e.message.id = true :=
    isDeleted_iff.mpr ⟨m, by simp [hissued], hid, receipt, hreceipt, hhandle⟩
  simp [hgone] at hkept

theorem eq_of_latest {e e' : Entry} {receipt : String} (h : Conserves as ds spent s)
    (hagrees : Agrees o as ds s) (he : e ∈ s.entries) (he' : e' ∈ s.entries)
    (hlatest : latest? e.message.id ds = some receipt)
    (hlatest' : latest? e'.message.id ds = some receipt) : e = e' := by
  obtain ⟨_, m, _, hm, hid, hhandle, -⟩ := latest?_eq_some hlatest
  obtain ⟨_, m', _, hm', hid', hhandle', -⟩ := latest?_eq_some hlatest'
  obtain rfl : m = m' := eq_of_handle h.receipts (by simp [hm]) (by simp [hm'])
    (hhandle.trans hhandle'.symm)
  exact List.inj_on_of_nodup_map hagrees.entries he he' (hid.symm.trans hid')

end Conserves

namespace System

variable {o : Options} {s s' : System} {turns : History} {a : Action} {events : List Event}

theorem conserves_of_run (h : Run step (new o) turns s) (hrange : InRange turns) :
    Conserves (acceptances turns) (deliveries turns) (used turns) s.store := by
  induction h with
  | nil => exact .new o
  | snoc hrun hstep ih =>
    have hconserves := ih hrange.left
    have hagrees := agrees_of_run hrun hrange.left
    rw [acceptances_snoc, deliveries_snoc, used_snoc]
    cases change_of_step hstep hrange.last with
    | accepted haccepted hstore =>
      have := hconserves.accepted hagrees haccepted
      rw [haccepted.messages] at this
      simpa [hstore, Event.accepted, List.filterMap_cons, Event.delivered?, used?] using this
    | delivered hleased hstore =>
      simpa [hstore, Event.accepted, Event.delivered?, used?] using
        hconserves.delivered hagrees hleased
    | deleted hentries hreceipt hstore =>
      simpa [hstore, Event.accepted, List.filterMap_cons, Event.delivered?, used?] using
        hconserves.deleted hagrees hentries hreceipt
    | same hstore haccepted hdelivered hused =>
      simpa [hstore, haccepted, hdelivered, hused] using hconserves

/-- A deletion does not find the message, and nothing changes. -/
def FindsNothing (s : System) (handle : Option String) : Prop :=
  s.step (.delete handle) = some (s, [.deleted (.error (.messageNotFound (handle.getD "<none>")))])

def IsCurrent (turns : History) (s : System) (handle : Option String) : Prop :=
  handle ≠ none ∧ ∃ e ∈ s.store.entries, latest? e.message.id (deliveries turns) = handle

/-- What may be said of deletions by a handle after these turns. -/
structure Deletes (turns : History) (s : System) (handle : Option String) : Prop where
  succeeds_iff : (∃ s', s.step (.delete handle) = some (s', [.deleted (.ok ())])) ↔
    IsCurrent turns s handle
  /-- The message goes, and all others stay as they are, in their order. -/
  removes : ∀ before e after, s.store.entries = before ++ e :: after → handle ≠ none →
    latest? e.message.id (deliveries turns) = handle →
    s.step (.delete handle) = some
      ({ s with store := { s.store with entries := before ++ after } }, [.deleted (.ok ())])
  otherwise : ¬ IsCurrent turns s handle → s.FindsNothing handle
  missing : handle = none → s.FindsNothing handle
  /-- The message was delivered again since. -/
  superseded : ∀ earlier m later, issued (deliveries turns) = earlier ++ m :: later →
    m.handle = handle → (∃ m' ∈ later, m'.id = m.id) → s.FindsNothing handle
  /-- The receipt was used up. -/
  spent : ∀ receipt ∈ used turns, handle = some receipt → s.FindsNothing handle

/-- What is stored after these turns. -/
structure Stores (turns : History) (s : System) : Prop where
  /-- All that was accepted, in that order, but for what was deleted. -/
  messages : s.store.entries.map (·.message) = ((acceptances turns).map (·.message)).filter
    fun m => !isDeleted (deliveries turns) (used turns) m.id
  size : s.store.size + (used turns).length = (acceptances turns).length
  /-- Only batches and deletions add or remove messages. -/
  untouched : ∀ a s' events, s.step a = some (s', events) → (∀ e ∈ events, e.isPanic = false) →
    (∀ token batch, a ≠ .enqueue token batch) → (∀ handle, a ≠ .delete handle) →
    s'.store.entries.map (·.message) = s.store.entries.map (·.message)

theorem step_delete (s : System) (handle : Option String) : s.step (.delete handle) =
    some ({ s with store := (s.store.delete handle).1 }, [.deleted (s.store.delete handle).2]) :=
  rfl

theorem stores_of_run (h : Run step (new o) turns s) (hrange : InRange turns) :
    Stores turns s := by
  have hconserves := conserves_of_run h hrange
  refine ⟨hconserves.stored, hconserves.count, ?_⟩
  intro a s' events hstep hevents hbatch hdelete
  cases change_of_step hstep hevents with
  | accepted => exact absurd rfl (hbatch _ _)
  | delivered hleased hstore =>
    rw [hstore]
    exact hleased.messages_eq
  | deleted => exact absurd rfl (hdelete _)
  | same hstore => rw [hstore]

/-- The receipt of the latest delivery removes the message that it was given out for. -/
theorem removes_of_run (h : Run step (new o) turns s) (hrange : InRange turns)
    {handle : Option String} {before after : List Entry} {e : Entry}
    (hentries : s.store.entries = before ++ e :: after) (hsome : handle ≠ none)
    (hlatest : latest? e.message.id (deliveries turns) = handle) :
    s.step (.delete handle) = some
      ({ s with store := { s.store with entries := before ++ after } }, [.deleted (.ok ())]) := by
  have hconserves := conserves_of_run h hrange
  have hagrees := agrees_of_run h hrange
  have he : e ∈ s.store.entries := by simp [hentries]
  rw [step_delete]
  generalize hdelete : s.store.delete handle = out
  obtain ⟨store, r⟩ := out
  cases deleted_of_delete hdelete with
  | @done receipt before' e' after' hentries' hreceipt =>
    have he' : e' ∈ s.store.entries := by simp [hentries']
    rw [hconserves.latest e' he'] at hreceipt
    obtain rfl := hconserves.eq_of_latest hagrees he he' hlatest hreceipt
    -- The entry stands only once in the store, so both ways to split it there are one.
    have hnodup : (before ++ e :: after).Nodup := hentries ▸ hagrees.entries.of_map
    have hbefore : e ∉ before := fun h => (List.nodup_append.mp hnodup).2.2 e h e (by simp) rfl
    have hafter : e ∉ after := (List.nodup_cons.mp (List.nodup_append.mp hnodup).2.1).1
    obtain ⟨rfl, -, rfl⟩ :=
      (List.append_cons_inj_of_notMem hbefore hafter).mp (hentries.symm.trans hentries')
    rfl
  | notFound hnone =>
    obtain ⟨receipt, rfl⟩ := Option.ne_none_iff_exists'.mp hsome
    exact absurd ((hconserves.latest e he).trans hlatest) (hnone receipt rfl e he)

theorem findsNothing_of_run (h : Run step (new o) turns s) (hrange : InRange turns)
    {handle : Option String} (hnot : ¬ IsCurrent turns s handle) : s.FindsNothing handle := by
  have hconserves := conserves_of_run h hrange
  rw [FindsNothing, step_delete]
  generalize hdelete : s.store.delete handle = out
  obtain ⟨store, r⟩ := out
  cases deleted_of_delete hdelete with
  | @done receipt before e after hentries hreceipt =>
    have he : e ∈ s.store.entries := by simp [hentries]
    exact absurd ⟨by simp, e, he, (hconserves.latest e he).symm.trans hreceipt⟩ hnot
  | notFound => rfl

theorem deletes_of_run (h : Run step (new o) turns s) (hrange : InRange turns)
    (handle : Option String) : Deletes turns s handle := by
  have hconserves := conserves_of_run h hrange
  refine ⟨⟨?_, ?_⟩, ?_, findsNothing_of_run h hrange, ?_, ?_, ?_⟩
  · rintro ⟨s', hstep⟩
    by_contra hnot
    have := hstep.symm.trans (findsNothing_of_run h hrange hnot)
    simp at this
  · rintro ⟨hsome, e, he, hlatest⟩
    obtain ⟨before, after, hentries⟩ := List.append_of_mem he
    exact ⟨_, removes_of_run h hrange hentries hsome hlatest⟩
  · intro before e after hentries hsome hlatest
    exact removes_of_run h hrange hentries hsome hlatest
  · intro hnone
    exact findsNothing_of_run h hrange fun hcurrent => hcurrent.1 hnone
  · rintro earlier m later hissued hhandle ⟨m', hm', hid⟩
    refine findsNothing_of_run h hrange ?_
    rintro ⟨hsome, e, -, hlatest⟩
    obtain ⟨receipt, rfl⟩ := Option.ne_none_iff_exists'.mp hsome
    exact latest?_ne_of_later hconserves.receipts hissued hm' hid hhandle hlatest
  · rintro receipt hreceipt rfl
    refine findsNothing_of_run h hrange ?_
    rintro ⟨-, e, he, hlatest⟩
    exact hconserves.not_spent he hreceipt hlatest

/-- The queue stores just what it has accepted and nobody has deleted, and a message is deleted by
the receipt of its latest delivery and by nothing else. -/
theorem deleted_by_latest_receipt (h : Run step (new o) turns s) (hrange : InRange turns) :
    Stores turns s ∧ ∀ handle, Deletes turns s handle :=
  ⟨stores_of_run h hrange, deletes_of_run h hrange⟩

def note (trace : String) : Message :=
  { trace, service := "orders", method := "create", body := [] }

/-- Two messages are delivered twice, and then one of them is deleted. -/
def deletedRun : List Action :=
  [.enqueue "token" [note "a", note "b"], .dequeue 0 "token" 2 .zero,
    .advance (Instant.ofMillis 3), .dequeue 1 "token" 2 .zero,
    .delete (some (Name.mint .receipt 4))]

theorem deleted_by_latest_receipt_deletedRun : ∃ turns s,
    Run step (new { visibility := .ofMillis 3 }) turns s ∧ InRange turns ∧
      s.store.size + 1 = (acceptances turns).length ∧ s.store.size = 1 ∧
      s.FindsNothing (some (Name.mint .receipt 3)) ∧
      s.FindsNothing (some (Name.mint .receipt 4)) ∧ s.FindsNothing none ∧
      ∃ s', s.step (.delete (some (Name.mint .receipt 5))) = some (s', [.deleted (.ok ())]) := by
  let delivered (trace : String) (id receipt : Nat) : Message :=
    { note trace with id := some (Name.mint .message id)
                      handle := some (Name.mint .receipt receipt) }
  have hseen : (replay step (new { visibility := .ofMillis 3 }) deletedRun).map (fun r =>
      (issued (deliveries r.1), used r.1, r.2.store.entries.map (·.message.id),
        r.1.all fun t => t.events.all fun e => !e.isPanic)) =
      some ([delivered "a" 0 2, delivered "b" 1 3, delivered "a" 0 4, delivered "b" 1 5],
        [Name.mint .receipt 4], [some (Name.mint .message 1)], true) := by
    decide +kernel
  obtain ⟨⟨turns, s⟩, hreplay, hseen⟩ := Option.map_eq_some_iff.mp hseen
  simp only [Prod.mk.injEq] at hseen
  obtain ⟨hissued, hused, hstored, hrange⟩ := hseen
  have hrange := InRange.of_all hrange
  have hrun := Run.of_replay hreplay
  obtain ⟨hstores, hdeletes⟩ := deleted_by_latest_receipt hrun hrange
  have hsize : s.store.size = 1 := by simpa [Store.size] using congrArg List.length hstored
  refine ⟨turns, s, hrun, hrange, ?_, hsize, ?_, ?_, (hdeletes none).missing rfl, ?_⟩
  · simpa [hused] using hstores.size
  · refine (hdeletes _).superseded [delivered "a" 0 2] (delivered "b" 1 3)
      [delivered "a" 0 4, delivered "b" 1 5] hissued rfl ?_
    exact ⟨delivered "b" 1 5, by simp, rfl⟩
  · exact (hdeletes _).spent (Name.mint .receipt 4) (by simp [hused]) rfl
  · obtain ⟨e, hentries, hid⟩ := List.map_eq_singleton_iff.mp hstored
    refine (hdeletes _).succeeds_iff.mpr ⟨by simp, e, by simp [hentries], ?_⟩
    rw [hid, latest?, hissued]
    decide +kernel

end System

end Batchflow.Queue
