import Mathlib.Data.List.Nodup
import Batchflow.Queue.Store

/-!
# What a queue does to its messages

A batch adds entries at the end of the store, a lease hides some entries and hands out their
messages, and a deletion takes an entry out.  Each is said here as a relation between the entries
before and after.  Ids and receipts are counted, so new ones come from the numbers that follow.
-/

namespace Batchflow.Queue.Store

/-- The names of a kind with so many numbers from `n` on. -/
def names (kind : NameKind) (n count : Nat) : List (Option String) :=
  (List.range' n count).map fun k => some (Name.mint kind k)

theorem names_succ (kind : NameKind) (n count : Nat) :
    names kind n (count + 1) = some (Name.mint kind n) :: names kind (n + 1) count := by
  simp [names, List.range'_succ]

theorem mem_names {kind : NameKind} {n count : Nat} {name : Option String} :
    name ∈ names kind n count ↔ ∃ k, n ≤ k ∧ k < n + count ∧ name = some (Name.mint kind k) := by
  simp only [names, List.mem_map, List.mem_range'_1]
  constructor
  · rintro ⟨k, ⟨hn, hlt⟩, rfl⟩
    exact ⟨k, hn, hlt, rfl⟩
  · rintro ⟨k, hn, hlt, rfl⟩
    exact ⟨k, ⟨hn, hlt⟩, rfl⟩

theorem names_nodup (kind : NameKind) (n count : Nat) : (names kind n count).Nodup := by
  refine List.Nodup.map ?_ List.nodup_range'
  intro j k h
  exact Name.mint_injective (Option.some.inj h)

def Minted (kind : NameKind) (n : Nat) (name : Option String) : Prop :=
  ∃ k < n, name = some (Name.mint kind k)

theorem Minted.mono {kind : NameKind} {m n : Nat} {name : Option String} (h : Minted kind m name)
    (hle : m ≤ n) : Minted kind n name := by
  obtain ⟨k, hk, hname⟩ := h
  exact ⟨k, Nat.lt_of_lt_of_le hk hle, hname⟩

theorem minted_of_mem_names {kind : NameKind} {n count : Nat} {name : Option String}
    (h : name ∈ names kind n count) : Minted kind (n + count) name := by
  obtain ⟨k, -, hk, hname⟩ := mem_names.mp h
  exact ⟨k, hk, hname⟩

theorem Minted.ne_of_mem_names {kind : NameKind} {n count : Nat} {old new : Option String}
    (hold : Minted kind n old) (hnew : new ∈ names kind n count) : old ≠ new := by
  obtain ⟨j, hj, rfl⟩ := hold
  obtain ⟨k, hk, -, rfl⟩ := mem_names.mp hnew
  intro heq
  have hjk := Name.mint_injective (Option.some.inj heq)
  omega

/-- A batch is judged message by message: the entries it adds, with ids numbered from `n`, and the
verdicts. -/
inductive Accepted (now : Nat) : Nat → List Message → List Entry → List Verdict → Prop
  | nil {n} : Accepted now n [] [] []
  | refused {n m batch entries verdicts} (fault : String) : addressFault? m = some fault →
      Accepted now n batch entries verdicts →
      Accepted now n (m :: batch) entries (.failed m true fault :: verdicts)
  | stored {n m batch entries verdicts} : addressFault? m = none →
      Accepted now (n + 1) batch entries verdicts →
      Accepted now n (m :: batch)
        ({ message := { m with id := some (Name.mint .message n) },
           visibleAt := now + m.delay.total, receipt := none } :: entries)
        (.succeeded { m with id := some (Name.mint .message n) } :: verdicts)

theorem accepted_of_accept {now : Nat} {s s' : Store} {batch back : List Message}
    {verdicts : List Verdict} (h : accept now s batch = (s', back, .ok verdicts)) :
    ∃ entries, Accepted now s.minted batch entries verdicts ∧
      s' = { s with entries := s.entries ++ entries, minted := s.minted + entries.length } := by
  induction batch generalizing s s' back verdicts with
  | nil =>
    simp only [accept, Prod.mk.injEq, Except.ok.injEq] at h
    obtain ⟨rfl, -, rfl⟩ := h
    exact ⟨[], .nil, by simp⟩
  | cons m batch ih =>
    unfold accept at h
    split at h
    · rename_i fault hfault
      rcases hrest : accept now s batch with ⟨s₁, back₁, r⟩
      rw [hrest] at h
      simp only [Prod.mk.injEq] at h
      cases r with
      | error p => cases h.2.2
      | ok rest =>
        obtain ⟨rfl, -, hverdicts⟩ := h
        obtain rfl := Except.ok.inj hverdicts
        obtain ⟨entries, hentries, rfl⟩ := ih hrest
        exact ⟨entries, .refused fault hfault hentries, rfl⟩
    · rename_i hsound
      dsimp only at h
      split at h
      · cases h
      · rename_i visibleAt hafter
        obtain rfl := Instant.eq_of_after? hafter
        rcases hrest : accept now _ batch with ⟨s₁, back₁, r⟩
        rw [hrest] at h
        simp only [Prod.mk.injEq] at h
        cases r with
        | error p => cases h.2.2
        | ok rest =>
          obtain ⟨rfl, -, hverdicts⟩ := h
          obtain rfl := Except.ok.inj hverdicts
          obtain ⟨entries, hentries, rfl⟩ := ih hrest
          refine ⟨_ :: entries, .stored hsound hentries, ?_⟩
          have hminted : s.minted + 1 + entries.length = s.minted + (entries.length + 1) := by omega
          simp [hminted]

section Accepted

variable {now n : Nat} {batch : List Message} {entries : List Entry} {verdicts : List Verdict}

theorem Accepted.messages (h : Accepted now n batch entries verdicts) :
    entries.map (·.message) = (verdicts.filter (·.success)).map (·.message) := by
  induction h with
  | nil => rfl
  | refused _ _ _ ih => simpa [Verdict.failed] using ih
  | stored _ _ ih => simpa [Verdict.succeeded] using ih

theorem Accepted.ids (h : Accepted now n batch entries verdicts) :
    entries.map (·.message.id) = names .message n entries.length := by
  induction h with
  | nil => rfl
  | refused _ _ _ ih => exact ih
  | stored _ _ ih => simp [names_succ, ih]

theorem Accepted.sent {e : Entry} (h : Accepted now n batch entries verdicts) (he : e ∈ entries) :
    (∃ m ∈ batch, e.message = { m with id := e.message.id }) ∧
      e.visibleAt = now + e.message.delay.total ∧ e.receipt = none := by
  induction h with
  | nil => cases he
  | refused _ _ _ ih =>
    obtain ⟨⟨m, hm, hmessage⟩, hrest⟩ := ih he
    exact ⟨⟨m, List.mem_cons_of_mem _ hm, hmessage⟩, hrest⟩
  | stored _ _ ih =>
    rcases List.mem_cons.mp he with rfl | he
    · exact ⟨⟨_, List.mem_cons_self, rfl⟩, rfl, rfl⟩
    · obtain ⟨⟨m, hm, hmessage⟩, hrest⟩ := ih he
      exact ⟨⟨m, List.mem_cons_of_mem _ hm, hmessage⟩, hrest⟩

end Accepted

theorem accepted_of_enqueue {now : Nat} {cancelled : Bool} {s s' : Store}
    {batch back : List Message} {verdicts : List Verdict}
    (h : enqueue s now cancelled batch = (s', back, .taken verdicts)) :
    ∃ entries, Accepted now s.minted batch entries verdicts ∧
      s' = { s with entries := s.entries ++ entries, minted := s.minted + entries.length } := by
  unfold enqueue at h
  split_ifs at h
  · cases (Prod.mk.inj (Prod.mk.inj h).2).2
  · cases (Prod.mk.inj (Prod.mk.inj h).2).2
  · split at h
    · rename_i haccept
      simp only [Prod.mk.injEq, Reception.taken.injEq] at h
      obtain ⟨rfl, -, rfl⟩ := h
      exact accepted_of_accept haccept
    · cases (Prod.mk.inj (Prod.mk.inj h).2).2

theorem eq_of_enqueue_refused {now : Nat} {cancelled : Bool} {s s' : Store}
    {batch back : List Message} {e : Error}
    (h : enqueue s now cancelled batch = (s', back, .refused e)) : s' = s := by
  unfold enqueue at h
  split_ifs at h
  · exact (Prod.mk.inj h).1.symm
  · exact (Prod.mk.inj h).1.symm
  · split at h <;> cases (Prod.mk.inj (Prod.mk.inj h).2).2

/-- Some visible entries are hidden until `again` and their messages handed out, with receipts
numbered from `n`. -/
inductive Leased (now again : Nat) : Nat → List Entry → List Entry → List Message → Prop
  | nil {n} : Leased now again n [] [] []
  | kept {n entries entries' messages} (e : Entry) : Leased now again n entries entries' messages →
      Leased now again n (e :: entries) (e :: entries') messages
  | taken {n entries entries' messages e} : Entry.visibleAt e ≤ now →
      Leased now again (n + 1) entries entries' messages →
      Leased now again n (e :: entries)
        ({ e with visibleAt := again, receipt := some (Name.mint .receipt n) } :: entries')
        ({ e.message with handle := some (Name.mint .receipt n) } :: messages)

theorem Leased.refl {now again n : Nat} {entries : List Entry} :
    Leased now again n entries entries [] := by
  induction entries with
  | nil => exact .nil
  | cons e entries ih => exact .kept e ih

theorem leased_of_leaseEntries (now again count n : Nat) (entries : List Entry) :
    Leased now again n entries (leaseEntries now again count n entries).1
        (leaseEntries now again count n entries).2 ∧
      (leaseEntries now again count n entries).2.length ≤ count := by
  fun_induction leaseEntries now again count n entries with
  | case1 => exact ⟨.nil, Nat.zero_le _⟩
  | case2 => exact ⟨.refl, Nat.le_refl _⟩
  | case3 n count e entries hvisible receipt entries' messages hrest ih =>
    rw [hrest] at ih
    refine ⟨.taken ?_ ih.1, Nat.succ_le_succ ih.2⟩
    simpa [Entry.isVisible] using hvisible
  | case4 n count e entries hhidden entries' messages hrest ih =>
    rw [hrest] at ih
    exact ⟨.kept e ih.1, ih.2⟩

section Leased

variable {now again n : Nat} {entries entries' : List Entry} {messages : List Message}

theorem Leased.handles (h : Leased now again n entries entries' messages) :
    messages.map (·.handle) = names .receipt n messages.length := by
  induction h with
  | nil => rfl
  | kept _ _ ih => exact ih
  | taken _ _ ih => simp [names_succ, ih]

theorem Leased.eq_self (h : Leased now again n entries entries' []) : entries' = entries := by
  generalize hnone : ([] : List Message) = none at h
  induction h with
  | nil => rfl
  | kept e _ ih => rw [ih hnone]
  | taken => cases hnone

theorem Leased.ids_sublist (h : Leased now again n entries entries' messages) :
    (messages.map (·.id)).Sublist (entries.map (·.message.id)) := by
  induction h with
  | nil => exact .slnil
  | kept _ _ ih => exact ih.cons _
  | taken _ _ ih => exact ih.cons_cons _

theorem Leased.messages_eq (h : Leased now again n entries entries' messages) :
    entries'.map (·.message) = entries.map (·.message) := by
  induction h with
  | nil => rfl
  | kept _ _ ih => simp [ih]
  | taken _ _ ih => simp [ih]

theorem Leased.source {m : Message} (h : Leased now again n entries entries' messages)
    (hm : m ∈ messages) :
    ∃ e ∈ entries, e.visibleAt ≤ now ∧ m = { e.message with handle := m.handle } := by
  induction h with
  | nil => cases hm
  | kept _ _ ih =>
    obtain ⟨e, he, hrest⟩ := ih hm
    exact ⟨e, List.mem_cons_of_mem _ he, hrest⟩
  | taken hvisible _ ih =>
    rcases List.mem_cons.mp hm with rfl | hm
    · exact ⟨_, List.mem_cons_self, hvisible, rfl⟩
    · obtain ⟨e, he, hrest⟩ := ih hm
      exact ⟨e, List.mem_cons_of_mem _ he, hrest⟩

/-- An entry stays as it was and its message is not handed out, or it was visible, its message is
handed out, and the entry keeps the receipt. -/
theorem Leased.entry_eq {e' : Entry} (h : Leased now again n entries entries' messages)
    (hids : (entries.map (·.message.id)).Nodup) (he' : e' ∈ entries') :
    (e' ∈ entries ∧ e'.message.id ∉ messages.map (·.id)) ∨
      ∃ e ∈ entries, ∃ m ∈ messages, e.visibleAt ≤ now ∧ m.id = e.message.id ∧
        e' = { e with visibleAt := again, receipt := m.handle } := by
  induction h with
  | nil => cases he'
  | kept e hrest ih =>
    obtain ⟨hne, hids⟩ := List.nodup_cons.mp hids
    rcases List.mem_cons.mp he' with rfl | he'
    · exact .inl ⟨List.mem_cons_self, fun hm => hne (hrest.ids_sublist.subset hm)⟩
    · rcases ih hids he' with ⟨he, hm⟩ | ⟨e, he, hrest⟩
      · exact .inl ⟨List.mem_cons_of_mem _ he, hm⟩
      · exact .inr ⟨e, List.mem_cons_of_mem _ he, hrest⟩
  | @taken _ _ _ _ e hvisible hrest ih =>
    obtain ⟨hne, hids⟩ := List.nodup_cons.mp hids
    rcases List.mem_cons.mp he' with rfl | he'
    · exact .inr ⟨e, List.mem_cons_self, _, List.mem_cons_self, hvisible, rfl, rfl⟩
    · rcases ih hids he' with ⟨he, hm⟩ | ⟨e, he, m, hm, hrest⟩
      · refine .inl ⟨List.mem_cons_of_mem _ he, ?_⟩
        rw [List.map_cons, List.mem_cons, not_or]
        refine ⟨?_, hm⟩
        intro heq
        exact hne (List.mem_map.mpr ⟨_, he, heq⟩)
      · exact .inr ⟨e, List.mem_cons_of_mem _ he, m, List.mem_cons_of_mem _ hm, hrest⟩

theorem Leased.entry {e' : Entry} (h : Leased now again n entries entries' messages)
    (hids : (entries.map (·.message.id)).Nodup) (he' : e' ∈ entries') :
    (e' ∈ entries ∧ e'.message.id ∉ messages.map (·.id)) ∨
      e'.visibleAt = again ∧ ∃ e ∈ entries, e.message = e'.message ∧ e.visibleAt ≤ now := by
  refine (h.entry_eq hids he').imp_right ?_
  rintro ⟨e, he, m, -, hvisible, -, rfl⟩
  exact ⟨rfl, e, he, rfl, hvisible⟩

/-- No entry becomes visible earlier than it would have without the lease. -/
theorem Leased.later {e' : Entry} (h : Leased now again n entries entries' messages)
    (hle : now ≤ again) (he' : e' ∈ entries') : ∃ e ∈ entries, e.visibleAt ≤ e'.visibleAt := by
  induction h with
  | nil => cases he'
  | kept e _ ih =>
    rcases List.mem_cons.mp he' with rfl | he'
    · exact ⟨e', List.mem_cons_self, Nat.le_refl _⟩
    · obtain ⟨e, he, hvisible⟩ := ih he'
      exact ⟨e, List.mem_cons_of_mem _ he, hvisible⟩
  | taken hvisible _ ih =>
    rcases List.mem_cons.mp he' with rfl | he'
    · exact ⟨_, List.mem_cons_self, Nat.le_trans hvisible hle⟩
    · obtain ⟨e, he, hvisible⟩ := ih he'
      exact ⟨e, List.mem_cons_of_mem _ he, hvisible⟩

end Leased

/-- What a lease that can be set does to the store. -/
theorem leased_of_lease {now count : Nat} {s s' : Store} {messages : List Message}
    (h : lease s now count = (s', .ok messages)) :
    ∃ entries, s' = { s with entries, minted := s.minted + messages.length } ∧
      messages.length ≤ count ∧
      Leased now (now + s.options.visibility.total) s.minted s.entries entries messages := by
  unfold lease at h
  split at h
  · rename_i again hagain
    obtain rfl := Instant.eq_of_after? hagain
    have hleased := leased_of_leaseEntries now (now + s.options.visibility.total) count s.minted
      s.entries
    rcases hentries : leaseEntries now (now + s.options.visibility.total) count s.minted s.entries
      with ⟨entries, messages⟩
    rw [hentries] at h hleased
    simp only [Prod.mk.injEq, Except.ok.injEq] at h
    obtain ⟨rfl, rfl⟩ := h
    exact ⟨entries, rfl, hleased.2, hleased.1⟩
  · split at h
    · cases (Prod.mk.inj h).2
    · simp only [Prod.mk.injEq, Except.ok.injEq] at h
      obtain ⟨rfl, rfl⟩ := h
      exact ⟨s.entries, rfl, Nat.zero_le _, .refl⟩

/-- Whoever asks for messages and gets none has found all of them hidden. -/
theorem hidden_of_leaseEntries {now again count n : Nat} {entries : List Entry}
    (hcount : count ≠ 0) (h : (leaseEntries now again count n entries).2 = []) :
    ∀ e ∈ entries, now < e.visibleAt := by
  fun_induction leaseEntries now again count n entries with
  | case1 => simp
  | case2 => exact absurd rfl hcount
  | case3 => cases h
  | case4 n count e entries hhidden entries' messages hrest ih =>
    rw [hrest] at ih
    intro e' he'
    rcases List.mem_cons.mp he' with rfl | he'
    · simpa [Entry.isVisible] using hhidden
    · exact ih (Nat.succ_ne_zero n) h e' he'

theorem hidden_of_lease {now count : Nat} {s s' : Store} (h : lease s now count = (s', .ok []))
    (hcount : count ≠ 0) : ∀ e ∈ s.entries, now < e.visibleAt := by
  unfold lease at h
  split at h
  · rename_i again _
    have hnil : (leaseEntries now again count s.minted s.entries).2 = [] :=
      Except.ok.inj (Prod.mk.inj h).2
    exact hidden_of_leaseEntries hcount hnil
  · split at h
    · cases (Prod.mk.inj h).2
    · rename_i hnone
      simpa [Entry.isVisible] using hnone

/-- A deletion takes out the first entry with the receipt, or says that there is none. -/
inductive Deleted (s : Store) : Option String → Store → Except Error Unit → Prop
  | done {receipt before e after} : s.entries = before ++ e :: after →
      e.receipt = some receipt → (∀ e' ∈ before, e'.receipt ≠ some receipt) →
      Deleted s (some receipt) { s with entries := before ++ after } (.ok ())
  | notFound {handle} : (∀ receipt ∈ handle, ∀ e ∈ s.entries, e.receipt ≠ some receipt) →
      Deleted s handle s (.error (.messageNotFound (handle.getD "<none>")))

theorem deleted_of_delete {s s' : Store} {handle : Option String} {r : Except Error Unit}
    (h : delete s handle = (s', r)) : s.Deleted handle s' r := by
  unfold delete at h
  split at h
  · obtain ⟨rfl, rfl⟩ := Prod.mk.inj h
    exact .notFound (by simp)
  · rename_i receipt
    split at h
    · rename_i hany
      obtain ⟨rfl, rfl⟩ := Prod.mk.inj h
      obtain ⟨e, he, hreceipt⟩ := List.any_eq_true.mp hany
      obtain ⟨e, before, after, hbefore, hreceipt, hentries, herase⟩ :=
        List.exists_of_eraseP (p := (·.receipt == some receipt)) he hreceipt
      rw [herase]
      exact .done hentries (by simpa using hreceipt) (by simpa using hbefore)
    · rename_i hnone
      obtain ⟨rfl, rfl⟩ := Prod.mk.inj h
      exact .notFound (by simpa using hnone)

theorem sublist_of_delete {s s' : Store} {handle : Option String} {r : Except Error Unit}
    (h : delete s handle = (s', r)) :
    ∃ entries, s' = { s with entries } ∧ entries.Sublist s.entries := by
  cases deleted_of_delete h with
  | @done _ before e after hentries =>
    refine ⟨before ++ after, rfl, ?_⟩
    rw [hentries]
    exact (List.sublist_cons_self e after).append_left before
  | notFound => exact ⟨s.entries, rfl, .refl _⟩

end Batchflow.Queue.Store
