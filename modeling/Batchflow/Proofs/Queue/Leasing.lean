import Mathlib.Order.Bounds.Basic
import Batchflow.Proofs.Queue.Store

/-!
# One pass over the store

A lease can be found in one pass over the entries, which skips those that are hidden and, once it
has enough, those that are not.  The pass keeps three accounts: the entries behind it, the messages
it has leased, and the first moment at which an entry becomes visible that it has found hidden.  The
last one covers the entries behind the last message too, and none of those just leased, so whoever
gets nothing may sleep until then.
-/

namespace Batchflow.Queue.Store

variable {now again count minted i : Nat} {e : Entry} {entries : List Entry}

def leasedUntil (again : Nat) (receipt : String) (e : Entry) : Entry :=
  { e with visibleAt := again, receipt := some receipt }

def underReceipt (receipt : String) (m : Message) : Message := { m with handle := some receipt }

/-- What a pass over the entries has come to. -/
structure Pass where
  /-- The entries behind it, as it has left them. -/
  passed : List Entry := []
  leased : List Message := []
  /-- The first moment at which an entry becomes visible that was hidden. -/
  next? : Option Nat := none

/-- The pass comes to the next entry. -/
def Pass.visit (now again count minted : Nat) (p : Pass) (e : Entry) : Pass :=
  if now < e.visibleAt then
    { p with
      passed := p.passed ++ [e]
      next? := Option.merge min p.next? (some e.visibleAt) }
  else if p.leased.length = count then { p with passed := p.passed ++ [e] }
  else
    let receipt := Name.mint .receipt (minted + p.leased.length)
    { p with
      passed := p.passed ++ [leasedUntil again receipt e]
      leased := p.leased ++ [underReceipt receipt e.message] }

def hiddenTimes (now : Nat) (entries : List Entry) : List Nat :=
  (entries.map Entry.visibleAt).filter (now < ·)

theorem min?_hiddenTimes_hidden (h : now < e.visibleAt) (entries : List Entry) :
    (hiddenTimes now (e :: entries)).min? =
      Option.merge min (some e.visibleAt) (hiddenTimes now entries).min? := by
  have hcons : hiddenTimes now (e :: entries) = e.visibleAt :: hiddenTimes now entries := by
    simp [hiddenTimes, h]
  rw [hcons, List.min?_cons]
  cases (hiddenTimes now entries).min? <;> rfl

theorem hiddenTimes_visible (h : e.visibleAt ≤ now) (entries : List Entry) :
    hiddenTimes now (e :: entries) = hiddenTimes now entries := by
  simp [hiddenTimes, h]

theorem isVisible_eq_false (h : now < e.visibleAt) : Entry.isVisible now e = false := by
  simp [Entry.isVisible, h]

theorem isVisible_eq_true (h : e.visibleAt ≤ now) : Entry.isVisible now e = true := by
  simp [Entry.isVisible, h]

theorem leaseEntries_zero (entries : List Entry) :
    leaseEntries now again 0 minted entries = (entries, []) := by
  cases entries <;> rfl

theorem leaseEntries_hidden (h : now < e.visibleAt) :
    leaseEntries now again count minted (e :: entries) =
      (e :: (leaseEntries now again count minted entries).1,
        (leaseEntries now again count minted entries).2) := by
  cases count with
  | zero => simp [leaseEntries_zero]
  | succ count => simp [leaseEntries, isVisible_eq_false h]

theorem leaseEntries_visible (h : e.visibleAt ≤ now) :
    leaseEntries now again (count + 1) minted (e :: entries) =
      (leasedUntil again (Name.mint .receipt minted) e ::
          (leaseEntries now again count (minted + 1) entries).1,
        underReceipt (Name.mint .receipt minted) e.message ::
          (leaseEntries now again count (minted + 1) entries).2) := by
  simp [leaseEntries, isVisible_eq_true h, leasedUntil, underReceipt]

/-- What is still to be leased when the pass has come so far. -/
def Pass.rest (now again count minted : Nat) (p : Pass) (entries : List Entry) :
    List Entry × List Message :=
  leaseEntries now again (count - p.leased.length) (minted + p.leased.length) entries

/-- The pass comes to the lease of the entries and to the first of the hidden moments, whatever its
accounts were at the start. -/
theorem foldl_visit (now again minted : Nat) (p : Pass) (hp : p.leased.length ≤ count)
    (entries : List Entry) :
    entries.foldl (Pass.visit now again count minted) p =
      { passed := p.passed ++ (p.rest now again count minted entries).1
        leased := p.leased ++ (p.rest now again count minted entries).2
        next? := Option.merge min p.next? (hiddenTimes now entries).min? } := by
  have hassoc (a b c : Option Nat) :
      (a.merge min b).merge min c = a.merge min (b.merge min c) := Std.Associative.assoc a b c
  induction entries generalizing p with
  | nil => simp [Pass.rest, leaseEntries, hiddenTimes]
  | cons e entries ih =>
    rw [List.foldl_cons]
    by_cases hhidden : now < e.visibleAt
    · rw [Pass.visit, if_pos hhidden]
      rw [ih { p with
        passed := p.passed ++ [e]
        next? := Option.merge min p.next? (some e.visibleAt) } hp]
      rw [min?_hiddenTimes_hidden hhidden]
      simp [Pass.rest, leaseEntries_hidden hhidden, hassoc]
    · have hvisible : e.visibleAt ≤ now := Nat.le_of_not_lt hhidden
      rw [Pass.visit, if_neg hhidden, hiddenTimes_visible hvisible]
      by_cases hfull : p.leased.length = count
      · rw [if_pos hfull, ih { p with passed := p.passed ++ [e] } hp]
        simp [Pass.rest, hfull, leaseEntries_zero]
      · obtain ⟨left, hleft⟩ : ∃ left, count - p.leased.length = left + 1 :=
          ⟨count - p.leased.length - 1, by omega⟩
        have hless : count - (p.leased.length + 1) = left := by omega
        rw [if_neg hfull, ih _ (by simp; omega)]
        simp [Pass.rest, hleft, hless, leaseEntries_visible hvisible, Nat.add_assoc]

def rank (now : Nat) (entries : List Entry) (i : Nat) : Nat :=
  (entries.take i).countP (Entry.isVisible now)

@[simp] theorem rank_zero : rank now entries 0 = 0 := by simp [rank]

theorem rank_hidden (h : now < e.visibleAt) :
    rank now (e :: entries) (i + 1) = rank now entries i := by
  simp [rank, isVisible_eq_false h]

theorem rank_visible (h : e.visibleAt ≤ now) :
    rank now (e :: entries) (i + 1) = rank now entries i + 1 := by
  simp [rank, isVisible_eq_true h]

theorem length_leaseEntries (now again count minted : Nat) (entries : List Entry) :
    (leaseEntries now again count minted entries).1.length = entries.length := by
  induction entries generalizing count minted with
  | nil => simp [leaseEntries]
  | cons e entries ih =>
    by_cases hhidden : now < e.visibleAt
    · simp [leaseEntries_hidden hhidden, ih]
    · cases count with
      | zero => simp [leaseEntries_zero]
      | succ count => simp [leaseEntries_visible (Nat.le_of_not_lt hhidden), ih]

/-- The messages are those of the first visible entries, in their order. -/
theorem delivered_leaseEntries (now again count minted : Nat) (entries : List Entry) :
    List.Forall₂ (fun e m => ∃ receipt, m = underReceipt receipt e.message)
      ((entries.filter (Entry.isVisible now)).take count)
      (leaseEntries now again count minted entries).2 := by
  induction entries generalizing count minted with
  | nil => simp [leaseEntries]
  | cons e entries ih =>
    by_cases hhidden : now < e.visibleAt
    · simpa [leaseEntries_hidden hhidden, isVisible_eq_false hhidden] using ih count minted
    · have hvisible : e.visibleAt ≤ now := Nat.le_of_not_lt hhidden
      cases count with
      | zero => simp [leaseEntries_zero]
      | succ count =>
        rw [leaseEntries_visible hvisible, List.filter_cons_of_pos (isVisible_eq_true hvisible),
          List.take_succ_cons]
        exact .cons ⟨_, rfl⟩ (ih count (minted + 1))

/-- A visible entry with fewer than `count` visible ones in front of it is leased, and its message
stands where those of the others end. -/
theorem leaseEntries_of_rank_lt (again minted : Nat) (hi : entries[i]? = some e)
    (hvisible : e.visibleAt ≤ now) (hrank : rank now entries i < count) :
    (leaseEntries now again count minted entries).1[i]? =
        some (leasedUntil again (Name.mint .receipt (minted + rank now entries i)) e) ∧
      (leaseEntries now again count minted entries).2[rank now entries i]? =
        some (underReceipt (Name.mint .receipt (minted + rank now entries i)) e.message) := by
  induction entries generalizing i count minted with
  | nil => simp at hi
  | cons d entries ih =>
    obtain ⟨left, rfl⟩ : ∃ left, count = left + 1 := ⟨count - 1, by omega⟩
    cases i with
    | zero =>
      obtain rfl : d = e := by simpa using hi
      simp [leaseEntries_visible hvisible]
    | succ i =>
      rw [List.getElem?_cons_succ] at hi
      by_cases hhidden : now < d.visibleAt
      · rw [rank_hidden hhidden] at hrank ⊢
        simpa [leaseEntries_hidden hhidden] using ih minted hi hrank
      · have hd : d.visibleAt ≤ now := Nat.le_of_not_lt hhidden
        rw [rank_visible hd] at hrank ⊢
        have hrest := ih (minted + 1) hi (Nat.lt_of_succ_lt_succ hrank)
        have hnumber : minted + (rank now entries i + 1) = minted + 1 + rank now entries i := by
          omega
        simpa [leaseEntries_visible hd, hnumber] using hrest

theorem leaseEntries_of_le_rank (again minted : Nat) (hi : entries[i]? = some e)
    (hother : now < e.visibleAt ∨ count ≤ rank now entries i) :
    (leaseEntries now again count minted entries).1[i]? = some e := by
  induction entries generalizing i count minted with
  | nil => simp at hi
  | cons d entries ih =>
    cases count with
    | zero => simpa [leaseEntries_zero] using hi
    | succ count =>
      cases i with
      | zero =>
        obtain rfl : d = e := by simpa using hi
        have hhidden : now < d.visibleAt := by simpa using hother
        simp [leaseEntries_hidden hhidden]
      | succ i =>
        rw [List.getElem?_cons_succ] at hi
        by_cases hhidden : now < d.visibleAt
        · rw [rank_hidden hhidden] at hother
          simpa [leaseEntries_hidden hhidden] using ih minted hi hother
        · have hd : d.visibleAt ≤ now := Nat.le_of_not_lt hhidden
          rw [rank_visible hd] at hother
          simpa [leaseEntries_visible hd] using
            ih (minted + 1) hi (hother.imp_right Nat.le_of_succ_le_succ)

theorem mem_hiddenTimes {t : Nat} :
    t ∈ hiddenTimes now entries ↔ now < t ∧ ∃ e ∈ entries, e.visibleAt = t := by
  simp [hiddenTimes, and_comm]

theorem nextVisible?_eq_some {s : Store} {t : Nat} :
    s.nextVisible? now = some t ↔ IsLeast {u | now < u ∧ ∃ e ∈ s.entries, e.visibleAt = u} t := by
  have hmin : s.nextVisible? now = some t ↔
      t ∈ hiddenTimes now s.entries ∧ ∀ u ∈ hiddenTimes now s.entries, t ≤ u :=
    List.min?_eq_some_iff
  simp only [mem_hiddenTimes] at hmin
  rw [hmin]
  rfl

theorem nextVisible?_eq_none {s : Store} :
    s.nextVisible? now = none ↔ ∀ e ∈ s.entries, e.visibleAt ≤ now := by
  simp [nextVisible?, List.min?_eq_none_iff]

theorem lt_of_nextVisible? {s : Store} {u : Nat} (hu : ∀ t ∈ s.nextVisible? now, u < t)
    (he : e ∈ s.entries) (hhidden : now < e.visibleAt) : u < e.visibleAt := by
  cases hnext : s.nextVisible? now with
  | none => exact absurd (nextVisible?_eq_none.mp hnext e he) (Nat.not_le.mpr hhidden)
  | some t =>
    have hleast := nextVisible?_eq_some.mp hnext
    exact Nat.lt_of_lt_of_le (hu t hnext) (hleast.2 ⟨hhidden, e, he, rfl⟩)

/-- What a lease of at most `count` messages gives, and what it makes of the store. -/
structure Leases (s : Store) (now count : Nat) (s' : Store) (messages : List Message)
    (next? : Option Nat) : Prop where
  /-- The messages of the first visible entries are handed out, in their order. -/
  delivered : List.Forall₂ (fun e m => ∃ receipt, m = underReceipt receipt e.message)
    ((s.entries.filter (Entry.isVisible now)).take count) messages
  length_messages : messages.length = min count (s.entries.countP (Entry.isVisible now))
  length_entries : s'.entries.length = s.entries.length
  /-- Just these entries are leased, each under the receipt that comes with its message. -/
  chosen : ∀ i e, s.entries[i]? = some e → e.visibleAt ≤ now → rank now s.entries i < count →
    ∃ receipt, messages[rank now s.entries i]? = some (underReceipt receipt e.message) ∧
      s'.entries[i]? = some (leasedUntil (now + s.options.visibility.total) receipt e)
  others : ∀ i e, s.entries[i]? = some e → now < e.visibleAt ∨ count ≤ rank now s.entries i →
    s'.entries[i]? = some e
  options : s'.options = s.options
  /-- No two receipts are the same, and none was given out before. -/
  distinct : (messages.map (·.handle)).Nodup
  fresh : ∀ m ∈ messages, ∀ old, Minted .receipt s.minted old → old ≠ m.handle
  minted : ∀ m ∈ messages, Minted .receipt s'.minted m.handle
  /-- The next moment is the first at which an entry becomes visible that was hidden. -/
  next : ∀ t, next? = some t ↔ IsLeast {u | now < u ∧ ∃ e ∈ s.entries, e.visibleAt = u} t
  no_next : next? = none ↔ ∀ e ∈ s.entries, e.visibleAt ≤ now
  /-- Whoever gets nothing finds nothing visible before that. -/
  asleep : messages = [] → ∀ u, (∀ t ∈ next?, u < t) →
    ∀ e ∈ s'.entries, Entry.isVisible u e = false

theorem hidden_of_no_messages {s : Store} {u : Nat} (hcount : 1 ≤ count)
    (hnone : (leaseEntries now again count s.minted s.entries).2 = [])
    (hu : ∀ t ∈ s.nextVisible? now, u < t) :
    ∀ e ∈ (leaseEntries now again count s.minted s.entries).1, Entry.isVisible u e = false := by
  have hhidden := hidden_of_leaseEntries (Nat.ne_of_gt hcount) hnone
  have hleased := (leased_of_leaseEntries now again count s.minted s.entries).1
  rw [hnone] at hleased
  rw [hleased.eq_self]
  exact fun e he => isVisible_eq_false (lt_of_nextVisible? hu he (hhidden e he))

def afterLease (s : Store) (now again count : Nat) : Store :=
  let (entries, messages) := leaseEntries now again count s.minted s.entries
  { s with entries, minted := s.minted + messages.length }

theorem lease_eq {s : Store} (hagain : Instant.after? now s.options.visibility = some again) :
    s.lease now count = (s.afterLease now again count,
      .ok (leaseEntries now again count s.minted s.entries).2) := by
  simp only [lease, hagain, afterLease]

theorem leases_afterLease {s : Store} (hcount : 1 ≤ count)
    (hagain : Instant.after? now s.options.visibility = some again) :
    s.Leases now count (s.afterLease now again count)
      (leaseEntries now again count s.minted s.entries).2 (s.nextVisible? now) := by
  have htime : again = now + s.options.visibility.total := Instant.eq_of_after? hagain
  have hdelivered := delivered_leaseEntries now again count s.minted s.entries
  have hhandles := (leased_of_leaseEntries now again count s.minted s.entries).1.handles
  have hnames {m : Message} (hm : m ∈ (leaseEntries now again count s.minted s.entries).2) :
      m.handle ∈ names .receipt s.minted
        (leaseEntries now again count s.minted s.entries).2.length :=
    hhandles ▸ List.mem_map_of_mem hm
  refine { delivered := hdelivered
           length_messages := ?length
           length_entries := length_leaseEntries now again count s.minted s.entries
           chosen := ?chosen
           others := fun i e hi hother => leaseEntries_of_le_rank again s.minted hi hother
           options := rfl
           distinct := hhandles ▸ names_nodup _ _ _
           fresh := fun m hm old hold => hold.ne_of_mem_names (hnames hm)
           minted := fun m hm => minted_of_mem_names (hnames hm)
           next := fun t => nextVisible?_eq_some
           no_next := nextVisible?_eq_none
           asleep := fun hnone u hu => hidden_of_no_messages hcount hnone hu }
  case length =>
    rw [← hdelivered.length_eq, List.length_take, List.countP_eq_length_filter]
  case chosen =>
    intro i e hi hvisible hrank
    obtain ⟨hentry, hmessage⟩ := leaseEntries_of_rank_lt again s.minted hi hvisible hrank
    rw [← htime]
    exact ⟨_, hmessage, hentry⟩

/-- A lease that fits the clock is one pass over the entries.  It hands out the first visible
messages, hides just those, and tells when the next of the hidden ones appears. -/
theorem lease_in_one_pass {s : Store} (hcount : 1 ≤ count)
    (hagain : Instant.after? now s.options.visibility = some again) :
    ∃ s' messages, s.lease now count = (s', .ok messages) ∧
      s.entries.foldl (Pass.visit now again count s.minted) {} =
        { passed := s'.entries, leased := messages, next? := s.nextVisible? now } ∧
      s.Leases now count s' messages (s.nextVisible? now) := by
  have hpass := foldl_visit now again s.minted {} (Nat.zero_le count) s.entries
  have hnext : Option.merge min none (hiddenTimes now s.entries).min? = s.nextVisible? now := by
    rw [Option.merge_none_left]
    rfl
  rw [hnext] at hpass
  exact ⟨_, _, lease_eq hagain, hpass, leases_afterLease hcount hagain⟩

/-- A message that was stored and never delivered. -/
def undelivered (trace : String) (visibleAt : Nat) : Entry where
  message := { trace, service := "orders", method := "ship", body := [] }
  visibleAt := visibleAt
  receipt := none

/-- Two of these entries are hidden at the time 5, and one of the others is too many. -/
def mixedStore : Store where
  options := {}
  entries := [undelivered "a" 9, undelivered "b" 3, undelivered "c" 5, undelivered "d" 7,
    undelivered "e" 0]
  minted := 4

theorem lease_in_one_pass_mixedStore : ∃ s' messages,
    mixedStore.lease 5 2 = (s', .ok messages) ∧
      mixedStore.entries.foldl (Pass.visit 5 30000000005 2 4) {} =
        { passed := s'.entries, leased := messages, next? := some 7 } ∧
      mixedStore.Leases 5 2 s' messages (some 7) ∧ messages.map (·.trace) = ["b", "c"] := by
  have hagain : Instant.after? 5 mixedStore.options.visibility = some 30000000005 := by
    decide +kernel
  have hnext : mixedStore.nextVisible? 5 = some 7 := by decide
  obtain ⟨s', messages, hlease, hpass, hleases⟩ :=
    lease_in_one_pass (s := mixedStore) (show 1 ≤ 2 by decide) hagain
  rw [hnext] at hpass hleases
  refine ⟨s', messages, hlease, hpass, hleases, ?_⟩
  have hleased : (mixedStore.entries.foldl (Pass.visit 5 30000000005 2 4) {}).leased.map (·.trace) =
      ["b", "c"] := by
    decide +kernel
  have hpass' := congrArg (fun p => p.leased.map (·.trace)) hpass
  exact hpass'.symm.trans hleased

end Batchflow.Queue.Store
