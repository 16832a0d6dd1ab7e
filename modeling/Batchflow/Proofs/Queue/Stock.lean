import Batchflow.Proofs.Queue.Action

/-!
# What a queue holds

Whatever a queue has accepted stays in its store until somebody deletes it, and every message has an
id of its own.  This does not depend on the clock: when a batch or a delivery needs an instant that
the clock cannot reach, the messages that were stored before are still there.
-/

namespace Batchflow.Queue

namespace Store

variable {now : Nat} {s s' : Store} {batch back : List Message} {r : Except Panic (List Verdict)}

/-- The messages in the store, oldest first. -/
def held (s : Store) : List Message := s.entries.map (·.message)

def arrivals (s s' : Store) : List Message := s'.held.drop s.size

theorem arrivals_self (s : Store) : s.arrivals s = [] :=
  List.drop_of_length_le (by simp [held, size])

theorem arrivals_append {entries : List Entry} (h : s'.entries = s.entries ++ entries) :
    s.arrivals s' = entries.map (·.message) := by
  simp [arrivals, held, h, size]

def overflows (now : Nat) (m : Message) : Bool :=
  (addressFault? m).isNone && (Instant.after? now m.delay).isNone

structure Turnover (s s' : Store) (came gone : List Message) : Prop where
  perm : (s'.held ++ gone).Perm (s.held ++ came)
  ids : came.map (·.id) = names .message s.minted came.length
  minted : s.minted + came.length ≤ s'.minted

theorem Turnover.same (hheld : s'.held = s.held) (hminted : s.minted ≤ s'.minted) :
    s.Turnover s' [] [] where
  perm := by rw [hheld]
  ids := rfl
  minted := hminted

/-- Messages are accepted one after the other, until one has a delay that does not fit the clock. -/
inductive Went (now : Nat) : Store → List Message → Store → Except Panic (List Verdict) → Prop
  | done (s : Store) : Went now s [] s (.ok [])
  | misaddressed {s s' : Store} {batch : List Message} {r : Except Panic (List Verdict)}
      (m : Message) (fault : String) : Went now s batch s' r →
      Went now s (m :: batch) s' (r.map (Verdict.failed m true fault :: ·))
  | overflowed {m : Message} (s : Store) (batch : List Message) : overflows now m = true →
      Went now s (m :: batch) { s with minted := s.minted + 1 } (.error clockPanic)
  | stored {s s' : Store} {batch : List Message} {r : Except Panic (List Verdict)}
      (m : Message) (visibleAt : Nat) (v : Verdict) :
      Went now { s with
        minted := s.minted + 1
        entries := s.entries ++
          [{ message := { m with id := some (Name.mint .message s.minted) }, visibleAt,
             receipt := none }] } batch s' r →
      Went now s (m :: batch) s' (r.map (v :: ·))

theorem went_of_accept (h : accept now s batch = (s', back, r)) : Went now s batch s' r := by
  induction batch generalizing s s' back r with
  | nil =>
    obtain ⟨rfl, -, rfl⟩ : s = s' ∧ [] = back ∧ .ok [] = r := by simpa [accept] using h
    exact .done s
  | cons m batch ih =>
    unfold accept at h
    split at h
    · rename_i fault _
      obtain ⟨rfl, hrest⟩ := Prod.mk.inj h
      obtain ⟨-, rfl⟩ := Prod.mk.inj hrest
      exact .misaddressed m fault (ih rfl)
    · rename_i hsound
      dsimp only at h
      split at h
      · rename_i hafter
        obtain ⟨rfl, hrest⟩ := Prod.mk.inj h
        obtain ⟨-, rfl⟩ := Prod.mk.inj hrest
        have hafter : Instant.after? now m.delay = none := hafter
        exact .overflowed _ _ (by simp [overflows, hsound, hafter])
      · rename_i visibleAt _
        obtain ⟨rfl, hrest⟩ := Prod.mk.inj h
        obtain ⟨-, rfl⟩ := Prod.mk.inj hrest
        exact .stored m visibleAt _ (ih rfl)

/-- A batch that is cut short only adds to the store. -/
theorem Went.added (h : Went now s batch s' r) :
    ∃ entries, s'.entries = s.entries ++ entries ∧
      entries.map (·.message.id) = names .message s.minted entries.length ∧
      s.minted + entries.length ≤ s'.minted := by
  induction h with
  | done | overflowed => exact ⟨[], by simp [names]⟩
  | misaddressed _ _ _ ih => exact ih
  | stored _ _ _ _ ih =>
    obtain ⟨entries, hentries, hids, hminted⟩ := ih
    rw [List.append_assoc] at hentries
    refine ⟨_, hentries, ?_, ?_⟩
    · simp [names_succ, hids]
    · rw [List.length_append, List.length_singleton]
      dsimp only at hminted ⊢
      omega

/-- A batch is cut short only by a message whose delay does not fit the clock. -/
theorem Went.overflows {p : Panic} (h : Went now s batch s' (.error p)) :
    p = clockPanic ∧ ∃ m ∈ batch, overflows now m = true := by
  generalize hr : Except.error p = r at h
  induction h with
  | done => cases hr
  | overflowed _ _ hover =>
    obtain rfl := Except.error.inj hr
    exact ⟨rfl, _, List.mem_cons_self, hover⟩
  | @misaddressed _ _ _ r _ _ _ ih | @stored _ _ _ r _ _ _ _ ih =>
    cases r with
    | ok verdicts => cases hr
    | error p' =>
      cases hr
      obtain ⟨hp, m, hm, hover⟩ := ih rfl
      exact ⟨hp, m, List.mem_cons_of_mem _ hm, hover⟩

theorem overflows_of_enqueue {cancelled : Bool} {p : Panic}
    (h : enqueue s now cancelled batch = (s', back, .panicked p)) :
    p = clockPanic ∧ ∃ m ∈ batch, overflows now m = true := by
  unfold enqueue at h
  split_ifs at h
  · cases (Prod.mk.inj (Prod.mk.inj h).2).2
  · cases (Prod.mk.inj (Prod.mk.inj h).2).2
  · split at h
    · cases (Prod.mk.inj (Prod.mk.inj h).2).2
    · rename_i haccept
      cases (Prod.mk.inj (Prod.mk.inj h).2).2
      exact (went_of_accept haccept).overflows

theorem back_of_enqueue_refused {cancelled : Bool} {e : Error}
    (h : enqueue s now cancelled batch = (s', back, .refused e)) : back = batch := by
  unfold enqueue at h
  split_ifs at h
  · exact (Prod.mk.inj (Prod.mk.inj h).2).1.symm
  · exact (Prod.mk.inj (Prod.mk.inj h).2).1.symm
  · split at h <;> cases (Prod.mk.inj (Prod.mk.inj h).2).2

/-- However a batch is received, the store only grows. -/
theorem turnover_of_enqueue {cancelled : Bool} {reception : Reception}
    (h : enqueue s now cancelled batch = (s', back, reception)) :
    s.Turnover s' (s.arrivals s') [] := by
  have hsame : s.Turnover s (s.arrivals s) [] := by
    rw [arrivals_self]
    exact .same rfl (Nat.le_refl _)
  have hadded {r : Except Panic (List Verdict)} (haccept : accept now s batch = (s', back, r)) :
      s.Turnover s' (s.arrivals s') [] := by
    obtain ⟨entries, hentries, hids, hminted⟩ := (went_of_accept haccept).added
    rw [arrivals_append hentries]
    refine ⟨?_, ?_, ?_⟩
    · simp [held, hentries]
    · simpa [Function.comp_def] using hids
    · simpa using hminted
  unfold enqueue at h
  split_ifs at h
  · obtain ⟨rfl, -⟩ := Prod.mk.inj h
    exact hsame
  · obtain ⟨rfl, -⟩ := Prod.mk.inj h
    exact hsame
  · split at h <;> obtain ⟨rfl, rfl, -⟩ : _ ∧ _ ∧ _ := by simpa using h
    · exact hadded ‹_›
    · exact hadded ‹_›

theorem held_loseReceipt (now : Nat) (receipt : Option String) (entries : List Entry) :
    (loseReceipt now receipt entries).map (·.message) = entries.map (·.message) := by
  induction entries with
  | nil => rfl
  | cons e entries ih =>
    unfold loseReceipt
    split
    · rfl
    · simp [ih]

theorem turnover_of_lease {count : Nat} {result : Except Panic (List Message)}
    (h : lease s now count = (s', result)) : s.Turnover s' [] [] := by
  cases result with
  | ok messages =>
    obtain ⟨entries, rfl, -, hleased⟩ := leased_of_lease h
    exact .same hleased.messages_eq (Nat.le_add_right _ _)
  | error p =>
    unfold lease at h
    split at h
    · cases (Prod.mk.inj h).2
    · split at h
      · obtain ⟨rfl, -⟩ := Prod.mk.inj h
        exact .same (held_loseReceipt _ _ _) (Nat.le_succ _)
      · cases (Prod.mk.inj h).2

def deleted? (s : Store) (handle : Option String) : Option Message :=
  handle.bind fun receipt => (s.entries.find? (·.receipt == some receipt)).map (·.message)

theorem turnover_of_delete {handle : Option String} {result : Except Error Unit}
    (h : delete s handle = (s', result)) : s.Turnover s' [] (s.deleted? handle).toList := by
  cases deleted_of_delete h with
  | @done receipt before e after hentries hreceipt hbefore =>
    have hfind : s.entries.find? (·.receipt == some receipt) = some e := by
      rw [hentries, List.find?_append, List.find?_eq_none.mpr (by simpa using hbefore)]
      simp [hreceipt]
    have hdeleted : s.deleted? (some receipt) = some e.message := by simp [deleted?, hfind]
    rw [hdeleted]
    refine ⟨?_, rfl, Nat.le_refl _⟩
    have hperm : (before ++ after ++ [e]).Perm (before ++ e :: after) :=
      (List.perm_append_singleton e _).trans List.perm_middle.symm
    simpa [held, hentries] using hperm.map (·.message)
  | notFound hnone =>
    have hdeleted : s.deleted? handle = none := by
      cases handle with
      | none => rfl
      | some receipt => simpa [deleted?] using hnone
    rw [hdeleted]
    exact .same rfl (Nat.le_refl _)

structure Stocked (s : Store) (came gone : List Message) : Prop where
  perm : (s.held ++ gone).Perm came
  nodup : (came.map (·.id)).Nodup
  minted : ∀ m ∈ came, Minted .message s.minted m.id

theorem Stocked.new (options : Options) : Stocked { options } [] [] where
  perm := .refl _
  nodup := .nil
  minted := by simp

theorem Stocked.turnover {came gone new old : List Message} (hs : s.Stocked came gone)
    (h : s.Turnover s' new old) : s'.Stocked (came ++ new) (gone ++ old) where
  perm := by
    have hswap (xs ys zs : List Message) : (xs ++ ys ++ zs).Perm (xs ++ zs ++ ys) := by
      rw [List.append_assoc, List.append_assoc]
      exact List.perm_append_comm.append_left xs
    rw [← List.append_assoc]
    calc List.Perm (s'.held ++ gone ++ old) (s'.held ++ old ++ gone) := hswap _ _ _
      List.Perm _ (s.held ++ new ++ gone) := h.perm.append_right gone
      List.Perm _ (s.held ++ gone ++ new) := hswap _ _ _
      List.Perm _ (came ++ new) := hs.perm.append_right new
  nodup := by
    rw [List.map_append, h.ids]
    refine List.nodup_append.mpr ⟨hs.nodup, names_nodup _ _ _, ?_⟩
    intro old hold new hnew
    obtain ⟨m, hm, rfl⟩ := List.mem_map.mp hold
    exact (hs.minted m hm).ne_of_mem_names hnew
  minted m hm := by
    rcases List.mem_append.mp hm with hm | hm
    · exact (hs.minted m hm).mono (Nat.le_of_add_right_le h.minted)
    · have hid : m.id ∈ names .message s.minted new.length :=
        h.ids ▸ List.mem_map_of_mem hm
      exact (minted_of_mem_names hid).mono h.minted

theorem Stocked.count {came gone : List Message} {m : Message} (hs : s.Stocked came gone)
    (hm : m ∈ came) : (s.held ++ gone).count m = 1 := by
  rw [hs.perm.count_eq]
  exact List.count_eq_one_of_mem hs.nodup.of_map hm

end Store

namespace System

variable {s s' : System} {a : Action} {events : List Event}

def came (s : System) : Action → List Message
  | .enqueue token batch =>
    s.store.arrivals (s.submit (s.isCancelled token) batch).1.store
  | _ => []

def gone? (s : System) : Action → Option Message
  | .delete handle => s.store.deleted? handle
  | _ => none

theorem enqueue_of_submit {cancelled : Bool} {batch back : List Message}
    {reception : Store.Reception} (h : s.submit cancelled batch = (s', back, reception)) :
    s.store.enqueue s.now cancelled batch = (s'.store, back, reception) := by
  rcases henqueue : s.store.enqueue s.now cancelled batch with ⟨store, back', r⟩
  simp only [submit, henqueue] at h
  cases r <;> obtain ⟨rfl, rfl, rfl⟩ := h <;> rfl

theorem turnover_of_submit {cancelled : Bool} {batch back : List Message}
    {reception : Store.Reception} (h : s.submit cancelled batch = (s', back, reception)) :
    s.store.Turnover s'.store (s.store.arrivals s'.store) [] :=
  Store.turnover_of_enqueue (enqueue_of_submit h)

theorem turnover_of_looked {call count deadline : Nat} {token : String} {out : Outcome}
    (h : s.Looked call token count deadline out) : s.store.Turnover out.1.store [] [] := by
  cases h with
  | panicked hlease | found hlease | waits hlease => exact Store.turnover_of_lease hlease

/-- What an action does to the store, whether the clock can reach what is needed or not. -/
theorem turnover_of_step (h : s.step a = some (s', events)) :
    s.store.Turnover s'.store (s.came a) (s.gone? a).toList := by
  have hdid := did_of_step h
  cases a with
  | enqueue token batch =>
    simp only [step, Option.some.injEq, Prod.mk.injEq] at h
    rw [← h.1]
    exact turnover_of_submit rfl
  | delete handle =>
    cases hdid with
    | deleted hdelete => exact Store.turnover_of_delete hdelete
  | dequeue =>
    cases hdid with
    | asked _ _ _ hlooked => exact turnover_of_looked hlooked
    | nothingWanted | overflowed => exact .same rfl (Nat.le_refl _)
  | look =>
    cases hdid with
    | lookedAgain _ _ hlooked => exact turnover_of_looked hlooked
  | _ =>
    cases hdid
    exact .same rfl (Nat.le_refl _)

end System

end Batchflow.Queue
