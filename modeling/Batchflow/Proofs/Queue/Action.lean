import Batchflow.Proofs.Calls
import Batchflow.Proofs.Queue.Store
import Batchflow.Queue.System

/-!
# What an action of a queue does

One relation says how a look at the store ends, and one says all that an action may do.  What an
action keeps, or changes, or what is seen of it, is then a matter of going through the cases.
-/

namespace Batchflow.Queue.System

/-- How a look for messages may end. -/
inductive Looked (s : System) (call : Nat) (token : String) (count deadline : Nat) : Outcome → Prop
  | panicked {store p} : s.store.lease s.now count = (store, .error p) →
      Looked s call token count deadline (({ s with store } : System).reply call (.panicked p))
  | found {store messages} : s.store.lease s.now count = (store, .ok messages) →
      messages ≠ [] ∨ deadline ≤ s.now →
      Looked s call token count deadline
        (({ s with store } : System).reply call (.messages messages))
  | waits {store} : s.store.lease s.now count = (store, .ok []) → s.now < deadline →
      Looked s call token count deadline
        (({ s with store } : System).await call
          { token, count, deadline, wakeAt := s.wakeTime deadline, notified := false }, [])

inductive Did (s : System) : Action → Outcome → Prop
  | taken {token batch back verdicts store} :
      s.store.enqueue s.now (s.isCancelled token) batch = (store, back, .taken verdicts) →
      Did s (.enqueue token batch)
        (({ s with store } : System).notifyAll, [.received back (.taken verdicts)])
  | notTaken {token batch back r store} :
      s.store.enqueue s.now (s.isCancelled token) batch = (store, back, r) →
      (∀ verdicts, r ≠ .taken verdicts) →
      Did s (.enqueue token batch) ({ s with store }, [.received back r])
  | nothingWanted {call token wait} : s.call? call = none →
      Did s (.dequeue call token 0 wait) (s, [.replied call (.messages [])])
  | overflowed {call token count wait} : s.call? call = none → count ≠ 0 →
      Instant.after? s.now wait = none →
      Did s (.dequeue call token count wait) (s, [.replied call (.panicked clockPanic)])
  | asked {call token count wait deadline out} : s.call? call = none → count ≠ 0 →
      Instant.after? s.now wait = some deadline → s.Looked call token count deadline out →
      Did s (.dequeue call token count wait) out
  | deleted {handle store r} : s.store.delete handle = (store, r) →
      Did s (.delete handle) ({ s with store }, [.deleted r])
  | cancelled {token} : Did s (.cancel token) ({ s with cancelled := token :: s.cancelled }, [])
  | aborted {call c} : s.call? call = some c → Did s (.abort call) (s.forget call, [])
  | lookedAgain {call c out} : s.call? call = some c → c.notified = true ∨ c.wakeAt ≤ s.now →
      s.Looked call c.token c.count c.deadline out → Did s (.look call) out
  | cancelNoticed {call c} : s.call? call = some c → s.isCancelled c.token = true →
      Did s (.noticeCancel call) (s.reply call (.refused .cancelled))
  | advanced {now} : s.now ≤ now → s.quiet = true →
      (∀ due ∈ s.dues, now ≤ Instant.tick due) → Did s (.advance now) ({ s with now }, [])

variable {s s' : System} {a : Action} {out : Outcome} {call count deadline : Nat} {token : String}

theorem looked_of_look : s.Looked call token count deadline (s.look call token count deadline) := by
  unfold look
  rcases hlease : s.store.lease s.now count with ⟨store, _ | messages⟩
  · exact .panicked hlease
  · dsimp only
    split_ifs with hwait
    · obtain ⟨hempty, hpatience⟩ := hwait
      obtain rfl := List.isEmpty_iff.mp hempty
      exact .waits hlease hpatience
    · rw [not_and_or, List.isEmpty_iff, Nat.not_lt] at hwait
      exact .found hlease hwait

theorem did_of_step (h : s.step a = some out) : s.Did a out := by
  cases a with
  | enqueue token batch =>
    simp only [step, submit] at h
    rcases henqueue : s.store.enqueue s.now (s.isCancelled token) batch with ⟨store, back, r⟩
    rw [henqueue] at h
    cases r with
    | taken verdicts =>
      obtain rfl := Option.some.inj h
      exact .taken henqueue
    | refused e =>
      obtain rfl := Option.some.inj h
      exact .notTaken henqueue (by simp)
    | panicked p =>
      obtain rfl := Option.some.inj h
      exact .notTaken henqueue (by simp)
  | dequeue call token count wait =>
    simp only [step, Option.isNone_iff_eq_none, Option.ite_none_right_eq_some,
      Option.some.injEq] at h
    obtain ⟨hnew, rfl⟩ := h
    unfold dequeue
    split
    · rename_i hzero
      subst hzero
      exact .nothingWanted hnew
    · rename_i hcount
      split
      · rename_i hafter
        exact .overflowed hnew hcount hafter
      · rename_i deadline hafter
        exact .asked hnew hcount hafter looked_of_look
  | delete handle =>
    simp only [step] at h
    rcases hdelete : s.store.delete handle with ⟨store, r⟩
    rw [hdelete] at h
    obtain rfl := Option.some.inj h
    exact .deleted hdelete
  | cancel token =>
    obtain rfl := Option.some.inj h
    exact .cancelled
  | abort call =>
    simp only [step, Option.ite_none_right_eq_some, Option.some.injEq] at h
    obtain ⟨hpending, rfl⟩ := h
    obtain ⟨c, hc⟩ := Option.isSome_iff_exists.mp hpending
    exact .aborted hc
  | look call =>
    simp only [step, look?] at h
    split at h
    · cases h
    · rename_i c hc
      obtain ⟨hdue, h⟩ := Option.ite_none_right_eq_some.mp h
      obtain rfl := Option.some.inj h
      exact .lookedAgain hc hdue looked_of_look
  | noticeCancel call =>
    simp only [step, noticeCancel?] at h
    split at h
    · cases h
    · rename_i c hc
      obtain ⟨hcancelled, h⟩ := Option.ite_none_right_eq_some.mp h
      obtain rfl := Option.some.inj h
      exact .cancelNoticed hc hcancelled
  | advance now =>
    simp only [step, advance?, Option.map_eq_some_iff, Option.ite_none_right_eq_some,
      Option.some.injEq] at h
    obtain ⟨_, ⟨⟨hle, hquiet, hdues⟩, rfl⟩, rfl⟩ := h
    exact .advanced hle hquiet hdues

end Batchflow.Queue.System
