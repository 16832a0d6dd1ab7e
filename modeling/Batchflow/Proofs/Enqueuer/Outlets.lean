import Batchflow.Proofs.Enqueuer.Handles

/-!
# Where each failure goes

The reporter takes a failure to the handler while somebody can get at the enqueuer, and writes it
to the log when nobody can.  As long as neither the sink nor the handler panics, no failure goes
anywhere else, and all failures that the sink has answered are, in this order, those that went to
either of the two, those in the failure channel, and those that the worker has still to report.
-/

namespace Batchflow.Enqueuer

open Pipeline

/-- The failure that goes to the handler or to the log by an event. -/
def Event.reported? : Event → Option Verdict
  | .failure _ v => some v
  | .log (.messageFailed v) => some v
  | _ => none

def reportedBy (run : Nat) (t : Turn System Action Event) : List Verdict :=
  if (t.action.move? run).isSome then t.events.filterMap Event.reported? else []

/-- The failures of a run that were reported, in order. -/
def reported (run : Nat) (turns : History) : List Verdict := turns.flatMap (reportedBy run)

namespace Pipeline

variable {ι : Type} {o : Options} {hasHandler : Bool} {now : Nat} {p p' q : Pipeline ι} {m : Move}
  {notes : List Note} {answers : List Answer} {failures : List Verdict}

theorem Moved.reported_eq_nil (h : Moved o hasHandler now p m p' notes)
    (hopen : p.failures.closed = false) (hm : m ≠ .take) :
    notes.filterMap Note.reported? = [] := by
  cases h with
  | answered => exact reported_answerNotes _ _
  | unheard _ hsend => simp [Channel.closed_of_send_refused hsend] at hopen
  | cutOff _ hresume => simp [Channel.closed_of_resume_refused hresume] at hopen
  | taken | logged => exact absurd rfl hm
  | _ => rfl

def Conveys (answers : List Answer) (failures : List Verdict) : Option (Pipeline Caller) → Prop
  | none => answers = [] ∧ failures = []
  | some p => Conveyed answers failures p

theorem Change.conveys {move : Option Move} {x y : Option (Pipeline Caller)}
    {item : Option Message} (h : Change o hasHandler now move x item notes y) (hmove : move = none)
    (hx : Conveys answers failures x) : Conveys answers failures y := by
  induction h with
  | same => exact hx
  | born sink =>
    obtain ⟨rfl, rfl⟩ := hx
    exact .start o sink now
  | sent => exact hx.withChannel _
  | moved => cases hmove
  | tended _ htended ih => exact (ih hmove hx).tended htended

end Pipeline

namespace System

variable {o : Options} {s s' : System} {a : Action} {events : List Event} {turns : History}
  {run : Nat} {m : Move} {out : Outcome}

theorem reportedBy_move (s : System) (run : Nat) (m : Move) (notes : List Note) :
    reportedBy run ⟨s, .move run m, notes.map (Event.ofNote run)⟩ =
      notes.filterMap Note.reported? := by
  rw [reportedBy, if_pos (by simp [Action.move?]), List.filterMap_map]
  refine List.filterMap_congr fun n _ => ?_
  cases n with
  | log l => cases l <;> rfl
  | batch | failure => rfl

/-- The reporter takes one failure at a time, to the handler when a handle can be obtained and to the
log otherwise. -/
theorem exists_outlet (h : s.move? run .take = some out) : ∃ v, out.2 =
    [if s.options.hasHandler && s.reachable then .failure run v else .log (.messageFailed v)] := by
  obtain ⟨p, p', notes, -, -, hm, rfl⟩ := moved_of_move h
  cases hm with
  | @taken v _ hhandler => exact ⟨v, by simp [hhandler, Event.ofNote]⟩
  | @logged v _ hno => exact ⟨v, by simp [hno, Event.ofNote]⟩

theorem conveys_of_run (h : Run step (new o) turns s) (hsink : SinkReturned run turns)
    (hhandler : HandlerReturned run turns) :
    Conveys (answered run turns) (reported run turns) s.pipelines[run]? := by
  induction h with
  | nil => exact ⟨rfl, rfl⟩
  | @snoc turns s₁ s₂ a events hrun hstep ih =>
    have hbefore := ih (fun t ht => hsink t (by simp [ht])) fun t ht => hhandler t (by simp [ht])
    have hanswered : answered run (turns ++ [⟨s₁, a, events⟩]) =
        answered run turns ++ ((a.move? run).bind Move.answer?).toList :=
      filterMap_concat _ _ _
    have hreported : reported run (turns ++ [⟨s₁, a, events⟩]) =
        reported run turns ++ reportedBy run ⟨s₁, a, events⟩ := by
      simp [reported]
    rw [hanswered, hreported]
    cases hmove : a.move? run with
    | none =>
      obtain ⟨item, notes, hchange, -⟩ := effect_of_step hstep run
      simpa [reportedBy, hmove] using hchange.conveys hmove hbefore
    | some m =>
      obtain rfl := Action.move?_eq_some.mp hmove
      obtain ⟨p, p', notes, hp, -, hm, hout⟩ := moved_of_move hstep
      obtain ⟨rfl, rfl⟩ := Prod.mk.inj hout
      have hmodified : (s₁.modifyPipeline run fun _ => p').pipelines[run]? = some p' := by
        simp [modifyPipeline, hp]
      obtain ⟨q, hq, htended⟩ := (s₁.modifyPipeline run fun _ => p').tended_release.exists_right
        hmodified
      rw [hp] at hbefore
      rw [hq, reportedBy_move]
      have hconveyed := hbefore.moved (sound_of_run hrun run p hp).2
        ((wellFormed_of_run hrun).workers_le hp) hm
        (fun panic hpanic => hsink _ (List.mem_append_right _ List.mem_cons_self) panic
          (congrArg (Action.move run) hpanic))
        fun panic hpanic => hhandler _ (List.mem_append_right _ List.mem_cons_self) panic
          (congrArg (Action.move run) hpanic)
      exact hconveyed.tended htended

theorem outlet_of_run (h : Run step (new o) turns s) {t : Turn System Action Event} (ht : t ∈ turns)
    (ha : t.action = .move run .take) : ∃ v, t.events =
    [if o.hasHandler && t.before.reachable then .failure run v else .log (.messageFailed v)] := by
  obtain ⟨before, _, _, -, hbefore, hstep, -⟩ := h.split ht
  rw [ha] at hstep
  rw [← options_of_run hbefore]
  exact exists_outlet hstep

theorem reportedBy_eq_nil (h : Run step (new o) turns s) (hsink : SinkReturned run turns)
    (hhandler : HandlerReturned run turns) {t : Turn System Action Event} (ht : t ∈ turns)
    (ha : t.action ≠ .move run .take) : reportedBy run t = [] := by
  obtain ⟨before, _, s₁, rfl, hbefore, hstep, -⟩ := h.split ht
  obtain ⟨x, a, events⟩ := t
  cases hmove : a.move? run with
  | none => simp [reportedBy, hmove]
  | some m =>
    obtain rfl := Action.move?_eq_some.mp hmove
    obtain ⟨p, p', notes, hp, -, hmoved, hout⟩ := moved_of_move hstep
    have hconveys := conveys_of_run hbefore (fun t ht => hsink t (by simp [ht]))
      fun t ht => hhandler t (by simp [ht])
    rw [hp] at hconveys
    obtain rfl : events = notes.map (Event.ofNote run) := (Prod.mk.inj hout).2
    rw [reportedBy_move]
    exact hmoved.reported_eq_nil hconveys.opened fun hm => ha (by rw [hm])

end System

end Batchflow.Enqueuer
