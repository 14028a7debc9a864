import PaymentsLab.Api.ReviewPayment
import PaymentsLab.Foundation.Parts

/-!
# The programs of the review use cases

`ApproveReviewPaymentUseCase.execute` and `RejectReviewPaymentUseCase.execute` as programs of the
statements they issue. `Review.Call` cuts the same code into the steps of a session: with the
replies that the tables give, its steps are made of the program's (`Call.step_leads`), and the
program does nothing that is not in a step (`Call.passes_step`).
-/

namespace PaymentsLab

open Foundation
open Foundation.Program (Leads Passes)

namespace Review

inductive ReviewCommand
  /-- `PaymentRepository.get_by_payment_id` -/
  | getByPaymentId (paymentId : UUID)
  | updateStatus (paymentId : UUID) (status : PaymentStatus) (lastError : Option String)
  | newUuid
  | now
  /-- the insert of the event, if any, and `session.commit()` -/
  | commit (event : Option OutboxEvent)
  | countInReview

abbrev ReviewReply : ReviewCommand → Type
  | .getByPaymentId _ => Option Payment
  | .updateStatus _ _ _ => Bool
  | .newUuid => UUID
  | .now => Instant
  | .commit _ => Unit
  | .countInReview => Int

/-- A use case. -/
abbrev ReviewProgram (α : Type) : Type :=
  Program ReviewCommand ReviewReply AppError α

/-- One statement. -/
def ReviewProgram.issue (c : ReviewCommand) : ReviewProgram (ReviewReply c) :=
  Program.issue c

open ReviewProgram

namespace Call

variable (c : Call)

/-- `_record_review_queue_size`, and the response. -/
def recordReviewQueueSize (payment : Payment) : ReviewProgram PaymentAcceptedResponse := do
  let _queueSize : Int ← issue .countInReview
  return buildReviewResponse c payment

/-- The event of an approval, and the commit. -/
def commitDecision (payment : Payment) : ReviewProgram PaymentAcceptedResponse := do
  match c.decision with
  | .approve =>
    let eventId : UUID ← issue .newUuid
    let t : Instant ← issue .now
    issue (.commit (some (.new eventId c.paymentId .paymentRequested
      (.paymentRequested c.paymentId payment.merchantId c.traceId c.traceparent) t)))
  | .reject => issue (.commit none)
  c.recordReviewQueueSize payment

/-- The `UPDATE`, and what follows it. -/
def decidePayment (payment : Payment) : ReviewProgram PaymentAcceptedResponse := do
  let _updated : Bool ← issue (.updateStatus c.paymentId c.decision.status c.decision.lastError)
  c.commitDecision payment

/-- `execute`. -/
def execute : ReviewProgram PaymentAcceptedResponse := do
  let payment : Option Payment ← issue (.getByPaymentId c.paymentId)
  match payment with
  | none => throw (.validation "Payment not found")
  | some payment =>
    if payment.status = .inReview then c.decidePayment payment
    else throw (.validation "Payment is not in review")

/-- What is left of the program. -/
def rest : ReviewProgram PaymentAcceptedResponse :=
  match c.pc with
  | .start => c.execute
  | .loaded payment => c.decidePayment payment
  | .updated payment => c.commitDecision payment
  | .committed payment => c.recordReviewQueueSize payment
  | .returned response => pure response
  | .raised error => throw error
  | .crashed => c.execute

end Call

/-- The reply is what the tables give. An `UPDATE` that waits has no reply, nor has the commit of an
event whose id is taken. -/
def ReviewCommand.Answered (w : World) (t : Session) : (c : ReviewCommand) → ReviewReply c → Prop
  | .getByPaymentId paymentId, reply =>
    let payment : Option Payment := reply
    payment = PaymentRepository.getById w t paymentId
  | .updateStatus paymentId status lastError, reply =>
    ∃ w', PaymentRepository.updateStatus w t paymentId status lastError = some (w', reply)
  | .commit event, _ => ∀ e ∈ event, (OutboxRepository.addEvent w t e).isSome
  | _, _ => True

variable {w w' : World} {t : Session} {c c' : Call} {payment : Payment}

/-! ## The steps of the program in a step -/

/-- The program goes on with the row as the state after the load does. -/
theorem exists_execute_eq (c : Call) :
    ∃ next, c.execute = .call (.getByPaymentId c.paymentId) next ∧
      ∀ w t, (load t w c).rest = next (PaymentRepository.getById w t c.paymentId) := by
  refine ⟨_, rfl, fun w t => ?_⟩
  unfold load loadReviewPaymentOrRaise
  cases PaymentRepository.getById w t c.paymentId with
  | none => rfl
  | some payment =>
    dsimp only
    by_cases hstatus : payment.status = .inReview
    · rw [if_pos hstatus]
      exact (if_pos hstatus).symm
    · rw [if_neg hstatus]
      exact (if_neg hstatus).symm

theorem leads_load : Leads (ReviewCommand.Answered w t) (load t w c).rest c.execute := by
  obtain ⟨next, hexecute, hrest⟩ := exists_execute_eq c
  rw [hexecute]
  exact .reply (PaymentRepository.getById w t c.paymentId) rfl (.of_eq (hrest w t))

theorem leads_updateStatus (h : updateStatus t w c payment = some (w', c')) :
    Leads (ReviewCommand.Answered w t) c'.rest (c.decidePayment payment) := by
  obtain ⟨⟨w₁, updated⟩, hupdate, heq⟩ := Option.map_eq_some_iff.1 h
  cases heq
  exact .reply (c := ReviewCommand.updateStatus _ _ _) updated ⟨w₁, hupdate⟩ .refl

/-- The commit, which may follow the `UPDATE` at once. -/
theorem leads_commit {w₁ : World} {eventId : UUID} {now : Instant}
    (h : commit t w₁ c payment eventId now = some (w', c')) (hw₁ : w₁.outbox = w.outbox) :
    Leads (ReviewCommand.Answered w t) c'.rest (c.commitDecision payment) := by
  obtain ⟨decision, paymentId, traceId, traceparent, pc⟩ := c
  cases decision with
  | approve =>
    obtain ⟨w₂, hadd, heq⟩ := Option.map_eq_some_iff.1 h
    cases heq
    refine .reply (c := ReviewCommand.newUuid) eventId trivial
      (.reply (c := ReviewCommand.now) now trivial
        (.reply (c := ReviewCommand.commit _) () (fun e he => ?_) (.of_eq rfl)))
    cases he
    have hsome := Option.isSome_iff_exists.2 ⟨w₂, hadd⟩
    unfold enqueuePaymentRequested OutboxRepository.addEvent at hsome
    rw [hw₁, Option.isSome_map] at hsome
    unfold OutboxRepository.addEvent
    rw [Option.isSome_map]
    exact hsome
  | reject =>
    cases h
    exact .reply (c := ReviewCommand.commit _) () (fun e he => by cases he) (.of_eq rfl)

theorem outbox_of_updateStatus (h : updateStatus t w c payment = some (w', c')) :
    w'.outbox = w.outbox := by
  obtain ⟨r, hupdate, heq⟩ := Option.map_eq_some_iff.1 h
  obtain ⟨s, -, rfl⟩ := Option.map_eq_some_iff.1 hupdate
  cases heq
  rfl

theorem rest_of_updateStatus (h : updateStatus t w c payment = some (w', c')) :
    c'.rest = c.commitDecision payment := by
  obtain ⟨r, -, heq⟩ := Option.map_eq_some_iff.1 h
  cases heq
  rfl

/-- A step of a call is made of steps of its program. -/
theorem Call.step_leads {a : Action} (h : c.step t w a = some (w', c')) (ha : a ≠ .crash) :
    Leads (ReviewCommand.Answered w t) c'.rest c.rest := by
  unfold Call.step at h
  have hrest : c.rest = _ := Call.rest.eq_1 c
  split at h
  case h_1 pc =>
    rw [pc] at hrest
    cases h
    exact hrest ▸ leads_load
  case h_2 pc =>
    rw [pc] at hrest
    exact hrest ▸ leads_updateStatus h
  case h_3 pc =>
    rw [pc] at hrest
    exact hrest ▸ leads_commit h rfl
  case h_4 pc =>
    rw [pc] at hrest
    have hload := @leads_load w t c
    split at h
    · next payment hpc =>
      obtain ⟨⟨w₁, c₁⟩, hupdate, hcommit⟩ := Option.bind_eq_some_iff.1 h
      have hloaded : (Review.load t w c).rest = c.decidePayment payment := by
        have hcall : Review.load t w c = { c with pc := .loaded payment } := by
          rw [← hpc]
          unfold Review.load
          split <;> rfl
        rw [hcall]
        rfl
      rw [hrest]
      have hmoved := rest_of_updateStatus hupdate ▸ leads_updateStatus hupdate
      exact (hloaded ▸ hload).trans
        (hmoved.trans (leads_commit hcommit (outbox_of_updateStatus hupdate)))
    · cases h
      exact hrest ▸ hload
  case h_5 pc =>
    rw [pc] at hrest
    cases h
    exact hrest ▸ .reply (c := ReviewCommand.countInReview) (0 : Int) trivial (.of_eq rfl)
  case h_9 => exact absurd rfl ha
  all_goals cases h

/-! ## The steps for the program -/

/-- A step of the call comes to the program. -/
def Call.StepsTo (c : Call) (w : World) (t : Session)
    (q : ReviewProgram PaymentAcceptedResponse) : Prop :=
  ∃ a w' c', a ≠ .crash ∧ c.step t w a = some (w', c') ∧ q = c'.rest

/-- Whatever the replies are, the program comes to what is left after a step. -/
theorem Call.passes_step (h : (c.step t w .crash).isSome) :
    Passes (ReviewCommand.Answered w t) (c.StepsTo w t) c.rest := by
  obtain ⟨decision, paymentId, traceId, traceparent, pc⟩ := c
  cases pc with
  | start =>
    obtain ⟨next, hexecute, hrest⟩ :=
      exists_execute_eq ⟨decision, paymentId, traceId, traceparent, .start⟩
    change Passes _ _ (Call.execute _)
    rw [hexecute]
    refine .call fun row hrow => .here ⟨.load, w, _, by simp, rfl, ?_⟩
    cases hrow
    exact (hrest w t).symm
  | loaded payment =>
    refine .call (c := ReviewCommand.updateStatus _ _ _) fun updated ⟨w', hupdate⟩ => .here ?_
    refine ⟨.updateStatus, w', ⟨decision, paymentId, traceId, traceparent, .updated payment⟩,
      by simp, ?_, rfl⟩
    change Option.map _ (PaymentRepository.updateStatus _ _ _ _ _) = _
    rw [hupdate]
    rfl
  | updated payment =>
    cases decision with
    | approve =>
      refine .call (c := ReviewCommand.newUuid) fun eventId _ =>
        .call (c := ReviewCommand.now) fun now _ =>
          .call (c := ReviewCommand.commit _) fun _ hcommit => .here ?_
      obtain ⟨w', hadd⟩ := Option.isSome_iff_exists.1 (hcommit _ rfl)
      refine ⟨.commit eventId now, w'.commit t,
        ⟨.approve, paymentId, traceId, traceparent, .committed payment⟩, by simp, ?_, rfl⟩
      change Option.map _ (OutboxRepository.addEvent _ _ _) = _
      rw [hadd]
      rfl
    | reject =>
      refine .call (c := ReviewCommand.commit _) fun _ _ => .here ?_
      exact ⟨.commit 0 0, _, ⟨.reject, paymentId, traceId, traceparent, .committed payment⟩,
        by simp, rfl, rfl⟩
  | committed payment =>
    refine .call (c := ReviewCommand.countInReview) fun _ _ => .here ?_
    exact ⟨.recordReviewQueueSize, w, _, by simp, rfl, rfl⟩
  | returned response => cases h
  | raised error => cases h
  | crashed => cases h

end Review

end PaymentsLab
