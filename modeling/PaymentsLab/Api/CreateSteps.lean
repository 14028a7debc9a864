import PaymentsLab.Api.CreateInvariant
import PaymentsLab.Api.RefusedRequests
import PaymentsLab.Foundation.Parts

/-!
# The steps of a creation and its program

`Run.step` and `Run.execute` are the same code twice: cut at the statements on the tables and the
gate, and as the program of all its commands. Each step is made of steps of the program, with the
replies that the tables and the gate give (`Run.step_leads`), and with these replies the program
does nothing that is not in a step (`Run.passes_step`).
-/

namespace PaymentsLab

open Foundation
open Foundation.Program (Leads Passes)

/-- A creation's rows are inserted: the scope, the payment id and the event id are free. -/
def World.Accepts (w : World) (t : Session) (payment : Payment) (event : Option OutboxEvent)
    (record : IdempotencyRecord) : Prop :=
  IdempotencyRepository.getSnapshot w record.merchantId record.idempotencyKey = none ∧
    PaymentRepository.getByMerchantAndIdempotency w payment.merchantId payment.idempotencyKey =
      none ∧
    (w.payments.insert t payment.paymentId payment.inserted).isSome ∧
    ∀ e ∈ event, (w.outbox.insert t e.eventId e).isSome

/-- The reply is what the tables and the gate give, in a transaction that began at `startedAt`; the
gate may raise a `RedisError`. -/
def ApiCommand.Answered (w : World) (t : Session) (startedAt : Instant) :
    (c : ApiCommand) → ApiReply c → Prop
  | .begin, reply =>
    let now : Instant := reply
    now = startedAt
  | .getSnapshot merchantId idempotencyKey, reply =>
    let record : Option IdempotencyRecord := reply
    record = IdempotencyRepository.getSnapshot w merchantId idempotencyKey
  | .getByMerchantAndIdempotency merchantId idempotencyKey, reply =>
    let payment : Option Payment := reply
    payment = PaymentRepository.getByMerchantAndIdempotency w merchantId idempotencyKey
  | .redis (.setNx key _ _), reply =>
    let set : Option Bool := reply
    ∀ b ∈ set, b = !w.gate key
  | .commit payment event record, reply =>
    let committed : Bool := reply
    committed = true ↔ w.Accepts t payment event record
  | _, _ => True

/-- The rows of a commit are in the tables. -/
def ApiCommand.Applied (w' : World) : (c : ApiCommand) → ApiReply c → Prop
  | .commit payment event record, reply =>
    let committed : Bool := reply
    committed = true → w'.payments.committed payment.paymentId = some payment.inserted ∧
      (∀ e ∈ event, w'.outbox.committed e.eventId = some e) ∧ record ∈ w'.idempotency
  | _, _ => True

/-- The reply is one of a step from `w` to `w'`. -/
def ApiCommand.Agrees (w w' : World) (t : Session) (startedAt : Instant) (c : ApiCommand)
    (reply : ApiReply c) : Prop :=
  c.Answered w t startedAt reply ∧ c.Applied w' reply

namespace Create

namespace Run

open ApiProgram

variable (cfg : ApiSettings) (r : Run) (startedAt : Instant)

/-- `_persist_payment_transaction` with its response, and what follows it. -/
def persistResponse (decision : ControlDecision) (response : PaymentAcceptedResponse) :
    ApiProgram PaymentAcceptedResponse := do
  let eventId : UUID ← issue .newUuid
  let t ← now
  let event := (r.outboxEvent response eventId startedAt).map fun event =>
    { event with nextAttemptAt := t }
  let committed : Bool ← issue (.commit (r.paymentRow decision response startedAt) event
    (r.idempotencyRecord response))
  if committed then
    r.afterCommitObservability cfg response
    return response
  else r.resolveReplayedAfterConflict

/-- The loop does not depend on where the run is. -/
theorem resolvePending_pc (pc : Pc) (n : Nat) :
    { r with pc := pc }.resolvePending n = r.resolvePending n := by
  induction n with
  | zero => rfl
  | succ n ih =>
    unfold resolvePending
    rw [ih]
    rfl

/-- What is left of the program; `startedAt` is the beginning of its transaction. -/
def rest : ApiProgram PaymentAcceptedResponse :=
  match r.pc with
  | .start => r.execute cfg
  | .gate => do
    if ← IdempotencyService.acquire cfg r.context.merchantId r.context.idempotencyKey then
      r.createPaymentWithControls cfg startedAt
    else r.resolvePending pollLimit
  | .poll i => r.resolvePending (pollLimit - (i + 1) + 1)
  | .pollPayment i => do
    match ← r.existingResponse with
    | some response => return response
    | none => r.resolvePending (pollLimit - (i + 1))
  | .controls => r.createPaymentWithControls cfg startedAt
  | .persist decision response => r.persistResponse cfg startedAt decision response
  | .conflict => r.resolveReplayedAfterConflict
  | .conflictPayment => do
    match ← r.existingResponse with
    | some response => return response
    | none => throw (.app .idempotencyConflict)
  | .committed response => do
    r.afterCommitObservability cfg response
    return response
  | .returned response => return response
  | .raised error => throw (.app error)
  | .crashed => r.execute cfg

/-- Between the two readings of a round: the row's response, or the rounds that are left. -/
theorem rest_pollPayment (i : Nat) :
    Run.rest cfg { r with pc := .pollPayment i } startedAt = (do
      match ← r.existingResponse with
      | some response => return response
      | none => r.resolvePending (pollLimit - (i + 1))) := by
  unfold rest
  dsimp only
  rw [resolvePending_pc]
  rfl

/-- A round later, one round fewer is left. -/
theorem rest_poll_succ {i : Nat} (more : i + 1 < pollLimit) :
    Run.rest cfg { r with pc := .poll (i + 1) } startedAt =
      r.resolvePending (pollLimit - (i + 1)) := by
  have hleft : pollLimit - (i + 1 + 1) + 1 = pollLimit - (i + 1) := by omega
  unfold rest
  dsimp only
  rw [resolvePending_pc, hleft]

/-- After the last round nobody has answered. -/
theorem resolvePending_last {i : Nat} (last : ¬ i + 1 < pollLimit) :
    r.resolvePending (pollLimit - (i + 1)) = throw (.app .idempotencyConflict) := by
  rw [Nat.sub_eq_zero_of_le (Nat.not_lt.1 last)]
  rfl

theorem not_scopeTaken_iff {w : World} :
    ¬ r.ScopeTaken w ↔ r.snapshot w = none ∧ r.existingPayment w = none := by
  unfold ScopeTaken
  rw [not_or, Option.not_isSome_iff_eq_none, Option.not_isSome_iff_eq_none]

theorem isSome_insertRows {w : World} {t : Session} {decision : ControlDecision}
    {response : PaymentAcceptedResponse} {eventId : UUID} {now : Instant} :
    (r.insertRows w t decision response eventId now).isSome ↔
      (w.payments.insert t response.paymentId
          (r.paymentRow decision response now).inserted).isSome ∧
        ∀ e ∈ r.outboxEvent response eventId now, (w.outbox.insert t e.eventId e).isSome := by
  unfold insertRows
  cases w.payments.insert t response.paymentId (r.paymentRow decision response now).inserted with
  | none => exact iff_of_false (fun h => by cases h) fun h => by cases h.1
  | some payments =>
    refine Iff.trans ?_ (and_iff_right rfl).symm
    cases r.outboxEvent response eventId now with
    | none => exact iff_of_true rfl fun e he => by cases he
    | some event =>
      change (Option.map _ (w.outbox.insert t event.eventId event)).isSome ↔ _
      rw [Option.isSome_map]
      exact ⟨fun h e he => by cases he; exact h, fun h => h event rfl⟩

/-- The rows of a creation are inserted exactly if they are accepted, whenever the event is due. -/
theorem isSome_persistPaymentTransaction {w : World} {t : Session} {decision : ControlDecision}
    {response : PaymentAcceptedResponse} {eventId : UUID} {now due : Instant} :
    (r.persistPaymentTransaction w t decision response eventId now).isSome ↔
      w.Accepts t (r.paymentRow decision response now)
        ((r.outboxEvent response eventId now).map fun event => { event with nextAttemptAt := due })
        (r.idempotencyRecord response) := by
  have hevent : (∀ e ∈ (r.outboxEvent response eventId now).map fun event =>
        { event with nextAttemptAt := due }, (w.outbox.insert t e.eventId e).isSome) ↔
      ∀ e ∈ r.outboxEvent response eventId now, (w.outbox.insert t e.eventId e).isSome := by
    cases r.outboxEvent response eventId now with
    | none => exact iff_of_true (fun e he => by cases he) fun e he => by cases he
    | some event =>
      simp only [Option.map_some, Option.mem_some_iff, forall_eq', RowStore.isSome_insert]
  unfold World.Accepts
  rw [hevent]
  unfold persistPaymentTransaction
  by_cases hscope : r.ScopeTaken w
  · rw [if_pos hscope]
    refine iff_of_false (fun h => by cases h) fun h => ?_
    exact r.not_scopeTaken_iff.2 ⟨h.1, h.2.1⟩ hscope
  · rw [if_neg hscope, Option.isSome_map, isSome_insertRows]
    obtain ⟨hsnapshot, hpayment⟩ := r.not_scopeTaken_iff.1 hscope
    exact ⟨fun h => ⟨hsnapshot, hpayment, h⟩, fun h => h.2.2⟩

/-! ## The steps of the program in a step -/

/-- The end of the controls. -/
def ended : Except AppError ControlDecision → ApiProgram ControlDecision
  | .ok decision => pure decision
  | .error error => throw (.app error)

section Leads

variable {cfg r startedAt} {w w' : World} {t : Session} {r' : Run} {a : Action}

theorem leads_snapshot {f : Option PaymentAcceptedResponse → ApiProgram PaymentAcceptedResponse} :
    Leads (ApiCommand.Agrees w w' t startedAt) (f ((r.snapshot w).map (·.responsePayload)))
      (r.tryReturnReplayedResponse >>= f) :=
  .reply (c := ApiCommand.getSnapshot r.context.merchantId r.context.idempotencyKey) (r.snapshot w)
    ⟨rfl, trivial⟩ (.of_eq rfl)

theorem leads_existing {f : Option PaymentAcceptedResponse → ApiProgram PaymentAcceptedResponse} :
    Leads (ApiCommand.Agrees w w' t startedAt)
      (f ((r.existingPayment w).map r.buildResponseFromExistingPayment))
      (r.existingResponse >>= f) :=
  .reply (c := ApiCommand.getByMerchantAndIdempotency r.context.merchantId r.context.idempotencyKey)
    (r.existingPayment w) ⟨rfl, trivial⟩ (.of_eq rfl)

theorem acquire_answered {r : Run} : (r.acquire w .answered).2 =
    !w.gate (idempotencyScopedKey r.context.merchantId r.context.idempotencyKey) := by
  unfold acquire
  dsimp only
  split
  · next h =>
    rw [h]
    rfl
  · next h =>
    rw [Bool.not_eq_true] at h
    rw [h]
    rfl

variable (r) in
/-- What follows the gate. -/
theorem rest_acquired (holds : Bool) :
    Run.rest cfg { r with pc := if holds then .controls else .poll 0 } startedAt =
      if holds then r.createPaymentWithControls cfg startedAt else r.resolvePending pollLimit := by
  cases holds with
  | true => rfl
  | false => exact r.resolvePending_pc (.poll 0) pollLimit

theorem leads_afterCommit {response : PaymentAcceptedResponse} :
    Leads (ApiCommand.Agrees w w' t startedAt) (pure ())
      (r.afterCommitObservability cfg response) := by
  have hqueue : Leads (ApiCommand.Agrees w w' t startedAt) (pure ())
      (do let _ : Int ← issue .countInReview : ApiProgram Unit) :=
    .reply (c := ApiCommand.countInReview) (0 : Int) ⟨trivial, trivial⟩ (.of_eq rfl)
  have hrecord : Leads (ApiCommand.Agrees w w' t startedAt) (pure ())
      (AmlRuleEngine.recordOutgoing cfg r.context.customerId r.request.method r.request.amount) :=
    -- Redis does not answer
    .reply (c := ApiCommand.now) startedAt ⟨trivial, trivial⟩
      (.reply (c := ApiCommand.redis (.lpush _ _)) none ⟨trivial, trivial⟩ (.of_eq rfl))
  unfold afterCommitObservability
  dsimp only
  split
  · exact hrecord.bind_pure hqueue
  · exact hqueue

/-- The event of the program is that of the step where it is due at once. -/
theorem outboxEvent_due {response : PaymentAcceptedResponse} {eventId : UUID} :
    ((r.outboxEvent response eventId startedAt).map fun event =>
      { event with nextAttemptAt := startedAt }) = r.outboxEvent response eventId startedAt := by
  unfold outboxEvent
  split <;> rfl

/-- The rows of a creation are in the tables after its commit. -/
theorem applied_commit {decision : ControlDecision} {response : PaymentAcceptedResponse}
    {eventId : UUID} {w₁ : World}
    (h : r.insertRows w t decision response eventId startedAt = some w₁) :
    ApiCommand.Applied (w₁.commit t) (.commit (r.paymentRow decision response startedAt)
      (r.outboxEvent response eventId startedAt) (r.idempotencyRecord response)) true := by
  obtain ⟨-, -, -, rfl⟩ := insertRows_eq_some h
  refine fun _ => ⟨?_, fun e he => ?_, List.mem_append_right _ List.mem_cons_self⟩
  · change ((w.payments.put t response.paymentId _).commit t).committed response.paymentId = _
    rw [RowStore.committed_commit, RowStore.writes_put_self, Function.update_self]
    rfl
  · rw [he]
    change ((w.outbox.put t e.eventId e).commit t).committed e.eventId = _
    rw [RowStore.committed_commit, RowStore.writes_put_self, Function.update_self]
    rfl

/-- A step of a run is made of steps of its program. -/
theorem step_leads (h : r.step t w a = some (w', r')) (ha : a ≠ .crash)
    (hcontrols : ∀ result paymentId, a = .runControls result paymentId →
      Leads (ApiCommand.Agrees w w' t startedAt) (ended result) (r.decided cfg))
    (hnow : ∀ eventId now, a = .persist eventId now → now = startedAt) :
    Leads (ApiCommand.Agrees w w' t startedAt) (r'.rest cfg startedAt) (r.rest cfg startedAt) := by
  obtain ⟨context, request, traceId, traceparent, pc⟩ := r
  cases next_of_step h with
  | @replayed record hpc snapshot =>
    rcases hpc with rfl | ⟨i, rfl⟩ | rfl
    · refine .reply (c := ApiCommand.begin) startedAt ⟨rfl, trivial⟩
        (leads_snapshot.trans (.of_eq ?_))
      rw [snapshot]
      rfl
    · refine leads_snapshot.trans (.of_eq ?_)
      rw [snapshot]
      rfl
    · refine leads_snapshot.trans (.of_eq ?_)
      rw [snapshot]
      rfl
  | unknown hpc snapshot =>
    cases hpc
    refine .reply (c := ApiCommand.begin) startedAt ⟨rfl, trivial⟩
      (leads_snapshot.trans (.of_eq ?_))
    rw [snapshot]
    rfl
  | @acquired reply hpc =>
    cases hpc
    cases reply with
    | answered =>
      rw [acquire_answered]
      exact .reply (c := ApiCommand.redis (.setNx _ _ _)) (some !w.gate _)
        ⟨fun b hb => (Option.mem_some_iff.1 hb).symm, trivial⟩ (.of_eq (rest_acquired _ _))
    | redisError applied =>
      exact .reply (c := ApiCommand.redis (.setNx _ _ _)) none
        ⟨fun b hb => (by cases hb), trivial⟩ (.of_eq (rest_acquired _ true))
  | @polled i hpc snapshot =>
    cases hpc
    refine leads_snapshot.trans (.of_eq ?_)
    rw [snapshot]
    exact rest_pollPayment cfg ⟨context, request, traceId, traceparent, .poll i⟩ startedAt i
  | unresolved hpc snapshot =>
    cases hpc
    refine leads_snapshot.trans (.of_eq ?_)
    rw [snapshot]
    rfl
  | answered hpc row =>
    rcases hpc with ⟨i, rfl⟩ | rfl
    · refine leads_existing.trans (.of_eq ?_)
      rw [row]
      rfl
    · refine leads_existing.trans (.of_eq ?_)
      rw [row]
      rfl
  | @repolled i hpc row more =>
    cases hpc
    refine leads_existing.trans (.of_eq ?_)
    rw [row]
    exact rest_poll_succ cfg ⟨context, request, traceId, traceparent, .pollPayment i⟩ startedAt more
  | gaveUp hpc row =>
    rcases hpc with ⟨i, rfl, last⟩ | rfl
    · refine leads_existing.trans (.of_eq ?_)
      rw [row]
      exact (resolvePending_last _ last).symm
    · refine leads_existing.trans (.of_eq ?_)
      rw [row]
      rfl
  | @refused error paymentId hpc =>
    cases hpc
    change Leads _ _ (Run.createPaymentWithControls cfg _ startedAt)
    rw [createPaymentWithControls_eq]
    exact (hcontrols (.error error) paymentId rfl).bind
  | @controlled decision paymentId hpc =>
    cases hpc
    change Leads _ _ (Run.createPaymentWithControls cfg _ startedAt)
    rw [createPaymentWithControls_eq]
    refine (hcontrols (.ok decision) paymentId rfl).bind_pure ?_
    exact .reply (c := ApiCommand.newUuid) paymentId ⟨trivial, trivial⟩ .refl
  | @persisted decision response eventId now w₁ hpc free rows =>
    cases hpc
    cases hnow eventId now rfl
    refine .reply (c := ApiCommand.newUuid) eventId ⟨trivial, trivial⟩
      (.reply (c := ApiCommand.now) startedAt ⟨trivial, trivial⟩
        (.reply (c := ApiCommand.commit _ _ _) true ⟨?_, ?_⟩ (.of_eq rfl)))
    · refine iff_of_true rfl (isSome_persistPaymentTransaction _ |>.1 ?_)
      unfold persistPaymentTransaction
      rw [if_neg free, rows]
      rfl
    · rw [outboxEvent_due]
      exact applied_commit rows
  | @conflicted decision response eventId now hpc refused =>
    cases hpc
    cases hnow eventId now rfl
    refine .reply (c := ApiCommand.newUuid) eventId ⟨trivial, trivial⟩
      (.reply (c := ApiCommand.now) startedAt ⟨trivial, trivial⟩
        (.reply (c := ApiCommand.commit _ _ _) false ⟨?_, fun h => by cases h⟩ (.of_eq rfl)))
    refine iff_of_false (fun h => by cases h) fun haccepts => ?_
    have hsome := (isSome_persistPaymentTransaction _).2 haccepts
    rw [refused] at hsome
    cases hsome
  | observed hpc =>
    cases hpc
    exact leads_afterCommit.bind_pure .refl
  | crashed => exact absurd rfl ha

end Leads

/-! ## The steps for the program -/

variable {cfg r startedAt} {w : World} {t : Session}

variable (cfg r startedAt w t) in
/-- A step of the run comes to the program; an exception that is no `AppError` ends the run. -/
def StepsTo (q : ApiProgram PaymentAcceptedResponse) : Prop :=
  ∃ a w' r', r.step t w a = some (w', r') ∧
    ((a ≠ .crash ∧ q = r'.rest cfg startedAt) ∨
      (a = .crash ∧ ∃ e, (∀ error, e ≠ .app error) ∧ q = throw e))

variable {q : ApiProgram PaymentAcceptedResponse}

theorem StepsTo.of_step {a : Action} {w' : World} {r' : Run} (h : r.step t w a = some (w', r'))
    (ha : a ≠ .crash) (hq : q = r'.rest cfg startedAt) : r.StepsTo cfg startedAt w t q :=
  ⟨a, w', r', h, .inl ⟨ha, hq⟩⟩

section Passes

variable {f : Option PaymentAcceptedResponse → ApiProgram PaymentAcceptedResponse} {pc : Pc}

/-- Where a run is that has read a response, or else goes on. -/
def answeredOr (pc : Pc) (read : Option PaymentAcceptedResponse) : Pc :=
  read.elim pc .returned

/-- A reading whose response is returned, and that leads to `pc` where there is none. -/
theorem stepsTo_reading {a : Action} {read : Option PaymentAcceptedResponse}
    (hstep : r.step t w a = some (w, { r with pc := answeredOr pc read })) (ha : a ≠ .crash)
    (hreturn : ∀ response, f (some response) = pure response)
    (hgo : f none = Run.rest cfg { r with pc := pc } startedAt) :
    r.StepsTo cfg startedAt w t (f read) := by
  refine .of_step hstep ha ?_
  cases read with
  | none => exact hgo
  | some response => exact hreturn response

theorem passes_snapshot (pc : Pc)
    (hstep : r.step t w .readSnapshot =
      some (w, { r with pc := answeredOr pc ((r.snapshot w).map (·.responsePayload)) }))
    (hreturn : ∀ response, f (some response) = pure response)
    (hgo : f none = Run.rest cfg { r with pc := pc } startedAt) :
    Passes (ApiCommand.Answered w t startedAt) (r.StepsTo cfg startedAt w t)
      (r.tryReturnReplayedResponse >>= f) := by
  refine .call (c := ApiCommand.getSnapshot _ _) fun reply hreply => .here ?_
  cases hreply
  exact stepsTo_reading hstep (by simp) hreturn hgo

theorem passes_existing (pc : Pc)
    (hstep : r.step t w .readPayment =
      some (w,
        { r with
          pc := answeredOr pc ((r.existingPayment w).map r.buildResponseFromExistingPayment) }))
    (hreturn : ∀ response, f (some response) = pure response)
    (hgo : f none = Run.rest cfg { r with pc := pc } startedAt) :
    Passes (ApiCommand.Answered w t startedAt) (r.StepsTo cfg startedAt w t)
      (r.existingResponse >>= f) := by
  refine .call (c := ApiCommand.getByMerchantAndIdempotency _ _) fun reply hreply => .here ?_
  cases hreply
  exact stepsTo_reading hstep (by simp) hreturn hgo

end Passes

theorem step_persisted {decision : ControlDecision} {response : PaymentAcceptedResponse}
    {eventId : UUID} {now : Instant} {w' : World} (hpc : r.pc = .persist decision response)
    (h : r.persistPaymentTransaction w t decision response eventId now = some w') :
    r.step t w (.persist eventId now) = some (w', { r with pc := .committed response }) := by
  unfold step
  rw [hpc]
  dsimp only
  rw [h]

theorem step_conflicted {decision : ControlDecision} {response : PaymentAcceptedResponse}
    {eventId : UUID} {now : Instant} (hpc : r.pc = .persist decision response)
    (h : r.persistPaymentTransaction w t decision response eventId now = none) :
    r.step t w (.persist eventId now) = some (w, { r with pc := .conflict }) := by
  unfold step
  rw [hpc]
  dsimp only
  rw [h]

/-- Whatever the replies are, the program comes to what is left after a step. -/
theorem passes_step (h : (r.step t w .crash).isSome) :
    Passes (ApiCommand.Answered w t startedAt) (r.StepsTo cfg startedAt w t)
      (r.rest cfg startedAt) := by
  obtain ⟨context, request, traceId, traceparent, pc⟩ := r
  cases pc with
  | start =>
    refine .call (c := ApiCommand.begin) fun reply hreply => ?_
    cases hreply
    refine passes_snapshot .gate ?_ (fun _ => rfl) rfl
    unfold step
    dsimp only
    split <;> next hs => rw [hs]; rfl
  | gate =>
    refine .call (c := ApiCommand.redis (.setNx _ _ _)) fun reply hreply => .here ?_
    cases reply with
    | none =>
      exact .of_step (a := .acquire (.redisError false)) rfl (by simp) (rest_acquired _ true).symm
    | some set =>
      have hset :
          set = (acquire ⟨context, request, traceId, traceparent, .gate⟩ w .answered).2 := by
        rw [acquire_answered]
        exact hreply set rfl
      subst hset
      exact .of_step (a := .acquire .answered) rfl (by simp) (rest_acquired _ _).symm
  | poll i =>
    refine passes_snapshot (.pollPayment i) ?_ (fun _ => rfl) ?_
    · unfold step
      dsimp only
      split <;> next hs => rw [hs]; rfl
    · exact (rest_pollPayment cfg ⟨context, request, traceId, traceparent, .poll i⟩ startedAt
        i).symm
  | pollPayment i =>
    by_cases more : i + 1 < pollLimit
    · refine passes_existing (.poll (i + 1)) ?_ (fun _ => rfl) ?_
      · unfold step
        dsimp only
        split <;> next hs => simp only [hs, if_pos more, answeredOr, Option.map, Option.elim]
      · exact (rest_poll_succ cfg ⟨context, request, traceId, traceparent, .pollPayment i⟩
          startedAt more).symm
    · refine passes_existing (.raised .idempotencyConflict) ?_ (fun _ => rfl) ?_
      · unfold step
        dsimp only
        split <;> next hs => simp only [hs, if_neg more, answeredOr, Option.map, Option.elim]
      · exact resolvePending_last _ more
  | controls =>
    change Passes _ _ (Run.createPaymentWithControls cfg _ startedAt)
    rw [createPaymentWithControls_eq]
    refine .bind Program.within_true (fun decision _ => ?_) fun e _ => ?_
    · refine .call (c := ApiCommand.newUuid) fun paymentId _ => .here ?_
      exact .of_step (a := .runControls (.ok decision) paymentId) rfl (by simp) rfl
    · by_cases happ : ∃ error, e = .app error
      · obtain ⟨error, rfl⟩ := happ
        exact .of_step (a := .runControls (.error error) 0) rfl (by simp) rfl
      · exact ⟨.crash, w, _, rfl, .inr ⟨rfl, e, fun error he => happ ⟨error, he⟩, rfl⟩⟩
  | persist decision response =>
    refine .call (c := ApiCommand.newUuid) fun eventId _ =>
      .call (c := ApiCommand.now) fun due _ =>
        .call (c := ApiCommand.commit _ _ _) fun committed hcommitted => .here ?_
    have haccepted := hcommitted.trans (isSome_persistPaymentTransaction _).symm
    cases committed with
    | true =>
      obtain ⟨w', hw'⟩ := Option.isSome_iff_exists.1 (haccepted.1 rfl)
      refine .of_step (a := .persist eventId startedAt) (step_persisted rfl hw') (by simp) rfl
    | false =>
      have hrefused := Option.not_isSome_iff_eq_none.1 (mt haccepted.2 (by simp))
      exact .of_step (a := .persist eventId startedAt) (step_conflicted rfl hrefused) (by simp) rfl
  | conflict =>
    refine passes_snapshot .conflictPayment ?_ (fun _ => rfl) rfl
    unfold step
    dsimp only
    split <;> next hs => rw [hs]; rfl
  | conflictPayment =>
    refine passes_existing (.raised .idempotencyConflict) ?_ (fun _ => rfl) rfl
    unfold step
    dsimp only
    split <;> next hs => rw [hs]; rfl
  | committed response =>
    refine .bind (S := fun o => o = .ok ()) (fun h => ?_) (fun _ _ => .here ?_)
      fun e he => by cases he
    · exact afterCommitObservability_obeys cfg _ (fun _ _ => trivial) (fun _ => trivial)
        (fun _ => trivial) response h
    · exact .of_step (a := .observe) rfl (by simp) rfl
  | returned response => cases h
  | raised error => cases h
  | crashed => cases h

end Run

end Create

end PaymentsLab
