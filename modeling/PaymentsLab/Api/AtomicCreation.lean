import PaymentsLab.Api.RefusedRequests
import PaymentsLab.Api.RequestContext

/-!
# Creation in one transaction

What a call of `execute` leaves in the database, by itself and from any state: nothing, or the rows
of one creation, in one transaction, past all controls (`creation_gated_and_atomic`).
-/

namespace PaymentsLab

open Foundation

/-- The end of the creation's transaction. -/
def ApiCommand.IsCommit : ApiCommand → Prop
  | .commit _ _ _ => True
  | _ => False

theorem ApiCommand.IsControl.not_isCommit {c : ApiCommand} (h : c.IsControl) : ¬ c.IsCommit := by
  cases c <;> first | exact id | exact fun _ => h

theorem Decimal.not_lt {a b : Decimal} (h : ¬ a < b) : b ≤ a := by
  have hle : ¬ a.scaled (min a.exp b.exp) < b.scaled (min a.exp b.exp) := h
  change b.scaled (min b.exp a.exp) ≤ a.scaled (min b.exp a.exp)
  rw [Int.min_comm]
  exact Int.not_lt.1 hle

open Program ApiProgram

theorem ApiProgram.IsControl.run_database {α : Type} {p : ApiProgram α} (hp : p.IsControl)
    (b : Backend) (is : Nat → ApiInput) :
    (p.run Backend.handler b is).world.database = b.database :=
  Issues.run_preserves (Q := fun w => Backend.database w = b.database) hp
    (fun i _ _ hc h => (Backend.exec_database hc i).trans h) rfl

namespace LimitsService

theorem enforceTransactionAmount_ok {policy : LimitsPolicy} {amount : Decimal} {b : Backend}
    {is : Nat → ApiInput}
    (h : ((enforceTransactionAmount policy amount).run Backend.handler b is).outcome = .ok ()) :
    policy.minAmount ≤ amount ∧ amount ≤ policy.maxAmount := by
  unfold enforceTransactionAmount at h
  by_cases hmin : amount < policy.minAmount
  · simp only [if_pos hmin] at h
    cases h
  by_cases hmax : policy.maxAmount < amount
  · simp only [if_neg hmin, if_pos hmax] at h
    cases h
  exact ⟨Decimal.not_lt hmin, Decimal.not_lt hmax⟩

/-- The amount is within the bounds of the policy that was used. -/
theorem enforce_bounds {ttl : Int} {customerId : String} {rail : PaymentMethod} {amount : Decimal}
    {b : Backend} {is : Nat → ApiInput} {evaluation : Evaluation}
    (h : ((enforce ttl customerId rail amount).run Backend.handler b is).outcome =
      .ok evaluation) :
    evaluation.policy.minAmount ≤ amount ∧ amount ≤ evaluation.policy.maxAmount := by
  unfold enforce at h
  obtain ⟨policy, -, heq⟩ := run_bind_eq_ok h
  rw [heq] at h
  obtain ⟨_, hbounds, heq⟩ := run_bind_eq_ok h
  rw [heq] at h
  obtain ⟨_, -, heq⟩ := run_bind_eq_ok h
  rw [heq] at h
  obtain ⟨velocityCount, -, heq⟩ := run_bind_eq_ok h
  rw [heq] at h
  cases h
  exact enforceTransactionAmount_ok hbounds

end LimitsService

theorem KycService.enforce_ok {customer : Customer} {rail : PaymentMethod} {b : Backend}
    {is : Nat → ApiInput}
    (h : ((enforce customer rail).run Backend.handler b is).outcome = .ok ()) :
    customer.status = .active ∧
      kycLevelRank (minimumKycLevelForMethod rail) ≤ kycLevelRank customer.kycLevel := by
  unfold enforce at h
  by_cases hstatus : customer.status ≠ .active
  · simp only [if_pos hstatus] at h
    cases h
  by_cases hlevel : kycLevelRank customer.kycLevel < kycLevelRank (minimumKycLevelForMethod rail)
  · simp only [if_neg hstatus, if_pos hlevel] at h
    cases h
  exact ⟨not_not.1 hstatus, Nat.le_of_not_lt hlevel⟩

/-- Taking the gate is no commit. -/
theorem IdempotencyService.not_isCommit_acquire (cfg : ApiSettings)
    (merchantId idempotencyKey : String) :
    (acquire cfg merchantId idempotencyKey).Issues fun c => ¬ c.IsCommit := by
  refine Issues.tryCatch (Issues.bind (issues_issue (c := ApiCommand.redis _) id) ?_) fun e => ?_
  · intro reply
    cases reply
    · exact issues_throw _
    · exact issues_pure _
  · cases e <;> first | exact issues_pure _ | exact issues_throw _

namespace Create

/-! ## Past the controls -/

namespace Run

variable (cfg : ApiSettings) (r : Run)

/-- The rules of the risk score, as the run applies them. -/
def riskScore (customer : Customer) (evaluation : LimitsService.Evaluation) :
    ApiProgram (Int × RiskDecision) :=
  RiskScoreService.evaluate cfg customer r.request.amount evaluation.policy
    evaluation.velocityCount r.request.destination

/-- The AML rules, as the run applies them. -/
def amlCheck (evaluation : LimitsService.Evaluation) : ApiProgram AmlDecision :=
  AmlRuleEngine.evaluate cfg r.context.customerId r.request.method r.request.amount
    r.request.destination evaluation.policy

/-- The run has passed the controls from `b` on: the customer may pay on the rail, the limits and
the rates hold, and the decision is what the risk score and the AML rules have said, one after the
other. -/
structure Gated (b : Backend) (is : Nat → ApiInput) (customer : Customer)
    (evaluation : LimitsService.Evaluation) (decision : ControlDecision) : Prop where
  found : b.database.customerById r.context.customerId = some customer
  active : customer.status = .active
  kyc : kycLevelRank (minimumKycLevelForMethod r.request.method) ≤ kycLevelRank customer.kycLevel
  checked : ((r.checked cfg).run Backend.handler b is).outcome = .ok (customer, evaluation)
  bounds : evaluation.policy.minAmount ≤ r.request.amount ∧
    r.request.amount ≤ evaluation.policy.maxAmount
  risk : let ran := (r.checked cfg).run Backend.handler b is
    ((r.riskScore cfg customer evaluation).run Backend.handler ran.world ran.inputs).outcome =
      .ok (decision.riskScore, decision.riskDecision)
  aml : let ran := (r.checked cfg).run Backend.handler b is
    let ran := (r.riskScore cfg customer evaluation).run Backend.handler ran.world ran.inputs
    ((r.amlCheck cfg evaluation).run Backend.handler ran.world ran.inputs).outcome =
      .ok decision.amlDecision

theorem loadCustomerOrRaise_ok {b : Backend} {is : Nat → ApiInput} {customer : Customer}
    (h : (r.loadCustomerOrRaise.run Backend.handler b is).outcome = .ok customer) :
    b.database.customerById r.context.customerId = some customer := by
  have hrun : (r.loadCustomerOrRaise.run Backend.handler b is).outcome =
      (b.database.customerById r.context.customerId).elim
        (.error (.app (.validation "Customer not found"))) .ok := by
    unfold loadCustomerOrRaise ApiProgram.issue
    rw [Program.run_bind, run_issue, Ran.andThen_ok]
    simp only [Backend.handler, Backend.exec]
    cases b.database.customerById r.context.customerId <;> rfl
  rw [hrun] at h
  cases hcustomer : b.database.customerById r.context.customerId with
  | none =>
    rw [hcustomer] at h
    cases h
  | some customer' =>
    rw [hcustomer] at h
    cases h
    rfl

/-- What the checks have let pass. -/
theorem checked_ok {b : Backend} {is : Nat → ApiInput} {customer : Customer}
    {evaluation : LimitsService.Evaluation}
    (h : ((r.checked cfg).run Backend.handler b is).outcome = .ok (customer, evaluation)) :
    b.database.customerById r.context.customerId = some customer ∧ customer.status = .active ∧
      kycLevelRank (minimumKycLevelForMethod r.request.method) ≤ kycLevelRank customer.kycLevel ∧
      evaluation.policy.minAmount ≤ r.request.amount ∧
      r.request.amount ≤ evaluation.policy.maxAmount := by
  unfold checked runPreChecks at h
  simp only [bind_assoc, pure_bind] at h
  obtain ⟨customer', hfound, heq⟩ := run_bind_eq_ok h
  rw [heq] at h
  obtain ⟨_, hkyc, heq⟩ := run_bind_eq_ok h
  rw [heq] at h
  obtain ⟨evaluation', hlimits, heq⟩ := run_bind_eq_ok h
  rw [heq] at h
  obtain ⟨_, -, heq⟩ := run_bind_eq_ok h
  rw [heq] at h
  cases h
  obtain ⟨hactive, hlevel⟩ := KycService.enforce_ok hkyc
  exact ⟨r.loadCustomerOrRaise_ok hfound, hactive, hlevel, LimitsService.enforce_bounds hlimits⟩

/-- What the controls have let pass. -/
theorem decided_ok {b : Backend} {is : Nat → ApiInput} {decision : ControlDecision}
    (h : ((r.decided cfg).run Backend.handler b is).outcome = .ok decision) :
    ∃ customer evaluation, r.Gated cfg b is customer evaluation decision := by
  unfold decided evaluateControls at h
  obtain ⟨⟨customer, evaluation⟩, hchecked, heq⟩ := run_bind_eq_ok h
  rw [heq] at h
  obtain ⟨⟨riskScore, riskDecision⟩, hrisk, heq⟩ := run_bind_eq_ok h
  rw [heq] at h
  obtain ⟨amlDecision, haml, heq⟩ := run_bind_eq_ok h
  rw [heq] at h
  cases h
  obtain ⟨hfound, hactive, hkyc, hbounds⟩ := r.checked_ok cfg hchecked
  exact ⟨customer, evaluation, hfound, hactive, hkyc, hchecked, hbounds, hrisk, haml⟩

/-! ## The transaction -/

/-- What the transaction leaves: its rows, if the constraints accept them, and else nothing. -/
theorem persistAndObserve_database (b : Backend) (is : Nat → ApiInput) (startedAt : Instant)
    (decision : ControlDecision) :
    let ran := (r.persistAndObserve cfg startedAt decision).run Backend.handler b is
    let response := r.acceptedResponse (is 0).uuid decision
    let event := r.insertedEvent response (is 1).uuid startedAt (is 2).now
    let payment := r.paymentRow decision response startedAt
    if b.database.Accepts payment event (r.idempotencyRecord response) then
      ran.outcome = .ok response ∧
        ran.world.database = b.database.insert payment event (r.idempotencyRecord response)
    else ran.world.database = b.database := by
  dsimp only
  let next (committed : Bool) : ApiProgram PaymentAcceptedResponse :=
    if committed then do
      r.afterCommitObservability cfg (r.acceptedResponse (is 0).uuid decision)
      return r.acceptedResponse (is 0).uuid decision
    else r.resolveReplayedAfterConflict
  let commit : ApiCommand := .commit
    (r.paymentRow decision (r.acceptedResponse (is 0).uuid decision) startedAt)
    (r.insertedEvent (r.acceptedResponse (is 0).uuid decision) (is 1).uuid startedAt (is 2).now)
    (r.idempotencyRecord (r.acceptedResponse (is 0).uuid decision))
  have hrun : (r.persistAndObserve cfg startedAt decision).run Backend.handler b is =
      (next (b.exec (is 3) commit).1).run Backend.handler (b.exec (is 3) commit).2
        fun n => is (n + 4) := rfl
  have hnext (committed : Bool) : (next committed).IsControl := by
    cases committed with
    | true =>
      exact Issues.bind (r.uses_afterCommitObservability cfg (.aml _) _).isControl
        fun _ => issues_pure _
    | false => exact r.uses_resolveReplayedAfterConflict.isControl
  rw [hrun, (hnext _).run_database]
  simp only [commit, Backend.exec]
  split
  · refine ⟨?_, rfl⟩
    simp only [next, if_true, Program.run_bind, Ran.andThen, run_afterCommitObservability_outcome,
      run_pure]
  · rfl

end Run

/-- The rows of one creation have been inserted: a payment, its snapshot, and the event that its
status asks for. -/
structure Inserted (db db' : Database) (payment : Payment) (event : Option OutboxEvent)
    (record : IdempotencyRecord) : Prop where
  insert : db' = db.insert payment event record
  scope : record.merchantId = payment.merchantId ∧ record.idempotencyKey = payment.idempotencyKey
  paymentId : record.paymentId = payment.paymentId ∧
    record.responsePayload.paymentId = payment.paymentId
  status : record.responsePayload.status = payment.status
  decisions : record.responsePayload.riskDecision = payment.riskDecision ∧
    record.responsePayload.amlDecision = payment.amlDecision
  received : payment.status = .received → ∃ e, event = some e ∧
    e.eventType = .paymentRequested ∧ e.aggregateId = payment.paymentId
  inReview : payment.status = .inReview → ∃ e, event = some e ∧
    e.eventType = .paymentReviewRequired ∧ e.aggregateId = payment.paymentId
  blocked : payment.status = .blocked → event = none

theorem resolveStatusFromDecisions_spec (risk : RiskDecision) (aml : AmlDecision) :
    (resolveStatusFromDecisions risk aml = .blocked ↔ risk = .block ∨ aml = .block) ∧
      (resolveStatusFromDecisions risk aml = .inReview ↔
        ¬ (risk = .block ∨ aml = .block) ∧ (risk = .review ∨ aml = .review)) ∧
      (resolveStatusFromDecisions risk aml = .received ↔
        ¬ (risk = .block ∨ aml = .block) ∧ ¬ (risk = .review ∨ aml = .review)) := by
  cases risk <;> cases aml <;> decide

namespace Run

variable (cfg : ApiSettings) (r : Run)

/-- The request and the decisions stand in the row, and its status is what they ask for. -/
structure RowOf (decision : ControlDecision) (payment : Payment) : Prop where
  scope : payment.merchantId = r.context.merchantId ∧
    payment.idempotencyKey = r.context.idempotencyKey
  payer : payment.customerId = r.context.customerId ∧ payment.accountId = r.context.accountId
  request : payment.amount = r.request.amount ∧ payment.currency = r.request.currency ∧
    payment.method = r.request.method ∧ payment.destination = r.request.destination
  riskScore : payment.riskScore = decision.riskScore
  riskDecision : payment.riskDecision = decision.riskDecision
  amlDecision : payment.amlDecision = decision.amlDecision
  blocked : payment.status = .blocked ↔
    decision.riskDecision = .block ∨ decision.amlDecision = .block
  inReview : payment.status = .inReview ↔
    ¬ (decision.riskDecision = .block ∨ decision.amlDecision = .block) ∧
      (decision.riskDecision = .review ∨ decision.amlDecision = .review)
  received : payment.status = .received ↔
    ¬ (decision.riskDecision = .block ∨ decision.amlDecision = .block) ∧
      ¬ (decision.riskDecision = .review ∨ decision.amlDecision = .review)

/-- The rows of a request that has passed the controls. -/
theorem inserted (db : Database) (decision : ControlDecision) (paymentId eventId : UUID)
    (startedAt now : Instant) :
    let response := r.acceptedResponse paymentId decision
    let payment := r.paymentRow decision response startedAt
    let event := r.insertedEvent response eventId startedAt now
    let record := r.idempotencyRecord response
    Inserted db (db.insert payment event record) payment event record ∧
      r.RowOf decision payment := by
  refine ⟨⟨rfl, ⟨rfl, rfl⟩, ⟨rfl, rfl⟩, rfl, ⟨rfl, rfl⟩, ?_, ?_, ?_⟩,
    ⟨⟨rfl, rfl⟩, ⟨rfl, rfl⟩, ⟨rfl, rfl, rfl, rfl⟩, rfl, rfl, rfl, ?_, ?_, ?_⟩⟩
  · intro hstatus
    have hresponse : (r.acceptedResponse paymentId decision).status = .received := hstatus
    unfold insertedEvent outboxEvent
    rw [hresponse]
    exact ⟨_, rfl, rfl, rfl⟩
  · intro hstatus
    have hresponse : (r.acceptedResponse paymentId decision).status = .inReview := hstatus
    unfold insertedEvent outboxEvent
    rw [hresponse]
    exact ⟨_, rfl, rfl, rfl⟩
  · intro hstatus
    have hresponse : (r.acceptedResponse paymentId decision).status = .blocked := hstatus
    unfold insertedEvent outboxEvent
    rw [hresponse]
    rfl
  · exact (resolveStatusFromDecisions_spec _ _).1
  · exact (resolveStatusFromDecisions_spec _ _).2.1
  · exact (resolveStatusFromDecisions_spec _ _).2.2

/-- The run holds the gate of a scope without a snapshot. -/
structure Entered (b : Backend) (is : Nat → ApiInput) : Prop where
  fresh : b.database.getSnapshot r.context.merchantId r.context.idempotencyKey = none
  acquired : (r.takeGate cfg b (is 2)).1 = true

/-- A run that has not entered leaves the database alone. -/
theorem alone_database_of_not_entered {b : Backend} {is : Nat → ApiInput}
    (h : ¬ r.Entered cfg b is) : (r.alone cfg b is).world.database = b.database := by
  cases hsnapshot : b.database.getSnapshot r.context.merchantId r.context.idempotencyKey with
  | some record =>
    have hrun : r.alone cfg b is = ⟨.ok record.responsePayload, b, fun n => is (n + 2)⟩ := by
      have hbegin : Backend.handler.exec (is 0) b .begin = ((is 0).now, b) := rfl
      unfold alone execute ApiProgram.issue
      simp only [Program.run_bind, run_issue, hbegin, Ran.andThen_ok,
        run_tryReturnReplayedResponse, hsnapshot, Option.map_some]
      rfl
    rw [hrun]
  | none =>
    have hgate : ¬ (r.takeGate cfg b (is 2)).1 = true := fun hgate => h ⟨hsnapshot, hgate⟩
    rw [r.alone_of_fresh cfg hsnapshot, if_neg hgate,
      (r.uses_resolvePending _).isControl.run_database]
    exact (b.execRedis_frame (is 2) _).1

/-- What a run leaves in the database. -/
theorem alone_database (b : Backend) (is : Nat → ApiInput) :
    (r.alone cfg b is).world.database = b.database ∨
      r.Entered cfg b is ∧ ∃ customer evaluation decision payment event record,
        r.Gated cfg (r.takeGate cfg b (is 2)).2 (fun n => is (n + 3)) customer evaluation
          decision ∧
        Inserted b.database (r.alone cfg b is).world.database payment event record ∧
        r.RowOf decision payment ∧ (r.alone cfg b is).outcome = .ok record.responsePayload := by
  by_cases hentered : r.Entered cfg b is
  · have hrun := @alone_of_fresh cfg r b is hentered.fresh
    rw [if_pos hentered.acquired, createPaymentWithControls_eq, Program.run_bind] at hrun
    have hgate : (r.takeGate cfg b (is 2)).2.database = b.database := (b.execRedis_frame (is 2) _).1
    have hcontrols := (r.isControl_decided cfg).run_database (r.takeGate cfg b (is 2)).2
      fun n => is (n + 3)
    cases hdecided : ((r.decided cfg).run Backend.handler (r.takeGate cfg b (is 2)).2
      fun n => is (n + 3)).outcome with
    | error e =>
      refine .inl ?_
      unfold Ran.andThen at hrun
      rw [hdecided] at hrun
      rw [hrun]
      exact hcontrols.trans hgate
    | ok decision =>
      obtain ⟨customer, evaluation, hgated⟩ := r.decided_ok cfg hdecided
      unfold Ran.andThen at hrun
      rw [hdecided] at hrun
      generalize (r.decided cfg).run Backend.handler (r.takeGate cfg b (is 2)).2
        (fun n => is (n + 3)) = ran at hrun hcontrols
      have hpersist := r.persistAndObserve_database cfg ran.world ran.inputs (is 0).now decision
      dsimp only at hrun hpersist
      rw [← hrun, hcontrols, hgate] at hpersist
      split at hpersist
      · obtain ⟨houtcome, hdatabase⟩ := hpersist
        obtain ⟨hinserted, hdecision⟩ := r.inserted b.database decision _ _ (is 0).now _
        exact .inr ⟨hentered, customer, evaluation, decision, _, _, _, hgated,
          hdatabase ▸ hinserted, hdecision, houtcome⟩
      · exact .inl hpersist
  · exact .inl (r.alone_database_of_not_entered cfg hentered)

/-- Whatever the replies are, the transaction of a creation is the only one that is committed. -/
theorem persistAndObserve_issuesOnce (startedAt : Instant) (decision : ControlDecision) :
    (r.persistAndObserve cfg startedAt decision).IssuesOnce ApiCommand.IsCommit := by
  refine Issues.bind_once (issues_issue (c := ApiCommand.newUuid) id) fun paymentId => ?_
  refine Issues.bind_once (issues_issue (c := ApiCommand.newUuid) id) fun eventId => ?_
  refine Issues.bind_once (issues_issue (c := ApiCommand.now) id) fun t => ?_
  refine issuesOnce_issue_bind fun committed =>
    Issues.mono ?_ fun _ => ApiCommand.IsControl.not_isCommit
  split
  · exact
      Issues.bind (r.uses_afterCommitObservability cfg (.aml _) _).isControl fun _ => issues_pure _
  · exact r.uses_resolveReplayedAfterConflict.isControl

theorem execute_issuesOnce : (r.execute cfg).IssuesOnce ApiCommand.IsCommit := by
  have hnone {α : Type} {p : ApiProgram α} (hp : p.IsControl) :
      p.Issues fun c => ¬ c.IsCommit :=
    hp.mono fun _ hc => hc.not_isCommit
  refine Issues.bind_once (issues_issue (c := ApiCommand.begin) id) fun startedAt => ?_
  refine Issues.bind_once (hnone r.uses_tryReturnReplayedResponse.isControl) fun replayed => ?_
  cases replayed with
  | some response => trivial
  | none =>
    refine Issues.bind_once (IdempotencyService.not_isCommit_acquire cfg _ _) fun holds => ?_
    cases holds with
    | true =>
      refine (congrArg (IssuesOnce ApiCommand.IsCommit)
        (r.createPaymentWithControls_eq cfg startedAt)).mpr ?_
      exact Issues.bind_once (hnone (r.isControl_decided cfg))
        (r.persistAndObserve_issuesOnce cfg startedAt)
    | false => exact (hnone (r.uses_resolvePending pollLimit).isControl).once

end Run

namespace Call

variable (upper : String → String) (supported : List String) (cfg : ApiSettings)

/-- A call by itself, from any state of the database and of Redis. -/
theorem creation_gated_and_atomic (call : Call) (b : Backend) (is : Nat → ApiInput) :
    let ran := (call.execute upper supported cfg).run Backend.handler b is
    (call.execute upper supported cfg).IssuesOnce ApiCommand.IsCommit ∧
      (ran.world.database ≠ b.database →
        ∃ r customer evaluation decision payment event record,
          call.start upper supported = .ok r ∧ r.Entered cfg b is ∧
          r.Gated cfg (r.takeGate cfg b (is 2)).2 (fun n => is (n + 3)) customer evaluation
            decision ∧
          Inserted b.database ran.world.database payment event record ∧
          r.RowOf decision payment ∧ ran.outcome = .ok record.responsePayload) ∧
      ((∀ r, call.start upper supported = .ok r → ¬ r.Entered cfg b is) →
        ran.world.database = b.database) ∧
      ∀ e, ran.outcome = .error e → ran.world.database = b.database := by
  dsimp only
  unfold execute
  cases hstart : call.start upper supported with
  | error e => exact ⟨trivial, fun h => absurd rfl h, fun _ => rfl, fun _ _ => rfl⟩
  | ok r =>
    refine ⟨r.execute_issuesOnce cfg, fun hchanged => ?_, fun h => ?_, fun e he => ?_⟩
    · obtain h | ⟨hentered, customer, evaluation, decision, payment, event, record, h⟩ :=
        r.alone_database cfg b is
      · exact absurd h hchanged
      · exact ⟨r, customer, evaluation, decision, payment, event, record, rfl, hentered, h⟩
    · exact r.alone_database_of_not_entered cfg (h r rfl)
    · obtain h | ⟨-, _, _, _, _, _, record, -, -, -, h⟩ := r.alone_database cfg b is
      · exact h
      · exact nomatch he.symm.trans h

end Call

end Create

end PaymentsLab
