import PaymentsLab.Api.CreateProgram
import PaymentsLab.Foundation.Parts

/-!
# What escapes the services

The services turn what goes wrong into an `AppError` or go on without it: what escapes
`CreatePaymentUseCase.execute` after its first command is an `AppError`, a signal of `decimal` on
amounts, or the error of a statement (`Create.Run.contained_execute`). The statements have texts of
the context among their values and no others that come from the headers or the currency.
-/

namespace PaymentsLab

open Foundation Program

/-- The values of a command that come from the headers or the currency. -/
def ApiCommand.texts : ApiCommand → List String
  | .getSnapshot merchantId idempotencyKey => [merchantId, idempotencyKey]
  | .getByMerchantAndIdempotency merchantId idempotencyKey => [merchantId, idempotencyKey]
  | .getById customerId => [customerId]
  | .sumOutgoingSince customerId _ _ => [customerId]
  | .countOutgoingSince customerId _ _ => [customerId]
  | .countNearThresholdSince customerId _ _ _ _ => [customerId]
  | .countFailuresSince customerId _ => [customerId]
  | .destinationSeen customerId _ => [customerId]
  | .commit payment _ record =>
    [payment.merchantId, payment.customerId, payment.accountId, payment.idempotencyKey,
      payment.currency, record.merchantId, record.idempotencyKey]
  | _ => []

/-- A row that is found is the one that was asked for. -/
def ApiCommand.Found : (c : ApiCommand) → ApiReply c → Prop
  | .getById customerId, reply =>
    let row : Option Customer := reply
    ∀ customer ∈ row, customer.customerId = customerId
  | _, _ => True

/-- The exceptions that no text of a header or a currency is the reason of. -/
def ApiException.Reported : ApiException → Prop
  | .app _ => True
  | .decimalSignal => True
  | _ => False

namespace ApiProgram

variable {α β : Type} {S : String → Prop} {E D : ApiException → Prop}

/-- The statements have texts of `S` only, and the exceptions are of `E`. -/
abbrev Contained (S : String → Prop) (E : ApiException → Prop) (p : ApiProgram α) : Prop :=
  p.Within ApiCommand.Found (fun c => ∀ text ∈ c.texts, S text) fun o => ∀ e, o = .error e → E e

theorem contained_pure (a : α) : Contained S E (pure a : ApiProgram α) :=
  within_pure fun _ he => by cases he

theorem contained_throw {e : ApiException} (h : E e) : Contained S E (throw e : ApiProgram α) :=
  within_throw fun _ he => by
    cases he
    exact h

theorem contained_issue {c : ApiCommand} (hc : ∀ text ∈ c.texts, S text) :
    Contained S E (issue c) :=
  within_issue hc fun _ _ _ he => by cases he

theorem contained_issue_bind {c : ApiCommand} {f : ApiReply c → ApiProgram β}
    (hc : ∀ text ∈ c.texts, S text) (hf : ∀ reply, c.Found reply → Contained S E (f reply)) :
    Contained S E (issue c >>= f) :=
  Within.bind (Q := fun o => ∃ reply, c.Found reply ∧ o = .ok reply)
    (within_issue hc fun reply hreply => ⟨reply, hreply, rfl⟩)
    (fun _ ⟨_, hreply, heq⟩ => by
      cases heq
      exact hf _ hreply)
    fun _ ⟨_, _, heq⟩ => by cases heq

theorem contained_redis {command : Redis.Command StoredText} (h : E .redisError) :
    Contained S E (redis command) := by
  refine contained_issue_bind (c := .redis command) (fun _ htext => by cases htext)
    fun reply _ => ?_
  cases reply with
  | none => exact contained_throw h
  | some reply => exact contained_pure reply

theorem Contained.bind {p : ApiProgram α} {f : α → ApiProgram β} (hp : Contained S E p)
    (hf : ∀ a, Contained S E (f a)) : Contained S E (p >>= f) :=
  Within.bind hp (fun a _ => hf a) fun e he e' heq => by
    cases heq
    exact he e rfl

theorem Contained.tryCatch {p : ApiProgram α} {handler : ApiException → ApiProgram α}
    (hp : Contained S D p) (hh : ∀ e, D e → Contained S E (handler e)) :
    Contained S E (MonadExcept.tryCatch p handler) :=
  Within.tryCatch hp (fun _ _ _ he => by cases he) fun e he => hh e (he e rfl)

theorem Contained.mono {p : ApiProgram α} (hp : Contained S D p) (hE : ∀ e, D e → E e) :
    Contained S E p :=
  Within.mono hp fun _ ho e he => hE e (ho e he)

theorem contained_ite {c : Prop} [Decidable c] {p q : ApiProgram β} (hp : Contained S E p)
    (hq : Contained S E q) : Contained S E (if c then p else q) := by
  split
  · exact hp
  · exact hq

/-- A check that may raise, and what follows it. -/
theorem contained_throw_bind {c : Prop} [Decidable c] {e : ApiException}
    {f : Unit → ApiProgram β} (he : E e) (hf : Contained S E (f ())) :
    Contained S E (if c then throw e >>= f else f ()) :=
  contained_ite (Contained.bind (contained_throw he) fun _ => hf) hf

end ApiProgram

open ApiProgram

namespace LimitsService

variable {S : String → Prop} {E : ApiException → Prop} {customerId : String}

theorem contained_cachedPolicy (rail : PaymentMethod) : Contained S E (cachedPolicy rail) := by
  refine Contained.tryCatch (D := fun e => e = .redisError ∨ e = .validationError)
    (Contained.bind (contained_redis (.inl rfl)) fun text => ?_) fun e he => ?_
  · split
    · exact contained_pure _
    · refine Contained.bind ?_ fun policy => contained_pure (some policy)
      unfold validatePolicy
      split
      · exact contained_pure _
      · exact contained_throw (.inr rfl)
    · exact contained_pure _
  · rcases he with rfl | rfl <;> exact contained_pure _

theorem contained_getPolicy (ttl : Int) (rail : PaymentMethod) :
    Contained S ApiException.Reported (getPolicy ttl rail) := by
  refine Contained.bind (contained_cachedPolicy rail) fun policy => ?_
  cases policy with
  | some policy => exact contained_pure policy
  | none =>
    refine contained_issue_bind (c := .getByRail rail) (fun _ h => by cases h) fun entity _ => ?_
    cases entity with
    | none => exact contained_throw trivial
    | some entity =>
      refine Contained.bind ?_ fun _ => contained_pure entity
      refine Contained.tryCatch (D := (· = .redisError)) (contained_redis rfl) fun e he => ?_
      subst he
      exact contained_pure ()

theorem contained_enforceTransactionAmount (policy : LimitsPolicy) (amount : Decimal) :
    Contained S ApiException.Reported (enforceTransactionAmount policy amount) := by
  unfold enforceTransactionAmount
  refine contained_throw_bind trivial (contained_ite ?_ (contained_pure ()))
  exact contained_throw trivial

/-- A text of the counter that is no number is the counter's `ValueError`. -/
theorem contained_redisGetInt (key : String) :
    Contained S (fun e => e = .redisError ∨ e = .valueError) (redisGetInt key) := by
  refine Contained.bind (contained_redis (.inl rfl)) fun text => ?_
  split
  · exact contained_pure _
  · exact contained_pure _
  · split
    · exact contained_pure _
    · exact contained_throw (.inr rfl)

theorem contained_checkDailyTotal (hcustomer : S customerId) (rail : PaymentMethod)
    (amount : Decimal) (policy : LimitsPolicy) :
    Contained S ApiException.Reported (checkDailyTotal customerId rail amount policy) := by
  refine contained_issue_bind (c := .now) (fun _ h => by cases h) fun t _ => ?_
  refine contained_issue_bind (c := .sumOutgoingSince customerId rail _)
    (List.forall_mem_singleton.2 hcustomer) fun total _ => ?_
  exact contained_ite (contained_throw trivial) (contained_pure ())

/-- The `ValueError` of the counter is caught with the error of Redis. -/
theorem contained_enforceDailyLimit (hcustomer : S customerId) (rail : PaymentMethod)
    (amount : Decimal) (policy : LimitsPolicy) :
    Contained S ApiException.Reported (enforceDailyLimit customerId rail amount policy) := by
  refine contained_issue_bind (c := .now) (fun _ h => by cases h) fun t _ => ?_
  refine Contained.tryCatch
    (D := fun e => (e = .redisError ∨ e = .valueError) ∨ e.Reported) ?_ fun e he => ?_
  · refine Contained.bind (Contained.mono (contained_redisGetInt _) fun _ => .inl) fun current => ?_
    refine contained_throw_bind (.inr trivial) ?_
    exact contained_issue_bind (c := .now) (fun _ h => by cases h) fun t _ =>
      contained_redis (.inl (.inl rfl))
  · rcases he with (rfl | rfl) | he
    · exact contained_checkDailyTotal hcustomer rail amount policy
    · exact contained_checkDailyTotal hcustomer rail amount policy
    · cases e with
      | app error => exact contained_throw trivial
      | decimalSignal => exact contained_throw trivial
      | _ => exact he.elim

theorem contained_enforceVelocityLimit (hcustomer : S customerId) (rail : PaymentMethod)
    (policy : LimitsPolicy) :
    Contained S ApiException.Reported (enforceVelocityLimit customerId rail policy) := by
  refine contained_issue_bind (c := .now) (fun _ h => by cases h) fun t _ => ?_
  refine Contained.tryCatch (D := fun e => e = .redisError ∨ e.Reported) ?_ fun e he => ?_
  · refine Contained.bind (contained_redis (.inl rfl)) fun _ => ?_
    refine Contained.bind (contained_redis (.inl rfl)) fun count => ?_
    refine contained_throw_bind (.inr trivial) ?_
    refine Contained.bind (contained_redis (.inl rfl)) fun _ => ?_
    exact Contained.bind (contained_redis (.inl rfl)) fun _ => contained_pure _
  · rcases he with rfl | he
    · refine contained_issue_bind (c := .countOutgoingSince customerId rail _)
        (List.forall_mem_singleton.2 hcustomer) fun count _ => ?_
      exact contained_throw_bind trivial (contained_pure _)
    · cases e with
      | app error => exact contained_throw trivial
      | decimalSignal => exact contained_throw trivial
      | _ => exact he.elim

theorem contained_enforce (hcustomer : S customerId) (ttl : Int) (rail : PaymentMethod)
    (amount : Decimal) :
    Contained S ApiException.Reported (enforce ttl customerId rail amount) := by
  refine Contained.bind (contained_getPolicy ttl rail) fun policy => ?_
  refine Contained.bind (contained_enforceTransactionAmount policy amount) fun _ => ?_
  refine Contained.bind (contained_enforceDailyLimit hcustomer rail amount policy) fun _ => ?_
  exact Contained.bind (contained_enforceVelocityLimit hcustomer rail policy) fun _ =>
    contained_pure _

end LimitsService

theorem KycService.contained_enforce {S : String → Prop} (customer : Customer)
    (rail : PaymentMethod) : Contained S ApiException.Reported (enforce customer rail) := by
  unfold enforce
  refine contained_throw_bind trivial (contained_ite ?_ (contained_pure ()))
  exact contained_throw trivial

/-- The rate limiter goes on where Redis does not answer. -/
theorem RateLimiterService.contained_enforce {S : String → Prop} (cfg : ApiSettings)
    (merchantId customerId accountId : String) :
    Contained S ApiException.Reported (enforce cfg merchantId customerId accountId) := by
  have hallow (dimension : RateLimitDimension) (value : String) (bucket limit : Int) :
      Contained S ApiException.Reported (allow cfg dimension value bucket limit) := by
    refine Contained.tryCatch (D := (· = .redisError)) ?_ fun e he => ?_
    · refine Contained.bind (contained_redis rfl) fun current => ?_
      refine contained_ite ?_ (contained_pure _)
      exact Contained.bind (contained_redis rfl) fun _ => contained_pure _
    · subst he
      exact contained_pure true
  have hchecks (bucket : Int) (checks : List (RateLimitDimension × String × Int)) :
      Contained S ApiException.Reported (enforceChecks cfg bucket checks) := by
    induction checks with
    | nil => exact contained_pure ()
    | cons check checks ih =>
      exact Contained.bind (hallow _ _ bucket _) fun allowed => contained_throw_bind trivial ih
  exact contained_issue_bind (c := .now) (fun _ h => by cases h) fun t _ => hchecks _ _

theorem RiskScoreService.contained_evaluate {S : String → Prop} {E : ApiException → Prop}
    (cfg : ApiSettings) {customer : Customer} (hcustomer : S customer.customerId)
    (amount : Decimal) (policy : LimitsPolicy) (velocityCount : Int)
    (destination : Option String) :
    Contained S E (evaluate cfg customer amount policy velocityCount destination) := by
  refine contained_issue_bind (c := .now) (fun _ h => by cases h) fun t _ => ?_
  refine contained_issue_bind (c := .countFailuresSince customer.customerId _)
    (List.forall_mem_singleton.2 hcustomer) fun failures _ => ?_
  refine Contained.bind ?_ fun seen => contained_pure _
  unfold destinationSeen
  split
  · exact contained_pure _
  · exact contained_pure _
  · exact contained_issue (c := .destinationSeen customer.customerId _)
      (List.forall_mem_singleton.2 hcustomer)

namespace AmlRuleEngine

variable {S : String → Prop} {customerId : String}

theorem contained_decimal {α : Type} (a : Option α) :
    Contained S ApiException.Reported (decimal a) := by
  cases a
  · exact contained_throw trivial
  · exact contained_pure _

theorem contained_sumRecentFrom (rail : String) (cutoff : Int) (total : DecimalValue)
    (entries : List StoredText) :
    Contained S ApiException.Reported (sumRecentFrom rail cutoff total entries) := by
  induction entries generalizing total with
  | nil => exact contained_pure total
  | cons entry entries ih =>
    unfold sumRecentFrom
    split
    · exact ih total
    · split
      · exact Contained.bind (contained_decimal _) ih
      · exact ih total

theorem contained_countNearFrom (rail : String) (cutoff : Int) (low high : Decimal) (count : Int)
    (entries : List StoredText) :
    Contained S ApiException.Reported (countNearFrom rail cutoff low high count entries) := by
  have hbetween (amount : DecimalValue) :
      Contained S ApiException.Reported (between low high amount) := by
    refine Contained.bind (contained_decimal _) fun below => ?_
    split
    · exact contained_decimal _
    · exact contained_pure false
  induction entries generalizing count with
  | nil => exact contained_pure count
  | cons entry entries ih =>
    unfold countNearFrom
    split
    · exact ih count
    · split
      · exact ih count
      · exact Contained.bind (hbetween _) fun near => ih _

theorem contained_readHistoryEntries (key : String) :
    Contained S ApiException.Reported (readHistoryEntries key) := by
  refine Contained.tryCatch (D := (· = .redisError)) ?_ fun e he => ?_
  · exact Contained.bind (contained_redis rfl) fun entries => contained_pure (some entries)
  · subst he
    exact contained_pure none

/-- The rules raise what `decimal` signals. -/
theorem contained_evaluate (cfg : ApiSettings) (hcustomer : S customerId) (rail : PaymentMethod)
    (amount : Decimal) (destination : Option String) (policy : LimitsPolicy) :
    Contained S ApiException.Reported
      (evaluate cfg customerId rail amount destination policy) := by
  have htotal : Contained S ApiException.Reported (totalOutgoingRecent cfg customerId rail) := by
    refine contained_issue_bind (c := .now) (fun _ h => by cases h) fun t _ => ?_
    refine Contained.bind (contained_readHistoryEntries _) fun entries => ?_
    cases entries with
    | some entries => exact contained_sumRecentFrom _ _ _ entries
    | none =>
      exact contained_issue_bind (c := .now) (fun _ h => by cases h) fun t _ =>
        contained_issue_bind (c := .sumOutgoingSince customerId rail _)
          (List.forall_mem_singleton.2 hcustomer) fun total _ => contained_pure _
  have hnear : Contained S ApiException.Reported
      (nearThresholdCount cfg customerId rail policy.maxAmount) := by
    refine contained_issue_bind (c := .now) (fun _ h => by cases h) fun t _ => ?_
    refine Contained.bind (contained_readHistoryEntries _) fun entries => ?_
    cases entries with
    | some entries => exact contained_countNearFrom _ _ _ _ _ entries
    | none =>
      exact contained_issue_bind (c := .now) (fun _ h => by cases h) fun t _ =>
        contained_issue (c := .countNearThresholdSince customerId rail _ _ _)
          (List.forall_mem_singleton.2 hcustomer)
  unfold evaluate
  split
  · exact contained_pure _
  · refine Contained.bind htotal fun total => ?_
    refine Contained.bind (contained_decimal _) fun total => ?_
    refine Contained.bind (contained_decimal _) fun above => ?_
    split
    · exact contained_pure _
    · exact Contained.bind hnear fun count => contained_ite (contained_pure _) (contained_pure _)

theorem contained_recordOutgoing {E : ApiException → Prop} (cfg : ApiSettings) (customerId : String)
    (rail : PaymentMethod) (amount : Decimal) :
    Contained S E (recordOutgoing cfg customerId rail amount) := by
  refine contained_issue_bind (c := .now) (fun _ h => by cases h) fun t _ => ?_
  refine Contained.tryCatch (D := (· = .redisError)) ?_ fun e he => ?_
  · refine Contained.bind (contained_redis rfl) fun _ => ?_
    exact Contained.bind (contained_redis rfl) fun _ => contained_redis rfl
  · subst he
    exact contained_pure ()

end AmlRuleEngine

namespace Create

namespace Run

variable {S : String → Prop} {E : ApiException → Prop} (cfg : ApiSettings) (r : Run)

/-- The texts of the run that come from the headers and the currency. -/
def texts : List String :=
  [r.context.merchantId, r.context.customerId, r.context.accountId, r.context.idempotencyKey,
    r.request.currency]

theorem contained_tryReturnReplayedResponse (hmerchant : S r.context.merchantId)
    (hkey : S r.context.idempotencyKey) : Contained S E r.tryReturnReplayedResponse :=
  contained_issue_bind (c := .getSnapshot r.context.merchantId r.context.idempotencyKey)
    (List.forall_mem_cons.2 ⟨hmerchant, List.forall_mem_singleton.2 hkey⟩) fun _ _ =>
      contained_pure _

theorem contained_existingResponse (hmerchant : S r.context.merchantId)
    (hkey : S r.context.idempotencyKey) : Contained S E r.existingResponse :=
  contained_issue_bind
    (c := .getByMerchantAndIdempotency r.context.merchantId r.context.idempotencyKey)
    (List.forall_mem_cons.2 ⟨hmerchant, List.forall_mem_singleton.2 hkey⟩) fun _ _ =>
      contained_pure _

theorem contained_resolvePending (hmerchant : S r.context.merchantId)
    (hkey : S r.context.idempotencyKey) (n : Nat) :
    Contained S ApiException.Reported (r.resolvePending n) := by
  induction n with
  | zero => exact contained_throw trivial
  | succ n ih =>
    refine Contained.bind (r.contained_tryReturnReplayedResponse hmerchant hkey) fun replayed => ?_
    cases replayed with
    | some response => exact contained_pure response
    | none =>
      refine Contained.bind (r.contained_existingResponse hmerchant hkey) fun existing => ?_
      cases existing with
      | some response => exact contained_pure response
      | none => exact ih

theorem contained_resolveReplayedAfterConflict (hmerchant : S r.context.merchantId)
    (hkey : S r.context.idempotencyKey) :
    Contained S ApiException.Reported r.resolveReplayedAfterConflict := by
  refine Contained.bind (r.contained_tryReturnReplayedResponse hmerchant hkey) fun replayed => ?_
  cases replayed with
  | some response => exact contained_pure response
  | none =>
    refine Contained.bind (r.contained_existingResponse hmerchant hkey) fun existing => ?_
    cases existing with
    | some response => exact contained_pure response
    | none => exact contained_throw trivial

theorem contained_afterCommitObservability (response : PaymentAcceptedResponse) :
    Contained S E (r.afterCommitObservability cfg response) := by
  have hqueue : Contained S E (do let _ : Int ← issue .countInReview : ApiProgram Unit) :=
    contained_issue_bind (c := .countInReview) (fun _ h => by cases h) fun _ _ => contained_pure _
  unfold afterCommitObservability
  dsimp only
  split
  · exact Contained.bind (AmlRuleEngine.contained_recordOutgoing cfg _ _ _) fun _ => hqueue
  · exact hqueue

theorem contained_persistAndObserve (hr : ∀ text ∈ r.texts, S text) (startedAt : Instant)
    (decision : ControlDecision) :
    Contained S ApiException.Reported (r.persistAndObserve cfg startedAt decision) := by
  simp only [texts, List.forall_mem_cons] at hr
  obtain ⟨hmerchant, hcustomer, haccount, hkey, hcurrency, -⟩ := hr
  refine contained_issue_bind (c := .newUuid) (fun _ h => by cases h) fun paymentId _ => ?_
  refine contained_issue_bind (c := .newUuid) (fun _ h => by cases h) fun eventId _ => ?_
  refine contained_issue_bind (c := .now) (fun _ h => by cases h) fun t _ => ?_
  refine contained_issue_bind (c := .commit _ _ _) ?_ fun committed _ => ?_
  · simp only [ApiCommand.texts, paymentRow, idempotencyRecord, List.forall_mem_cons]
    exact ⟨hmerchant, hcustomer, haccount, hkey, hcurrency, hmerchant, hkey, fun _ h => by cases h⟩
  · cases committed with
    | true =>
      exact Contained.bind (r.contained_afterCommitObservability cfg _) fun _ => contained_pure _
    | false => exact r.contained_resolveReplayedAfterConflict hmerchant hkey

/-- Of a run of `execute` nothing escapes on account of its texts. -/
theorem contained_execute (hr : ∀ text ∈ r.texts, S text) :
    Contained S ApiException.Reported (r.execute cfg) := by
  have htexts := hr
  simp only [texts, List.forall_mem_cons] at htexts
  obtain ⟨hmerchant, hcustomer, haccount, hkey, hcurrency, -⟩ := htexts
  refine contained_issue_bind (c := .begin) (fun _ h => by cases h) fun startedAt _ => ?_
  refine Contained.bind (r.contained_tryReturnReplayedResponse hmerchant hkey) fun replayed => ?_
  cases replayed with
  | some response => exact contained_pure response
  | none =>
    refine Contained.bind ?_ fun holds => ?_
    · refine Contained.tryCatch (D := (· = .redisError)) (contained_redis rfl) fun e he => ?_
      subst he
      exact contained_pure true
    refine contained_ite ?_ (r.contained_resolvePending hmerchant hkey _)
    -- the customer that is found is the one of the header
    refine contained_issue_bind (c := .getById r.context.customerId)
      (List.forall_mem_singleton.2 hcustomer) fun customer hfound => ?_
    cases customer with
    | none => exact contained_throw trivial
    | some customer =>
      have hrow : S customer.customerId := by
        rw [show customer.customerId = r.context.customerId from hfound customer rfl]
        exact hcustomer
      change Contained S ApiException.Reported (do
        let evaluation ← r.runPreChecks cfg customer
        let decision ← r.evaluateControls cfg customer evaluation
        r.persistAndObserve cfg startedAt decision)
      refine Contained.bind ?_ fun evaluation => Contained.bind ?_ fun decision =>
        r.contained_persistAndObserve cfg hr startedAt decision
      · refine Contained.bind (KycService.contained_enforce customer _) fun _ => ?_
        refine Contained.bind (LimitsService.contained_enforce hcustomer _ _ _) fun evaluation => ?_
        exact Contained.bind (RateLimiterService.contained_enforce cfg _ _ _) fun _ =>
          contained_pure _
      · refine Contained.bind (RiskScoreService.contained_evaluate cfg hrow _ _ _ _) fun risk => ?_
        exact Contained.bind (AmlRuleEngine.contained_evaluate cfg hcustomer _ _ _ _) fun aml =>
          contained_pure _

end Run

end Create

end PaymentsLab
