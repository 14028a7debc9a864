import PaymentsLab.Contracts.Enums
import PaymentsLab.Contracts.Decimal

/-!
# Rows, payloads and transfer objects

The tables of `shared/contracts/persistence.py` with the columns the modelled functions read or
write, the JSON payloads of the outbox events (`shared/contracts/events.py`) and the transfer
objects of `shared/contracts/dto.py`. Timestamps are microseconds since the epoch.
-/

namespace PaymentsLab

/-- A UUID, by its integer value. -/
abbrev UUID := Nat

/-- A point in time in microseconds, the resolution of `datetime`. -/
abbrev Instant := Int

/-- `CustomerORM`. -/
structure Customer where
  customerId : String
  kycLevel : KycLevel
  status : CustomerStatus
  createdAt : Instant
  deriving DecidableEq

/-- `LimitsPolicyDTO`, which has the columns of `LimitsPolicyORM`. -/
structure LimitsPolicy where
  rail : PaymentMethod
  minAmount : Decimal
  maxAmount : Decimal
  dailyLimitAmount : Decimal
  velocityLimitCount : Int
  velocityWindowSeconds : Int
  deriving DecidableEq

/-- `PaymentORM`. -/
structure Payment where
  paymentId : UUID
  merchantId : String
  customerId : String
  accountId : String
  amount : Decimal
  currency : String
  method : PaymentMethod
  destination : Option String
  status : PaymentStatus
  idempotencyKey : String
  riskScore : Int
  riskDecision : RiskDecision
  amlDecision : AmlDecision
  lastError : Option String
  createdAt : Instant
  version : Int
  deriving DecidableEq

/-- The row that its `INSERT` leaves in the table. -/
def Payment.inserted (payment : Payment) : Payment :=
  { payment with amount := payment.amount.toNumeric }

/-- The `payload` column of an outbox event. -/
inductive EventPayload
  | paymentRequested (paymentId : UUID) (merchantId : String) (traceId : String)
      (traceparent : Option String)
  | paymentReviewRequired (paymentId : UUID) (merchantId : String) (reason : String)
  | paymentConfirmed (paymentId : UUID) (merchantId : String) (provider : String)
      (providerReference : String)
  | paymentFailed (paymentId : UUID) (merchantId : String) (provider : String)
      (errorCategory : String) (reason : String)
  deriving DecidableEq

/-- `OutboxEventORM`. -/
structure OutboxEvent where
  eventId : UUID
  aggregateId : UUID
  eventType : EventType
  payload : EventPayload
  status : OutboxStatus
  createdAt : Instant
  attempts : Int
  nextAttemptAt : Instant
  deriving DecidableEq

/-- A new outbox row: `PENDING`, never attempted, due at once. -/
def OutboxEvent.new (eventId aggregateId : UUID) (eventType : EventType) (payload : EventPayload)
    (now : Instant) : OutboxEvent where
  eventId := eventId
  aggregateId := aggregateId
  eventType := eventType
  payload := payload
  status := .pending
  createdAt := now
  attempts := 0
  nextAttemptAt := now

namespace OutboxEvent

variable (eventId aggregateId : UUID) (eventType : EventType) (payload : EventPayload)
  (now : Instant)

@[simp] theorem eventId_new :
    (OutboxEvent.new eventId aggregateId eventType payload now).eventId = eventId :=
  rfl

@[simp] theorem aggregateId_new :
    (OutboxEvent.new eventId aggregateId eventType payload now).aggregateId = aggregateId :=
  rfl

@[simp] theorem eventType_new :
    (OutboxEvent.new eventId aggregateId eventType payload now).eventType = eventType :=
  rfl

@[simp] theorem status_new :
    (OutboxEvent.new eventId aggregateId eventType payload now).status = .pending :=
  rfl

end OutboxEvent

/-- `PaymentAcceptedResponse`. -/
structure PaymentAcceptedResponse where
  paymentId : UUID
  status : PaymentStatus
  traceId : String
  riskDecision : RiskDecision
  amlDecision : AmlDecision
  deriving DecidableEq

/-- `IdempotencyRecordORM`; the payload is the response it was dumped from. -/
structure IdempotencyRecord where
  merchantId : String
  idempotencyKey : String
  paymentId : UUID
  statusCode : Nat
  responsePayload : PaymentAcceptedResponse
  deriving DecidableEq

/-- `CreatePaymentRequest`. -/
structure CreatePaymentRequest where
  amount : Decimal
  currency : String
  method : PaymentMethod
  destination : Option String
  deriving DecidableEq

/-- `ProviderResponse`. -/
structure ProviderResponse where
  providerReference : String
  confirmed : Bool
  provider : String
  duplicate : Bool
  partialFailure : Bool
  deriving DecidableEq

end PaymentsLab
