/-!
# Enumerations shared by the services

The `str` enumerations of `shared/contracts/enums.py`, with their string values where a modelled
function reads them.
-/

namespace PaymentsLab

/-- Payment rails. -/
inductive PaymentMethod
  | pix | boleto | ted | card
  deriving DecidableEq, Repr

def PaymentMethod.value : PaymentMethod → String
  | .pix => "PIX"
  | .boleto => "BOLETO"
  | .ted => "TED"
  | .card => "CARD"

inductive PaymentStatus
  | received | validated | inReview | processing | confirmed | failed | blocked
  deriving DecidableEq, Repr

/-- `CONFIRMED` and `FAILED`: the outcomes only a processor writes, and writes last. -/
def PaymentStatus.Terminal (s : PaymentStatus) : Prop :=
  s = .confirmed ∨ s = .failed

instance (s : PaymentStatus) : Decidable s.Terminal :=
  inferInstanceAs (Decidable (s = .confirmed ∨ s = .failed))

inductive OutboxStatus
  | pending | sent | failed
  deriving DecidableEq, Repr

inductive EventType
  | paymentRequested | paymentConfirmed | paymentFailed | paymentReviewRequired
  deriving DecidableEq, Repr

/-- The event types that announce a terminal outcome. -/
def EventType.Terminal (e : EventType) : Prop :=
  e = .paymentConfirmed ∨ e = .paymentFailed

instance (e : EventType) : Decidable e.Terminal :=
  inferInstanceAs (Decidable (e = .paymentConfirmed ∨ e = .paymentFailed))

inductive RateLimitDimension
  | merchant | customer | account | unknown
  deriving DecidableEq, Repr

def RateLimitDimension.value : RateLimitDimension → String
  | .merchant => "merchant"
  | .customer => "customer"
  | .account => "account"
  | .unknown => "unknown"

inductive KycLevel
  | none | basic | full
  deriving DecidableEq, Repr

def KycLevel.value : KycLevel → String
  | .none => "NONE"
  | .basic => "BASIC"
  | .full => "FULL"

inductive CustomerStatus
  | active | suspended
  deriving DecidableEq, Repr

inductive RiskDecision
  | allow | review | block
  deriving DecidableEq, Repr

inductive AmlDecision
  | allow | review | block
  deriving DecidableEq, Repr

inductive ReviewReason
  | riskOrAmlReview
  deriving DecidableEq, Repr

def ReviewReason.value : ReviewReason → String
  | .riskOrAmlReview => "risk_or_aml_review"

inductive PaymentFailureReason
  | manualReviewRejected | providerPartialFailure | unexpected
  deriving DecidableEq, Repr

def PaymentFailureReason.value : PaymentFailureReason → String
  | .manualReviewRejected => "manual_review_rejected"
  | .providerPartialFailure => "provider_partial_failure"
  | .unexpected => "unexpected"

inductive ProviderName
  | unknown
  deriving DecidableEq, Repr

def ProviderName.value : ProviderName → String
  | .unknown => "unknown"

inductive ErrorCategory
  | validationError | providerTimeout | provider5xx | concurrencyConflict | idempotencyConflict
  | kycDenied | limitExceeded | rateLimited | amlBlocked | riskBlocked
  deriving DecidableEq, Repr

def ErrorCategory.value : ErrorCategory → String
  | .validationError => "validation_error"
  | .providerTimeout => "provider_timeout"
  | .provider5xx => "provider_5xx"
  | .concurrencyConflict => "concurrency_conflict"
  | .idempotencyConflict => "idempotency_conflict"
  | .kycDenied => "kyc_denied"
  | .limitExceeded => "limit_exceeded"
  | .rateLimited => "rate_limited"
  | .amlBlocked => "aml_blocked"
  | .riskBlocked => "risk_blocked"

end PaymentsLab
