import PaymentsLab.Contracts.Persistence

/-!
# The widths of the tables

The string columns of the tables the services write, as the ORM classes of
`shared/contracts/persistence.py` declare them (`ormMetadata`) and as the migration
`20260208_0001_initial_schema.py` creates them (`upgrade`). A member of an enumeration is stored by
its name. A non-native enumeration column is as wide as its longest label; the labels of the ORM are
the names, and those of the migration are written out, for `event_type` with the values.
-/

namespace PaymentsLab

/-! ## Names of members -/

def PaymentMethod.name : PaymentMethod → String
  | .pix => "PIX"
  | .boleto => "BOLETO"
  | .ted => "TED"
  | .card => "CARD"

def PaymentStatus.name : PaymentStatus → String
  | .received => "RECEIVED"
  | .validated => "VALIDATED"
  | .inReview => "IN_REVIEW"
  | .processing => "PROCESSING"
  | .confirmed => "CONFIRMED"
  | .failed => "FAILED"
  | .blocked => "BLOCKED"

def OutboxStatus.name : OutboxStatus → String
  | .pending => "PENDING"
  | .sent => "SENT"
  | .failed => "FAILED"

def EventType.name : EventType → String
  | .paymentRequested => "PAYMENT_REQUESTED"
  | .paymentConfirmed => "PAYMENT_CONFIRMED"
  | .paymentFailed => "PAYMENT_FAILED"
  | .paymentReviewRequired => "PAYMENT_REVIEW_REQUIRED"

def RiskDecision.name : RiskDecision → String
  | .allow => "ALLOW"
  | .review => "REVIEW"
  | .block => "BLOCK"

def AmlDecision.name : AmlDecision → String
  | .allow => "ALLOW"
  | .review => "REVIEW"
  | .block => "BLOCK"

/-! ## Tables -/

/-- The string columns of `payments`. -/
inductive PaymentColumn
  | merchantId | customerId | accountId | currency | method | destination | status
  | idempotencyKey | riskDecision | amlDecision | lastError
  deriving DecidableEq

/-- The string columns of `outbox_events`. -/
inductive OutboxColumn
  | eventType | status
  deriving DecidableEq

/-- The string columns of `idempotency_records`. -/
inductive IdempotencyColumn
  | merchantId | idempotencyKey
  deriving DecidableEq

/-- The widths of the columns. -/
structure Schema where
  payments : PaymentColumn → Nat
  outboxEvents : OutboxColumn → Nat
  idempotencyRecords : IdempotencyColumn → Nat

/-- The width of a non-native enumeration. -/
def enumWidth (labels : List String) : Nat :=
  labels.foldl (fun width label => max width label.length) 0

/-- `Base.metadata`. -/
def ormMetadata : Schema where
  payments
    | .merchantId => 128
    | .customerId => 128
    | .accountId => 128
    | .currency => 3
    | .method => enumWidth ([.pix, .boleto, .ted, .card].map PaymentMethod.name)
    | .destination => 128
    | .status => enumWidth ([.received, .validated, .inReview, .processing, .confirmed, .failed,
        .blocked].map PaymentStatus.name)
    | .idempotencyKey => 128
    | .riskDecision => enumWidth ([.allow, .review, .block].map RiskDecision.name)
    | .amlDecision => enumWidth ([.allow, .review, .block].map AmlDecision.name)
    | .lastError => 512
  outboxEvents
    | .eventType => enumWidth ([.paymentRequested, .paymentConfirmed, .paymentFailed,
        .paymentReviewRequired].map EventType.name)
    | .status => enumWidth ([.pending, .sent, .failed].map OutboxStatus.name)
  idempotencyRecords
    | .merchantId => 128
    | .idempotencyKey => 128

/-- `upgrade` of the migration. -/
def upgrade : Schema where
  payments
    | .merchantId => 128
    | .customerId => 128
    | .accountId => 128
    | .currency => 3
    | .method => enumWidth ["PIX", "BOLETO", "TED", "CARD"]
    | .destination => 128
    | .status => enumWidth ["RECEIVED", "VALIDATED", "IN_REVIEW", "PROCESSING", "CONFIRMED",
        "FAILED", "BLOCKED"]
    | .idempotencyKey => 128
    | .riskDecision => enumWidth ["ALLOW", "REVIEW", "BLOCK"]
    | .amlDecision => enumWidth ["ALLOW", "REVIEW", "BLOCK"]
    | .lastError => 512
  outboxEvents
    | .eventType => enumWidth ["PaymentRequested", "PaymentConfirmed", "PaymentFailed",
        "PaymentReviewRequired"]
    | .status => enumWidth ["PENDING", "SENT", "FAILED"]
  idempotencyRecords
    | .merchantId => 128
    | .idempotencyKey => 128

/-! ## Rows -/

/-- What a payment row stores in a column; `none` is `NULL`. -/
def Payment.stored (row : Payment) : PaymentColumn → Option String
  | .merchantId => some row.merchantId
  | .customerId => some row.customerId
  | .accountId => some row.accountId
  | .currency => some row.currency
  | .method => some row.method.name
  | .destination => row.destination
  | .status => some row.status.name
  | .idempotencyKey => some row.idempotencyKey
  | .riskDecision => some row.riskDecision.name
  | .amlDecision => some row.amlDecision.name
  | .lastError => row.lastError

def OutboxEvent.stored (row : OutboxEvent) : OutboxColumn → Option String
  | .eventType => some row.eventType.name
  | .status => some row.status.name

def IdempotencyRecord.stored (row : IdempotencyRecord) : IdempotencyColumn → Option String
  | .merchantId => some row.merchantId
  | .idempotencyKey => some row.idempotencyKey

/-- No text is longer than its column. -/
def FitsColumns {C : Type} (width : C → Nat) (stored : C → Option String) : Prop :=
  ∀ column, ∀ text ∈ stored column, text.length ≤ width column

def Payment.Fits (schema : Schema) (row : Payment) : Prop :=
  FitsColumns schema.payments row.stored

def OutboxEvent.Fits (schema : Schema) (row : OutboxEvent) : Prop :=
  FitsColumns schema.outboxEvents row.stored

def IdempotencyRecord.Fits (schema : Schema) (row : IdempotencyRecord) : Prop :=
  FitsColumns schema.idempotencyRecords row.stored

/-- The two descriptions of `payments` agree. -/
theorem upgrade_payments : upgrade.payments = ormMetadata.payments := by
  funext column
  cases column <;> rfl

/-- The two descriptions of `idempotency_records` agree. -/
theorem upgrade_idempotencyRecords :
    upgrade.idempotencyRecords = ormMetadata.idempotencyRecords := by
  funext column
  cases column <;> rfl

theorem Payment.fits_upgrade_iff {row : Payment} : row.Fits upgrade ↔ row.Fits ormMetadata := by
  unfold Payment.Fits
  rw [upgrade_payments]

theorem IdempotencyRecord.fits_upgrade_iff {row : IdempotencyRecord} :
    row.Fits upgrade ↔ row.Fits ormMetadata := by
  unfold IdempotencyRecord.Fits
  rw [upgrade_idempotencyRecords]

/-- Every outbox row fits the columns of the ORM. -/
theorem OutboxEvent.fits_ormMetadata (row : OutboxEvent) : row.Fits ormMetadata := by
  intro column text htext
  cases column with
  | eventType =>
    cases htext
    cases row.eventType <;> decide
  | status =>
    cases htext
    cases row.status <;> decide

/-- The columns of the migration are too narrow for the name `PAYMENT_REVIEW_REQUIRED`, and for
nothing else that an outbox row stores. -/
theorem OutboxEvent.fits_upgrade_iff {row : OutboxEvent} :
    row.Fits upgrade ↔ row.eventType ≠ .paymentReviewRequired := by
  constructor
  · intro h htype
    have hlength := h .eventType row.eventType.name rfl
    rw [htype] at hlength
    exact absurd hlength (by decide)
  · intro htype column text htext
    cases column with
    | eventType =>
      cases htext
      cases hevent : row.eventType with
      | paymentReviewRequired => exact absurd hevent htype
      | paymentRequested | paymentConfirmed | paymentFailed => decide
    | status =>
      cases htext
      cases row.status <;> decide

end PaymentsLab
