import PaymentsLab.Api.Errors
import PaymentsLab.Api.RedisKeys
import PaymentsLab.Contracts.Persistence
import PaymentsLab.Foundation.Program
import PaymentsLab.Foundation.Redis

/-!
# What the services of the API talk to

The services are programs over `ApiCommand`: Redis commands, queries and readings of the clock.
`Backend.handler` executes them. Any Redis command may end in a `RedisError`, with or without having
been applied; a query sees the committed rows.
-/

namespace PaymentsLab

open Foundation

/-- The texts the services store in Redis. -/
inductive StoredText
  /-- `str` of an integer -/
  | int (n : Int)
  /-- `model_dump_json` of a policy -/
  | policy (policy : LimitsPolicy)
  /-- the member of a velocity set, `f"{now}-{count}"` -/
  | velocityMember (now : Instant) (count : Nat)
  /-- an entry of an AML history, `f"{int(now)}|{rail.value}|{amount}"` -/
  | amlEntry (timestamp : Int) (rail : PaymentMethod) (amount : Decimal)
  /-- any other text -/
  | text (s : String)
  deriving DecidableEq

instance : Redis.Text StoredText where
  ofInt := .int
  toInt
    | .int n => some n
    | .text s => s.toInt?
    | _ => none

/-! ## The database -/

/-- The committed rows. -/
structure Database where
  customers : List Customer
  policies : List LimitsPolicy
  payments : List Payment
  idempotency : List IdempotencyRecord
  outbox : List OutboxEvent

namespace Database

variable (db : Database)

/-- `CustomerRepository.get_by_id`. -/
def customerById (customerId : String) : Option Customer :=
  db.customers.find? fun row => row.customerId = customerId

/-- `LimitsPolicyRepository.get_by_rail`. -/
def policyByRail (rail : PaymentMethod) : Option LimitsPolicy :=
  db.policies.find? fun row => row.rail = rail

/-- `IdempotencyRepository.get_snapshot`. -/
def getSnapshot (merchantId idempotencyKey : String) : Option IdempotencyRecord :=
  db.idempotency.find? fun row =>
    row.merchantId = merchantId ∧ row.idempotencyKey = idempotencyKey

/-- `PaymentRepository.get_by_merchant_and_idempotency`. -/
def getByMerchantAndIdempotency (merchantId idempotencyKey : String) : Option Payment :=
  db.payments.find? fun row => row.merchantId = merchantId ∧ row.idempotencyKey = idempotencyKey

/-- The rows of `sum_outgoing_since` and `count_outgoing_since`. -/
def outgoingSince (customerId : String) (rail : PaymentMethod) (since : Instant) : List Payment :=
  db.payments.filter fun row => row.customerId = customerId ∧ row.method = rail ∧
    since ≤ row.createdAt ∧ row.status ≠ .blocked

/-- `PaymentRepository.sum_outgoing_since`. -/
def sumOutgoingSince (customerId : String) (rail : PaymentMethod) (since : Instant) : Decimal :=
  Decimal.sum ((db.outgoingSince customerId rail since).map (·.amount))

/-- `PaymentRepository.count_outgoing_since`. -/
def countOutgoingSince (customerId : String) (rail : PaymentMethod) (since : Instant) : Int :=
  (db.outgoingSince customerId rail since).length

/-- `PaymentRepository.count_near_threshold_since`. -/
def countNearThresholdSince (customerId : String) (rail : PaymentMethod) (since : Instant)
    (low high : Decimal) : Int :=
  ((db.outgoingSince customerId rail since).filter fun row =>
    low ≤ row.amount ∧ row.amount ≤ high).length

/-- `PaymentRepository.count_failures_since`. -/
def countFailuresSince (customerId : String) (since : Instant) : Int :=
  (db.payments.filter fun row => row.customerId = customerId ∧ row.status = .failed ∧
    since ≤ row.createdAt).length

/-- The query of `PaymentRepository.destination_seen`. -/
def destinationSeen (customerId destination : String) : Bool :=
  db.payments.any fun row => row.customerId = customerId ∧ row.destination = some destination

/-- `PaymentRepository.count_in_review`. -/
def countInReview : Int :=
  (db.payments.filter fun row => row.status = .inReview).length

/-- The rows of a creation meet every constraint: the customer is there, and the payment id, the
scope and the event id are new. -/
def Accepts (payment : Payment) (event : Option OutboxEvent) (record : IdempotencyRecord) : Prop :=
  (db.customerById payment.customerId).isSome ∧
    (∀ row ∈ db.payments, row.paymentId ≠ payment.paymentId) ∧
    db.getByMerchantAndIdempotency payment.merchantId payment.idempotencyKey = none ∧
    db.getSnapshot record.merchantId record.idempotencyKey = none ∧
    ∀ row ∈ db.outbox, ∀ e ∈ event, row.eventId ≠ e.eventId

instance (payment : Payment) (event : Option OutboxEvent) (record : IdempotencyRecord) :
    Decidable (db.Accepts payment event record) :=
  inferInstanceAs (Decidable (_ ∧ _))

/-- Inserts the rows of a creation. -/
def insert (payment : Payment) (event : Option OutboxEvent) (record : IdempotencyRecord) :
    Database :=
  { db with
    payments := db.payments ++ [payment.inserted]
    idempotency := db.idempotency ++ [record]
    outbox := db.outbox ++ event.toList }

end Database

/-! ## Commands -/

inductive ApiCommand
  | redis (command : Redis.Command StoredText)
  /-- `time.time()` and `datetime.now(UTC)` -/
  | now
  | newUuid
  /-- the beginning of the session's transaction, the `now()` of the rows it inserts -/
  | begin
  | getSnapshot (merchantId idempotencyKey : String)
  | getByMerchantAndIdempotency (merchantId idempotencyKey : String)
  | getById (customerId : String)
  | getByRail (rail : PaymentMethod)
  | sumOutgoingSince (customerId : String) (rail : PaymentMethod) (since : Instant)
  | countOutgoingSince (customerId : String) (rail : PaymentMethod) (since : Instant)
  | countNearThresholdSince (customerId : String) (rail : PaymentMethod) (since : Instant)
      (low high : Decimal)
  | countFailuresSince (customerId : String) (since : Instant)
  | destinationSeen (customerId destination : String)
  | countInReview
  /-- the inserts of a creation and `session.commit()` -/
  | commit (payment : Payment) (event : Option OutboxEvent) (record : IdempotencyRecord)

/-- The Redis key of a command. -/
def ApiCommand.redisKey? : ApiCommand → Option String
  | .redis command => some command.key
  | _ => none

/-- The key a `SET` sets. -/
def ApiCommand.setKey? : ApiCommand → Option String
  | .redis (.set key _ _) => some key
  | _ => none

/-- The reply to a command; `none` for a Redis command is a `RedisError`, and `false` for a commit
an `IntegrityError`. -/
abbrev ApiReply : ApiCommand → Type
  | .redis command => Option (Redis.Reply command)
  | .now => Instant
  | .newUuid => UUID
  | .begin => Instant
  | .getSnapshot _ _ => Option IdempotencyRecord
  | .getByMerchantAndIdempotency _ _ => Option Payment
  | .getById _ => Option Customer
  | .getByRail _ => Option LimitsPolicy
  | .sumOutgoingSince _ _ _ => Decimal
  | .countOutgoingSince _ _ _ => Int
  | .countNearThresholdSince _ _ _ _ _ => Int
  | .countFailuresSince _ _ => Int
  | .destinationSeen _ _ => Bool
  | .countInReview => Int
  | .commit _ _ _ => Bool

/-- The exceptions of the services. -/
inductive ApiException
  | redisError
  | validationError
  | valueError
  /-- `InvalidOperation` and `Overflow` of `decimal` -/
  | decimalSignal
  | app (error : AppError)
  deriving DecidableEq

/-- A service. -/
abbrev ApiProgram (α : Type) : Type :=
  Program ApiCommand ApiReply ApiException α

namespace ApiProgram

/-- One command. -/
def issue (c : ApiCommand) : ApiProgram (ApiReply c) :=
  Program.issue c

/-- A Redis command. -/
def redis (command : Redis.Command StoredText) : ApiProgram (Redis.Reply command) := do
  let reply : Option (Redis.Reply command) ← issue (.redis command)
  match reply with
  | some reply => pure reply
  | none => throw .redisError

/-- A reading of the clock. -/
def now : ApiProgram Instant :=
  issue .now

def getByRail (rail : PaymentMethod) : ApiProgram (Option LimitsPolicy) :=
  issue (.getByRail rail)

def sumOutgoingSince (customerId : String) (rail : PaymentMethod) (since : Instant) :
    ApiProgram Decimal :=
  issue (.sumOutgoingSince customerId rail since)

def countOutgoingSince (customerId : String) (rail : PaymentMethod) (since : Instant) :
    ApiProgram Int :=
  issue (.countOutgoingSince customerId rail since)

def countNearThresholdSince (customerId : String) (rail : PaymentMethod) (since : Instant)
    (low high : Decimal) : ApiProgram Int :=
  issue (.countNearThresholdSince customerId rail since low high)

def countFailuresSince (customerId : String) (since : Instant) : ApiProgram Int :=
  issue (.countFailuresSince customerId since)

/-- `PaymentRepository.destination_seen`. -/
def destinationSeen (customerId : String) (destination : Option String) : ApiProgram Bool :=
  match destination with
  | none | some "" => pure false
  | some destination => issue (.destinationSeen customerId destination)

section Obeys

variable {admits : (c : ApiCommand) → ApiReply c → Prop}
  {allows : Program.History ApiCommand ApiReply → ApiCommand → Prop}
  {h : Program.History ApiCommand ApiReply}

theorem obeys_redis {command : Redis.Command StoredText}
    {post : Program.History ApiCommand ApiReply →
      Except ApiException (Redis.Reply command) → Prop} :
    (redis command).Obeys admits allows post h ↔
      allows h (.redis command) ∧ ∀ reply : Option (Redis.Reply command),
        admits (.redis command) reply →
          post (⟨.redis command, reply⟩ :: h) (reply.elim (.error .redisError) .ok) := by
  unfold redis
  rw [Program.obeys_bind]
  refine and_congr_right fun _ => forall_congr' fun reply => imp_congr_right fun _ => ?_
  cases reply <;> exact Iff.rfl

end Obeys

end ApiProgram

/-! ## Execution -/

/-- The database and Redis. -/
structure Backend where
  database : Database
  redis : Redis.Store StoredText

/-- What becomes of a Redis command on its way. -/
inductive RedisOutcome
  | answered
  | redisError (applied : Bool)
  deriving DecidableEq

/-- What a step takes from outside: the clock, the fate of a Redis command, and `uuid4()`. -/
structure ApiInput where
  now : Instant
  redis : RedisOutcome
  uuid : UUID
  deriving DecidableEq

/-- A Redis command. -/
def Backend.execRedis (i : ApiInput) (b : Backend) (command : Redis.Command StoredText) :
    Option (Redis.Reply command) × Backend :=
  match Redis.exec i.now b.redis command, i.redis with
  | some (reply, redis), .answered => (some reply, { b with redis := redis })
  | some (_, redis), .redisError true => (none, { b with redis := redis })
  | _, _ => (none, b)

/-- A command has been executed, or has changed nothing. -/
theorem Backend.execRedis_cases (i : ApiInput) (b : Backend)
    (command : Redis.Command StoredText) :
    (∃ reply redis, Redis.exec i.now b.redis command = some (reply, redis) ∧
        (b.execRedis i command).2 = { b with redis := redis }) ∨
      (b.execRedis i command).2 = b := by
  unfold execRedis
  cases h : Redis.exec i.now b.redis command with
  | none => exact .inr rfl
  | some r =>
    obtain ⟨reply, redis⟩ := r
    match i.redis with
    | .answered => exact .inl ⟨reply, redis, rfl, rfl⟩
    | .redisError true => exact .inl ⟨reply, redis, rfl, rfl⟩
    | .redisError false => exact .inr rfl

/-- A reply is one to the command. -/
theorem Backend.execRedis_eq_some {i : ApiInput} {b : Backend} {command : Redis.Command StoredText}
    {reply : Redis.Reply command} (h : (b.execRedis i command).1 = some reply) :
    ∃ redis, Redis.exec i.now b.redis command = some (reply, redis) := by
  unfold execRedis at h
  cases hexec : Redis.exec i.now b.redis command with
  | none =>
    rw [hexec] at h
    cases h
  | some r =>
    obtain ⟨reply', redis⟩ := r
    cases hi : i.redis with
    | answered =>
      rw [hexec, hi] at h
      cases h
      exact ⟨redis, rfl⟩
    | redisError applied =>
      rw [hexec, hi] at h
      cases applied <;> cases h

/-- Redis has answered where there is a reply. -/
theorem Backend.redis_eq_answered {i : ApiInput} {b : Backend}
    {command : Redis.Command StoredText} {reply : Redis.Reply command}
    (h : (b.execRedis i command).1 = some reply) : i.redis = .answered := by
  unfold execRedis at h
  split at h
  · assumption
  · cases h
  · cases h

/-- A command that is answered. -/
theorem Backend.execRedis_answered {i : ApiInput} (hi : i.redis = .answered) {b : Backend}
    {command : Redis.Command StoredText} {reply : Redis.Reply command}
    {redis : Redis.Store StoredText}
    (h : Redis.exec i.now b.redis command = some (reply, redis)) :
    b.execRedis i command = (some reply, { b with redis := redis }) := by
  simp [execRedis, h, hi]

/-- A command leaves the database alone, and every key it does not write. -/
theorem Backend.execRedis_frame (i : ApiInput) (b : Backend)
    (command : Redis.Command StoredText) :
    (b.execRedis i command).2.database = b.database ∧
      ∀ key, (command.writes = true → key ≠ command.key) →
        (b.execRedis i command).2.redis key = b.redis key := by
  rcases b.execRedis_cases i command with ⟨reply, redis, hexec, heq⟩ | heq
  · rw [heq]
    refine ⟨rfl, fun key hkey => ?_⟩
    by_cases hwrites : command.writes = true
    · exact Redis.exec_of_ne hexec (hkey hwrites)
    · cases Redis.exec_of_not_writes hexec (by simpa using hwrites)
      rfl
  · rw [heq]
    exact ⟨rfl, fun _ _ => rfl⟩

/-- What is at a key after a `SET` of it. -/
theorem Backend.execRedis_set_entry {i : ApiInput} {b : Backend} {key : String} {text : StoredText}
    {ex : Int} {e : Redis.Entry StoredText}
    (he : (b.execRedis i (.set key text ex)).2.redis key = some e) :
    e.value = .string text ∨ b.redis key = some e := by
  rcases b.execRedis_cases i (.set key text ex) with ⟨reply, redis, hexec, heq⟩ | heq
  · rw [heq] at he
    simp only [Redis.exec] at hexec
    split at hexec <;> cases hexec
    simp only [Redis.Store.fresh, Function.update_self, Option.some.injEq] at he
    exact .inl (he ▸ rfl)
  · rw [heq] at he
    exact .inr he

theorem Backend.execRedis_get {i : ApiInput} (hi : i.redis = .answered) {b : Backend} {key : String}
    {text : Option StoredText} (h : b.redis.string? i.now key = some text) :
    b.execRedis i (.get key) = (some text, b) := by
  simp [execRedis, Redis.exec, h, hi]

theorem Backend.execRedis_set {i : ApiInput} (hi : i.redis = .answered) (b : Backend) (key : String)
    (text : StoredText) {ex : Int} (hex : 0 < ex) :
    b.execRedis i (.set key text ex) =
      (some (), { b with redis := b.redis.fresh i.now key text ex }) := by
  simp [execRedis, Redis.exec, hex, hi]

/-- A command of the services. -/
def Backend.exec (i : ApiInput) (b : Backend) : (c : ApiCommand) → ApiReply c × Backend
  | .redis command => b.execRedis i command
  | .now => (i.now, b)
  | .newUuid => (i.uuid, b)
  | .begin => (i.now, b)
  | .getSnapshot merchantId idempotencyKey =>
    (b.database.getSnapshot merchantId idempotencyKey, b)
  | .getByMerchantAndIdempotency merchantId idempotencyKey =>
    (b.database.getByMerchantAndIdempotency merchantId idempotencyKey, b)
  | .getById customerId => (b.database.customerById customerId, b)
  | .getByRail rail => (b.database.policyByRail rail, b)
  | .sumOutgoingSince customerId rail since =>
    (b.database.sumOutgoingSince customerId rail since, b)
  | .countOutgoingSince customerId rail since =>
    (b.database.countOutgoingSince customerId rail since, b)
  | .countNearThresholdSince customerId rail since low high =>
    (b.database.countNearThresholdSince customerId rail since low high, b)
  | .countFailuresSince customerId since => (b.database.countFailuresSince customerId since, b)
  | .destinationSeen customerId destination =>
    (b.database.destinationSeen customerId destination, b)
  | .countInReview => (b.database.countInReview, b)
  | .commit payment event record =>
    if b.database.Accepts payment event record then
      (true, { b with database := b.database.insert payment event record })
    else (false, b)

def Backend.handler : Handler ApiCommand ApiReply Backend ApiInput :=
  ⟨Backend.exec⟩

end PaymentsLab
