import Mathlib.Data.List.Induction
import PaymentsLab.Contracts.Persistence

/-!
# The Kafka publisher

`KafkaEventBusPublisher` of `payments_processor/event_bus/kafka.py`. The producer is stored before
it is started, so one whose start has raised stays, and every later publication goes to it. The
publisher recovers as long as no start raises (`recovers_iff`).
-/

namespace PaymentsLab

namespace Kafka

/-! ## Messages -/

/-- `EventType.value`. -/
def eventTypeValue : EventType → String
  | .paymentRequested => "PaymentRequested"
  | .paymentConfirmed => "PaymentConfirmed"
  | .paymentFailed => "PaymentFailed"
  | .paymentReviewRequired => "PaymentReviewRequired"

/-- The dictionary of `_build_message`. -/
structure Message where
  eventId : UUID
  aggregateId : UUID
  eventType : String
  createdAt : Instant
  payload : EventPayload
  attempts : Int
  publishedAt : Instant
  deriving DecidableEq

/-- `_build_message`. -/
def buildMessage (event : OutboxEvent) (now : Instant) : Message where
  eventId := event.eventId
  aggregateId := event.aggregateId
  eventType := eventTypeValue event.eventType
  createdAt := event.createdAt
  payload := event.payload
  attempts := event.attempts
  publishedAt := now

/-- `_routing_key`. -/
def routingKey (eventType : String) : String :=
  eventType.map fun c => if c = '.' ∨ c = '-' then '_' else c.toLower

/-- What `send_and_wait` is given. -/
structure Delivery where
  topic : String
  value : Message
  key : String
  deriving DecidableEq

/-! ## The publisher -/

/-- An `AIOKafkaProducer`, and whether its `start` has returned. -/
structure Producer where
  bootstrapServers : String
  started : Bool
  deriving DecidableEq

/-- `KafkaEventBusPublisher`. -/
structure Publisher where
  bootstrapServers : String
  topic : String
  producer : Option Producer
  deriving DecidableEq

/-- What becomes of the calls into `aiokafka`: each returns, or raises. -/
structure Outcomes where
  imports : Bool
  starts : Bool
  sends : Bool
  stops : Bool
  deriving DecidableEq

namespace Publisher

/-- `__init__`. -/
def new (bootstrapServers topic : String) : Publisher :=
  ⟨bootstrapServers, topic, none⟩

/-- `_get_producer`; `none` where it raises. -/
def getProducer (p : Publisher) (o : Outcomes) : Option Producer × Publisher :=
  match p.producer with
  | some producer => (some producer, p)
  | none =>
    -- `_build_producer` raises a `RuntimeError` before anything is stored
    if o.imports then
      let producer : Producer := ⟨p.bootstrapServers, o.starts⟩
      (if o.starts then some producer else none, { p with producer := some producer })
    else (none, p)

/-- `publish`: what is delivered. A producer whose `start` has raised raises on `send_and_wait`. -/
def publish (p : Publisher) (o : Outcomes) (event : OutboxEvent) (now : Instant) :
    Option Delivery × Publisher :=
  let (producer, p) := p.getProducer o
  match producer with
  | none => (none, p)
  | some producer =>
    let message := buildMessage event now
    let key := routingKey (eventTypeValue event.eventType)
    (if producer.started ∧ o.sends then some ⟨p.topic, message, key⟩ else none, p)

/-- `close`. -/
def close (p : Publisher) (o : Outcomes) : Publisher :=
  match p.producer with
  | none => p
  | some _ => if o.stops then { p with producer := none } else p

end Publisher

/-- A call of a method. -/
inductive Call
  | publish (event : OutboxEvent) (now : Instant) (o : Outcomes)
  | close (o : Outcomes)

namespace Publisher

/-- The publisher after a call. -/
def after (p : Publisher) : Call → Publisher
  | .publish event now o => (p.publish o event now).2
  | .close o => p.close o

/-- The publisher after a sequence of calls. -/
def afterAll (p : Publisher) (calls : List Call) : Publisher :=
  calls.foldl after p

/-- The stored producer, if any, has been started. -/
def Started (p : Publisher) : Prop :=
  ∀ producer ∈ p.producer, producer.started = true

/-- A publication that meets with no failure delivers its message. -/
def Delivers (p : Publisher) : Prop :=
  ∀ event now o, o.imports = true → o.starts = true → o.sends = true →
    (p.publish o event now).1 =
      some ⟨p.topic, buildMessage event now, routingKey (eventTypeValue event.eventType)⟩

/-- The call starts a producer, and the start raises. -/
def StartRaises (p : Publisher) : Call → Prop
  | .publish _ _ o => p.producer = none ∧ o.imports = true ∧ o.starts = false
  | .close _ => False

variable {p : Publisher}

theorem Started.delivers (h : p.Started) : p.Delivers := by
  intro event now o himports hstarts hsends
  unfold publish getProducer
  cases hproducer : p.producer with
  | none => simp [himports, hstarts, hsends]
  | some producer => simp [h producer hproducer, hsends]

theorem publish_snd (o : Outcomes) (event : OutboxEvent) (now : Instant) :
    (p.publish o event now).2 = (p.getProducer o).2 := by
  unfold publish
  cases p.getProducer o with
  | mk producer p' => cases producer <;> rfl

/-- A call stores a producer that has not been started where the start raises, and only there. -/
theorem Started.after_iff (h : p.Started) (call : Call) :
    (p.after call).Started ↔ ¬ p.StartRaises call := by
  cases call with
  | close o =>
    have hclosed : (p.close o).Started := by
      unfold close
      split
      · exact h
      · split
        · intro producer hproducer
          cases hproducer
        · exact h
    exact ⟨fun _ => id, fun _ => hclosed⟩
  | publish event now o =>
    simp only [after, StartRaises, publish_snd, getProducer]
    cases hproducer : p.producer with
    | some producer =>
      refine ⟨fun _ hraises => ?_, fun _ => h⟩
      cases hraises.1
    | none =>
      by_cases himports : o.imports = true
      · simp [himports, Started]
      · simp [himports, h]

/-- The publisher recovers from every failure before, in every state, as long as no start raises. -/
theorem recovers_iff (bootstrapServers topic : String) (calls : List Call) :
    (∀ earlier later, calls = earlier ++ later →
      ((new bootstrapServers topic).afterAll earlier).Started ∧
        ((new bootstrapServers topic).afterAll earlier).Delivers) ↔
      ∀ earlier call later, calls = earlier ++ call :: later →
        ¬ ((new bootstrapServers topic).afterAll earlier).StartRaises call := by
  have hconcat (earlier : List Call) (call : Call) :
      (new bootstrapServers topic).afterAll (earlier ++ [call]) =
        ((new bootstrapServers topic).afterAll earlier).after call := by
    simp only [afterAll, List.foldl_append, List.foldl_cons, List.foldl_nil]
  constructor
  · rintro hrecovers earlier call later rfl
    have hbefore := (hrecovers earlier (call :: later) rfl).1
    have hafter := (hrecovers (earlier ++ [call]) later (by simp)).1
    rw [hconcat] at hafter
    exact (hbefore.after_iff call).1 hafter
  · intro hstarts
    have hstarted (earlier : List Call) : ∀ later, calls = earlier ++ later →
        ((new bootstrapServers topic).afterAll earlier).Started := by
      induction earlier using List.reverseRecOn with
      | nil =>
        intro later _ producer hproducer
        cases hproducer
      | append_singleton earlier call ih =>
        intro later hcalls
        rw [List.append_assoc] at hcalls
        rw [hconcat]
        exact ((ih _ hcalls).after_iff call).2 (hstarts earlier call later hcalls)
    exact fun earlier later hcalls =>
      ⟨hstarted earlier later hcalls, (hstarted earlier later hcalls).delivers⟩

/-- Any event. -/
def sampleEvent : OutboxEvent :=
  .new 1 2 .paymentConfirmed (.paymentConfirmed 2 "m" "mockpay" "ref") 0

/-- The first start raises. The publication after it, with nothing failing, is not delivered. -/
theorem start_raises_for_good : ¬ ∀ (bootstrapServers topic : String) (calls : List Call),
    ((new bootstrapServers topic).afterAll calls).Started ∧
      ((new bootstrapServers topic).afterAll calls).Delivers := by
  intro hrecovers
  have hdelivers := (hrecovers "kafka:9092" "payments.domain-events"
    [.publish sampleEvent 0 ⟨true, false, true, true⟩]).2 sampleEvent 1 ⟨true, true, true, true⟩
    rfl rfl rfl
  cases hdelivers

end Publisher

end Kafka

end PaymentsLab
