import Mathlib.Algebra.Order.Field.Rat
import Mathlib.Data.Rat.Cast.Order
import PaymentsLab.Contracts.DecimalText
import PaymentsLab.Logging.Identifiers
import PaymentsLab.Processor.CallProvider

/-!
# The provider mock

`provider_mock/simulation/engine.py` and the routes in front of it. The generator is seeded with the
seed of the configuration, the rail and the payment, so every call for a payment draws the same
numbers; what `random.Random` makes of a seed is left open.
-/

namespace PaymentsLab

namespace ProviderMock

open Logging (Text uuidText)

/-- `FaultConfig`. -/
structure FaultConfig where
  seed : Int
  baseLatencyMs : Int
  latencySpikeMs : Int
  timeoutMs : Int
  fault5xxRate : ℚ
  timeoutRate : ℚ
  latencySpikeRate : ℚ
  duplicateRate : ℚ
  partialFailureRate : ℚ

/-- What `random.Random(seed).random()` gives, call after call. -/
abbrev Generator : Type :=
  Text → Nat → ℚ

/-- The exceptions of `simulate`. -/
inductive SimulationError
  | timeoutError
  | runtimeError
  deriving DecidableEq

/-- A run of `simulate`: the seconds it slept, and how it ended. -/
structure Simulation where
  slept : List ℚ
  outcome : Except SimulationError ProviderResponse

namespace ProviderSimulationEngine

variable (generator : Generator) (cfg : FaultConfig)

/-- The seed of `_rng`. -/
def rngSeed (method : String) (paymentId : UUID) : Text :=
  pythonIntText cfg.seed ++ ':' :: (method.toList ++ ':' :: uuidText paymentId)

/-- `_latency_seconds`, of the next draw. -/
def latencySeconds (draw : ℚ) : ℚ :=
  let latencyMs :=
    if draw < cfg.latencySpikeRate then cfg.baseLatencyMs + cfg.latencySpikeMs
    else cfg.baseLatencyMs
  latencyMs / 1000

/-- `simulate`. -/
def simulate (method : String) (payload : ProviderRequest) : Simulation :=
  let random := generator (rngSeed cfg method payload.paymentId)
  let latency := latencySeconds cfg (random 0)
  if random 1 < cfg.timeoutRate then ⟨[latency, cfg.timeoutMs / 1000], .error .timeoutError⟩
  else if random 2 < cfg.fault5xxRate then ⟨[latency], .error .runtimeError⟩
  else
    let duplicate := decide (random 3 < cfg.duplicateRate)
    let partialFailure := decide (random 4 < cfg.partialFailureRate)
    ⟨[latency], .ok
      { providerReference := String.ofList (method.toList ++ '-' :: uuidText payload.paymentId)
        confirmed := !partialFailure
        provider := method ++ "-provider"
        duplicate := duplicate
        partialFailure := partialFailure }⟩

end ProviderSimulationEngine

open ProviderSimulationEngine

variable (generator : Generator) (cfg : FaultConfig)

/-- `_simulate_provider`: status code and body. -/
def simulateProvider (providerSlug : String) (payload : ProviderRequest) :
    Nat × Option ProviderResponse :=
  match (simulate generator cfg providerSlug payload).outcome with
  | .ok response => (200, some response)
  | .error .timeoutError => (504, none)
  | .error .runtimeError => (503, none)

/-- `_confirm`. -/
def confirm (method : PaymentMethod) (payload : ProviderRequest) : Nat × Option ProviderResponse :=
  simulateProvider generator cfg (providerSlugForMethod method) payload

/-- The routes of the router: `confirm_pix`, `confirm_boleto`, `confirm_ted` and `confirm_card`. -/
def route (path : String) : Option PaymentMethod :=
  if path = "/providers/pix/confirm" then some .pix
  else if path = "/providers/boleto/confirm" then some .boleto
  else if path = "/providers/ted/confirm" then some .ted
  else if path = "/providers/card/confirm" then some .card
  else none

/-- The answer to a post. -/
def handle (path : String) (payload : ProviderRequest) : Nat × Option ProviderResponse :=
  match route path with
  | some method => confirm generator cfg method payload
  | none => (404, none)

/-- The answer to the post of the processor for a payment. -/
def answer (payment : Payment) : HttpOutcome :=
  let (statusCode, body) :=
    handle generator cfg (providerConfirmPathForMethod payment.method) (.ofPayment payment)
  .response statusCode body

/-- Both services know the same routes. -/
theorem route_providerConfirmPath (method : PaymentMethod) :
    route (providerConfirmPathForMethod method) = some method := by
  cases method <;> decide

/-- The mock signs as the provider the processor knows for the rail. -/
theorem provider_eq (method : PaymentMethod) :
    providerSlugForMethod method ++ "-provider" = providerNameForMethod method := by
  cases method <;> decide

/-- The reference of a payment. -/
def reference (payment : Payment) : String :=
  String.ofList ((providerSlugForMethod payment.method).toList ++ '-' :: uuidText payment.paymentId)

/-- What the processor makes of the answer for a payment. -/
def verdict (payment : Payment) : Except CallError ProviderResponse :=
  ProviderClientAdapter.confirm (answer generator cfg payment)

/-- The draws of a payment. -/
def draws (payment : Payment) : Nat → ℚ :=
  generator (rngSeed cfg (providerSlugForMethod payment.method) payment.paymentId)

variable {generator cfg} {payment payment' : Payment}

/-- The verdicts, told by the draws: an error, or a response with the reference of the payment. -/
theorem verdict_cases :
    (draws generator cfg payment 1 < cfg.timeoutRate ∧
        verdict generator cfg payment = .error (.provider5xx s!"Provider returned {504}")) ∨
      (¬ draws generator cfg payment 1 < cfg.timeoutRate ∧
        draws generator cfg payment 2 < cfg.fault5xxRate ∧
        verdict generator cfg payment = .error (.provider5xx s!"Provider returned {503}")) ∨
      (¬ draws generator cfg payment 1 < cfg.timeoutRate ∧
        ¬ draws generator cfg payment 2 < cfg.fault5xxRate ∧
        verdict generator cfg payment = .ok
          { providerReference := reference payment
            confirmed := !decide (draws generator cfg payment 4 < cfg.partialFailureRate)
            provider := providerNameForMethod payment.method
            duplicate := decide (draws generator cfg payment 3 < cfg.duplicateRate)
            partialFailure :=
              decide (draws generator cfg payment 4 < cfg.partialFailureRate) }) := by
  have hanswer : answer generator cfg payment = .response
      (simulateProvider generator cfg (providerSlugForMethod payment.method) (.ofPayment payment)).1
      (simulateProvider generator cfg (providerSlugForMethod payment.method)
        (.ofPayment payment)).2 := by
    rw [answer, handle, route_providerConfirmPath]
    rfl
  have hdraws : generator (rngSeed cfg (providerSlugForMethod payment.method)
      (ProviderRequest.ofPayment payment).paymentId) = draws generator cfg payment := rfl
  rw [verdict, hanswer, simulateProvider, simulate]
  simp only [hdraws]
  by_cases htimeout : draws generator cfg payment 1 < cfg.timeoutRate
  · exact .inl ⟨htimeout, by rw [if_pos htimeout]; rfl⟩
  · by_cases h5xx : draws generator cfg payment 2 < cfg.fault5xxRate
    · exact .inr (.inl ⟨htimeout, h5xx, by rw [if_neg htimeout, if_pos h5xx]; rfl⟩)
    · refine .inr (.inr ⟨htimeout, h5xx, ?_⟩)
      rw [if_neg htimeout, if_neg h5xx, provider_eq]
      rfl

end ProviderMock

end PaymentsLab
