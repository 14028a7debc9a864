import PaymentsLab.Contracts.PaymentRails
import PaymentsLab.Contracts.Persistence
import PaymentsLab.Resilience

/-!
# Calling the provider

`ProviderClientAdapter.confirm`, `CallProviderCommand` and the errors they raise
(`payments_processor/providers/adapter.py`, `commands/call_provider.py`, `core/errors.py`).
-/

namespace PaymentsLab

/-- The exceptions that leave `CallProviderCommand.execute`. `other` is any exception that is
neither a `ProcessorError` nor a `CircuitBreakerOpenError`: a transport error that is no timeout,
a 4xx answer, a body that does not validate. -/
inductive CallError
  | providerTimeout (message : String)
  | provider5xx (message : String)
  | circuitBreakerOpen
  | other
  deriving DecidableEq

/-- `ProcessorError`: what an `except ProcessorError` clause sees of an exception. -/
structure ProcessorError where
  category : ErrorCategory
  message : String
  deriving DecidableEq

/-- The subclasses of `ProcessorError`; `CircuitBreakerOpenError` is a `RuntimeError`. -/
def CallError.asProcessorError : CallError → Option ProcessorError
  | .providerTimeout message => some ⟨.providerTimeout, message⟩
  | .provider5xx message => some ⟨.provider5xx, message⟩
  | .circuitBreakerOpen => none
  | .other => none

/-- `ProviderRequest`. -/
structure ProviderRequest where
  paymentId : UUID
  merchantId : String
  amount : Decimal
  currency : String
  method : PaymentMethod
  deriving DecidableEq

/-- The request that `_call_once` sends for a payment. -/
def ProviderRequest.ofPayment (payment : Payment) : ProviderRequest where
  paymentId := payment.paymentId
  merchantId := payment.merchantId
  amount := payment.amount
  currency := payment.currency
  method := payment.method

/-- What the HTTP client gives for one `post`. -/
inductive HttpOutcome
  | timeout
  | transportError
  | response (statusCode : Nat) (body : Option ProviderResponse)
  deriving DecidableEq

/-- `ProviderClientAdapter.confirm`; a body that is no `ProviderResponse` fails to validate. -/
def ProviderClientAdapter.confirm : HttpOutcome → Except CallError ProviderResponse
  | .timeout => .error (.providerTimeout "Provider timeout")
  | .transportError => .error .other
  | .response statusCode body =>
    if 500 ≤ statusCode then .error (.provider5xx s!"Provider returned {statusCode}")
    else if statusCode < 200 ∨ 300 ≤ statusCode then .error .other
    else
      match body with
      | some response => .ok response
      | none => .error .other

namespace CallProviderCommand

/-- `_is_transient`. -/
def isTransient : CallError → Bool
  | .providerTimeout _ => true
  | .provider5xx _ => true
  | .circuitBreakerOpen => true
  | .other => false

/-- A run of `execute`: its outcome, the breakers after it, and how often it called
`ProviderClientAdapter.confirm`. -/
structure Run where
  outcome : Except CallError ProviderResponse
  breakers : String → CircuitBreaker
  confirms : Nat

/-- `execute` for a payment of rail `method`: the breaker is asked at `started` and, on a failure,
told at `ended`; `http n` is the answer to the `n`-th post. -/
def execute (breakers : String → CircuitBreaker) (method : PaymentMethod) (started ended : Instant)
    (http : Nat → HttpOutcome) : Run :=
  let provider := providerNameForMethod method
  match (breakers provider).allowCall started with
  | none => ⟨.error .circuitBreakerOpen, breakers, 0⟩
  | some breaker =>
    let run := retryAsync (fun n => ProviderClientAdapter.confirm (http n)) isTransient 3
    let failed (error : CallError) : Run :=
      ⟨.error error, Function.update breakers provider (breaker.onFailure ended), run.calls⟩
    match run.exit with
    | .returned response =>
      ⟨.ok response, Function.update breakers provider breaker.onSuccess, run.calls⟩
    | .raised error => failed error
    | .overflowError => failed .other
    | .lastError error => failed error
    | .invalidState => failed .other

/-- The client never raises `CircuitBreakerOpenError`. -/
theorem confirm_ne_open (http : HttpOutcome) :
    ProviderClientAdapter.confirm http ≠ .error .circuitBreakerOpen := by
  unfold ProviderClientAdapter.confirm
  split
  · simp
  · simp
  · split
    · simp
    · split
      · simp
      · split <;> simp

/-- `execute` raises `CircuitBreakerOpenError` where the breaker of the rail does not admit the
call, whatever the provider does. -/
theorem execute_open_iff (breakers : String → CircuitBreaker) (method : PaymentMethod)
    (started ended : Instant) (http : Nat → HttpOutcome) :
    (execute breakers method started ended http).outcome = .error .circuitBreakerOpen ↔
      ¬ (breakers (providerNameForMethod method)).Admits started := by
  rw [← CircuitBreaker.allowCall_eq_none]
  cases hallow : (breakers (providerNameForMethod method)).allowCall started with
  | none => simp [execute, hallow]
  | some breaker =>
    simp only [execute, hallow, reduceCtorEq, iff_false]
    have hnot {error : CallError}
        (h : (retryAsync (fun n => ProviderClientAdapter.confirm (http n)) isTransient 3).exit =
            .raised error ∨
          (retryAsync (fun n => ProviderClientAdapter.confirm (http n)) isTransient 3).exit =
            .lastError error) : error ≠ .circuitBreakerOpen := by
      rintro rfl
      obtain ⟨n, hn⟩ := retryAsync_error _ _ _ h
      exact confirm_ne_open _ hn
    split
    · simp
    · next hexit => simpa using hnot (.inl hexit)
    · simp
    · next hexit => simpa using hnot (.inr hexit)
    · simp

/-- One `execute` makes at most three calls. -/
theorem execute_confirms_le (breakers : String → CircuitBreaker) (method : PaymentMethod)
    (started ended : Instant) (http : Nat → HttpOutcome) :
    (execute breakers method started ended http).confirms ≤ 3 := by
  have hcalls := retryLoop_calls_le (fun n => ProviderClientAdapter.confirm (http n)) isTransient
    3 3 1 none
  unfold execute
  dsimp only
  split
  · exact Nat.zero_le 3
  · split <;> exact hcalls

end CallProviderCommand

end PaymentsLab
