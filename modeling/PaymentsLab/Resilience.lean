import PaymentsLab.Contracts.Persistence

/-!
# Backoff, retry and circuit breaker

The functions of `shared/resilience/`. Durations are in microseconds. The bulkhead is a semaphore
of a single caller here (a worker processes one event at a time), so entering it never waits and
it is left out.
-/

namespace PaymentsLab

/-! ## Exponential backoff -/

/-- `raw` of `exponential_backoff`: the doubled base, capped. -/
def backoffRaw (attempt : Int) (baseMicros capMicros : Int) : Int :=
  min capMicros (baseMicros * 2 ^ (attempt - 1).toNat)

/-- `exponential_backoff`; `draw` is the value of `random.uniform(-spread, spread)`. -/
def exponentialBackoff (attempt baseMicros capMicros draw : Int) : Int :=
  max 0 (backoffRaw attempt baseMicros capMicros + draw)

/-- The draws `random.uniform(-spread, spread)` can give under the default jitter of a quarter. -/
def IsBackoffDraw (attempt baseMicros capMicros draw : Int) : Prop :=
  4 * (draw.natAbs : Int) ≤ backoffRaw attempt baseMicros capMicros

instance (attempt baseMicros capMicros draw : Int) :
    Decidable (IsBackoffDraw attempt baseMicros capMicros draw) :=
  inferInstanceAs (Decidable (4 * (draw.natAbs : Int) ≤ backoffRaw attempt baseMicros capMicros))

/-- The least `n` such that `2 ** n` has no `float`. -/
def floatMaxExp : Nat := 1024

/-- `exponential_backoff` raises an `OverflowError`: the power of two is made a `float`, for its
product with `base_seconds`, before the cap is applied. -/
def BackoffOverflows (attempt : Nat) : Prop :=
  floatMaxExp ≤ attempt - 1

instance (attempt : Nat) : Decidable (BackoffOverflows attempt) :=
  inferInstanceAs (Decidable (floatMaxExp ≤ attempt - 1))

/-! ## Retry -/

/-- How `retry_async` ends: in the loop, where the backoff may raise an `OverflowError`, or at one
of the two statements after it. -/
inductive RetryExit (ε α : Type)
  | returned (value : α)
  | raised (error : ε)
  | overflowError
  | lastError (error : ε)
  | invalidState
  deriving DecidableEq

/-- A run of `retry_async`: its end, the number of times it ran the operation, and the attempts
after which it slept. -/
structure RetryRun (ε α : Type) where
  exit : RetryExit ε α
  calls : Nat
  slept : List Nat
  deriving DecidableEq

section Retry

variable {ε α : Type} (operation : Nat → Except ε α) (shouldRetry : ε → Bool) (maxAttempts : Nat)

/-- The `for` loop of `retry_async` from `attempt` on, with `remaining` attempts left; the outcome
of the operation's `n`-th run is `operation n`. -/
def retryLoop : (remaining attempt : Nat) → Option ε → RetryRun ε α
  | 0, _, lastError =>
    match lastError with
    | some error => ⟨.lastError error, 0, []⟩
    | none => ⟨.invalidState, 0, []⟩
  | remaining + 1, attempt, _ =>
    match operation attempt with
    | .ok value => ⟨.returned value, 1, []⟩
    | .error error =>
      if !shouldRetry error || attempt == maxAttempts then ⟨.raised error, 1, []⟩
      else if BackoffOverflows attempt then ⟨.overflowError, 1, []⟩
      else
        let rest := retryLoop remaining (attempt + 1) (some error)
        ⟨rest.exit, rest.calls + 1, attempt :: rest.slept⟩

/-- `retry_async`. -/
def retryAsync : RetryRun ε α :=
  retryLoop operation shouldRetry maxAttempts maxAttempts 1 none

/-- The errors that leave the loop come from the operation, or were there before it. -/
theorem retryLoop_error {remaining attempt : Nat} {last : Option ε} {error : ε}
    (h : (retryLoop operation shouldRetry maxAttempts remaining attempt last).exit = .raised error ∨
      (retryLoop operation shouldRetry maxAttempts remaining attempt last).exit =
        .lastError error) :
    last = some error ∨ ∃ n, operation n = .error error := by
  induction remaining generalizing attempt last with
  | zero =>
    cases last <;> simp [retryLoop] at h
    exact .inl (congrArg some h)
  | succ remaining ih =>
    cases hop : operation attempt with
    | ok value => simp [retryLoop, hop] at h
    | error failure =>
      simp only [retryLoop, hop] at h
      split at h
      · simp only [RetryExit.raised.injEq, reduceCtorEq, or_false] at h
        exact .inr ⟨attempt, h ▸ hop⟩
      split at h
      · simp at h
      · rcases ih h with hlast | herror
        · cases hlast
          exact .inr ⟨attempt, hop⟩
        · exact .inr herror

theorem retryAsync_error {error : ε}
    (h : (retryAsync operation shouldRetry maxAttempts).exit = .raised error ∨
      (retryAsync operation shouldRetry maxAttempts).exit = .lastError error) :
    ∃ n, operation n = .error error :=
  (retryLoop_error operation shouldRetry maxAttempts h).resolve_left (by simp)

/-- The loop runs the operation at most as often as it has attempts. -/
theorem retryLoop_calls_le (remaining attempt : Nat) (last : Option ε) :
    (retryLoop operation shouldRetry maxAttempts remaining attempt last).calls ≤ remaining := by
  induction remaining generalizing attempt last with
  | zero => cases last <;> simp [retryLoop]
  | succ remaining ih =>
    cases hop : operation attempt with
    | ok value => simp [retryLoop, hop]
    | error failure =>
      simp only [retryLoop, hop]
      split
      · simp
      split
      · simp
      · exact Nat.succ_le_succ (ih (attempt + 1) (some failure))

end Retry

/-! ## Circuit breaker -/

inductive CircuitState
  | closed | opened | halfOpen
  deriving DecidableEq

/-- `CircuitBreaker` with its configuration. -/
structure CircuitBreaker where
  failureThreshold : Int
  recoveryTimeoutSeconds : Int
  state : CircuitState
  failures : Int
  openedAt : Option Instant
  deriving DecidableEq

namespace CircuitBreaker

/-- A new breaker. -/
def new (failureThreshold recoveryTimeoutSeconds : Int) : CircuitBreaker :=
  ⟨failureThreshold, recoveryTimeoutSeconds, .closed, 0, none⟩

/-- `_can_half_open`. -/
def canHalfOpen (b : CircuitBreaker) (now : Instant) : Bool :=
  match b.openedAt with
  | none => false
  | some openedAt => decide (openedAt + b.recoveryTimeoutSeconds * 1000000 ≤ now)

/-- `allow_call`: `none` where it raises `CircuitBreakerOpenError`. -/
def allowCall (b : CircuitBreaker) (now : Instant) : Option CircuitBreaker :=
  if b.state = .opened ∧ !b.canHalfOpen now then none
  else if b.state = .opened then some { b with state := .halfOpen }
  else some b

/-- `on_success`. -/
def onSuccess (b : CircuitBreaker) : CircuitBreaker :=
  { b with state := .closed, failures := 0, openedAt := none }

/-- `_trip_open`. -/
def tripOpen (b : CircuitBreaker) (now : Instant) : CircuitBreaker :=
  { b with state := .opened, openedAt := some now }

/-- `on_failure`. -/
def onFailure (b : CircuitBreaker) (now : Instant) : CircuitBreaker :=
  if b.state = .halfOpen then b.tripOpen now
  else
    let b := { b with failures := b.failures + 1 }
    if b.failureThreshold ≤ b.failures then b.tripOpen now else b

/-- The breaker lets a call through at `now`: it is not open, or its recovery time has passed. -/
def Admits (b : CircuitBreaker) (now : Instant) : Prop :=
  b.state = .opened → b.canHalfOpen now = true

instance (b : CircuitBreaker) (now : Instant) : Decidable (b.Admits now) :=
  inferInstanceAs (Decidable (b.state = .opened → b.canHalfOpen now = true))

theorem allowCall_eq_none {b : CircuitBreaker} {now : Instant} :
    b.allowCall now = none ↔ ¬ b.Admits now := by
  unfold allowCall Admits
  by_cases hs : b.state = .opened <;> simp [hs]

end CircuitBreaker

end PaymentsLab
