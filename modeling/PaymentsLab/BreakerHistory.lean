import Mathlib.Data.List.Induction
import PaymentsLab.Resilience

/-!
# The circuit breaker and its history

The methods of `CircuitBreaker` in any order, at times that do not go back. Whether a call is let
through is a matter of the failures since the last success (`allowCall_raises_iff`). `datetime` ends
with the year 9999, so a recovery time that lies beyond it raises an `OverflowError`.
-/

namespace PaymentsLab

/-! ## Methods -/

/-- `datetime.min` in UTC. -/
def datetimeMin : Instant := -62135596800000000

/-- `datetime.max` in UTC. -/
def datetimeMax : Instant := 253402300799999999

/-- `t + timedelta(seconds=seconds)`; `none` is an `OverflowError`. A `timedelta` that is too large
by itself is too large for the sum. -/
def addSeconds? (t : Instant) (seconds : Int) : Option Instant :=
  if datetimeMin ≤ t + seconds * 1000000 ∧ t + seconds * 1000000 ≤ datetimeMax then
    some (t + seconds * 1000000)
  else none

/-- The exceptions of the breaker. -/
inductive BreakerError
  | circuitBreakerOpen
  | overflow
  deriving DecidableEq

namespace CircuitBreaker

/-- `_can_half_open`, with its `OverflowError`. -/
def canHalfOpen? (b : CircuitBreaker) (now : Instant) : Except BreakerError Bool :=
  match b.openedAt with
  | none => .ok false
  | some openedAt =>
    match addSeconds? openedAt b.recoveryTimeoutSeconds with
    | some recoverAt => .ok (decide (recoverAt ≤ now))
    | none => .error .overflow

/-- `allow_call`, with its exceptions. -/
def allowCall? (b : CircuitBreaker) (now : Instant) : Except BreakerError CircuitBreaker := do
  if b.state = .opened then
    if !(← b.canHalfOpen? now) then throw .circuitBreakerOpen
    return { b with state := .halfOpen }
  return b

/-- `state`. -/
def readState? (b : CircuitBreaker) (now : Instant) :
    Except BreakerError (CircuitState × CircuitBreaker) := do
  if b.state = .opened then
    if ← b.canHalfOpen? now then return (.halfOpen, { b with state := .halfOpen })
  return (b.state, b)

end CircuitBreaker

/-- The methods of a breaker. -/
inductive BreakerMethod
  | allowCall | onSuccess | onFailure | state
  deriving DecidableEq

/-- The method asks whether the breaker lets a call through. -/
def BreakerMethod.Asks (method : BreakerMethod) : Prop :=
  method = .allowCall ∨ method = .state

/-- A call of a method. -/
structure BreakerCall where
  method : BreakerMethod
  now : Instant
  deriving DecidableEq

namespace CircuitBreaker

/-- The breaker after a call; a method that raises leaves it as it was. -/
def after (b : CircuitBreaker) (call : BreakerCall) : CircuitBreaker :=
  match call.method with
  | .allowCall =>
    match b.allowCall? call.now with
    | .ok b' => b'
    | .error _ => b
  | .onSuccess => b.onSuccess
  | .onFailure => b.onFailure call.now
  | .state =>
    match b.readState? call.now with
    | .ok r => r.2
    | .error _ => b

/-- A new breaker after a sequence of calls. -/
def afterAll (failureThreshold recoveryTimeoutSeconds : Int) (calls : List BreakerCall) :
    CircuitBreaker :=
  calls.foldl after (new failureThreshold recoveryTimeoutSeconds)

theorem afterAll_concat (failureThreshold recoveryTimeoutSeconds : Int) (calls : List BreakerCall)
    (call : BreakerCall) :
    afterAll failureThreshold recoveryTimeoutSeconds (calls ++ [call]) =
      (afterAll failureThreshold recoveryTimeoutSeconds calls).after call := by
  simp only [afterAll, List.foldl_append, List.foldl_cons, List.foldl_nil]

/-- The recovery time after a failure can be computed. -/
def Recovers (recoveryTimeoutSeconds : Int) (call : BreakerCall) : Prop :=
  call.method = .onFailure → (addSeconds? call.now recoveryTimeoutSeconds).isSome

instance (recoveryTimeoutSeconds : Int) (call : BreakerCall) :
    Decidable (Recovers recoveryTimeoutSeconds call) :=
  inferInstanceAs (Decidable (_ → _))

end CircuitBreaker

/-! ## Histories -/

/-- The times of the failures since the last success, the last one first. -/
def failuresSinceSuccess (calls : List BreakerCall) : List Instant :=
  ((calls.reverse.takeWhile fun call => call.method ≠ .onSuccess).filter
    fun call => call.method = .onFailure).map (·.now)

/-- The failures after one more call. -/
def recordCall (failures : List Instant) (call : BreakerCall) : List Instant :=
  match call.method with
  | .onSuccess => []
  | .onFailure => call.now :: failures
  | _ => failures

theorem failuresSinceSuccess_concat (calls : List BreakerCall) (call : BreakerCall) :
    failuresSinceSuccess (calls ++ [call]) = recordCall (failuresSinceSuccess calls) call := by
  unfold failuresSinceSuccess recordCall
  obtain ⟨method, now⟩ := call
  cases method <;> simp

/-- A read of the state leaves no trace. -/
theorem failuresSinceSuccess_state (earlier later : List BreakerCall) (now : Instant) :
    failuresSinceSuccess (earlier ++ ⟨.state, now⟩ :: later) =
      failuresSinceSuccess (earlier ++ later) := by
  induction later using List.reverseRecOn with
  | nil => rw [failuresSinceSuccess_concat, List.append_nil, recordCall]
  | append_singleton later call ih =>
    rw [← List.append_assoc, failuresSinceSuccess_concat, ← ih, ← List.cons_append,
      ← List.append_assoc, failuresSinceSuccess_concat]

/-- What the history says of a call: there are enough failures since the last success, and the last
of them is too recent. -/
def MustRefuse (failureThreshold recoveryTimeoutSeconds : Int) (failures : List Instant)
    (now : Instant) : Prop :=
  max 1 failureThreshold ≤ failures.length ∧
    ∃ t ∈ failures.head?, now < t + recoveryTimeoutSeconds * 1000000

namespace CircuitBreaker

/-- The breaker has tripped, at the last failure. -/
structure Tripped (b : CircuitBreaker) (failures : List Instant) (t : Instant) : Prop where
  counted : b.failureThreshold ≤ b.failures
  enough : max 1 b.failureThreshold ≤ failures.length
  last : failures.head? = some t
  openedAt : b.openedAt = some t
  recovers : addSeconds? t b.recoveryTimeoutSeconds = some (t + b.recoveryTimeoutSeconds * 1000000)

/-- The breaker is what the failures since the last success make of it, at time `clock`. -/
inductive Tracks (b : CircuitBreaker) (failures : List Instant) (clock : Instant) : Prop
  | closed (state : b.state = .closed) (counted : b.failures = failures.length)
      (few : failures.length < max 1 b.failureThreshold)
  | opened {t : Instant} (state : b.state = .opened) (tripped : b.Tripped failures t)
  | halfOpen {t : Instant} (state : b.state = .halfOpen) (tripped : b.Tripped failures t)
      (recovered : t + b.recoveryTimeoutSeconds * 1000000 ≤ clock)

section Tracks

variable {b : CircuitBreaker} {failures : List Instant} {clock now t : Instant}

theorem Tracks.mono (h : b.Tracks failures clock) (hnow : clock ≤ now) : b.Tracks failures now := by
  cases h with
  | closed state counted few => exact .closed state counted few
  | opened state tripped => exact .opened state tripped
  | halfOpen state tripped recovered => exact .halfOpen state tripped (Int.le_trans recovered hnow)

/-- A breaker whose recovery time has passed goes to half open, by a call or by a read. -/
theorem Tracks.recover (tripped : b.Tripped failures t)
    (recovered : t + b.recoveryTimeoutSeconds * 1000000 ≤ now) :
    Tracks { b with state := .halfOpen } failures now :=
  .halfOpen rfl ⟨tripped.counted, tripped.enough, tripped.last, tripped.openedAt, tripped.recovers⟩
    recovered

theorem allowCall?_of_ne (hstate : b.state ≠ .opened) : b.allowCall? now = .ok b := by
  unfold CircuitBreaker.allowCall?
  rw [if_neg hstate]
  rfl

theorem readState?_of_ne (hstate : b.state ≠ .opened) : b.readState? now = .ok (b.state, b) := by
  unfold CircuitBreaker.readState?
  rw [if_neg hstate]
  rfl

/-- Where the recovery time can be computed, the recovery is tested as `canHalfOpen` does. -/
theorem canHalfOpen?_eq (h : ∀ t ∈ b.openedAt, (addSeconds? t b.recoveryTimeoutSeconds).isSome) :
    b.canHalfOpen? now = .ok (b.canHalfOpen now) := by
  unfold CircuitBreaker.canHalfOpen? canHalfOpen
  cases hopened : b.openedAt with
  | none => rfl
  | some t =>
    have hsome := h t hopened
    unfold addSeconds? at hsome ⊢
    split at hsome
    · next hrange => simp only [if_pos hrange]
    · cases hsome

/-- And the exceptions are those of `allowCall`. -/
theorem allowCall?_eq (h : ∀ t ∈ b.openedAt, (addSeconds? t b.recoveryTimeoutSeconds).isSome) :
    b.allowCall? now = (b.allowCall now).elim (.error .circuitBreakerOpen) .ok := by
  unfold CircuitBreaker.allowCall? allowCall
  by_cases hstate : b.state = .opened
  · cases hrecovered : b.canHalfOpen now with
    | false =>
      rw [if_pos hstate, canHalfOpen?_eq h, hrecovered, if_pos ⟨hstate, rfl⟩]
      rfl
    | true =>
      rw [if_pos hstate, canHalfOpen?_eq h, hrecovered, if_neg (by simp), if_pos hstate]
      rfl
  · rw [if_neg hstate, if_neg (fun hand => hstate hand.1), if_neg hstate]
    rfl

theorem Tripped.canHalfOpen (h : b.Tripped failures t) :
    b.canHalfOpen now = decide (t + b.recoveryTimeoutSeconds * 1000000 ≤ now) := by
  unfold CircuitBreaker.canHalfOpen
  rw [h.openedAt]

theorem Tripped.computable (h : b.Tripped failures t) :
    ∀ t' ∈ b.openedAt, (addSeconds? t' b.recoveryTimeoutSeconds).isSome := by
  intro t' ht'
  rw [h.openedAt] at ht'
  cases ht'
  rw [h.recovers]
  rfl

theorem Tripped.allowCall? (h : b.Tripped failures t) (hstate : b.state = .opened) :
    b.allowCall? now = if t + b.recoveryTimeoutSeconds * 1000000 ≤ now then
      .ok { b with state := .halfOpen } else .error .circuitBreakerOpen := by
  rw [allowCall?_eq h.computable]
  unfold allowCall
  rw [h.canHalfOpen]
  by_cases hle : t + b.recoveryTimeoutSeconds * 1000000 ≤ now
  · rw [if_pos hle, decide_eq_true hle, if_neg (by simp), if_pos hstate]
    rfl
  · rw [if_neg hle, decide_eq_false hle, if_pos ⟨hstate, rfl⟩]
    rfl

theorem Tripped.readState? (h : b.Tripped failures t) (hstate : b.state = .opened) :
    b.readState? now = .ok (if t + b.recoveryTimeoutSeconds * 1000000 ≤ now then
      (.halfOpen, { b with state := .halfOpen }) else (b.state, b)) := by
  unfold CircuitBreaker.readState?
  rw [if_pos hstate, canHalfOpen?_eq h.computable, h.canHalfOpen]
  by_cases hle : t + b.recoveryTimeoutSeconds * 1000000 ≤ now
  · rw [if_pos hle, decide_eq_true hle]
    rfl
  · rw [if_neg hle, decide_eq_false hle]
    rfl

/-- A call is refused as the history says. -/
theorem Tracks.allowCall?_eq_error (h : b.Tracks failures clock) (hnow : clock ≤ now) :
    b.allowCall? now = .error .circuitBreakerOpen ↔
      MustRefuse b.failureThreshold b.recoveryTimeoutSeconds failures now := by
  cases h with
  | closed state counted few =>
    rw [allowCall?_of_ne (by rw [state]; decide)]
    constructor
    · intro h
      cases h
    · intro hrefuse
      have henough := hrefuse.1
      omega
  | opened state tripped =>
    rw [tripped.allowCall? state]
    constructor
    · intro hrefused
      split at hrefused
      · cases hrefused
      · next hlt => exact ⟨tripped.enough, _, tripped.last, Int.not_le.1 hlt⟩
    · rintro ⟨-, t', ht', hlt⟩
      rw [tripped.last] at ht'
      cases ht'
      exact if_neg (Int.not_le.2 hlt)
  | halfOpen state tripped recovered =>
    rw [allowCall?_of_ne (by rw [state]; decide)]
    constructor
    · intro h
      cases h
    · rintro ⟨-, t', ht', hlt⟩
      rw [tripped.last] at ht'
      cases ht'
      exact absurd (Int.le_trans recovered hnow) (Int.not_le.2 hlt)

/-! ## Steps -/

/-- A failure trips the breaker, or is counted. -/
theorem Tracks.onFailure (h : b.Tracks failures clock)
    (hrecovers : (addSeconds? now b.recoveryTimeoutSeconds).isSome) :
    (b.onFailure now).Tracks (now :: failures) now := by
  have hnow : addSeconds? now b.recoveryTimeoutSeconds =
      some (now + b.recoveryTimeoutSeconds * 1000000) := by
    unfold addSeconds? at hrecovers ⊢
    split at hrecovers
    · next hrange => rw [if_pos hrange]
    · cases hrecovers
  have htrip (b' : CircuitBreaker) (hthreshold : b'.failureThreshold = b.failureThreshold)
      (htimeout : b'.recoveryTimeoutSeconds = b.recoveryTimeoutSeconds)
      (hcounted : b'.failureThreshold ≤ b'.failures)
      (henough : max 1 b.failureThreshold ≤ ((now :: failures).length : Int)) :
      (b'.tripOpen now).Tracks (now :: failures) now := by
    refine .opened rfl ⟨hcounted, ?_, rfl, rfl, ?_⟩
    · rw [← hthreshold] at henough
      exact henough
    · rw [← htimeout] at hnow
      exact hnow
  rw [List.length_cons] at htrip
  unfold CircuitBreaker.onFailure
  cases h with
  | closed state counted few =>
    rw [if_neg (by rw [state]; decide)]
    dsimp only
    split
    · next hreached => exact htrip _ rfl rfl hreached (by push_cast; omega)
    · next hfew =>
      refine .closed state ?_ ?_
      · dsimp only
        rw [counted, List.length_cons]
        push_cast
        rfl
      · dsimp only at hfew ⊢
        rw [List.length_cons]
        push_cast
        omega
  | opened state tripped =>
    have hcounted := tripped.counted
    have henough := tripped.enough
    rw [if_neg (by rw [state]; decide)]
    dsimp only
    rw [if_pos (by omega)]
    exact htrip _ rfl rfl (by dsimp only; omega) (by push_cast; omega)
  | halfOpen state tripped recovered =>
    have henough := tripped.enough
    rw [if_pos state]
    exact htrip b rfl rfl tripped.counted (by push_cast; omega)

theorem after_of_ne {method : BreakerMethod} (hmethod : method.Asks) (hstate : b.state ≠ .opened) :
    b.after ⟨method, now⟩ = b := by
  rcases hmethod with rfl | rfl
  · simp only [CircuitBreaker.after, allowCall?_of_ne hstate]
  · simp only [CircuitBreaker.after, readState?_of_ne hstate]

theorem Tripped.after (h : b.Tripped failures t) {method : BreakerMethod} (hmethod : method.Asks)
    (hstate : b.state = .opened) :
    b.after ⟨method, now⟩ = if t + b.recoveryTimeoutSeconds * 1000000 ≤ now then
      { b with state := .halfOpen } else b := by
  rcases hmethod with rfl | rfl
  · simp only [CircuitBreaker.after, h.allowCall? hstate]
    by_cases hle : t + b.recoveryTimeoutSeconds * 1000000 ≤ now
    · simp only [if_pos hle]
    · simp only [if_neg hle]
  · simp only [CircuitBreaker.after, h.readState? hstate]
    by_cases hle : t + b.recoveryTimeoutSeconds * 1000000 ≤ now
    · simp only [if_pos hle]
    · simp only [if_neg hle]

/-- A call or a read takes an open breaker to half open, or leaves it as it was. -/
theorem Tracks.asks (h : b.Tracks failures clock) (hnow : clock ≤ now) {method : BreakerMethod}
    (hmethod : method.Asks) : (b.after ⟨method, now⟩).Tracks failures now := by
  cases h with
  | closed state counted few =>
    rw [after_of_ne hmethod (by rw [state]; decide)]
    exact .closed state counted few
  | halfOpen state tripped recovered =>
    rw [after_of_ne hmethod (by rw [state]; decide)]
    exact .halfOpen state tripped (Int.le_trans recovered hnow)
  | opened state tripped =>
    rw [tripped.after hmethod state]
    split
    · next hle => exact Tracks.recover tripped hle
    · exact .opened state tripped

theorem Tracks.after (h : b.Tracks failures clock) {call : BreakerCall} (hnow : clock ≤ call.now)
    (hrecovers : Recovers b.recoveryTimeoutSeconds call) :
    (b.after call).Tracks (recordCall failures call) call.now := by
  obtain ⟨method, now⟩ := call
  cases method with
  | onSuccess => exact .closed rfl rfl (Int.lt_of_lt_of_le Int.zero_lt_one (Int.le_max_left _ _))
  | onFailure => exact h.onFailure (hrecovers rfl)
  | allowCall => exact h.asks hnow (.inl rfl)
  | state => exact h.asks hnow (.inr rfl)

theorem Tracks.asks_config (h : b.Tracks failures clock) {method : BreakerMethod}
    (hmethod : method.Asks) :
    (b.after ⟨method, now⟩).failureThreshold = b.failureThreshold ∧
      (b.after ⟨method, now⟩).recoveryTimeoutSeconds = b.recoveryTimeoutSeconds := by
  cases h with
  | closed state counted few =>
    rw [after_of_ne hmethod (by rw [state]; decide)]
    exact ⟨rfl, rfl⟩
  | halfOpen state tripped recovered =>
    rw [after_of_ne hmethod (by rw [state]; decide)]
    exact ⟨rfl, rfl⟩
  | opened state tripped =>
    rw [tripped.after hmethod state]
    split <;> exact ⟨rfl, rfl⟩

/-- No method changes the configuration. -/
theorem Tracks.after_config (h : b.Tracks failures clock) (call : BreakerCall) :
    (b.after call).failureThreshold = b.failureThreshold ∧
      (b.after call).recoveryTimeoutSeconds = b.recoveryTimeoutSeconds := by
  obtain ⟨method, now⟩ := call
  cases method with
  | onSuccess => exact ⟨rfl, rfl⟩
  | onFailure =>
    simp only [CircuitBreaker.after, CircuitBreaker.onFailure]
    split
    · exact ⟨rfl, rfl⟩
    · split <;> exact ⟨rfl, rfl⟩
  | allowCall => exact h.asks_config (.inl rfl)
  | state => exact h.asks_config (.inr rfl)

end Tracks

/-! ## Runs -/

section Runs

variable {failureThreshold recoveryTimeoutSeconds : Int} {calls : List BreakerCall} {now : Instant}

/-- The times of the calls do not go back. -/
def Nondecreasing (calls : List BreakerCall) : Prop :=
  calls.Pairwise fun call call' => call.now ≤ call'.now

theorem tracks_afterAll (failureThreshold : Int) (hcalls : Nondecreasing calls)
    (hrecovers : ∀ call ∈ calls, Recovers recoveryTimeoutSeconds call) :
    (afterAll failureThreshold recoveryTimeoutSeconds calls).failureThreshold = failureThreshold ∧
      (afterAll failureThreshold recoveryTimeoutSeconds calls).recoveryTimeoutSeconds =
        recoveryTimeoutSeconds ∧
      ∀ now, (∀ call ∈ calls, call.now ≤ now) →
        (afterAll failureThreshold recoveryTimeoutSeconds calls).Tracks
          (failuresSinceSuccess calls) now := by
  induction calls using List.reverseRecOn with
  | nil =>
    refine ⟨rfl, rfl, fun now _ => .closed rfl rfl ?_⟩
    exact Int.lt_of_lt_of_le Int.zero_lt_one (Int.le_max_left _ _)
  | append_singleton calls call ih =>
    rw [Nondecreasing, List.pairwise_append] at hcalls
    obtain ⟨hcalls, -, hlast⟩ := hcalls
    have hbefore : ∀ call' ∈ calls, call'.now ≤ call.now :=
      fun call' hcall' => hlast call' hcall' call List.mem_cons_self
    obtain ⟨hthreshold, htimeout, htracks⟩ :=
      ih hcalls fun call hcall => hrecovers call (List.mem_append_left _ hcall)
    have hcall : Recovers recoveryTimeoutSeconds call :=
      hrecovers call (List.mem_append_right _ List.mem_cons_self)
    have hnow := htracks call.now hbefore
    have hconfig := hnow.after_config call
    rw [afterAll_concat, failuresSinceSuccess_concat]
    refine ⟨hconfig.1.trans hthreshold, hconfig.2.trans htimeout, fun now hle => ?_⟩
    have hstep := hnow.after (Int.le_refl _) (htimeout.symm ▸ hcall)
    exact hstep.mono (hle call (List.mem_append_right _ List.mem_cons_self))

/-- A call is refused where there are enough failures since the last success and the last of them is
too recent; the reads of the state make no difference. -/
theorem allowCall_raises_iff (hcalls : Nondecreasing calls) (hnow : ∀ call ∈ calls, call.now ≤ now)
    (hrecovers : ∀ call ∈ calls, Recovers recoveryTimeoutSeconds call) :
    ((afterAll failureThreshold recoveryTimeoutSeconds calls).allowCall? now =
        .error .circuitBreakerOpen ↔
      MustRefuse failureThreshold recoveryTimeoutSeconds (failuresSinceSuccess calls) now) ∧
    ∀ earlier later t, calls = earlier ++ ⟨.state, t⟩ :: later →
      ((afterAll failureThreshold recoveryTimeoutSeconds (earlier ++ later)).allowCall? now =
          .error .circuitBreakerOpen ↔
        (afterAll failureThreshold recoveryTimeoutSeconds calls).allowCall? now =
          .error .circuitBreakerOpen) := by
  have hrefused {calls : List BreakerCall} (hcalls : Nondecreasing calls)
      (hnow : ∀ call ∈ calls, call.now ≤ now)
      (hrecovers : ∀ call ∈ calls, Recovers recoveryTimeoutSeconds call) :
      (afterAll failureThreshold recoveryTimeoutSeconds calls).allowCall? now =
          .error .circuitBreakerOpen ↔
        MustRefuse failureThreshold recoveryTimeoutSeconds (failuresSinceSuccess calls) now := by
    obtain ⟨hthreshold, htimeout, htracks⟩ :=
      tracks_afterAll failureThreshold hcalls hrecovers
    have hiff := (htracks now hnow).allowCall?_eq_error (Int.le_refl now)
    rw [hthreshold, htimeout] at hiff
    exact hiff
  refine ⟨hrefused hcalls hnow hrecovers, ?_⟩
  rintro earlier later t rfl
  have hsublist : (earlier ++ later).Sublist (earlier ++ ⟨.state, t⟩ :: later) :=
    (List.Sublist.refl _).append (List.sublist_cons_self _ _)
  rw [hrefused hcalls hnow hrecovers, failuresSinceSuccess_state]
  exact hrefused (hcalls.sublist hsublist) (fun call hcall => hnow call (hsublist.subset hcall))
    fun call hcall => hrecovers call (hsublist.subset hcall)

/-- A failure, a read within the recovery time, a call at its end. -/
theorem allowCall_raises_iff_recovered :
    ((afterAll 1 5 [⟨.onFailure, 0⟩, ⟨.state, 1000000⟩]).allowCall? 5000000 =
        .error .circuitBreakerOpen ↔
      MustRefuse 1 5 (failuresSinceSuccess [⟨.onFailure, 0⟩, ⟨.state, 1000000⟩]) 5000000) ∧
    ∀ earlier later t, [⟨.onFailure, 0⟩, ⟨.state, 1000000⟩] = earlier ++ ⟨.state, t⟩ :: later →
      ((afterAll 1 5 (earlier ++ later)).allowCall? 5000000 = .error .circuitBreakerOpen ↔
        (afterAll 1 5 [⟨.onFailure, 0⟩, ⟨.state, 1000000⟩]).allowCall? 5000000 =
          .error .circuitBreakerOpen) :=
  allowCall_raises_iff (by unfold Nondecreasing; decide) (by decide) (by decide)

/-- A recovery time of more than 31000 years: the call raises an `OverflowError`. -/
theorem recovery_time_overflows : ¬ ∀ (failureThreshold recoveryTimeoutSeconds : Int)
    (calls : List BreakerCall) (now : Instant), Nondecreasing calls →
      (∀ call ∈ calls, datetimeMin ≤ call.now ∧ call.now ≤ now) → now ≤ datetimeMax →
        ((afterAll failureThreshold recoveryTimeoutSeconds calls).allowCall? now =
            .error .circuitBreakerOpen ↔
          MustRefuse failureThreshold recoveryTimeoutSeconds (failuresSinceSuccess calls) now) := by
  intro hiff
  have hrefused := (hiff 1 1000000000000 [⟨.onFailure, 0⟩] 1 (List.pairwise_singleton _ _)
    (by decide) (by decide)).2 ⟨by decide, 0, rfl, by decide⟩
  have hraised : (afterAll 1 1000000000000 [⟨.onFailure, 0⟩]).allowCall? 1 = .error .overflow := rfl
  cases hraised.symm.trans hrefused

end Runs

end CircuitBreaker

end PaymentsLab
