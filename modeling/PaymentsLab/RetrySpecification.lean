import Mathlib.Data.Nat.Find
import PaymentsLab.Resilience

/-!
# Retries

`retry_async` against its specification: it stops at the first outcome that is final, or at the last
attempt (`IsLast`). It keeps to this unless the backoff overflows before, which takes more attempts
than a `float` has powers of two (`retryAsync_follows_iff`).
-/

namespace PaymentsLab

section Retry

variable {ε α : Type} (operation : Nat → Except ε α) (shouldRetry : ε → Bool) (maxAttempts : Nat)

/-! ## The specification -/

/-- An outcome after which nothing is retried: a value, or an error that is not retryable. -/
def IsFinal : Except ε α → Prop
  | .ok _ => True
  | .error error => shouldRetry error = false

/-- `k` is the least attempt with a final outcome, or the last one if there is none before it. -/
structure IsLast (k : Nat) : Prop where
  pos : 1 ≤ k
  le : k ≤ maxAttempts
  earlier : ∀ n, 1 ≤ n → n < k → ¬ IsFinal shouldRetry (operation n)
  stops : IsFinal shouldRetry (operation k) ∨ k = maxAttempts

/-- How a run ends that passes an outcome on. -/
def RetryExit.ofOutcome : Except ε α → RetryExit ε α
  | .ok value => .returned value
  | .error error => .raised error

/-- `retry_async` runs the operation up to its last attempt, sleeps after each of the others, and
ends with the last outcome. -/
def FollowsSpecification : Prop :=
  ∃ k, IsLast operation shouldRetry maxAttempts k ∧
    retryAsync operation shouldRetry maxAttempts =
      ⟨.ofOutcome (operation k), k, List.range' 1 (k - 1)⟩

variable {operation shouldRetry maxAttempts}

/-- There is a last attempt. -/
theorem exists_isLast (hmax : 1 ≤ maxAttempts) :
    ∃ k, IsLast operation shouldRetry maxAttempts k := by
  classical
  have hstops : ∃ k, 1 ≤ k ∧ (IsFinal shouldRetry (operation k) ∨ k = maxAttempts) :=
    ⟨maxAttempts, hmax, .inr rfl⟩
  obtain ⟨hpos, hstop⟩ := Nat.find_spec hstops
  refine ⟨Nat.find hstops, hpos, Nat.find_min' hstops ⟨hmax, .inr rfl⟩, fun n hn hlt hfinal => ?_,
    hstop⟩
  exact Nat.find_min hstops hlt ⟨hn, .inl hfinal⟩

/-! ## The loop -/

/-- One attempt that is neither final nor the last sleeps, and the loop goes on. -/
theorem retryLoop_retried (remaining : Nat) {attempt : Nat} (last : Option ε)
    (hretry : ¬ IsFinal shouldRetry (operation attempt)) (hlast : attempt ≠ maxAttempts)
    (hfits : ¬ BackoffOverflows attempt) :
    ∃ error, retryLoop operation shouldRetry maxAttempts (remaining + 1) attempt last =
      let rest := retryLoop operation shouldRetry maxAttempts remaining (attempt + 1) (some error)
      ⟨rest.exit, rest.calls + 1, attempt :: rest.slept⟩ := by
  cases hop : operation attempt with
  | ok value =>
    rw [hop] at hretry
    exact absurd trivial hretry
  | error error =>
    rw [hop] at hretry
    have hshould : shouldRetry error = true := Bool.not_eq_false _ ▸ hretry
    refine ⟨error, ?_⟩
    simp [retryLoop, hop, hshould, hlast, hfits]

/-- The loop ends with the outcome of an attempt that is final or the last. -/
theorem retryLoop_stopped {remaining attempt : Nat} {last : Option ε}
    (hstop : IsFinal shouldRetry (operation attempt) ∨ attempt = maxAttempts) :
    retryLoop operation shouldRetry maxAttempts (remaining + 1) attempt last =
      ⟨.ofOutcome (operation attempt), 1, []⟩ := by
  cases hop : operation attempt with
  | ok value => simp [retryLoop, hop, RetryExit.ofOutcome]
  | error error =>
    rw [hop] at hstop
    have hleaves : (!shouldRetry error || attempt == maxAttempts) = true := by
      simpa [IsFinal] using hstop
    simp [retryLoop, hop, hleaves, RetryExit.ofOutcome]

/-- The loop from `attempt` on, up to its last attempt `k`; no backoff before `k` overflows. The
induction is on the attempts that are left. -/
theorem retryLoop_eq {k remaining attempt : Nat} {last : Option ε}
    (hk : IsLast operation shouldRetry maxAttempts k) (hpos : 1 ≤ attempt) (hle : attempt ≤ k)
    (hremaining : maxAttempts + 1 = attempt + remaining) (hfits : k ≤ floatMaxExp + 1) :
    retryLoop operation shouldRetry maxAttempts remaining attempt last =
      ⟨.ofOutcome (operation k), k + 1 - attempt, List.range' attempt (k - attempt)⟩ := by
  have hkmax := hk.le
  induction remaining generalizing attempt last with
  | zero => omega
  | succ remaining ih =>
    obtain hlt | rfl := Nat.lt_or_eq_of_le hle
    · have hnext : ¬ BackoffOverflows attempt := by
        unfold BackoffOverflows
        omega
      have hmore : attempt ≠ maxAttempts := by omega
      obtain ⟨error, hloop⟩ := retryLoop_retried remaining last
        (hk.earlier attempt hpos hlt) hmore hnext
      have hrest : maxAttempts + 1 = attempt + 1 + remaining := by omega
      rw [hloop, ih (Nat.le_add_left 1 attempt) hlt hrest]
      have hcalls : k + 1 - (attempt + 1) + 1 = k + 1 - attempt := by omega
      have hslept : k - attempt = k - (attempt + 1) + 1 := by omega
      rw [hslept, List.range'_succ]
      simp only [hcalls]
    · rw [retryLoop_stopped hk.stops]
      simp

/-- Without a final outcome up to the first backoff that overflows the loop ends there. -/
theorem retryLoop_overflow {remaining attempt : Nat} {last : Option ε}
    (hretry : ∀ n, 1 ≤ n → n ≤ floatMaxExp + 1 → ¬ IsFinal shouldRetry (operation n))
    (hpos : 1 ≤ attempt) (hle : attempt ≤ floatMaxExp + 1)
    (hremaining : maxAttempts + 1 = attempt + remaining) (hmax : floatMaxExp + 1 < maxAttempts) :
    (retryLoop operation shouldRetry maxAttempts remaining attempt last).exit = .overflowError := by
  induction remaining generalizing attempt last with
  | zero => omega
  | succ remaining ih =>
    have hnot := hretry attempt hpos hle
    by_cases hfits : BackoffOverflows attempt
    · cases hop : operation attempt with
      | ok value =>
        rw [hop] at hnot
        exact absurd trivial hnot
      | error error =>
        rw [hop] at hnot
        have hshould : shouldRetry error = true := Bool.not_eq_false _ ▸ hnot
        have hlast : attempt ≠ maxAttempts := by omega
        simp [retryLoop, hop, hshould, hlast, hfits]
    · have hmore : attempt ≠ maxAttempts := by omega
      obtain ⟨error, hloop⟩ := retryLoop_retried remaining last hnot hmore hfits
      have hnext : attempt + 1 ≤ floatMaxExp + 1 := by
        unfold BackoffOverflows at hfits
        omega
      have hrest : maxAttempts + 1 = attempt + 1 + remaining := by omega
      rw [hloop]
      exact ih (Nat.le_add_left 1 attempt) hnext hrest

/-! ## The whole run -/

/-- A run whose backoff overflows passes no outcome on. -/
theorem not_follows (hmax : floatMaxExp + 1 < maxAttempts)
    (hretry : ∀ n, 1 ≤ n → n ≤ floatMaxExp + 1 → ¬ IsFinal shouldRetry (operation n)) :
    ¬ FollowsSpecification operation shouldRetry maxAttempts := by
  rintro ⟨k, -, hrun⟩
  have hexit : (retryAsync operation shouldRetry maxAttempts).exit = .overflowError :=
    retryLoop_overflow hretry le_rfl (Nat.le_add_left 1 floatMaxExp) (Nat.add_comm maxAttempts 1)
      hmax
  have hsame := congrArg RetryRun.exit hrun
  rw [hexit] at hsame
  cases hop : operation k <;> rw [hop] at hsame <;> cases hsame

/-- `retry_async` meets its specification exactly if it has no more attempts than the backoffs that
fit a `float` leave it, or one of these attempts has a final outcome. -/
theorem retryAsync_follows_iff (hmax : 1 ≤ maxAttempts) :
    FollowsSpecification operation shouldRetry maxAttempts ↔
      maxAttempts ≤ floatMaxExp + 1 ∨
        ∃ n, 1 ≤ n ∧ n ≤ floatMaxExp + 1 ∧ IsFinal shouldRetry (operation n) := by
  obtain ⟨k, hk⟩ : ∃ k, IsLast operation shouldRetry maxAttempts k := exists_isLast hmax
  constructor
  · intro hfollows
    by_contra hnot
    push Not at hnot
    exact not_follows hnot.1 hnot.2 hfollows
  · intro h
    have hfits : k ≤ floatMaxExp + 1 := by
      obtain hle | ⟨n, hn, hle, hfinal⟩ := h
      · exact hk.le.trans hle
      · by_contra hlt
        exact hk.earlier n hn (by omega) hfinal
    refine ⟨k, hk, ?_⟩
    unfold retryAsync
    rw [retryLoop_eq hk le_rfl hk.pos (Nat.add_comm maxAttempts 1) hfits]
    rfl

end Retry

/-- An operation that fails once. -/
theorem retryAsync_follows_once :
    FollowsSpecification (fun n => if n = 1 then .error () else .ok n) (fun _ => true) 3 :=
  (retryAsync_follows_iff (by decide)).2 (.inl (by decide))

/-- With 1026 attempts and an operation that always fails the 1025th backoff overflows. -/
theorem backoff_overflow_escapes :
    ¬ ∀ (operation : Nat → Except Unit Nat) (shouldRetry : Unit → Bool) (maxAttempts : Nat),
      1 ≤ maxAttempts → FollowsSpecification operation shouldRetry maxAttempts := by
  intro h
  refine not_follows (by decide) (fun n _ _ hfinal => ?_)
    (h (fun _ => .error ()) (fun _ => true) 1026 (by decide))
  cases hfinal

end PaymentsLab
