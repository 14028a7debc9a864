import PaymentsLab.Api.DailyBudget

/-!
# The lifetime of the daily counter

Calls of `enforce` by one customer on one rail, one after the other, in one UTC day and with Redis
available. The time to live of the counter aims at 23:59:59, so the counter of the day can expire
before the day is over, and a call after that counts from zero. Where every call finds the counter
that has been set, the admitted amounts are within the limit of the day (`admitted_within_limit`).
-/

namespace PaymentsLab

open Foundation Program ApiProgram

theorem secondsUntilDayEnd_pos (t : Instant) : 0 < secondsUntilDayEnd t :=
  Int.lt_of_lt_of_le Int.zero_lt_one (Int.le_max_left _ _)

namespace CounterLifetime

/-- A call of `enforce`, and the cents it admits. -/
def enforcedCents (cacheTtlSeconds : Int) (customerId : String) (rail : PaymentMethod)
    (amount : Decimal) : ApiProgram Int :=
  MonadExcept.tryCatch
    (do
      let _ ← LimitsService.enforce cacheTtlSeconds customerId rail amount
      return amount.asCents)
    fun _ => pure 0

/-- Calls of `enforce` one after the other, and the cents they admit. -/
def admittedCents (cacheTtlSeconds : Int) (customerId : String) (rail : PaymentMethod) :
    List Decimal → ApiProgram Int
  | [] => pure 0
  | amount :: amounts => do
    let cents ← enforcedCents cacheTtlSeconds customerId rail amount
    let later ← admittedCents cacheTtlSeconds customerId rail amounts
    return cents + later

/-- Redis answers every command, and the clock does not go back nor leave the day. -/
structure WithinDay (day : Instant) (is : Nat → ApiInput) : Prop where
  answered : ∀ n, (is n).redis = .answered
  day : ∀ n, utcDayStart (is n).now = day
  later : ∀ n, (is n).now ≤ (is (n + 1)).now

/-- The key that a command gets. -/
def gets? : ApiCommand → Option String
  | .redis (.get key) => some key
  | _ => none

/-- The counter at a key has not expired when it is read, if it has been set. -/
def CounterLive (key : String) (i : ApiInput) (b : Backend) (c : ApiCommand) : Prop :=
  gets? c = some key → ∀ e ∈ b.redis key, e.Live i.now

instance (key : String) (i : ApiInput) (b : Backend) (c : ApiCommand) :
    Decidable (CounterLive key i b c) :=
  inferInstanceAs (Decidable (_ → _))

/-- A step of a call. -/
def CounterStep (key : String) (day : Instant) (i : ApiInput) (b : Backend) (c : ApiCommand) :
    Prop :=
  (i.redis = .answered ∧ utcDayStart i.now = day) ∧ CounterLive key i b c

/-- The counter is at `n` cents within the limit, and the policies are where a call looks for
them. -/
structure Counts (customerId : String) (rail : PaymentMethod) (policy : LimitsPolicy)
    (day : Instant) (n : Int) (b : Backend) : Prop where
  found : b.database.policyByRail rail = some policy
  cached : b.PoliciesCached
  counter : b.CounterIs (counterKey customerId rail day) n

section Calls

variable {customerId : String} {rail : PaymentMethod} {policy : LimitsPolicy} {day : Instant}
  {n : Int} {b b' : Backend} {amount : Decimal}

theorem Counts.of_agreeOff (hagree : b.AgreeOff (IsApart customerId rail day) b')
    (h : Counts customerId rail policy day n b) : Counts customerId rail policy day n b' := by
  refine ⟨?_, .of_agreeOff (fun _ hkey => hkey.1) hagree h.cached, ?_⟩
  · rw [hagree.database]
    exact h.found
  · exact h.counter.of_eq (hagree.redis _ fun hkey => hkey.2 rfl)

/-- The counter is read as it is. -/
theorem ensures_redisGetInt_counts (h : Counts customerId rail policy day n b) :
    (LimitsService.redisGetInt (counterKey customerId rail day)).Ensures Backend.handler
      (CounterStep (counterKey customerId rail day) day) (fun o b' => b' = b ∧ o = .ok n) b := by
  refine (LimitsService.ensures_redisGetInt _).mono ?_
  rintro o b' ⟨rfl, i, ⟨⟨hanswered, -⟩, hlive⟩, rfl⟩
  obtain ⟨text, hstring, -⟩ : ∃ text,
      b'.redis.string? i.now (counterKey customerId rail day) = some text ∧ ∀ t ∈ text, True := by
    refine Redis.Store.string?_of_forall (P := fun _ => True) i.now fun e he => ?_
    have hcounter := h.counter
    unfold Backend.CounterIs at hcounter
    rw [he] at hcounter
    exact ⟨_, hcounter, trivial⟩
  have hexec : Redis.exec i.now b'.redis (.get (counterKey customerId rail day)) =
      some (text, b'.redis) := by
    simp only [Redis.exec, hstring, Option.map_some]
  have hreply := congrArg Prod.fst (Backend.execRedis_answered hanswered hexec)
  refine ⟨rfl, ?_⟩
  rw [hreply]
  simp only [LimitsService.readReply, h.counter.readInt_eq (hlive rfl) hreply, Option.elim]

/-- The counter is set. -/
theorem ensures_set_counts (h : Counts customerId rail policy day n b) (n' : Int) (t : Instant) :
    (redis (.set (counterKey customerId rail day) (.int n') (secondsUntilDayEnd t))).Ensures
      Backend.handler (CounterStep (counterKey customerId rail day) day)
      (fun o b' => o = .ok () ∧ Counts customerId rail policy day n' b') b := by
  refine ensures_redis.2 fun i hi => ?_
  have hagree : b.AgreeOff (¬ IsPolicyKey ·) (b.execRedis i
      (.set (counterKey customerId rail day) (.int n') (secondsUntilDayEnd t))).2 :=
    Backend.agreeOff_execRedis i (counterKey_not_policy _ _ _)
  have hexec : Redis.exec i.now b.redis
      (.set (counterKey customerId rail day) (.int n') (secondsUntilDayEnd t)) =
        some ((), b.redis.fresh i.now (counterKey customerId rail day) (.int n')
          (secondsUntilDayEnd t)) :=
    if_pos (secondsUntilDayEnd_pos t)
  have hcached := Backend.PoliciesCached.of_agreeOff (fun _ => id) hagree h.cached
  rw [Backend.execRedis_answered hi.1.1 hexec] at hcached ⊢
  exact ⟨rfl, h.found, hcached, .of_fresh _ _ _ _ _⟩

/-- The daily check adds the amount to the counter, or raises and leaves the counter as it was. -/
theorem ensures_enforceDailyLimit_counts (h : Counts customerId rail policy day n b) :
    (LimitsService.enforceDailyLimit customerId rail amount policy).Ensures Backend.handler
      (CounterStep (counterKey customerId rail day) day)
      (either (fun _ b' => n + amount.asCents ≤ policy.dailyLimitAmount.asCents ∧
          Counts customerId rail policy day (n + amount.asCents) b')
        (Counts customerId rail policy day n)) b := by
  refine ensures_issue_bind.2 fun i hi => ensures_tryCatch.2 ?_
  have hkey : limitsDailyKey (dateKey i.now) customerId rail = counterKey customerId rail day := by
    rw [counterKey, ← hi.1.2, dateKey_utcDayStart]
  simp only [Backend.handler, Backend.exec, hkey]
  have hcount : (LimitsService.countDailyAmount (counterKey customerId rail day) rail amount
      policy).Ensures Backend.handler (CounterStep (counterKey customerId rail day) day)
      (fun o b' => IfReturned (fun _ => n + amount.asCents ≤ policy.dailyLimitAmount.asCents ∧
          Counts customerId rail policy day (n + amount.asCents) b') o ∧
        IfRaised (fun e => (∃ error, e = .app error) ∧ Counts customerId rail policy day n b') o)
      b := by
    refine (ensures_redisGetInt_counts h).bind ?_ fun e b' he => by cases he.2
    rintro k b' ⟨rfl, hk⟩
    cases hk
    by_cases hover : policy.dailyLimitAmount.asCents < n + amount.asCents
    · simp only [if_pos hover]
      exact ⟨trivial, ⟨_, rfl⟩, h⟩
    · simp only [if_neg hover]
      refine ensures_issue_bind.2 fun i' _ => (ensures_set_counts h _ _).mono ?_
      rintro o b' ⟨rfl, hcounts⟩
      exact ⟨⟨Int.not_lt.1 hover, hcounts⟩, trivial⟩
  refine hcount.mono ?_
  rintro (e | _) b' ⟨hreturned, hraised⟩
  · obtain ⟨⟨error, rfl⟩, hcounts⟩ := hraised
    exact hcounts
  · exact hreturned

/-- A call adds its amount to the counter if it returns; one that raises does, or leaves the counter
as it was. -/
theorem ensures_enforce_counts (hamount : 0 < amount)
    (hlimit : n ≤ policy.dailyLimitAmount.asCents) (ttl : Int)
    (h : Counts customerId rail policy day n b) :
    (LimitsService.enforce ttl customerId rail amount).Ensures Backend.handler
      (CounterStep (counterKey customerId rail day) day)
      (fun o b' => ∃ n', n ≤ n' ∧ n' ≤ policy.dailyLimitAmount.asCents ∧
        Counts customerId rail policy day n' b' ∧ IfReturned (fun _ => n + amount.asCents ≤ n') o)
      b := by
  have hpos : 0 ≤ amount.asCents := Decimal.asCents_nonneg (Decimal.coeff_pos hamount).le
  refine (LimitsService.ensures_getPolicy h.cached ttl rail).bind ?_ ?_
  · rintro policy' b₁ ⟨hagree, hcached, hfound⟩
    obtain rfl : policy' = policy := Option.some.inj (hfound.symm.trans h.found)
    have h₁ : Counts customerId rail policy' day n b₁ :=
      ⟨hagree.database ▸ h.found, hcached,
        h.counter.of_eq (hagree.redis _ (counterKey_not_policy _ _ _))⟩
    refine (LimitsService.ensures_enforceTransactionAmount policy' amount).bind ?_ ?_
    · rintro _ b₂ ⟨rfl, -⟩
      refine (ensures_enforceDailyLimit_counts h₁).bind ?_ fun e b₃ h₃ => ?_
      · rintro _ b₃ ⟨hfits, h₃⟩
        refine Ensures.bind ((LimitsService.uses_enforceVelocityLimit (isApart_velocity _ _ _ _ _)
          policy').keeps Counts.of_agreeOff h₃) (fun count b₄ h₄ => ?_) fun e b₄ h₄ => ?_
        · exact ⟨_, by omega, hfits, h₄, Int.le_refl _⟩
        · exact ⟨_, by omega, hfits, h₄, trivial⟩
      · exact ⟨n, Int.le_refl n, hlimit, h₃, trivial⟩
    · rintro e b₂ ⟨rfl, -⟩
      exact ⟨n, Int.le_refl n, hlimit, h₁, trivial⟩
  · rintro e b₁ ⟨hagree, hcached, -⟩
    exact ⟨n, Int.le_refl n, hlimit, ⟨hagree.database ▸ h.found, hcached,
      h.counter.of_eq (hagree.redis _ (counterKey_not_policy _ _ _))⟩, trivial⟩

/-- The counter covers what the calls admit. -/
theorem ensures_admittedCents {amounts : List Decimal} (hamounts : ∀ amount ∈ amounts, 0 < amount)
    (hlimit : n ≤ policy.dailyLimitAmount.asCents) (ttl : Int)
    (h : Counts customerId rail policy day n b) :
    (admittedCents ttl customerId rail amounts).Ensures Backend.handler
      (CounterStep (counterKey customerId rail day) day)
      (fun o _ => ∃ total, o = .ok total ∧ n + total ≤ policy.dailyLimitAmount.asCents) b := by
  induction amounts generalizing n b with
  | nil => exact ⟨0, rfl, by omega⟩
  | cons amount amounts ih =>
    have henforced : (enforcedCents ttl customerId rail amount).Ensures Backend.handler
        (CounterStep (counterKey customerId rail day) day)
        (fun o b' => ∃ cents n', o = .ok cents ∧ n + cents ≤ n' ∧
          n' ≤ policy.dailyLimitAmount.asCents ∧ Counts customerId rail policy day n' b') b := by
      refine ensures_tryCatch.2 (ensures_bind.2 ((ensures_enforce_counts
        (hamounts amount List.mem_cons_self) hlimit ttl h).mono ?_))
      rintro (e | evaluation) b' ⟨n', hle, hlimit', h', hcents⟩
      · exact ⟨0, n', rfl, by omega, hlimit', h'⟩
      · exact ⟨amount.asCents, n', rfl, hcents, hlimit', h'⟩
    refine henforced.bind ?_ ?_
    · rintro cents b' ⟨_, n', hcents, hle, hlimit', h'⟩
      cases hcents
      refine (ih (fun amount hmem => hamounts amount (List.mem_cons_of_mem _ hmem)) hlimit'
        h').bind ?_ ?_
      · rintro later b'' ⟨_, htotal, hle'⟩
        cases htotal
        exact ⟨cents + later, rfl, by omega⟩
      · rintro e b'' ⟨_, htotal, -⟩
        cases htotal
    · rintro e b' ⟨_, _, hcents, -⟩
      cases hcents

/-- Where every call finds the counter that has been set, the admitted amounts are within the limit
of the day. -/
theorem admitted_within_limit {amounts : List Decimal} {ttl : Int} {is : Nat → ApiInput}
    (hamounts : ∀ amount ∈ amounts, 0 < amount)
    (hfound : b.database.policyByRail rail = some policy) (hcached : b.PoliciesCached)
    (hfresh : b.redis (counterKey customerId rail day) = none) (hday : WithinDay day is)
    (hlimit : 0 ≤ policy.dailyLimitAmount.asCents)
    (hlive : (admittedCents ttl customerId rail amounts).Meets Backend.handler
      (CounterLive (counterKey customerId rail day)) b is) :
    ∃ total, ((admittedCents ttl customerId rail amounts).run Backend.handler b is).outcome =
      .ok total ∧ total ≤ policy.dailyLimitAmount.asCents := by
  have hcounter : b.CounterIs (counterKey customerId rail day) 0 := by
    unfold Backend.CounterIs
    rw [hfresh]
  have hmeets : (admittedCents ttl customerId rail amounts).Meets Backend.handler
      (CounterStep (counterKey customerId rail day) day) b is :=
    hlive.and_forall fun n => ⟨hday.answered n, hday.day n⟩
  obtain ⟨total, htotal, hle⟩ :=
    (ensures_admittedCents hamounts hlimit ttl ⟨hfound, hcached, hcounter⟩).run hmeets
  exact ⟨total, htotal, by omega⟩

end Calls

/-- Twelve steps at one time, which are a call, and the others at a later one. -/
def twoReadings (early late : Instant) (n : Nat) : ApiInput :=
  ⟨if n < 12 then early else late, .answered, 0⟩

theorem withinDay_twoReadings {early late day : Instant} (hle : early ≤ late)
    (hearly : utcDayStart early = day) (hlate : utcDayStart late = day) :
    WithinDay day (twoReadings early late) where
  answered _ := rfl
  day n := by
    unfold twoReadings
    by_cases hn : n < 12
    · simp only [if_pos hn, hearly]
    · simp only [if_neg hn, hlate]
  later n := by
    unfold twoReadings
    by_cases hn : n + 1 < 12
    · simp only [if_pos hn, if_pos (Nat.lt_of_succ_lt hn), Int.le_refl]
    · by_cases hn' : n < 12
      · simp only [if_pos hn', if_neg hn, hle]
      · simp only [if_neg hn, if_neg hn', Int.le_refl]

/-- Two payments of 100.00, the second one at 23:59:58. -/
theorem admitted_within_limit_refused :
    ∃ total, ((admittedCents 300 "c" .pix [⟨10000, -2⟩, ⟨10000, -2⟩]).run Backend.handler
      Create.Run.tightStart (twoReadings 0 86398000000)).outcome = .ok total ∧
        total ≤ Create.Run.tightPolicy.dailyLimitAmount.asCents := by
  have hday : WithinDay 0 (twoReadings 0 86398000000) :=
    withinDay_twoReadings (by decide) (by decide) (by decide)
  exact admitted_within_limit (by decide) rfl (fun _ _ _ he => by cases he) rfl hday (by decide)
    (by decide +kernel)

/-- Half a second before midnight the counter of the day has expired: 200.00 pass a limit of
150.00. -/
theorem expired_counter_admits : ¬ ∀ (ttl : Int) (customerId : String) (rail : PaymentMethod)
    (policy : LimitsPolicy) (day : Instant) (amounts : List Decimal) (b : Backend)
    (is : Nat → ApiInput), (∀ amount ∈ amounts, 0 < amount) →
      b.database.policyByRail rail = some policy → b.PoliciesCached →
        b.redis (counterKey customerId rail day) = none → WithinDay day is →
          ∃ total, ((admittedCents ttl customerId rail amounts).run Backend.handler b is).outcome =
            .ok total ∧ total ≤ policy.dailyLimitAmount.asCents := by
  intro hwithin
  obtain ⟨total, htotal, hle⟩ := hwithin 300 "c" .pix Create.Run.tightPolicy 0
    [⟨10000, -2⟩, ⟨10000, -2⟩] Create.Run.tightStart (twoReadings 0 86399500000) (by decide) rfl
    (fun _ _ _ he => by cases he) rfl
    (withinDay_twoReadings (by decide) (by decide) (by decide))
  have hadmitted : ((admittedCents 300 "c" .pix [⟨10000, -2⟩, ⟨10000, -2⟩]).run Backend.handler
      Create.Run.tightStart (twoReadings 0 86399500000)).outcome = .ok 20000 := by
    decide +kernel
  cases htotal.symm.trans hadmitted
  exact absurd hle (by decide)

end CounterLifetime

end PaymentsLab
