import PaymentsLab.Api.CounterLifetime
import PaymentsLab.Api.TrimmedHistory
import PaymentsLab.Processor.CallProvider

/-!
# The amount in every part of the system

The daily counter takes the amount of a request as cents, rounded half to even; the AML history
takes its text, and the column of the row rounds half away from zero. They are one value where the
amount is a whole number of cents, and only there (`amounts_agree_iff`).
-/

namespace PaymentsLab

open Foundation Program Decimal

namespace Decimal

/-- A value in a `Numeric(18, 2)` column is a number of cents. -/
theorem exists_isCents_toNumeric (d : Decimal) : ∃ n, d.toNumeric.IsCents n := by
  unfold toNumeric
  split
  · exact ⟨_, isCents_mk _⟩
  · exact ⟨_, isCents_mk _⟩

end Decimal

namespace Amounts

open Create AmlRuleEngine CounterLifetime TrimmedHistory

/-- What the parts of the system make of the amount of a request: the daily counter, the history of
the AML rules, the row, and the request to the provider. -/
structure Denotes (cfg : ApiSettings) (r : Create.Run) (value : ℚ) : Prop where
  counted : ∀ policy day n b, Counts r.context.customerId r.request.method policy day n b →
    (LimitsService.enforceDailyLimit r.context.customerId r.request.method r.request.amount
      policy).Ensures Backend.handler
        (CounterStep (counterKey r.context.customerId r.request.method day) day)
        (fun o b' => IfReturned (fun _ => ∃ m : Int, (m : ℚ) = 100 * value ∧
          b'.CounterIs (counterKey r.context.customerId r.request.method day) (n + m)) o) b
  recorded : ∀ b is items expiresAt,
    b.redis.HoldsItems (amlHistoryKey r.context.customerId) items expiresAt →
      Timely (amlHistoryKey r.context.customerId) b is →
        ∃ entry items' expiresAt' timestamp amount,
          ((recordOutgoing cfg r.context.customerId r.request.method r.request.amount).run
            Backend.handler b is).world.redis.HoldsItems (amlHistoryKey r.context.customerId)
              (entry :: items') expiresAt' ∧
          tryParseEntry entry = some (timestamp, r.request.method.value, .finite amount) ∧
            amount.toRat = value
  stored : ∀ decision response now event record db,
    ∃ row, (Database.insert db (r.paymentRow decision response now) event record).payments =
        db.payments ++ [row] ∧
      row.amount.toRat = value ∧ (ProviderRequest.ofPayment row).amount.toRat = value

/-- All parts of the system agree on the amount of a request. -/
def Agree (cfg : ApiSettings) (r : Create.Run) : Prop :=
  ∃ value, Denotes cfg r value

/-- The cents that the daily counters get for some requests. -/
def countedCents : List Create.Run → Int
  | [] => 0
  | r :: rs => r.request.amount.asCents + countedCents rs

/-- The total of the rows of some requests. -/
def storedTotal (rs : List Create.Run) : Decimal :=
  Decimal.sum (rs.map fun r => r.request.amount.toNumeric)

/-- The amount is within the limits of a policy. -/
def Passes (amount : Decimal) : Prop :=
  0 < amount ∧ ∃ policy : LimitsPolicy, policy.Stored ∧ amount ≤ policy.maxAmount

section

variable {cfg : ApiSettings} {r : Create.Run} {n : Int}

theorem Passes.natAbs_lt (h : Passes r.request.amount) (hamount : r.request.amount.IsCents n) :
    n.natAbs < 10 ^ 18 := by
  obtain ⟨hpos, policy, hpolicy, hmax⟩ := h
  obtain ⟨max, hmax', hbound⟩ := hpolicy.maxAmount
  rw [hamount.le_iff hmax'] at hmax
  rw [isCents_zero.lt_iff hamount] at hpos
  omega

/-- A whole number of cents is the same value everywhere. -/
theorem Denotes.of_isCents (cfg : ApiSettings) (hamount : r.request.amount.IsCents n)
    (hn : n.natAbs < 10 ^ 18) : Denotes cfg r r.request.amount.toRat where
  counted policy day k b h := by
    refine (ensures_enforceDailyLimit_counts h).mono fun o b' ho => ?_
    cases o with
    | error e => trivial
    | ok a =>
      refine ⟨r.request.amount.asCents, ?_, ho.2.counter⟩
      rw [hamount.asCents (by omega), isCents_iff.1 hamount]
      ring
  recorded b is items expiresAt hset htimely := by
    obtain ⟨k, hset'⟩ := run_recordOutgoing r.request.method r.request.amount hset htimely
    exact ⟨_, _, _, _, _, hset', rfl, rfl⟩
  stored decision response now event record db := by
    refine ⟨_, rfl, ?_⟩
    have hrow : r.request.amount.toNumeric.toRat = r.request.amount.toRat := by
      rw [hamount.toNumeric]
      exact hamount.symm
    exact ⟨hrow, hrow⟩

/-- Parts that agree on an amount agree on a whole number of cents. -/
theorem Agree.exists_isCents (h : Agree cfg r) : ∃ n, r.request.amount.IsCents n := by
  obtain ⟨value, hdenotes⟩ := h
  have htimely : Timely (amlHistoryKey r.context.customerId) TrimmedHistory.sample instantly :=
    ⟨⟨fun _ => rfl, fun _ => Int.le_refl 0⟩, fun _ _ he => by cases he⟩
  obtain ⟨k, hset⟩ := run_recordOutgoing r.request.method r.request.amount (.empty rfl) htimely
  obtain ⟨entry, items, _, timestamp, amount, hset', hparse, hrecorded⟩ :=
    hdenotes.recorded _ _ _ _ (.empty rfl) htimely
  obtain ⟨row, hrows, hstored, -⟩ := hdenotes.stored ⟨0, .allow, .allow⟩
    (r.buildPaymentResponse 0 .received .allow .allow) 0 none
    (r.idempotencyRecord (r.buildPaymentResponse 0 .received .allow .allow))
    TrimmedHistory.sample.database
  obtain ⟨n, hn⟩ := exists_isCents_toNumeric r.request.amount
  have hentry := hset.unique hset'
  cases hentry
  cases hparse
  cases hrows
  exact ⟨n, (hrecorded.trans hstored.symm).trans hn⟩

/-- The cents and the rows of whole numbers of cents have one total. -/
theorem countedCents_eq {rs : List Create.Run}
    (hrs : ∀ r ∈ rs, ∃ n, r.request.amount.IsCents n ∧ n.natAbs < 10 ^ 18) :
    (countedCents rs : ℚ) = 100 * (storedTotal rs).toRat := by
  induction rs with
  | nil => simp [countedCents, storedTotal]
  | cons r rs ih =>
    obtain ⟨n, hamount, hn⟩ := hrs r List.mem_cons_self
    have hrest := ih fun r hr => hrs r (List.mem_cons_of_mem _ hr)
    unfold storedTotal at hrest ⊢
    rw [List.map_cons, toRat_sum_cons, mul_add, ← hrest, hamount.toNumeric, countedCents,
      hamount.asCents (by omega), isCents_iff.1 (isCents_mk n)]
    push_cast
    ring

/-- All parts agree on every amount, and so on the totals, if and only if every amount is a whole
number of cents. -/
theorem amounts_agree_iff {rs : List Create.Run} (hpasses : ∀ r ∈ rs, Passes r.request.amount) :
    ((∀ r ∈ rs, Agree cfg r) ∧ (countedCents rs : ℚ) = 100 * (storedTotal rs).toRat) ↔
      ∀ r ∈ rs, ∃ n, r.request.amount.IsCents n := by
  constructor
  · rintro ⟨hagree, -⟩ r hr
    exact (hagree r hr).exists_isCents
  · intro hcents
    refine ⟨fun r hr => ?_, countedCents_eq fun r hr => ?_⟩
    · obtain ⟨n, hamount⟩ := hcents r hr
      exact ⟨_, .of_isCents cfg hamount ((hpasses r hr).natAbs_lt hamount)⟩
    · obtain ⟨n, hamount⟩ := hcents r hr
      exact ⟨n, hamount, (hpasses r hr).natAbs_lt hamount⟩

end

/-- A request of some amount. -/
def paying (amount : Decimal) : Create.Run :=
  { Create.Run.sampleRequest with
    request := { Create.Run.sampleRequest.request with amount := amount } }

/-- Payments of 100.00, of 12.340 and of 7. -/
def wholeCents : List Create.Run :=
  [paying ⟨10000, -2⟩, paying ⟨12340, -3⟩, paying ⟨7, 0⟩]

theorem forall_mem_wholeCents {P : Create.Run → Prop} (h₁ : P (paying ⟨10000, -2⟩))
    (h₂ : P (paying ⟨12340, -3⟩)) (h₃ : P (paying ⟨7, 0⟩)) : ∀ r ∈ wholeCents, P r := by
  intro r hr
  simp only [wholeCents, List.mem_cons, List.not_mem_nil, or_false] at hr
  rcases hr with rfl | rfl | rfl
  · exact h₁
  · exact h₂
  · exact h₃

theorem amounts_agree_written :
    (∀ r ∈ wholeCents, Agree .default r) ∧
      (countedCents wholeCents : ℚ) = 100 * (storedTotal wholeCents).toRat := by
  have hpasses (amount : Decimal) (hpos : 0 < amount)
      (hle : amount ≤ Create.Run.tightPolicy.maxAmount) : Passes (paying amount).request.amount :=
    ⟨hpos, Create.Run.tightPolicy, Create.Run.tightPolicy_stored, hle⟩
  have hcents (d : Decimal) (n : Int) (h : d.toRat = n / 100) : ∃ n, d.IsCents n :=
    ⟨n, isCents_iff.2 h⟩
  refine (amounts_agree_iff (forall_mem_wholeCents ?_ ?_ ?_)).2 (forall_mem_wholeCents ?_ ?_ ?_)
  · exact hpasses _ (by decide) (by decide)
  · exact hpasses _ (by decide) (by decide)
  · exact hpasses _ (by decide) (by decide)
  · exact hcents ⟨10000, -2⟩ 10000 (by norm_num [toRat])
  · exact hcents ⟨12340, -3⟩ 1234 (by norm_num [toRat])
  · exact hcents ⟨7, 0⟩ 700 (by norm_num [toRat])

/-- A payment of 10.005. -/
def halfCent : Create.Run :=
  paying ⟨10005, -3⟩

/-- 10.005 is counted as 1000 cents and stored as 10.01. -/
theorem half_cent_differs : ¬ ∀ (cfg : ApiSettings) (rs : List Create.Run),
    (∀ r ∈ rs, Passes r.request.amount) →
      (∀ r ∈ rs, Agree cfg r) ∧ (countedCents rs : ℚ) = 100 * (storedTotal rs).toRat := by
  intro hagree
  obtain ⟨-, htotals⟩ := hagree .default [halfCent] fun r hr => by
    cases List.mem_singleton.1 hr
    exact ⟨by decide, Create.Run.tightPolicy, Create.Run.tightPolicy_stored, by decide⟩
  have hcounted : countedCents [halfCent] = 1000 := by decide
  have hstored : storedTotal [halfCent] = ⟨1001, -2⟩ := by decide
  rw [hcounted, hstored, isCents_iff.1 (isCents_mk 1001)] at htotals
  norm_num at htotals

end Amounts

end PaymentsLab
