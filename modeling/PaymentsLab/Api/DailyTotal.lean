import PaymentsLab.Api.SequentialCreation
import PaymentsLab.Contracts.DecimalValues

/-!
# The daily limit across outages

Creations of one customer on one rail, one after the other, on one day, with Redis commands that may
fail. A creation is judged by the counter or by the rows, and only the rows are sure to have every
payment. Where no counter is read that falls short of the rows, the total of the day stays within
the limit (`daily_total_within_limit`).
-/

namespace PaymentsLab

open Foundation Program ApiProgram

/-! ## The day -/

theorem dateKey_utcDayStart (t : Instant) : dateKey (utcDayStart t) = dateKey t := by
  have hday : t / dayMicros * dayMicros / dayMicros = t / dayMicros :=
    Int.mul_ediv_cancel _ (by decide)
  unfold dateKey utcDayStart
  rw [hday]

theorem utcDayStart_le (t : Instant) : utcDayStart t ≤ t :=
  Int.ediv_mul_le t (by decide)

/-! ## The rows of a customer on a rail -/

namespace Database

variable (db : Database) (customerId : String) (rail : PaymentMethod) (since : Instant)

/-- The row counts towards the total since a time. -/
def Outgoing (row : Payment) : Prop :=
  row.customerId = customerId ∧ row.method = rail ∧ since ≤ row.createdAt ∧ row.status ≠ .blocked

instance (row : Payment) : Decidable (Outgoing customerId rail since row) :=
  inferInstanceAs (Decidable (_ ∧ _))

variable {customerId rail since}

/-- An amount of whole cents is stored as it is. -/
theorem isCents_inserted {payment : Payment} {n : Int} (h : payment.amount.IsCents n) :
    payment.inserted.amount.IsCents n := by
  unfold Payment.inserted
  dsimp only
  rw [h.toNumeric]
  exact Decimal.isCents_mk n

theorem outgoingSince_insert (payment : Payment) (event : Option OutboxEvent)
    (record : IdempotencyRecord) :
    (db.insert payment event record).outgoingSince customerId rail since =
      db.outgoingSince customerId rail since ++
        if Outgoing customerId rail since payment then [payment.inserted] else [] := by
  unfold outgoingSince insert
  rw [List.filter_append]
  refine congrArg _ ?_
  split
  · next h => exact List.filter_cons_of_pos (decide_eq_true h)
  · next h => exact List.filter_cons_of_neg fun hrow => h (of_decide_eq_true hrow)

/-- A payment of whole cents adds its cents to the total, if it counts. -/
theorem sumOutgoingSince_insert {payment : Payment} {m n : Int} (hamount : payment.amount.IsCents m)
    (hsum : (db.sumOutgoingSince customerId rail since).IsCents n) (event : Option OutboxEvent)
    (record : IdempotencyRecord) :
    ((db.insert payment event record).sumOutgoingSince customerId rail since).IsCents
      (if Outgoing customerId rail since payment then n + m else n) := by
  unfold sumOutgoingSince at hsum ⊢
  rw [outgoingSince_insert, List.map_append]
  split
  · exact Decimal.IsCents.sum_append hsum (Decimal.IsCents.sum_singleton (isCents_inserted hamount))
  · rw [List.map_nil, List.append_nil]
    exact hsum

end Database

/-! ## The daily check -/

/-- The columns of a policy are `Numeric(18, 2)`. -/
structure LimitsPolicy.Stored (policy : LimitsPolicy) : Prop where
  minAmount : policy.minAmount.IsNumeric
  maxAmount : policy.maxAmount.IsNumeric
  dailyLimitAmount : policy.dailyLimitAmount.IsNumeric

/-- The integer `_redis_get_int` reads. -/
def LimitsService.readInt : Option StoredText → Option Int
  | none => some 0
  | some (.text "") => some 0
  | some text => text.pythonInt?

/-- The step falls on the day, and a counter of the customer and the rail that it reads covers the
total of the rows. -/
def CounterCovers (customerId : String) (rail : PaymentMethod) (day : Instant) (i : ApiInput)
    (b : Backend) (c : ApiCommand) : Prop :=
  utcDayStart i.now = day ∧
    match c with
    | .redis (.get key) => key = limitsDailyKey (dateKey day) customerId rail →
      ∀ text ∈ (b.execRedis i (.get key)).1, ∀ n ∈ LimitsService.readInt text,
        b.database.sumOutgoingSince customerId rail day ≤ ⟨n, -2⟩
    | _ => True

instance (customerId : String) (rail : PaymentMethod) (day : Instant) (i : ApiInput) (b : Backend)
    (c : ApiCommand) : Decidable (CounterCovers customerId rail day i b c) := by
  unfold CounterCovers
  split <;> infer_instance

namespace LimitsService

variable {customerId : String} {rail : PaymentMethod} {day : Instant} {b : Backend}

/-- What `_redis_get_int` makes of a reply. -/
def readReply : Option (Option StoredText) → Except ApiException Int
  | none => .error .redisError
  | some text => (readInt text).elim (.error .valueError) .ok

theorem readReply_eq_ok {reply : Option (Option StoredText)} {n : Int}
    (h : readReply reply = .ok n) : ∃ text, reply = some text ∧ readInt text = some n := by
  cases reply with
  | none => cases h
  | some text =>
    simp only [readReply] at h
    cases hread : readInt text with
    | none =>
      rw [hread] at h
      cases h
    | some n' =>
      rw [hread] at h
      cases h
      exact ⟨text, rfl, hread⟩

theorem ensures_redisGetInt {good : StepCondition} (key : String) :
    (redisGetInt key).Ensures Backend.handler good (fun o b' => b' = b ∧
      ∃ i, good i b (.redis (.get key)) ∧ o = readReply (b.execRedis i (.get key)).1) b := by
  refine ensures_bind.2 (ensures_redis.2 fun i hi => ?_)
  rw [Backend.execRedis_get_snd]
  cases hreply : (b.execRedis i (.get key)).1 with
  | none => exact ⟨rfl, i, hi, by rw [hreply]; rfl⟩
  | some text =>
    simp only [Option.elim]
    split
    · exact ensures_pure.2 ⟨rfl, i, hi, by rw [hreply]; rfl⟩
    · exact ensures_pure.2 ⟨rfl, i, hi, by rw [hreply]; rfl⟩
    · next text hne =>
      have hread : readInt (some text) = text.pythonInt? := by
        unfold readInt
        split
        · next heq => cases heq
        · next heq => exact absurd (Option.some.inj heq) hne
        · next heq => rw [Option.some.inj heq]
      cases hint : text.pythonInt? with
      | none => exact ensures_throw.2 ⟨rfl, i, hi, by rw [hreply, readReply, hread, hint]; rfl⟩
      | some n => exact ensures_pure.2 ⟨rfl, i, hi, by rw [hreply, readReply, hread, hint]; rfl⟩

section Daily

variable {amount : Decimal} {policy : LimitsPolicy} {m n limit : Int}

/-- The fast path lets an amount pass that the rows have room for. -/
theorem ensures_countDailyAmount (hamount : amount.asCents = m)
    (hlimit : policy.dailyLimitAmount.asCents = limit)
    (hsum : (b.database.sumOutgoingSince customerId rail day).IsCents n) :
    (countDailyAmount (limitsDailyKey (dateKey day) customerId rail) rail amount policy).Ensures
      Backend.handler (CounterCovers customerId rail day)
      (fun o b' => b'.database = b.database ∧ IfReturned (fun _ => n + m ≤ limit) o) b := by
  refine (ensures_redisGetInt _).bind ?_ fun e b' h => ⟨h.1 ▸ rfl, trivial⟩
  rintro k b' ⟨rfl, i, hgood, hk⟩
  obtain ⟨text, hreply, hread⟩ := readReply_eq_ok hk.symm
  have hcovers : n ≤ k :=
    (hsum.le_iff (Decimal.isCents_mk k)).1 (hgood.2 rfl text hreply k hread)
  simp only [hamount, hlimit]
  by_cases hover : limit < k + m
  · rw [if_pos hover]
    exact ⟨rfl, trivial⟩
  · rw [if_neg hover]
    refine ensures_issue_bind.2 fun i _ => ensures_redis.2 fun i' _ => ?_
    exact ⟨(b'.execRedis_frame i' _).1, .of_forall (fun _ => by omega) _⟩

/-- The fallback lets an amount pass that the rows have room for. -/
theorem ensures_checkDailyTotal (hamount : amount.IsCents m)
    (hlimit : policy.dailyLimitAmount.IsCents limit)
    (hsum : (b.database.sumOutgoingSince customerId rail day).IsCents n)
    (hbound : (n + m).natAbs < 10 ^ 28) :
    (checkDailyTotal customerId rail amount policy).Ensures Backend.handler
      (CounterCovers customerId rail day)
      (fun o b' => b'.database = b.database ∧ IfReturned (fun _ => n + m ≤ limit) o) b := by
  refine ensures_issue_bind.2 fun i hi => ensures_issue_bind.2 fun i' _ => ?_
  simp only [Backend.handler, Backend.exec, hi.1]
  by_cases hover : policy.dailyLimitAmount <
      b.database.sumOutgoingSince customerId rail day + amount
  · rw [if_pos hover]
    exact ⟨rfl, trivial⟩
  · rw [if_neg hover]
    rw [hlimit.lt_iff (hsum.add hamount hbound)] at hover
    exact ⟨rfl, Int.not_lt.1 hover⟩

/-- An amount that passes fits into the day. -/
theorem ensures_enforceDailyLimit (hamount : amount.IsCents m) (hm : m.natAbs < 10 ^ 18)
    (hlimit : policy.dailyLimitAmount.IsCents limit) (hlimit' : limit.natAbs < 10 ^ 18)
    (hsum : (b.database.sumOutgoingSince customerId rail day).IsCents n)
    (hn : n.natAbs < 10 ^ 18) :
    (enforceDailyLimit customerId rail amount policy).Ensures Backend.handler
      (CounterCovers customerId rail day)
      (fun o b' => b'.database = b.database ∧ IfReturned (fun _ => n + m ≤ limit) o) b := by
  refine ensures_issue_bind.2 fun i hi => ensures_tryCatch.2 ?_
  have hkey : dateKey i.now = dateKey day := by rw [← hi.1, dateKey_utcDayStart]
  simp only [Backend.handler, Backend.exec, hkey]
  refine (ensures_countDailyAmount (hamount.asCents (by omega)) (hlimit.asCents (by omega))
    hsum).mono ?_
  rintro (e | _) b' ⟨hdatabase, hfits⟩
  · have hsum' : (b'.database.sumOutgoingSince customerId rail day).IsCents n := hdatabase ▸ hsum
    have hfallback := ensures_checkDailyTotal hamount hlimit hsum' (by omega)
    rw [hdatabase] at hfallback
    cases e with
    | redisError | valueError => exact hfallback
    | _ => exact ⟨hdatabase, trivial⟩
  · exact ⟨hdatabase, hfits⟩

end Daily

theorem ensures_enforceTransactionAmount {good : StepCondition} (policy : LimitsPolicy)
    (amount : Decimal) :
    (enforceTransactionAmount policy amount).Ensures Backend.handler good (fun o b' => b' = b ∧
      IfReturned (fun _ => policy.minAmount ≤ amount ∧ amount ≤ policy.maxAmount) o) b := by
  unfold enforceTransactionAmount
  by_cases hmin : amount < policy.minAmount
  · simp only [if_pos hmin]
    exact ⟨rfl, trivial⟩
  by_cases hmax : policy.maxAmount < amount
  · simp only [if_neg hmin, if_pos hmax]
    exact ⟨rfl, trivial⟩
  simp only [if_neg hmin, if_neg hmax]
  rw [Decimal.lt_iff_toRat, not_lt, ← Decimal.le_iff_toRat] at hmin hmax
  exact ⟨rfl, hmin, hmax⟩

end LimitsService

/-! ## Runs -/

/-- The total of the day is within the limit, and the policies are where a run looks for them. -/
structure WithinLimit (customerId : String) (rail : PaymentMethod) (policy : LimitsPolicy)
    (day : Instant) (b : Backend) : Prop where
  found : b.database.policyByRail rail = some policy
  cached : b.PoliciesCached
  total : ∃ n, (b.database.sumOutgoingSince customerId rail day).IsCents n ∧ 0 ≤ n
  le : b.database.sumOutgoingSince customerId rail day ≤ policy.dailyLimitAmount

/-- There is room for `m` cents. -/
structure HasRoom (customerId : String) (rail : PaymentMethod) (policy : LimitsPolicy)
    (day : Instant) (m : Int) (b : Backend) : Prop
    extends WithinLimit customerId rail policy day b where
  room : ∀ n limit, (b.database.sumOutgoingSince customerId rail day).IsCents n →
    policy.dailyLimitAmount.IsCents limit → n + m ≤ limit

section Runs

variable {customerId : String} {rail : PaymentMethod} {policy : LimitsPolicy} {day : Instant}
  {m : Int} {b b' : Backend}

theorem WithinLimit.of_database (h : WithinLimit customerId rail policy day b)
    (hdatabase : b'.database = b.database) (hcached : b'.PoliciesCached) :
    WithinLimit customerId rail policy day b' :=
  ⟨hdatabase ▸ h.found, hcached, hdatabase ▸ h.total, hdatabase ▸ h.le⟩

theorem WithinLimit.of_agreeOff (hagree : b.AgreeOff (¬ IsPolicyKey ·) b')
    (h : WithinLimit customerId rail policy day b) : WithinLimit customerId rail policy day b' :=
  h.of_database hagree.database (.of_agreeOff (fun _ => id) hagree h.cached)

theorem HasRoom.of_agreeOff (hagree : b.AgreeOff (¬ IsPolicyKey ·) b')
    (h : HasRoom customerId rail policy day m b) : HasRoom customerId rail policy day m b' :=
  ⟨h.toWithinLimit.of_agreeOff hagree, by rw [hagree.database]; exact h.room⟩

/-- A day without payments. -/
theorem WithinLimit.of_no_payment (hpolicy : b.database.policyByRail rail = some policy)
    (hcached : b.PoliciesCached) (hnone : b.database.outgoingSince customerId rail day = [])
    (hlimit : 0 ≤ policy.dailyLimitAmount) : WithinLimit customerId rail policy day b := by
  have hsum : b.database.sumOutgoingSince customerId rail day = 0 := by
    unfold Database.sumOutgoingSince
    rw [hnone]
    rfl
  exact ⟨hpolicy, hcached, ⟨0, hsum ▸ Decimal.isCents_zero, le_rfl⟩, hsum ▸ hlimit⟩

/-- The rows of a payment there is room for. -/
theorem HasRoom.insert (hpolicy : policy.Stored) (h : HasRoom customerId rail policy day m b)
    (hm : 0 < m) {payment : Payment} (hamount : payment.amount.IsCents m)
    (event : Option OutboxEvent) (record : IdempotencyRecord) :
    WithinLimit customerId rail policy day
      { b with database := b.database.insert payment event record } := by
  obtain ⟨n, hn, hpos⟩ := h.total
  obtain ⟨limit, hlimit, -⟩ := hpolicy.dailyLimitAmount
  have hsum := b.database.sumOutgoingSince_insert hamount hn event record
  have hroom := h.room n limit hn hlimit
  have hle := (hn.le_iff hlimit).1 h.le
  refine ⟨h.found, h.cached, ⟨_, hsum, ?_⟩, (hsum.le_iff hlimit).2 ?_⟩
  · split <;> omega
  · split <;> omega

theorem LimitsService.ensures_enforce (hpolicy : policy.Stored) {amount : Decimal}
    (hamount : amount.IsCents m) (hm : 0 < m) (ttl : Int)
    (h : WithinLimit customerId rail policy day b) :
    (enforce ttl customerId rail amount).Ensures Backend.handler (CounterCovers customerId rail day)
      (either (fun _ => HasRoom customerId rail policy day m)
        (WithinLimit customerId rail policy day)) b := by
  refine (ensures_getPolicy h.cached ttl rail).bind ?_ fun e b' hpost =>
    h.of_database hpost.1.database hpost.2.1
  rintro policy' b₁ ⟨hagree, hcached, hfound⟩
  have h₁ : WithinLimit customerId rail policy day b₁ := h.of_database hagree.database hcached
  obtain rfl : policy' = policy := Option.some.inj (hfound.symm.trans h.found)
  refine (ensures_enforceTransactionAmount policy' amount).bind ?_ fun e b' hpost => hpost.1 ▸ h₁
  rintro _ b₂ ⟨rfl, -, hmax⟩
  obtain ⟨n, hn, hpos⟩ := h₁.total
  obtain ⟨limit, hlimit, hlimit'⟩ := hpolicy.dailyLimitAmount
  obtain ⟨max, hmax', hbound⟩ := hpolicy.maxAmount
  have hle := (hn.le_iff hlimit).1 h₁.le
  rw [hamount.le_iff hmax'] at hmax
  have hdaily := ensures_enforceDailyLimit hamount (by omega) hlimit hlimit' hn (by omega)
  have hkeeps : (enforceDailyLimit customerId rail amount policy').Ensures Backend.handler
      (CounterCovers customerId rail day) (fun _ => b₂.AgreeOff (¬ IsPolicyKey ·)) b₂ :=
    (uses_enforceDailyLimit (fun _ => limitsDailyKey_not_policy _ _ _) amount policy').ensures _ _
  refine (hdaily.and hkeeps).bind ?_ fun e b' hpost => h₁.of_agreeOff hpost.2
  rintro _ b₃ ⟨⟨hdatabase, hfits⟩, hagree₃⟩
  have h₃ : HasRoom customerId rail policy' day m b₃ := by
    refine ⟨h₁.of_agreeOff hagree₃, fun n' limit' hn' hlimit'' => ?_⟩
    rw [hdatabase] at hn'
    cases hn.unique hn'
    cases hlimit.unique hlimit''
    exact hfits
  refine Ensures.bind ((uses_enforceVelocityLimit (limitsVelocityKey_not_policy _ _)
    policy').keeps (Q := HasRoom customerId rail policy' day m) (fun h => HasRoom.of_agreeOff h) h₃)
    (fun velocityCount b₄ h₄ => h₄) fun e b₄ h₄ => h₄.toWithinLimit

namespace Create

namespace Run

variable (cfg : ApiSettings) (r : Run)

/-- The gate keeps the cached policies to the table: what it puts at its key is no policy. -/
theorem withinLimit_gate (h : WithinLimit customerId rail policy day b) (i : ApiInput) :
    WithinLimit customerId rail policy day (b.exec i (r.gateCommand cfg)).2 :=
  h.of_database (b.execRedis_frame i _).1 (h.cached.execRedis i fun _ _ _ hof => by cases hof)

/-- The checks leave room for the amount, or the total as it was. -/
theorem ensures_checked (hcustomer : r.context.customerId = customerId)
    (hrail : r.request.method = rail) (hpolicy : policy.Stored)
    (hamount : r.request.amount.IsCents m) (hm : 0 < m)
    (h : WithinLimit customerId rail policy day b) :
    (r.checked cfg).Ensures Backend.handler (CounterCovers customerId rail day)
      (either (fun _ => HasRoom customerId rail policy day m)
        (WithinLimit customerId rail policy day)) b := by
  subst hcustomer hrail
  refine (r.uses_loadCustomerOrRaise.keeps (fun h => h.eq ▸ id) h).bind (fun customer b h => ?_)
    fun _ _ h => h
  refine Ensures.bind_either ?_ fun evaluation b h => h
  refine ((KycService.uses_enforce customer _).keeps (fun h => h.eq ▸ id) h).bind
    (fun _ b h => ?_) fun _ _ h => h
  refine (LimitsService.ensures_enforce hpolicy hamount hm _ h).bind_either fun evaluation b h => ?_
  refine Ensures.bind_either (Ensures.by_outcome ((RateLimiterService.uses_enforce
    rateLimitKey_not_policy cfg _ _ _).keeps (fun hagree => HasRoom.of_agreeOff hagree) h)
    (fun _ b h => h) fun b h => h.toWithinLimit) fun _ b h => h

/-- One creation. -/
theorem ensures_withinLimit (hcustomer : r.context.customerId = customerId)
    (hrail : r.request.method = rail) (hpolicy : policy.Stored)
    (hamount : r.request.amount.IsCents m) (hm : 0 < m)
    (h : WithinLimit customerId rail policy day b) :
    (r.execute cfg).Ensures Backend.handler (CounterCovers customerId rail day)
      (fun _ => WithinLimit customerId rail policy day) b := by
  -- no notes are needed
  have hnoting : (r.execute cfg).Ensures (Backend.noting fun (_ : Unit) _ _ _ => ())
      (fun i v c => CounterCovers customerId rail day i v.1 c)
      (fun _ v => WithinLimit customerId rail policy day v.1) (b, ()) := by
    refine r.ensures_execute cfg (J := fun v => WithinLimit customerId rail policy day v.1)
      (fun _ h => h) (fun _ _ => h) (fun i _ _ h => r.withinLimit_gate cfg h i)
      (fun i _ v _ h => ?_) fun _ h => h
    have hdecided : (r.decided cfg).Ensures Backend.handler (CounterCovers customerId rail day)
        (either (fun _ => HasRoom customerId rail policy day m)
          (WithinLimit customerId rail policy day)) v.1 := by
      refine (r.ensures_checked cfg hcustomer hrail hpolicy hamount hm h).bind_either
        fun x b h => ?_
      exact ((r.uses_evaluateControls cfg (amlHistoryKey_not_policy _) _ _).keeps
        (fun hagree => HasRoom.of_agreeOff hagree) h).by_outcome (fun _ _ h => h)
        fun _ h => h.toWithinLimit
    rw [createPaymentWithControls_eq]
    refine (ensures_noting_iff.2 hdecided).bind (fun decision v h => ?_) fun _ _ h => h
    refine r.ensures_persistAndObserve cfg (J := fun v => HasRoom customerId rail policy day m v.1)
      (fun _ h => h) h (fun i v _ _ _ h _ => ⟨fun _ => ?_, fun _ => h⟩) fun _ h => h.toWithinLimit
    exact (r.uses_afterCommitObservability cfg (amlHistoryKey_not_policy _) _).keeps_noting
      (fun _ hagree => WithinLimit.of_agreeOff hagree) (h.insert hpolicy hm hamount _ _)
  exact ensures_noting_iff.1 hnoting

/-- The request is for whole cents, by the customer on the rail. -/
structure Pays (customerId : String) (rail : PaymentMethod) : Prop where
  customer : r.context.customerId = customerId
  rail : r.request.method = rail
  amount : ∃ m, r.request.amount.IsCents m ∧ 0 < m

/-- Where no counter of the day is read that falls short of the rows, the total of the day stays
within the limit. -/
theorem daily_total_within_limit {runs : List Run} {is : Nat → ApiInput} (hpolicy : policy.Stored)
    (hruns : ∀ r ∈ runs, r.Pays customerId rail)
    (hstart : WithinLimit customerId rail policy day b)
    (hmeets : (creations cfg runs).Meets Backend.handler (CounterCovers customerId rail day) b is) :
    ((creations cfg runs).run Backend.handler b is).world.database.sumOutgoingSince customerId rail
      day ≤ policy.dailyLimitAmount := by
  have hkept : (creations cfg runs).Ensures Backend.handler (CounterCovers customerId rail day)
      (fun _ => WithinLimit customerId rail policy day) b := by
    refine ensures_creations cfg (fun r hr b h => ?_) hstart
    obtain ⟨hcustomer, hrail, m, hamount, hm⟩ := hruns r hr
    exact r.ensures_withinLimit cfg hcustomer hrail hpolicy hamount hm h
  exact (hkept.run hmeets).le

end Run

end Create

end Runs

/-! ## An outage between two payments -/

namespace Create

namespace Run

/-- A limit of 150.00 a day. -/
def tightPolicy : LimitsPolicy :=
  { samplePolicy with dailyLimitAmount := ⟨15000, -2⟩ }

/-- A customer without payments. -/
def tightStart : Backend where
  database := ⟨[⟨"c", .basic, .active, 0⟩], [tightPolicy], [], [], []⟩
  redis _ := none

/-- Two payments of 100.00. -/
def twoPayments : List Run :=
  [sampleRequest, sampleRequest.withKey "k2"]

theorem tightPolicy_stored : tightPolicy.Stored :=
  ⟨⟨100, Decimal.isCents_mk _, by decide⟩, ⟨500000, Decimal.isCents_mk _, by decide⟩,
    ⟨15000, Decimal.isCents_mk _, by decide⟩⟩

theorem twoPayments_pay : ∀ r ∈ twoPayments, r.Pays "c" .pix := by
  intro r hr
  have hamount : (⟨10000, -2⟩ : Decimal).IsCents 10000 := Decimal.isCents_mk _
  rcases List.mem_cons.1 hr with rfl | hr
  · exact ⟨rfl, rfl, 10000, hamount, by decide⟩
  · cases List.mem_singleton.1 hr
    exact ⟨rfl, rfl, 10000, hamount, by decide⟩

theorem tightStart_within : WithinLimit "c" .pix tightPolicy 0 tightStart :=
  .of_no_payment rfl (fun _ _ _ he => by cases he) rfl (by decide)

/-- Redis goes down after the first payment. -/
theorem daily_total_within_limit_outage :
    ((creations .default twoPayments).run Backend.handler tightStart fun n =>
      ⟨0, if n < 30 then .answered else .redisError false, n⟩).world.database.sumOutgoingSince "c"
        .pix 0 ≤ tightPolicy.dailyLimitAmount :=
  daily_total_within_limit .default tightPolicy_stored twoPayments_pay tightStart_within
    (by decide +kernel)

/-- The step falls on the day, and the counter is there if it has been. -/
def CounterPersists (customerId : String) (rail : PaymentMethod) (day : Instant) (i : ApiInput)
    (b : Backend) (_ : ApiCommand) : Prop :=
  utcDayStart i.now = day ∧
    ∀ e ∈ b.redis (limitsDailyKey (dateKey day) customerId rail), e.Live i.now

instance (customerId : String) (rail : PaymentMethod) (day : Instant) (i : ApiInput) (b : Backend)
    (c : ApiCommand) : Decidable (CounterPersists customerId rail day i b c) :=
  inferInstanceAs (Decidable (_ ∧ _))

/-- The read of the counter fails once, in the first payment, and the second one finds no counter:
200.00 of 150.00 are paid. -/
theorem daily_total_exceeds_limit : ¬ ∀ (cfg : ApiSettings) (customerId : String)
    (rail : PaymentMethod) (policy : LimitsPolicy) (day : Instant) (runs : List Run) (b : Backend)
    (is : Nat → ApiInput),
    policy.Stored → (∀ r ∈ runs, r.Pays customerId rail) →
      WithinLimit customerId rail policy day b →
      (creations cfg runs).Meets Backend.handler (CounterPersists customerId rail day) b is →
        ((creations cfg runs).run Backend.handler b is).world.database.sumOutgoingSince customerId
          rail day ≤ policy.dailyLimitAmount := by
  intro hlimit
  have hle := hlimit .default "c" .pix tightPolicy 0 twoPayments tightStart
    (fun n => ⟨0, if n = 8 then .redisError false else .answered, n⟩) tightPolicy_stored
    twoPayments_pay tightStart_within (by decide +kernel)
  exact absurd hle (by decide +kernel)

end Run

end Create

end PaymentsLab
