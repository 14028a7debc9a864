import PaymentsLab.Api.DailyTotal
import PaymentsLab.Api.KeySpaces

/-!
# What consumes the daily budget

Creations one after the other, on one day, with Redis available. The counter is set in the middle of
the controls, and what follows can still refuse the payment or block it. Where no creation ends
after it has set the counter without having committed a payment that counts, the counter is the
total of the rows in cents (`counter_follows_total`).
-/

namespace PaymentsLab

open Foundation Program ApiProgram

/-- The key of the counter of a day. -/
def counterKey (customerId : String) (rail : PaymentMethod) (day : Instant) : String :=
  limitsDailyKey (dateKey day) customerId rail

/-- The counter at a key; one that is not there is zero. -/
def Backend.CounterIs (b : Backend) (key : String) (n : Int) : Prop :=
  match b.redis key with
  | none => n = 0
  | some e => e.value = .string (.int n)

instance (b : Backend) (key : String) (n : Int) : Decidable (b.CounterIs key n) := by
  unfold Backend.CounterIs
  split <;> infer_instance

namespace Backend.CounterIs

variable {b b' : Backend} {key : String} {m n : Int}

/-- A counter that has been set. -/
theorem of_fresh (b : Backend) (now : Instant) (key : String) (n ex : Int) :
    CounterIs { b with redis := b.redis.fresh now key (.int n) ex } key n := by
  unfold Backend.CounterIs Redis.Store.fresh
  simp only [Function.update_self]

theorem of_eq (h : b'.redis key = b.redis key) (hcounter : b.CounterIs key n) :
    b'.CounterIs key n := by
  unfold CounterIs
  rw [h]
  exact hcounter

theorem unique (hm : b.CounterIs key m) (hn : b.CounterIs key n) : m = n := by
  unfold CounterIs at hm hn
  cases hentry : b.redis key with
  | none =>
    rw [hentry] at hm hn
    exact Eq.trans hm (Eq.symm hn)
  | some e =>
    rw [hentry] at hm hn
    cases Eq.trans (Eq.symm hm) hn
    rfl

/-- A counter that is live is read as it is. -/
theorem readInt_eq (hcounter : b.CounterIs key n) {i : ApiInput}
    (hlive : ∀ e ∈ b.redis key, e.Live i.now) {text : Option StoredText}
    (hreply : (b.execRedis i (.get key)).1 = some text) : LimitsService.readInt text = some n := by
  have hstring := execRedis_get_eq_some hreply
  unfold CounterIs at hcounter
  unfold Redis.Store.string? Redis.Store.find at hstring
  split at hcounter
  · next hnone =>
    rw [hnone] at hstring
    cases hstring
    exact congrArg some hcounter.symm
  · next e he =>
    have hfound : (b.redis key).filter (fun e => decide (e.Live i.now)) = some e := by
      rw [he, Option.filter_some, if_pos (decide_eq_true (hlive e he))]
    rw [hfound] at hstring
    obtain ⟨value, expiresAt⟩ := e
    cases hcounter
    cases hstring
    rfl

end Backend.CounterIs

/-! ## Notes -/

section Budget

variable (customerId : String) (rail : PaymentMethod) (day : Instant)

/-- The payment is one of the customer on the rail that is not blocked. -/
def Spends (payment : Payment) : Prop :=
  payment.customerId = customerId ∧ payment.method = rail ∧ payment.status ≠ .blocked

instance (payment : Payment) : Decidable (Spends customerId rail payment) :=
  inferInstanceAs (Decidable (_ ∧ _))

/-- Whether the counter has been set for a payment that has not been committed. -/
def pendingNote (pending : Bool) (_ : ApiInput) (b : Backend) : ApiCommand → Bool
  | .redis (.set key _ _) => if key = counterKey customerId rail day then true else pending
  | .commit payment event record =>
    if Spends customerId rail payment ∧ b.database.Accepts payment event record then false
    else pending
  | _ => pending

/-- The step falls on the day, with Redis available and the counter there if it has been. No gate
has the counter's key. -/
def AvailableStep (i : ApiInput) (b : Backend) (c : ApiCommand) : Prop :=
  utcDayStart i.now = day ∧ (∀ e ∈ b.redis (counterKey customerId rail day), e.Live i.now) ∧
    match c with
    | .redis (.setNx key text ex) => key ≠ counterKey customerId rail day ∧
      (b.execRedis i (.setNx key text ex)).1.isSome
    | .redis command => (b.execRedis i command).1.isSome
    | _ => True

instance (i : ApiInput) (b : Backend) (c : ApiCommand) :
    Decidable (AvailableStep customerId rail day i b c) := by
  unfold AvailableStep
  split <;> infer_instance

/-- The step falls on the day, and Redis does not answer. -/
def UnavailableStep (i : ApiInput) (_ : Backend) (_ : ApiCommand) : Prop :=
  utcDayStart i.now = day ∧ i.redis ≠ .answered

/-- No creation begins while the counter has been set for a payment that has not been committed. -/
def BudgetStep (i : ApiInput) (v : Backend × Bool) (c : ApiCommand) : Prop :=
  AvailableStep customerId rail day i v.1 c ∧
    match c with
    | .begin => v.2 = false
    | _ => True

instance (i : ApiInput) (v : Backend × Bool) (c : ApiCommand) :
    Decidable (BudgetStep customerId rail day i v c) := by
  unfold BudgetStep
  split <;> infer_instance

end Budget

/-! ## The counter and the rows -/

/-- The counter is the total of the rows in cents, within the limit. -/
structure BudgetKept (customerId : String) (rail : PaymentMethod) (policy : LimitsPolicy)
    (day : Instant) (b : Backend) : Prop extends WithinLimit customerId rail policy day b where
  counter : ∃ n, (b.database.sumOutgoingSince customerId rail day).IsCents n ∧
    b.CounterIs (counterKey customerId rail day) n

/-- The counter has been set for a payment of `m` cents that has not been committed. -/
structure Reserved (customerId : String) (rail : PaymentMethod) (policy : LimitsPolicy)
    (day : Instant) (m : Int) (v : Backend × Bool) : Prop where
  pending : v.2 = true
  room : HasRoom customerId rail policy day m v.1
  counter : ∃ n, (v.1.database.sumOutgoingSince customerId rail day).IsCents n ∧
    v.1.CounterIs (counterKey customerId rail day) (n + m)

/-- No payment is pending. -/
structure Settled (customerId : String) (rail : PaymentMethod) (policy : LimitsPolicy)
    (day : Instant) (v : Backend × Bool) : Prop where
  pending : v.2 = false
  kept : BudgetKept customerId rail policy day v.1

/-- Neither the counter nor a cached policy. -/
def IsApart (customerId : String) (rail : PaymentMethod) (day : Instant) (key : String) : Prop :=
  ¬ IsPolicyKey key ∧ key ≠ counterKey customerId rail day

section States

variable {customerId : String} {rail : PaymentMethod} {policy : LimitsPolicy} {day : Instant}
  {m : Int} {b b' : Backend} {v : Backend × Bool} {i : ApiInput} {c : ApiCommand}

theorem pendingNote_of_uses {K : String → Prop}
    (hK : ∀ key, K key → key ≠ counterKey customerId rail day) (i : ApiInput) (hc : c.Uses K)
    (pending : Bool) :
    pendingNote customerId rail day pending i b c = pending := by
  cases c with
  | redis command =>
    cases command with
    | set key text ex => exact if_neg (hK _ hc)
    | _ => rfl
  | commit => exact hc.elim
  | _ => rfl

theorem BudgetKept.of_agreeOff (hagree : b.AgreeOff (IsApart customerId rail day) b')
    (h : BudgetKept customerId rail policy day b) : BudgetKept customerId rail policy day b' := by
  obtain ⟨n, hn, hcounter⟩ := h.counter
  refine ⟨h.toWithinLimit.of_agreeOff (hagree.mono fun _ hkey => hkey.1), n, ?_, ?_⟩
  · rw [hagree.database]
    exact hn
  · exact hcounter.of_eq (hagree.redis _ fun hkey => hkey.2 rfl)

theorem Settled.of_uses (hc : c.Uses (IsApart customerId rail day))
    (hagree : v.1.AgreeOff (IsApart customerId rail day) b')
    (h : Settled customerId rail policy day v) :
    Settled customerId rail policy day (b', pendingNote customerId rail day v.2 i v.1 c) :=
  ⟨(pendingNote_of_uses (fun _ hkey => hkey.2) i hc _).trans h.pending, h.kept.of_agreeOff hagree⟩

theorem Reserved.of_uses (hc : c.Uses (IsApart customerId rail day))
    (hagree : v.1.AgreeOff (IsApart customerId rail day) b')
    (h : Reserved customerId rail policy day m v) :
    Reserved customerId rail policy day m (b', pendingNote customerId rail day v.2 i v.1 c) := by
  obtain ⟨n, hn, hcounter⟩ := h.counter
  refine ⟨(pendingNote_of_uses (fun _ hkey => hkey.2) i hc _).trans h.pending,
    h.room.of_agreeOff (hagree.mono fun _ hkey => hkey.1), n, ?_, ?_⟩
  · rw [hagree.database]
    exact hn
  · exact hcounter.of_eq (hagree.redis _ fun hkey => hkey.2 rfl)

/-- What a creation leaves: either the counter is the total, or the payment it has been set for has
not been committed. -/
def Kept (customerId : String) (rail : PaymentMethod) (policy : LimitsPolicy) (day : Instant)
    (v : Backend × Bool) : Prop :=
  v.2 = false → BudgetKept customerId rail policy day v.1

theorem Settled.leaves (h : Settled customerId rail policy day v) :
    Kept customerId rail policy day v :=
  fun _ => h.kept

theorem Reserved.leaves (h : Reserved customerId rail policy day m v) :
    Kept customerId rail policy day v := by
  intro hpending
  rw [h.pending] at hpending
  cases hpending

/-- The commit of a payment that counts makes the rows what the counter is. -/
theorem Reserved.insert (hpolicy : policy.Stored) (hm : 0 < m)
    (h : Reserved customerId rail policy day m v) {payment : Payment}
    (hamount : payment.amount.IsCents m) (hspends : Spends customerId rail payment)
    (hday : day ≤ payment.createdAt) (event : Option OutboxEvent) (record : IdempotencyRecord) :
    BudgetKept customerId rail policy day
      { v.1 with database := v.1.database.insert payment event record } := by
  obtain ⟨n, hn, hcounter⟩ := h.counter
  have hsum := v.1.database.sumOutgoingSince_insert hamount hn event record
  rw [if_pos ⟨hspends.1, hspends.2.1, hday, hspends.2.2⟩] at hsum
  exact ⟨h.room.insert hpolicy hm hamount event record, n + m, hsum, hcounter⟩

/-- The commit of a payment that does not count leaves the total as it was. -/
theorem BudgetKept.insert (h : BudgetKept customerId rail policy day b) {payment : Payment}
    (hspends : ¬ Spends customerId rail payment) (event : Option OutboxEvent)
    (record : IdempotencyRecord) :
    BudgetKept customerId rail policy day
      { b with database := b.database.insert payment event record } := by
  have hnot : ¬ Database.Outgoing customerId rail day payment :=
    fun hout => hspends ⟨hout.1, hout.2.1, hout.2.2.2⟩
  have hsum : (b.database.insert payment event record).sumOutgoingSince customerId rail day =
      b.database.sumOutgoingSince customerId rail day := by
    unfold Database.sumOutgoingSince
    rw [Database.outgoingSince_insert, if_neg hnot, List.append_nil]
  obtain ⟨n, hn, hcounter⟩ := h.counter
  exact ⟨⟨h.found, h.cached, hsum ▸ h.total, hsum ▸ h.le⟩, n, hsum ▸ hn, hcounter⟩

end States

/-! ## The controls -/

theorem isApart_velocity (customerId : String) (rail : PaymentMethod) (day : Instant)
    (customerId' : String) (rail' : PaymentMethod) :
    IsApart customerId rail day (limitsVelocityKey customerId' rail') :=
  ⟨limitsVelocityKey_not_policy _ _, fun h => limitsVelocityKey_not_daily _ _ ⟨_, _, _, h⟩⟩

theorem isApart_rate (customerId : String) (rail : PaymentMethod) (day : Instant)
    (dimension : RateLimitDimension) (value : String) (bucket : Int) :
    IsApart customerId rail day (rateLimitKey dimension value bucket) :=
  ⟨rateLimitKey_not_policy _ _ _, append_ne_append 0 (by decide) (by decide) (by decide)⟩

theorem isApart_aml (customerId : String) (rail : PaymentMethod) (day : Instant)
    (customerId' : String) : IsApart customerId rail day (amlHistoryKey customerId') :=
  ⟨amlHistoryKey_not_policy _, append_ne_append 0 (by decide) (by decide) (by decide)⟩

theorem isApart_daily {customerId customerId' : String} {rail rail' : PaymentMethod}
    (day t : Instant) (hother : ¬ (customerId' = customerId ∧ rail' = rail)) :
    IsApart customerId rail day (limitsDailyKey (dateKey t) customerId' rail') := by
  refine ⟨limitsDailyKey_not_policy _ _ _, fun h => hother ?_⟩
  exact (RedisKey.limitsDailyKey_injective (colon_not_mem_dateKey _) (colon_not_mem_dateKey _) h).2

theorem counterKey_not_policy (customerId : String) (rail : PaymentMethod) (day : Instant) :
    ¬ IsPolicyKey (counterKey customerId rail day) :=
  limitsDailyKey_not_policy _ _ _

/-- A `SET` that is answered has set its key. -/
theorem Backend.execRedis_set_of_isSome {i : ApiInput} {b : Backend} {key : String}
    {text : StoredText} {ex : Int} (h : (b.execRedis i (.set key text ex)).1.isSome = true) :
    (b.execRedis i (.set key text ex)).2 = { b with redis := b.redis.fresh i.now key text ex } := by
  unfold execRedis at h ⊢
  simp only [Redis.exec] at h ⊢
  by_cases hex : 0 < ex
  · rw [if_pos hex] at h ⊢
    cases hi : i.redis with
    | answered => rfl
    | redisError applied =>
      cases applied with
      | true => rfl
      | false =>
        rw [hi] at h
        cases h
  · rw [if_neg hex] at h
    cases h

namespace LimitsService

variable {customerId : String} {rail : PaymentMethod} {policy : LimitsPolicy} {day : Instant}
  {m : Int} {v : Backend × Bool}

theorem ensures_getPolicy_settled (h : Settled customerId rail policy day v) (ttl : Int)
    (rail' : PaymentMethod) :
    (getPolicy ttl rail').Ensures (Backend.noting (pendingNote customerId rail day))
      (BudgetStep customerId rail day) (fun o v' => Settled customerId rail policy day v' ∧
        IfReturned (fun policy' => v.1.database.policyByRail rail' = some policy') o) v := by
  obtain ⟨b, pending⟩ := v
  obtain ⟨n, hn, hcounter⟩ := h.kept.counter
  have hpolicy : (getPolicy ttl rail').Ensures Backend.handler
      (fun i b' c => BudgetStep customerId rail day i (b', pending) c)
      (fun o b' => b.AgreeOff IsPolicyKey b' ∧ b'.PoliciesCached ∧
        IfReturned (fun policy' => b.database.policyByRail rail' = some policy') o) b :=
    ensures_getPolicy h.kept.cached ttl rail'
  refine (hpolicy.noting (P := ApiCommand.Uses IsPolicyKey) (uses_getPolicy ⟨rail', rfl⟩ ttl)
    (fun i b c hc => pendingNote_of_uses ?_ i hc pending) fun _ _ _ hi => hi).mono ?_
  · rintro key hkey rfl
    exact counterKey_not_policy _ _ _ hkey
  · rintro o v' ⟨⟨hagree, hcached, hfound⟩, hpending⟩
    refine ⟨⟨hpending.trans h.pending, h.kept.of_database hagree.database hcached, n, ?_, ?_⟩,
      hfound⟩
    · rw [hagree.database]
      exact hn
    · exact hcounter.of_eq (hagree.redis _ (counterKey_not_policy _ _ _))

/-- A program without Redis commands, which takes no notes. -/
theorem ensures_without_redis {α : Type} {p : ApiProgram α}
    {post : Except ApiException α → Backend → Prop} (hissues : p.Uses fun _ => False)
    (hp : p.Ensures Backend.handler
      (fun i b c => BudgetStep customerId rail day i (b, v.2) c) post v.1) :
    p.Ensures (Backend.noting (pendingNote customerId rail day)) (BudgetStep customerId rail day)
      (fun o v' => post o v'.1 ∧ v'.2 = v.2) v :=
  hp.noting hissues (fun i _ _ hc => pendingNote_of_uses (fun _ hkey => hkey.elim) i hc v.2)
    fun _ _ _ hi => hi

/-- The counter is read as it is. -/
theorem ensures_redisGetInt_counter {n : Int}
    (hcounter : v.1.CounterIs (counterKey customerId rail day) n) :
    (redisGetInt (counterKey customerId rail day)).Ensures
      (Backend.noting (pendingNote customerId rail day)) (BudgetStep customerId rail day)
      (fun o v' => v' = v ∧ o = .ok n) v := by
  obtain ⟨b, pending⟩ := v
  have hread : (redisGetInt (counterKey customerId rail day)).Ensures Backend.handler
      (fun i b' c => BudgetStep customerId rail day i (b', pending) c) (fun o b' => b' = b ∧
        ∃ i, BudgetStep customerId rail day i (b, pending)
          (.redis (.get (counterKey customerId rail day))) ∧
            o = readReply (b.execRedis i (.get (counterKey customerId rail day))).1) b :=
    ensures_redisGetInt _
  have hget : (redisGetInt (counterKey customerId rail day)).Issues fun c =>
      ∀ i b, pendingNote customerId rail day pending i b c = pending :=
    issues_redisGetInt fun _ _ => rfl
  refine (hread.noting hget (fun i b _ hc => hc i b) fun _ _ _ hi => hi).mono ?_
  rintro o v' ⟨⟨hb, i, ⟨⟨-, hlive, hsome⟩, -⟩, rfl⟩, hpending⟩
  refine ⟨Prod.ext hb hpending, ?_⟩
  obtain ⟨text, hreply⟩ := Option.isSome_iff_exists.1 hsome
  rw [hreply]
  simp only [readReply, hcounter.readInt_eq hlive hreply, Option.elim]

/-- The counter is set for a payment there is room for. -/
theorem ensures_setCounter {n : Int} (h : Settled customerId rail policy day v)
    (hn : (v.1.database.sumOutgoingSince customerId rail day).IsCents n)
    (hroom : ∀ limit, policy.dailyLimitAmount.IsCents limit → n + m ≤ limit) (ex : Int) :
    (redis (.set (counterKey customerId rail day) (.int (n + m)) ex)).Ensures
      (Backend.noting (pendingNote customerId rail day)) (BudgetStep customerId rail day)
      (fun o v' => o = .ok () ∧ Reserved customerId rail policy day m v') v := by
  refine ensures_redis_noting.2 fun i hi => ?_
  obtain ⟨⟨-, -, hsome⟩, -⟩ := hi
  obtain ⟨reply, hreply⟩ := Option.isSome_iff_exists.1 hsome
  have hagree : v.1.AgreeOff (¬ IsPolicyKey ·) (v.1.execRedis i
      (.set (counterKey customerId rail day) (.int (n + m)) ex)).2 :=
    Backend.agreeOff_execRedis i (counterKey_not_policy _ _ _)
  have hworld := Backend.execRedis_set_of_isSome hsome
  rw [hreply]
  refine ⟨rfl, if_pos rfl, ⟨h.kept.toWithinLimit.of_agreeOff hagree, ?_⟩, n, ?_, ?_⟩
  · intro n' limit hn' hlimit
    rw [hagree.database] at hn'
    cases hn.unique hn'
    exact hroom limit hlimit
  · rw [hagree.database]
    exact hn
  · rw [hworld]
    exact .of_fresh _ _ _ _ _

/-- The daily check sets the counter for the amount, or raises and leaves the counter as it was. -/
theorem ensures_enforceDailyLimit_reserves (hpolicy : policy.Stored) {amount : Decimal}
    (hamount : amount.IsCents m) (hm : m.natAbs < 10 ^ 18)
    (h : Settled customerId rail policy day v) :
    (enforceDailyLimit customerId rail amount policy).Ensures
      (Backend.noting (pendingNote customerId rail day)) (BudgetStep customerId rail day)
      (either (fun _ => Reserved customerId rail policy day m)
        (Settled customerId rail policy day)) v := by
  obtain ⟨limit, hlimit, hlimit'⟩ := hpolicy.dailyLimitAmount
  obtain ⟨n, hn, hcounter⟩ := h.kept.counter
  refine ensures_issue_bind.2 fun i hi => ensures_tryCatch.2 ?_
  have hkey : limitsDailyKey (dateKey i.now) customerId rail = counterKey customerId rail day := by
    rw [counterKey, ← hi.1.1, dateKey_utcDayStart]
  simp only [Handler.noting, Backend.handler, Backend.exec, hkey]
  have hset : (countDailyAmount (counterKey customerId rail day) rail amount policy).Ensures
      (Backend.noting (pendingNote customerId rail day)) (BudgetStep customerId rail day)
      (fun o v' => IfReturned (fun _ => Reserved customerId rail policy day m v') o ∧
        IfRaised (fun e => (∃ error, e = .app error) ∧ Settled customerId rail policy day v') o)
      v := by
    refine (ensures_redisGetInt_counter hcounter).bind ?_ fun e v' h => by cases h.2
    rintro k v' ⟨rfl, hk⟩
    cases hk
    rw [hamount.asCents (by omega), hlimit.asCents (by omega)]
    by_cases hover : limit < n + m
    · simp only [if_pos hover]
      exact ⟨trivial, ⟨_, rfl⟩, h⟩
    simp only [if_neg hover]
    refine ensures_issue_bind.2 fun t _ => (ensures_setCounter h hn ?_ _).mono ?_
    · intro limit' hlimit''
      cases hlimit.unique hlimit''
      omega
    · rintro o v' ⟨rfl, hreserved⟩
      exact ⟨hreserved, trivial⟩
  refine hset.mono ?_
  rintro (e | _) v' ⟨hreserved, hraised⟩
  · obtain ⟨⟨error, rfl⟩, hsettled⟩ := hraised
    exact hsettled
  · exact hreserved

/-- The limits set the counter for the amount, or leave it as it was or the payment pending. -/
theorem ensures_enforce_reserves (hpolicy : policy.Stored) {amount : Decimal}
    (hamount : amount.IsCents m) (hm : 0 < m) (ttl : Int)
    (h : Settled customerId rail policy day v) :
    (enforce ttl customerId rail amount).Ensures
      (Backend.noting (pendingNote customerId rail day)) (BudgetStep customerId rail day)
      (either (fun _ => Reserved customerId rail policy day m)
        (Kept customerId rail policy day)) v := by
  refine (ensures_getPolicy_settled h ttl rail).bind ?_ fun e v' h => h.1.leaves
  rintro policy' v₁ ⟨h₁, hfound⟩
  obtain rfl : policy' = policy := Option.some.inj (hfound.symm.trans h.kept.found)
  refine (ensures_without_redis (v := v₁) (uses_enforceTransactionAmount policy' amount)
    (ensures_enforceTransactionAmount policy' amount)).bind ?_ ?_
  · rintro _ v₂ ⟨⟨hb, -, hmax⟩, hpending⟩
    obtain rfl : v₂ = v₁ := Prod.ext hb hpending
    obtain ⟨max, hmax', hbound⟩ := hpolicy.maxAmount
    rw [hamount.le_iff hmax'] at hmax
    refine (ensures_enforceDailyLimit_reserves hpolicy hamount (by omega) h₁).bind
      (fun _ v₃ h₃ => ?_) fun e v₃ h₃ => Settled.leaves h₃
    refine Ensures.bind_either (((uses_enforceVelocityLimit (isApart_velocity _ _ _ _ _)
      policy').keeps_noting Reserved.of_uses h₃).by_outcome (fun _ _ h => h)
      fun _ h => h.leaves) fun _ _ h => h
  · rintro e v' ⟨⟨hb, -⟩, hpending⟩
    obtain rfl : v' = v₁ := Prod.ext hb hpending
    exact h₁.leaves

/-- The limits of another customer or rail leave the counter alone. -/
theorem ensures_enforce_settled {customerId' : String} {rail' : PaymentMethod} {amount : Decimal}
    (hother : ¬ (customerId' = customerId ∧ rail' = rail)) (ttl : Int)
    (h : Settled customerId rail policy day v) :
    (enforce ttl customerId' rail' amount).Ensures
      (Backend.noting (pendingNote customerId rail day)) (BudgetStep customerId rail day)
      (fun _ => Settled customerId rail policy day) v := by
  refine (ensures_getPolicy_settled h ttl rail').bind (fun policy' v h => ?_) fun _ _ h => h.1
  refine Ensures.bind ((uses_enforceTransactionAmount policy' amount).keeps_noting
    Settled.of_uses h.1) (fun _ v h => ?_) fun _ _ h => h
  refine Ensures.bind ((uses_enforceDailyLimit (fun t => isApart_daily day t hother) amount
    policy').keeps_noting Settled.of_uses h) (fun _ v h => ?_) fun _ _ h => h
  exact Ensures.bind ((uses_enforceVelocityLimit (isApart_velocity _ _ _ _ _)
    policy').keeps_noting Settled.of_uses h) (fun _ _ h => h) fun _ _ h => h

/-! ## The fast path and the fallback -/

/-- What the daily check comes to. -/
def dailyOutcome (rail : PaymentMethod) (exceeded : Prop) [Decidable exceeded] :
    Except ApiException Unit :=
  if exceeded then .error (.app (.limitExceeded ("Daily limit exceeded for rail " ++ rail.value)))
  else .ok ()

theorem dailyOutcome_congr {exceeded exceeded' : Prop} [Decidable exceeded] [Decidable exceeded']
    (rail : PaymentMethod) (h : exceeded ↔ exceeded') :
    dailyOutcome rail exceeded = dailyOutcome rail exceeded' := by
  unfold dailyOutcome
  by_cases hexceeded : exceeded
  · rw [if_pos hexceeded, if_pos (h.1 hexceeded)]
  · rw [if_neg hexceeded, if_neg fun h' => hexceeded (h.2 h')]

section Paths

variable {b : Backend} {amount : Decimal}

/-- With Redis available the counter is read as it is. -/
theorem ensures_redisGetInt_available {n : Int}
    (hcounter : b.CounterIs (counterKey customerId rail day) n) :
    (redisGetInt (counterKey customerId rail day)).Ensures Backend.handler
      (AvailableStep customerId rail day) (fun o b' => b' = b ∧ o = .ok n) b := by
  refine (ensures_redisGetInt _).mono ?_
  rintro o b' ⟨rfl, i, ⟨-, hlive, hsome⟩, rfl⟩
  obtain ⟨text, hreply⟩ := Option.isSome_iff_exists.1 hsome
  rw [hreply]
  simp only [readReply, hcounter.readInt_eq hlive hreply, Option.elim]
  exact ⟨trivial, trivial⟩

/-- With Redis available the counter decides. -/
theorem ensures_countDailyAmount_available {n : Int}
    (hcounter : b.CounterIs (counterKey customerId rail day) n) :
    (countDailyAmount (counterKey customerId rail day) rail amount policy).Ensures Backend.handler
      (AvailableStep customerId rail day)
      (fun o _ => o = dailyOutcome rail
        (policy.dailyLimitAmount.asCents < n + amount.asCents)) b := by
  refine (ensures_redisGetInt_available hcounter).bind ?_ fun e b' h => by cases h.2
  rintro k b' ⟨rfl, hk⟩
  cases hk
  unfold dailyOutcome
  by_cases hover : policy.dailyLimitAmount.asCents < n + amount.asCents
  · simp only [if_pos hover]
    rfl
  simp only [if_neg hover]
  refine ensures_issue_bind.2 fun t _ => ensures_redis.2 fun i hi => ?_
  obtain ⟨reply, hreply⟩ := Option.isSome_iff_exists.1 hi.2.2
  change (b'.execRedis i _).1 = some reply at hreply
  change (b'.execRedis i _).1.elim _ _ = _
  rw [hreply]
  rfl

theorem ensures_enforceDailyLimit_available {n : Int}
    (hcounter : b.CounterIs (counterKey customerId rail day) n) :
    (enforceDailyLimit customerId rail amount policy).Ensures Backend.handler
      (AvailableStep customerId rail day)
      (fun o _ => o = dailyOutcome rail
        (policy.dailyLimitAmount.asCents < n + amount.asCents)) b := by
  refine ensures_issue_bind.2 fun i hi => ensures_tryCatch.2 ?_
  have hkey : limitsDailyKey (dateKey i.now) customerId rail = counterKey customerId rail day := by
    rw [counterKey, ← hi.1, dateKey_utcDayStart]
  simp only [Backend.handler, Backend.exec, hkey]
  refine (ensures_countDailyAmount_available hcounter).mono fun o b' ho => ?_
  by_cases hover : policy.dailyLimitAmount.asCents < n + amount.asCents
  · rw [dailyOutcome, if_pos hover] at ho ⊢
    subst ho
    rfl
  · rw [dailyOutcome, if_neg hover] at ho ⊢
    subst ho
    rfl

/-- Without Redis the counter is not read. -/
theorem ensures_countDailyAmount_unavailable (key : String) :
    (countDailyAmount key rail amount policy).Ensures Backend.handler (UnavailableStep day)
      (fun o b' => b' = b ∧ o = .error .redisError) b := by
  have hlost : (redisGetInt key).Ensures Backend.handler (UnavailableStep day)
      (fun o b' => b' = b ∧ o = .error .redisError) b := by
    refine (ensures_redisGetInt key).mono ?_
    rintro o b' ⟨rfl, i, hi, rfl⟩
    cases hreply : (b'.execRedis i (.get key)).1 with
    | none => exact ⟨rfl, rfl⟩
    | some reply => exact absurd (Backend.redis_eq_answered hreply) hi.2
  exact hlost.bind (fun _ _ h => by cases h.2) fun _ _ h => ⟨h.1, by cases h.2; rfl⟩

/-- Without Redis the rows decide. -/
theorem ensures_enforceDailyLimit_unavailable :
    (enforceDailyLimit customerId rail amount policy).Ensures Backend.handler (UnavailableStep day)
      (fun o _ => o = dailyOutcome rail (policy.dailyLimitAmount <
        b.database.sumOutgoingSince customerId rail day + amount)) b := by
  refine ensures_issue_bind.2 fun i _ => ensures_tryCatch.2 ?_
  refine (ensures_countDailyAmount_unavailable _).mono ?_
  rintro o b' ⟨hb, rfl⟩
  obtain rfl : b' = b := hb
  refine ensures_issue_bind.2 fun t ht => ensures_issue_bind.2 fun t' _ => ?_
  simp only [Backend.handler, Backend.exec, ht.1]
  unfold dailyOutcome
  by_cases hover : policy.dailyLimitAmount <
      b'.database.sumOutgoingSince customerId rail day + amount
  · simp only [if_pos hover]
    rfl
  · simp only [if_neg hover]
    rfl

end Paths

end LimitsService

/-! ## Runs -/

namespace Create

namespace Run

variable (cfg : ApiSettings) (r : Run)

section Creation

variable {customerId : String} {rail : PaymentMethod} {policy : LimitsPolicy} {day : Instant}
  {m : Int} {b : Backend} {v : Backend × Bool}

/-- The checks set the counter for the amount, or leave it as it was or the payment pending. -/
theorem ensures_checked_reserves (hcustomer : r.context.customerId = customerId)
    (hrail : r.request.method = rail) (hpolicy : policy.Stored)
    (hamount : r.request.amount.IsCents m) (hm : 0 < m) (h : Settled customerId rail policy day v) :
    (r.checked cfg).Ensures (Backend.noting (pendingNote customerId rail day))
      (BudgetStep customerId rail day)
      (either (fun _ => Reserved customerId rail policy day m)
        (Kept customerId rail policy day)) v := by
  subst hcustomer hrail
  have hidle : Idle (pendingNote r.context.customerId r.request.method day)
      (Settled r.context.customerId r.request.method policy day) :=
    Idle.of_uses Settled.of_uses
  refine (hidle.keeps r.uses_loadCustomerOrRaise h).bind (fun customer v h => ?_)
    fun _ _ h => h.leaves
  refine Ensures.bind_either ?_ fun _ _ h => h
  refine (hidle.keeps (KycService.uses_enforce customer _) h).bind (fun _ v h => ?_)
    fun _ _ h => h.leaves
  refine (LimitsService.ensures_enforce_reserves hpolicy hamount hm _ h).bind_either
    fun evaluation v h => ?_
  refine Ensures.bind_either (((RateLimiterService.uses_enforce (isApart_rate _ _ _) cfg _ _
    _).keeps_noting Reserved.of_uses h).by_outcome (fun _ _ h => h) fun _ h => h.leaves)
    fun _ _ h => h

theorem ensures_decided_reserves (hcustomer : r.context.customerId = customerId)
    (hrail : r.request.method = rail) (hpolicy : policy.Stored)
    (hamount : r.request.amount.IsCents m) (hm : 0 < m) (h : Settled customerId rail policy day v) :
    (r.decided cfg).Ensures (Backend.noting (pendingNote customerId rail day))
      (BudgetStep customerId rail day)
      (either (fun _ => Reserved customerId rail policy day m)
        (Kept customerId rail policy day)) v := by
  refine (r.ensures_checked_reserves cfg hcustomer hrail hpolicy hamount hm h).bind_either
    fun x v h => ?_
  exact ((r.uses_evaluateControls cfg (isApart_aml _ _ _ _) _ _).keeps_noting
    Reserved.of_uses h).by_outcome (fun _ _ h => h) fun _ h => h.leaves

/-- The controls of another customer or rail leave the counter alone. -/
theorem ensures_decided_settled
    (hother : ¬ (r.context.customerId = customerId ∧ r.request.method = rail))
    (h : Settled customerId rail policy day v) :
    (r.decided cfg).Ensures (Backend.noting (pendingNote customerId rail day))
      (BudgetStep customerId rail day) (fun _ => Settled customerId rail policy day) v := by
  have hidle : Idle (pendingNote customerId rail day) (Settled customerId rail policy day) :=
    Idle.of_uses Settled.of_uses
  have hchecked : (r.checked cfg).Ensures (Backend.noting (pendingNote customerId rail day))
      (BudgetStep customerId rail day) (fun _ => Settled customerId rail policy day) v := by
    refine (hidle.keeps r.uses_loadCustomerOrRaise h).bind (fun customer v h => ?_) fun _ _ h => h
    have hpre : (r.runPreChecks cfg customer).Ensures
        (Backend.noting (pendingNote customerId rail day)) (BudgetStep customerId rail day)
        (fun _ => Settled customerId rail policy day) v := by
      refine (hidle.keeps (KycService.uses_enforce customer _) h).bind (fun _ v h => ?_)
        fun _ _ h => h
      refine (LimitsService.ensures_enforce_settled hother _ h).bind (fun evaluation v h => ?_)
        fun _ _ h => h
      exact Ensures.bind ((RateLimiterService.uses_enforce (isApart_rate _ _ _) cfg _ _
        _).keeps_noting Settled.of_uses h) (fun _ _ h => h) fun _ _ h => h
    exact hpre.bind (fun _ _ h => h) fun _ _ h => h
  refine hchecked.bind (fun x v h => ?_) fun _ _ h => h
  exact (r.uses_evaluateControls cfg (isApart_aml _ _ _ _) _ _).keeps_noting Settled.of_uses h

/-- A gate that has another key than the counter leaves the counter alone. -/
theorem settled_gate (h : Settled customerId rail policy day v) {i : ApiInput}
    (hi : BudgetStep customerId rail day i v (r.gateCommand cfg)) :
    Settled customerId rail policy day
      ((Backend.noting (pendingNote customerId rail day)).exec i v (r.gateCommand cfg)).2 := by
  have hframe := v.1.execRedis_frame i (.setNx r.gateKey (.int 1) cfg.idempotencyTtlSeconds)
  obtain ⟨n, hn, hcounter⟩ := h.kept.counter
  refine ⟨h.pending, h.kept.of_database hframe.1 ?_, n, ?_, ?_⟩
  · exact h.kept.cached.execRedis i fun _ _ _ hof => by cases hof
  · rw [← hframe.1] at hn
    exact hn
  · exact hcounter.of_eq (hframe.2 _ fun _ heq => hi.1.2.2.1 heq.symm)

/-- A transaction after the counter has been set commits the payment, or leaves it pending. -/
theorem ensures_persistAndObserve_kept (hpolicy : policy.Stored)
    (hamount : r.request.amount.IsCents m) (hm : 0 < m) {startedAt : Instant}
    (hday : day ≤ startedAt) (decision : ControlDecision)
    (h : Reserved customerId rail policy day m v) :
    (r.persistAndObserve cfg startedAt decision).Ensures
      (Backend.noting (pendingNote customerId rail day)) (BudgetStep customerId rail day)
      (fun _ => Kept customerId rail policy day) v := by
  refine r.ensures_persistAndObserve cfg (Idle.of_uses Reserved.of_uses) h ?_
    fun _ h => h.leaves
  intro i v paymentId eventId t response payment event record commit h _
  refine ⟨fun haccepts => ?_, fun hno => ?_⟩
  · by_cases hspends : Spends customerId rail payment
    · have hsettled : Settled customerId rail policy day
          ({ v.1 with database := v.1.database.insert payment event record },
            pendingNote customerId rail day v.2 i v.1 commit) :=
        ⟨if_pos ⟨hspends, haccepts⟩, h.insert hpolicy hm hamount hspends hday event record⟩
      exact ((r.uses_afterCommitObservability cfg (isApart_aml _ _ _ _) _).keeps_noting
        Settled.of_uses hsettled).mono fun _ _ h => h.leaves
    · have hpending : pendingNote customerId rail day v.2 i v.1 commit = true :=
        (if_neg fun hand => hspends hand.1).trans h.pending
      refine ((r.uses_afterCommitObservability cfg (isApart_aml customerId rail day _)
        _).keeps_noting (Q := fun v => v.2 = true) (fun {i _ _ _} hc _ h => ?_)
        hpending).mono fun _ v h hfalse => ?_
      · exact (pendingNote_of_uses (fun _ hkey => hkey.2) i hc _).trans h
      · rw [h] at hfalse
        cases hfalse
  · have hnote : pendingNote customerId rail day v.2 i v.1 commit = v.2 :=
      if_neg fun hand => hno hand.2
    exact ⟨hnote.trans h.pending, h.room, h.counter⟩

/-- A creation of the customer on the rail. -/
theorem ensures_kept (hcustomer : r.context.customerId = customerId)
    (hrail : r.request.method = rail) (hpolicy : policy.Stored)
    (hamount : r.request.amount.IsCents m) (hm : 0 < m) (h : Kept customerId rail policy day v) :
    (r.execute cfg).Ensures (Backend.noting (pendingNote customerId rail day))
      (BudgetStep customerId rail day) (fun _ => Kept customerId rail policy day) v := by
  refine r.ensures_execute cfg (Idle.of_uses Settled.of_uses) (fun i hi => ⟨hi.2, h hi.2⟩)
    (fun i v hi h => r.settled_gate cfg h hi) (fun i v₀ v hi h => ?_) fun _ h => h.leaves
  rw [createPaymentWithControls_eq]
  refine (r.ensures_decided_reserves cfg hcustomer hrail hpolicy hamount hm h).bind
    (fun decision v h => ?_) fun _ _ h => h
  exact r.ensures_persistAndObserve_kept cfg hpolicy hamount hm
    (hi.1.1 ▸ utcDayStart_le i.now) decision h

/-- A creation of another customer or on another rail. -/
theorem ensures_kept_of_other
    (hother : ¬ (r.context.customerId = customerId ∧ r.request.method = rail))
    (h : Kept customerId rail policy day v) :
    (r.execute cfg).Ensures (Backend.noting (pendingNote customerId rail day))
      (BudgetStep customerId rail day) (fun _ => Kept customerId rail policy day) v := by
  refine r.ensures_execute cfg (Idle.of_uses Settled.of_uses) (fun i hi => ⟨hi.2, h hi.2⟩)
    (fun i v hi h => r.settled_gate cfg h hi) (fun i v₀ v hi h => ?_) fun _ h => h.leaves
  rw [createPaymentWithControls_eq]
  refine (r.ensures_decided_settled cfg hother h).bind (fun decision v h => ?_)
    fun _ _ h => h.leaves
  refine r.ensures_persistAndObserve cfg (Idle.of_uses Settled.of_uses) h ?_ fun _ h => h.leaves
  intro i v paymentId eventId t response payment event record commit h _
  have hspends : ¬ Spends customerId rail payment := fun hspends =>
    hother ⟨hspends.1, hspends.2.1⟩
  have hnote : pendingNote customerId rail day v.2 i v.1 commit = v.2 :=
    if_neg fun hand => hspends hand.1
  refine ⟨fun _ => ?_, fun _ => ⟨hnote.trans h.pending, h.kept⟩⟩
  have hsettled : Settled customerId rail policy day
      ({ v.1 with database := v.1.database.insert payment event record },
        pendingNote customerId rail day v.2 i v.1 commit) :=
    ⟨hnote.trans h.pending, BudgetKept.insert h.kept hspends event record⟩
  exact ((r.uses_afterCommitObservability cfg (isApart_aml _ _ _ _) _).keeps_noting
    Settled.of_uses hsettled).mono fun _ _ h => h.leaves

/-- The counter is the total of the rows in cents, and the daily check of an amount comes to the
same with Redis available and without it. -/
structure CounterFollows (customerId : String) (rail : PaymentMethod) (policy : LimitsPolicy)
    (day : Instant) (b : Backend) : Prop where
  counter : ∃ n, (b.database.sumOutgoingSince customerId rail day).IsCents n ∧
    b.CounterIs (counterKey customerId rail day) n
  decides : ∀ amount m, amount.IsCents m → 0 < m → amount ≤ policy.maxAmount → ∀ is is',
    (LimitsService.enforceDailyLimit customerId rail amount policy).Meets Backend.handler
      (AvailableStep customerId rail day) b is →
    (LimitsService.enforceDailyLimit customerId rail amount policy).Meets Backend.handler
      (UnavailableStep day) b is' →
    ((LimitsService.enforceDailyLimit customerId rail amount policy).run Backend.handler b
        is).outcome =
      ((LimitsService.enforceDailyLimit customerId rail amount policy).run Backend.handler b
        is').outcome

/-- The counter is over the limit in cents where the rows are. -/
theorem exceeds_iff_of_kept (hpolicy : policy.Stored)
    (h : BudgetKept customerId rail policy day b) {amount : Decimal} {n : Int}
    (hamount : amount.IsCents m) (hm : 0 < m) (hmax : amount ≤ policy.maxAmount)
    (hn : b.CounterIs (counterKey customerId rail day) n) :
    policy.dailyLimitAmount.asCents < n + amount.asCents ↔
      policy.dailyLimitAmount < b.database.sumOutgoingSince customerId rail day + amount := by
  obtain ⟨total, htotal, hcounter⟩ := h.counter
  obtain ⟨total', htotal', hpos⟩ := h.total
  obtain ⟨limit, hlimit, hlimit'⟩ := hpolicy.dailyLimitAmount
  obtain ⟨max, hmax', hbound⟩ := hpolicy.maxAmount
  cases hn.unique hcounter
  cases htotal.unique htotal'
  have hle := (htotal.le_iff hlimit).1 h.le
  rw [hamount.le_iff hmax'] at hmax
  rw [hamount.asCents (by omega), hlimit.asCents (by omega),
    hlimit.lt_iff (htotal.add hamount (by omega))]

theorem BudgetKept.follows (hpolicy : policy.Stored) (h : BudgetKept customerId rail policy day b) :
    CounterFollows customerId rail policy day b := by
  refine ⟨h.counter, fun amount m hamount hm hmax is is' hmeets hmeets' => ?_⟩
  obtain ⟨n, -, hn⟩ := h.counter
  have hfast := (LimitsService.ensures_enforceDailyLimit_available hn).run hmeets
  have hrows := LimitsService.ensures_enforceDailyLimit_unavailable.run hmeets'
  have hexceeds := exceeds_iff_of_kept hpolicy h hamount hm hmax hn
  exact hfast.trans ((LimitsService.dailyOutcome_congr rail hexceeds).trans hrows.symm)

/-- Where no creation ends between the counter and the commit of a payment that counts, the counter
follows the rows. -/
theorem counter_follows_total {runs : List Run} {is : Nat → ApiInput} (hpolicy : policy.Stored)
    (hruns : ∀ r ∈ runs, ∃ m, r.request.amount.IsCents m ∧ 0 < m)
    (hstart : BudgetKept customerId rail policy day b)
    (hmeets : (creations cfg runs).Meets (Backend.noting (pendingNote customerId rail day))
      (BudgetStep customerId rail day) (b, false) is)
    (hend : ((creations cfg runs).run (Backend.noting (pendingNote customerId rail day)) (b, false)
      is).world.2 = false) :
    CounterFollows customerId rail policy day
      ((creations cfg runs).run Backend.handler b is).world := by
  have hkept : (creations cfg runs).Ensures (Backend.noting (pendingNote customerId rail day))
      (BudgetStep customerId rail day) (fun _ => Kept customerId rail policy day) (b, false) := by
    refine ensures_creations cfg (fun r hr v h => ?_) fun _ => hstart
    obtain ⟨m, hamount, hm⟩ := hruns r hr
    by_cases hpayer : r.context.customerId = customerId ∧ r.request.method = rail
    · exact r.ensures_kept cfg hpayer.1 hpayer.2 hpolicy hamount hm h
    · exact r.ensures_kept_of_other cfg hpayer h
  have hfollows := BudgetKept.follows hpolicy (hkept.run hmeets hend)
  rw [run_noting.2.1] at hfollows
  exact hfollows

end Creation

/-! ## A payment that is blocked -/

/-- A payment of 100.00 to a destination of the blocklist. -/
def blockedPayment : Run :=
  { sampleRequest with request := { sampleRequest.request with destination := "dest-blocked-001" } }

theorem blockedPayment_pays : ∀ r ∈ [blockedPayment], ∃ m, r.request.amount.IsCents m ∧ 0 < m := by
  intro r hr
  have hamount : (⟨10000, -2⟩ : Decimal).IsCents 10000 := Decimal.isCents_mk _
  cases List.mem_singleton.1 hr
  exact ⟨10000, hamount, by decide⟩

theorem tightStart_kept : BudgetKept "c" .pix tightPolicy 0 tightStart :=
  ⟨tightStart_within, 0, Decimal.isCents_zero, rfl⟩

/-- Two payments, the second of which is over the limit. -/
theorem counter_follows_total_refused :
    CounterFollows "c" .pix tightPolicy 0 ((creations .default twoPayments).run Backend.handler
      tightStart fun n => ⟨0, .answered, n⟩).world :=
  counter_follows_total .default tightPolicy_stored
    (fun r hr => (twoPayments_pay r hr).amount) tightStart_kept (by decide +kernel)
    (by decide +kernel)

/-- A payment is blocked after the counter has been set for it: the counter is at 100.00, and the
total is zero. -/
theorem blocked_payment_counted : ¬ ∀ (cfg : ApiSettings) (customerId : String)
    (rail : PaymentMethod) (policy : LimitsPolicy) (day : Instant) (runs : List Run) (b : Backend)
    (is : Nat → ApiInput), policy.Stored →
      (∀ r ∈ runs, ∃ m, r.request.amount.IsCents m ∧ 0 < m) →
        (runs.map (·.context.idempotencyKey)).Nodup → BudgetKept customerId rail policy day b →
          (creations cfg runs).Meets Backend.handler (AvailableStep customerId rail day) b is →
            CounterFollows customerId rail policy day
              ((creations cfg runs).run Backend.handler b is).world := by
  intro hfollows
  have hblocked := hfollows .default "c" .pix tightPolicy 0 [blockedPayment] tightStart
    (fun n => ⟨0, .answered, n⟩) tightPolicy_stored blockedPayment_pays (by decide)
    tightStart_kept (by decide +kernel)
  obtain ⟨n, hn, hcounter⟩ := hblocked.counter
  have htotal : ((creations .default [blockedPayment]).run Backend.handler tightStart
      fun n => ⟨0, .answered, n⟩).world.database.sumOutgoingSince "c" .pix 0 = 0 := by
    decide +kernel
  have hset : ((creations .default [blockedPayment]).run Backend.handler tightStart
      fun n => ⟨0, .answered, n⟩).world.CounterIs (counterKey "c" .pix 0) 10000 := by
    decide +kernel
  rw [htotal] at hn
  cases hn.unique Decimal.isCents_zero
  cases hcounter.unique hset

end Run

end Create

end PaymentsLab
