import PaymentsLab.Api.ControlFrame

/-!
# The idempotency key of a refused request

A request takes the gate of its scope before the customer, KYC, the limits and the rate limiter can
refuse it, and nothing gives the gate back. Until its time to live has ended, a retry does not get
to the controls (`refused_key_held`); from then on it is treated as a request with a fresh key.
-/

namespace PaymentsLab

open Foundation

namespace Create

namespace Run

open ApiProgram Program

variable (cfg : ApiSettings) (r : Run)

/-- The Redis key of the gate. -/
def gateKey : String :=
  idempotencyScopedKey r.context.merchantId r.context.idempotencyKey

/-- The controls that can refuse the request. -/
def checked : ApiProgram (Customer × LimitsService.Evaluation) := do
  let customer ← r.loadCustomerOrRaise
  let evaluation ← r.runPreChecks cfg customer
  return (customer, evaluation)

/-- All controls. -/
def decided : ApiProgram ControlDecision := do
  let (customer, evaluation) ← r.checked cfg
  r.evaluateControls cfg customer evaluation

theorem createPaymentWithControls_eq (startedAt : Instant) :
    r.createPaymentWithControls cfg startedAt =
      r.decided cfg >>= r.persistAndObserve cfg startedAt := by
  simp only [createPaymentWithControls, decided, checked, bind_assoc, pure_bind]

theorem isControl_checked : (r.checked cfg).IsControl :=
  Issues.bind r.uses_loadCustomerOrRaise.isControl fun customer =>
    Issues.bind (r.isControl_runPreChecks cfg customer) fun _ => issues_pure _

theorem isControl_decided : (r.decided cfg).IsControl :=
  Issues.bind (r.isControl_checked cfg) fun _ => r.isControl_evaluateControls cfg _ _

/-- `execute` with nothing in between. -/
def alone (b : Backend) (is : Nat → ApiInput) :
    Ran ApiException PaymentAcceptedResponse Backend ApiInput :=
  (r.execute cfg).run Backend.handler b is

/-- The gate's `SET NX`: whether the run goes on as the one that holds it, and the backend. -/
def takeGate (b : Backend) (i : ApiInput) : Bool × Backend :=
  let reply := b.execRedis i (.setNx r.gateKey (.int 1) cfg.idempotencyTtlSeconds)
  (reply.1.getD true, reply.2)

theorem run_acquire (b : Backend) (is : Nat → ApiInput) :
    (IdempotencyService.acquire cfg r.context.merchantId r.context.idempotencyKey).run
        Backend.handler b is =
      ⟨.ok (r.takeGate cfg b (is 0)).1, (r.takeGate cfg b (is 0)).2, fun n => is (n + 1)⟩ := by
  unfold IdempotencyService.acquire takeGate gateKey
  rw [run_tryCatch, run_redis]
  generalize b.execRedis (is 0) _ = reply
  obtain ⟨reply, b'⟩ := reply
  cases reply <;> rfl

theorem run_tryReturnReplayedResponse (b : Backend) (is : Nat → ApiInput) :
    r.tryReturnReplayedResponse.run Backend.handler b is =
      ⟨.ok ((b.database.getSnapshot r.context.merchantId r.context.idempotencyKey).map
        (·.responsePayload)), b, fun n => is (n + 1)⟩ :=
  rfl

theorem run_existingResponse (b : Backend) (is : Nat → ApiInput) :
    r.existingResponse.run Backend.handler b is =
      ⟨.ok ((b.database.getByMerchantAndIdempotency r.context.merchantId
        r.context.idempotencyKey).map r.buildResponseFromExistingPayment), b,
        fun n => is (n + 1)⟩ :=
  rfl

/-- A run whose scope has no snapshot, at the gate. -/
theorem alone_of_fresh {b : Backend} {is : Nat → ApiInput}
    (hfresh : b.database.getSnapshot r.context.merchantId r.context.idempotencyKey = none) :
    r.alone cfg b is =
      if (r.takeGate cfg b (is 2)).1 then
        (r.createPaymentWithControls cfg (is 0).now).run Backend.handler
          (r.takeGate cfg b (is 2)).2 fun n => is (n + 3)
      else
        (r.resolvePending pollLimit).run Backend.handler (r.takeGate cfg b (is 2)).2
          fun n => is (n + 3) := by
  have hbegin : Backend.handler.exec (is 0) b .begin = ((is 0).now, b) := rfl
  unfold alone execute ApiProgram.issue
  simp only [Program.run_bind, run_issue, hbegin, Ran.andThen_ok, run_tryReturnReplayedResponse,
    hfresh, Option.map_none, run_acquire]
  split <;> rfl

/-- With no row of the scope, `_resolve_pending_idempotent_request` ends in a conflict. -/
theorem run_resolvePending {b : Backend}
    (hsnapshot : b.database.getSnapshot r.context.merchantId r.context.idempotencyKey = none)
    (hpayment : b.database.getByMerchantAndIdempotency r.context.merchantId
      r.context.idempotencyKey = none) (n : Nat) (is : Nat → ApiInput) :
    ((r.resolvePending n).run Backend.handler b is).outcome = .error (.app .idempotencyConflict) ∧
      ((r.resolvePending n).run Backend.handler b is).world = b := by
  induction n generalizing is with
  | zero => exact ⟨rfl, rfl⟩
  | succ n ih =>
    unfold resolvePending
    simp only [Program.run_bind, run_tryReturnReplayedResponse, run_existingResponse, hsnapshot,
      hpayment, Option.map_none, Ran.andThen_ok]
    exact ih _

/-! ## After the controls -/

/-- What follows the commit does not raise, whatever the replies are. -/
theorem afterCommitObservability_obeys {admits : (c : ApiCommand) → ApiReply c → Prop}
    {allows : History ApiCommand ApiReply → ApiCommand → Prop}
    (hredis : ∀ h command, allows h (.redis command)) (hnow : ∀ h, allows h .now)
    (hcount : ∀ h, allows h .countInReview) (response : PaymentAcceptedResponse)
    (h : History ApiCommand ApiReply) :
    (r.afterCommitObservability cfg response).Obeys admits allows (fun _ o => o = .ok ()) h := by
  have hrecord : (AmlRuleEngine.recordOutgoing cfg r.context.customerId r.request.method
      r.request.amount).Obeys admits allows (fun _ o => o = .ok ()) h := by
    refine obeys_bind.2 ⟨hnow _, fun t _ => obeys_tryCatch.2 ?_⟩
    refine obeys_bind.2 (obeys_redis.2 ⟨hredis _ _, fun reply _ => ?_⟩)
    cases reply with
    | none => rfl
    | some _ =>
      refine obeys_bind.2 (obeys_redis.2 ⟨hredis _ _, fun reply _ => ?_⟩)
      cases reply with
      | none => rfl
      | some _ =>
        refine obeys_redis.2 ⟨hredis _ _, fun reply _ => ?_⟩
        cases reply <;> rfl
  unfold afterCommitObservability
  dsimp only
  split
  · refine obeys_bind.2 (hrecord.mono (fun _ _ => id) ?_)
    rintro h o rfl
    exact ⟨hcount _, fun _ _ => rfl⟩
  · exact ⟨hcount _, fun _ _ => rfl⟩

theorem run_afterCommitObservability_outcome (response : PaymentAcceptedResponse) (b : Backend)
    (is : Nat → ApiInput) :
    ((r.afterCommitObservability cfg response).run Backend.handler b is).outcome = .ok () := by
  have hobeys : (r.afterCommitObservability cfg response).Obeys
      (fun (c : ApiCommand) (_ : ApiReply c) => True) (fun _ _ => True)
      (fun _ o => o = .ok ()) [] :=
    r.afterCommitObservability_obeys cfg (fun _ _ => trivial) (fun _ => trivial)
      (fun _ => trivial) response []
  obtain ⟨_, h⟩ : ∃ _ : History ApiCommand ApiReply, ((r.afterCommitObservability cfg response).run
    Backend.handler b is).outcome = .ok () := hobeys.run fun _ _ _ => trivial
  exact h

/-- The scope of the request has no row. -/
structure ScopeFree (db : Database) : Prop where
  snapshot : db.getSnapshot r.context.merchantId r.context.idempotencyKey = none
  payment : db.getByMerchantAndIdempotency r.context.merchantId r.context.idempotencyKey = none

/-- With no row of the scope, `_resolve_replayed_after_conflict` ends in a conflict. -/
theorem run_resolveReplayedAfterConflict {b : Backend} (hfree : r.ScopeFree b.database)
    (is : Nat → ApiInput) :
    (r.resolveReplayedAfterConflict.run Backend.handler b is).outcome =
      .error (.app .idempotencyConflict) := by
  unfold resolveReplayedAfterConflict
  simp only [Program.run_bind, run_tryReturnReplayedResponse, run_existingResponse, hfree.snapshot,
    hfree.payment, Option.map_none, Ran.andThen_ok]
  rfl

/-- The response of a request that has passed the controls. -/
def acceptedResponse (paymentId : UUID) (decision : ControlDecision) : PaymentAcceptedResponse :=
  r.buildPaymentResponse paymentId decision.finalStatus decision.riskDecision decision.amlDecision

/-- The event of the request, as it is inserted. -/
def insertedEvent (response : PaymentAcceptedResponse) (eventId : UUID) (startedAt now : Instant) :
    Option OutboxEvent :=
  (r.outboxEvent response eventId startedAt).map fun event => { event with nextAttemptAt := now }

/-- The outcome of a request that has passed the controls. -/
theorem persistAndObserve_outcome {b : Backend} (hfree : r.ScopeFree b.database)
    (is : Nat → ApiInput) (startedAt : Instant) (decision : ControlDecision) :
    ((r.persistAndObserve cfg startedAt decision).run Backend.handler b is).outcome =
      if b.database.Accepts
          (r.paymentRow decision (r.acceptedResponse (is 0).uuid decision) startedAt)
          (r.insertedEvent (r.acceptedResponse (is 0).uuid decision) (is 1).uuid startedAt
            (is 2).now)
          (r.idempotencyRecord (r.acceptedResponse (is 0).uuid decision)) then
        .ok (r.acceptedResponse (is 0).uuid decision)
      else .error (.app .idempotencyConflict) := by
  let next (committed : Bool) : ApiProgram PaymentAcceptedResponse :=
    if committed then do
      r.afterCommitObservability cfg (r.acceptedResponse (is 0).uuid decision)
      return r.acceptedResponse (is 0).uuid decision
    else r.resolveReplayedAfterConflict
  let commit : ApiCommand := .commit
    (r.paymentRow decision (r.acceptedResponse (is 0).uuid decision) startedAt)
    (r.insertedEvent (r.acceptedResponse (is 0).uuid decision) (is 1).uuid startedAt (is 2).now)
    (r.idempotencyRecord (r.acceptedResponse (is 0).uuid decision))
  have hrun : (r.persistAndObserve cfg startedAt decision).run Backend.handler b is =
      (next (b.exec (is 3) commit).1).run Backend.handler (b.exec (is 3) commit).2
        fun n => is (n + 4) := rfl
  rw [hrun]
  simp only [commit, Backend.exec]
  split
  · simp only [next, if_true, Program.run_bind, Ran.andThen,
      run_afterCommitObservability_outcome, run_pure]
  · exact r.run_resolveReplayedAfterConflict hfree _

/-- Without a row of the scope, only the customer and the ids decide whether the rows of a request
are accepted. -/
theorem accepts_iff {db : Database} (hfree : r.ScopeFree db) (decision : ControlDecision)
    (response : PaymentAcceptedResponse) (startedAt : Instant) (event : Option OutboxEvent) :
    db.Accepts (r.paymentRow decision response startedAt) event (r.idempotencyRecord response) ↔
      (db.customerById r.context.customerId).isSome ∧
        (∀ row ∈ db.payments, row.paymentId ≠ response.paymentId) ∧
        ∀ row ∈ db.outbox, ∀ e ∈ event, row.eventId ≠ e.eventId :=
  ⟨fun ⟨hcustomer, hpayment, _, _, hevent⟩ => ⟨hcustomer, hpayment, hevent⟩,
    fun ⟨hcustomer, hpayment, hevent⟩ =>
      ⟨hcustomer, hpayment, hfree.payment, hfree.snapshot, hevent⟩⟩

/-- The request under another idempotency key. -/
def withKey (idempotencyKey : String) : Run :=
  { r with context := { r.context with idempotencyKey := idempotencyKey } }

/-- Past the gate, a request fares as it would under any other key without rows, on a backend the
controls cannot tell apart. -/
theorem createPaymentWithControls_outcome {b b' : Backend} (halike : b.Alike b')
    {idempotencyKey : String} (hfree : r.ScopeFree b.database)
    (hfree' : (r.withKey idempotencyKey).ScopeFree b'.database) (startedAt : Instant)
    (is : Nat → ApiInput) :
    ((r.createPaymentWithControls cfg startedAt).run Backend.handler b is).outcome =
      (((r.withKey idempotencyKey).createPaymentWithControls cfg startedAt).run Backend.handler b'
        is).outcome := by
  have hcontrol : (r.decided cfg).IsControl := r.isControl_decided cfg
  have hsame : (r.withKey idempotencyKey).decided cfg = r.decided cfg := rfl
  obtain ⟨houtcome, hinputs, hworld⟩ := hcontrol.run_congr (H := Backend.handler)
    (fun i b b' c hc h => Backend.Alike.exec h hc i) halike
  have hdatabase (b : Backend) : ((r.decided cfg).run Backend.handler b is).world.database =
      b.database :=
    hcontrol.run_preserves (Q := fun w => Backend.database w = b.database)
      (fun i _ c hc h => (Backend.exec_database hc i).trans h) rfl
  rw [createPaymentWithControls_eq, createPaymentWithControls_eq, hsame, Program.run_bind,
    Program.run_bind]
  unfold Ran.andThen
  rw [← houtcome]
  cases ((r.decided cfg).run Backend.handler b is).outcome with
  | error e => rfl
  | ok decision =>
    simp only []
    rw [persistAndObserve_outcome cfg r (hdatabase b ▸ hfree),
      persistAndObserve_outcome cfg _ (hdatabase b' ▸ hfree'), hinputs, hdatabase, hdatabase,
      halike.database]
    refine if_congr ?_ rfl rfl
    rw [accepts_iff r (halike.database ▸ hfree), accepts_iff _ hfree']
    exact Iff.rfl

/-! ## Refusals -/

/-- The run takes the gate, and the customer, KYC, the limits or the rate limiter raise. -/
structure Refused (b : Backend) (is : Nat → ApiInput) (e : ApiException) : Prop where
  fresh : b.database.getSnapshot r.context.merchantId r.context.idempotencyKey = none
  acquired : (r.takeGate cfg b (is 2)).1 = true
  refused : ((r.checked cfg).run Backend.handler (r.takeGate cfg b (is 2)).2
    fun n => is (n + 3)).outcome = .error e

/-- The gate is held at `now`. -/
def Held (b : Backend) (now : Instant) : Prop :=
  (b.redis.find now r.gateKey).isSome = true

instance (b : Backend) (now : Instant) : Decidable (r.Held b now) :=
  inferInstanceAs (Decidable (_ = true))

/-- The gate, taken at `now`. -/
def withGate (b : Backend) (now : Instant) : Backend :=
  { b with redis := b.redis.fresh now r.gateKey (.int 1) cfg.idempotencyTtlSeconds }

/-- The gate's `SET NX` at the server. -/
theorem exec_gate (b : Backend) (now : Instant) :
    Redis.exec now b.redis (.setNx r.gateKey (.int 1) cfg.idempotencyTtlSeconds) =
      if r.Held b now then some (false, b.redis)
      else some (true, (r.withGate cfg b now).redis) := by
  have hex : 0 < cfg.idempotencyTtlSeconds := by
    have hge := cfg.idempotencyTtlSeconds_ge
    omega
  simp only [Redis.exec, hex, if_true]
  rfl

theorem takeGate_answered {b : Backend} {i : ApiInput} (hi : i.redis = .answered) :
    r.takeGate cfg b i = if r.Held b i.now then (false, b) else (true, r.withGate cfg b i.now) := by
  have hexec := r.exec_gate cfg b i.now
  unfold takeGate Backend.execRedis
  by_cases hheld : r.Held b i.now
  · rw [if_pos hheld] at hexec ⊢
    simp only [hexec, hi, Option.getD_some]
  · rw [if_neg hheld] at hexec ⊢
    simp only [hexec, hi, Option.getD_some]
    rfl

/-- On a `RedisError` the run goes on, whether the command has been applied or not. -/
theorem takeGate_redisError {b : Backend} {i : ApiInput} (hi : i.redis ≠ .answered) :
    (r.takeGate cfg b i).1 = true := by
  unfold takeGate Backend.execRedis
  match h : i.redis with
  | .answered => exact absurd h hi
  | .redisError true | .redisError false =>
    cases Redis.exec i.now b.redis (.setNx r.gateKey (.int 1) cfg.idempotencyTtlSeconds) <;> rfl

/-- Where the gate is another's, it is not a key of the controls, and they do not see it. -/
theorem takeGate_alike {b : Backend} (hkey : ¬ IsControlKey r.gateKey) (i : ApiInput) :
    (r.takeGate cfg b i).2.Alike b := by
  refine ⟨(b.execRedis_frame i _).1, fun key hcontrol => (b.execRedis_frame i _).2 key ?_⟩
  rintro _ rfl
  exact hkey hcontrol

section Refused

variable {cfg r}
variable {b : Backend} {is : Nat → ApiInput} {e : ApiException}

/-- A refused run ends with its exception, where the controls have left it. -/
theorem Refused.alone (h : r.Refused cfg b is e) :
    (r.alone cfg b is).outcome = .error e ∧
      (r.alone cfg b is).world = ((r.checked cfg).run Backend.handler (r.takeGate cfg b (is 2)).2
        fun n => is (n + 3)).world := by
  have hrun : r.alone cfg b is = _ := r.alone_of_fresh cfg h.fresh
  rw [if_pos h.acquired, createPaymentWithControls_eq, Program.run_bind] at hrun
  unfold decided at hrun
  rw [Program.run_bind] at hrun
  unfold Ran.andThen at hrun
  rw [h.refused] at hrun
  rw [hrun]
  exact ⟨rfl, rfl⟩

/-- It persists nothing. -/
theorem Refused.database (h : r.Refused cfg b is e) :
    (r.alone cfg b is).world.database = b.database := by
  rw [h.alone.2]
  exact (r.isControl_checked cfg).run_preserves (Q := fun w => Backend.database w = b.database)
    (fun i _ c hc hw => (Backend.exec_database hc i).trans hw) (b.execRedis_frame (is 2) _).1

/-- The gate stays as it has been taken. -/
theorem Refused.gate (h : r.Refused cfg b is e) (hkey : ¬ IsControlKey r.gateKey) :
    (r.alone cfg b is).world.redis r.gateKey = (r.takeGate cfg b (is 2)).2.redis r.gateKey := by
  rw [h.alone.2]
  exact (r.isControl_checked cfg).run_preserves
    (Q := fun w => Backend.redis w r.gateKey = (r.takeGate cfg b (is 2)).2.redis r.gateKey)
    (fun i _ c hc hw => (Backend.exec_redis_of_not_control hc i hkey).trans hw) rfl

/-- Where Redis has answered, the gate is held until its time to live has ended. -/
theorem Refused.held_iff (h : r.Refused cfg b is e) (hkey : ¬ IsControlKey r.gateKey)
    (hi : (is 2).redis = .answered) (now : Instant) :
    r.Held (r.alone cfg b is).world now ↔
      now < (is 2).now + cfg.idempotencyTtlSeconds * 1000000 := by
  have htaken := r.takeGate_answered cfg (b := b) hi
  have hacquired := h.acquired
  rw [htaken] at hacquired
  by_cases hheld : r.Held b (is 2).now
  · rw [if_pos hheld] at hacquired
    cases hacquired
  · have hgate := h.gate hkey
    rw [htaken, if_neg hheld] at hgate
    unfold Held Redis.Store.find
    rw [hgate]
    simp [withGate, Redis.Store.fresh, Redis.Entry.Live]

end Refused

/-- A retry while the gate is held, with no row of the scope: a conflict, and nothing changes. -/
theorem alone_of_held {b : Backend} {is : Nat → ApiInput} (hfree : r.ScopeFree b.database)
    (hi : (is 2).redis = .answered) (hheld : r.Held b (is 2).now) :
    (r.alone cfg b is).outcome = .error (.app .idempotencyConflict) ∧
      (r.alone cfg b is).world = b := by
  rw [r.alone_of_fresh cfg hfree.snapshot, r.takeGate_answered cfg hi, if_pos hheld]
  exact r.run_resolvePending hfree.snapshot hfree.payment _ _

/-- A request whose gate is not held, or whose `SET NX` ends in a `RedisError`, goes on. -/
theorem takeGate_of_not_held {b : Backend} {i : ApiInput}
    (h : ¬ (i.redis = .answered ∧ r.Held b i.now)) : (r.takeGate cfg b i).1 = true := by
  by_cases hi : i.redis = .answered
  · rw [r.takeGate_answered cfg hi, if_neg fun hheld => h ⟨hi, hheld⟩]
  · exact r.takeGate_redisError cfg hi

/-- Otherwise a retry fares as a request with a fresh key. -/
theorem alone_of_not_held {b : Backend} {is : Nat → ApiInput} {idempotencyKey : String}
    (hfree : r.ScopeFree b.database)
    (hfree' : (r.withKey idempotencyKey).ScopeFree b.database)
    (hkey : ¬ IsControlKey r.gateKey)
    (hkey' : ¬ IsControlKey (r.withKey idempotencyKey).gateKey)
    (hgate : ¬ ((is 2).redis = .answered ∧ r.Held b (is 2).now))
    (hgate' : ¬ (r.withKey idempotencyKey).Held b (is 2).now) :
    (r.alone cfg b is).outcome = ((r.withKey idempotencyKey).alone cfg b is).outcome := by
  have halike := r.takeGate_alike cfg (b := b) hkey (is 2)
  have halike' := (r.withKey idempotencyKey).takeGate_alike cfg (b := b) hkey' (is 2)
  rw [r.alone_of_fresh cfg hfree.snapshot, (r.withKey idempotencyKey).alone_of_fresh cfg
    hfree'.snapshot, r.takeGate_of_not_held cfg hgate,
    (r.withKey idempotencyKey).takeGate_of_not_held cfg fun h => hgate' h.2, if_pos rfl,
    if_pos rfl]
  refine r.createPaymentWithControls_outcome cfg (halike.trans halike'.symm) ?_ ?_ _ _
  · rw [halike.database]
    exact hfree
  · rw [halike'.database]
    exact hfree'

/-- A request of the same merchant under the same idempotency key. -/
structure SameScope (retry : Run) : Prop where
  merchantId : retry.context.merchantId = r.context.merchantId
  idempotencyKey : retry.context.idempotencyKey = r.context.idempotencyKey

/-- How a retry fares. While its gate is held it ends in a conflict and changes nothing; otherwise
its outcome is that of a request under any key that is free. -/
structure RetryFares (b : Backend) (is : Nat → ApiInput) : Prop where
  held : (is 2).redis = .answered → r.Held b (is 2).now →
    (r.alone cfg b is).outcome = .error (.app .idempotencyConflict) ∧ (r.alone cfg b is).world = b
  free : ¬ ((is 2).redis = .answered ∧ r.Held b (is 2).now) → ∀ idempotencyKey,
    (r.withKey idempotencyKey).ScopeFree b.database →
      ¬ (r.withKey idempotencyKey).Held b (is 2).now →
        ¬ IsControlKey (r.withKey idempotencyKey).gateKey →
          (r.alone cfg b is).outcome = ((r.withKey idempotencyKey).alone cfg b is).outcome

variable {cfg r}

/-- A refused request persists nothing and holds its idempotency key until the time to live of the
gate has ended. -/
theorem refused_key_held {b : Backend} {is : Nat → ApiInput} {e : ApiException}
    (h : r.Refused cfg b is e) (hkey : ¬ IsControlKey r.gateKey) :
    (r.alone cfg b is).outcome = .error e ∧
      (r.alone cfg b is).world.database = b.database ∧
      ((is 2).redis = .answered → ∀ now, r.Held (r.alone cfg b is).world now ↔
        now < (is 2).now + cfg.idempotencyTtlSeconds * 1000000) ∧
      ∀ (retry : Run) (b' : Backend) (is' : Nat → ApiInput), r.SameScope retry →
        retry.ScopeFree b'.database →
          b'.redis r.gateKey = (r.alone cfg b is).world.redis r.gateKey →
            (∀ now, retry.Held b' now ↔ r.Held (r.alone cfg b is).world now) ∧
              retry.RetryFares cfg b' is' := by
  refine ⟨h.alone.1, h.database, h.held_iff hkey, fun retry b' is' hscope hfree hgate => ?_⟩
  have hsame : retry.gateKey = r.gateKey := by
    unfold gateKey
    rw [hscope.merchantId, hscope.idempotencyKey]
  refine ⟨fun now => ?_, fun hi hheld => retry.alone_of_held cfg hfree hi hheld,
    fun hnot k hfree' hheld' hkey' =>
      retry.alone_of_not_held cfg hfree hfree' (hsame ▸ hkey) hkey' hnot hheld'⟩
  unfold Held Redis.Store.find
  rw [hsame, hgate]

/-! ## A customer that comes later -/

/-- A request for 100.00 by a customer. -/
def sampleRequest : Run where
  context := ⟨"m", "c", "a", "k"⟩
  request := ⟨⟨10000, -2⟩, "BRL", .pix, none⟩
  traceId := "t"
  traceparent := none
  pc := .start

def samplePolicy : LimitsPolicy where
  rail := .pix
  minAmount := ⟨100, -2⟩
  maxAmount := ⟨500000, -2⟩
  dailyLimitAmount := ⟨2000000, -2⟩
  velocityLimitCount := 10
  velocityWindowSeconds := 60

/-- No customer yet. -/
def sampleBefore : Backend where
  database := ⟨[], [samplePolicy], [], [], []⟩
  redis _ := none

/-- The customer is there, and the gate as the refused request has left it. -/
def sampleAfter : Backend where
  database := ⟨[⟨"c", .basic, .active, 0⟩], [samplePolicy], [], [], []⟩
  redis := (sampleRequest.alone .default sampleBefore fun _ => ⟨0, .answered, 7⟩).world.redis

theorem sample_refused : sampleRequest.Refused .default sampleBefore (fun _ => ⟨0, .answered, 7⟩)
    (.app (.validation "Customer not found")) where
  fresh := rfl
  acquired := by decide
  refused := rfl

theorem sample_not_control (idempotencyKey : String) :
    ¬ IsControlKey (sampleRequest.withKey idempotencyKey).gateKey := by
  have hhead : (sampleRequest.withKey idempotencyKey).gateKey.toList[0]? = "m".toList[0]? :=
    (congrArg (·.toList[0]?) String.append_assoc).trans (head_append (p := "m") (by decide))
  refine not_isControlKey fun hmem => ?_
  rw [hhead] at hmem
  exact absurd hmem (by decide)

/-- A retry in the last second of the time to live, and one after it. -/
theorem refused_key_held_customer :
    (sampleRequest.alone .default sampleAfter fun _ => ⟨299999999, .answered, 7⟩).outcome =
        .error (.app .idempotencyConflict) ∧
      (sampleRequest.alone .default sampleAfter fun _ => ⟨300000000, .answered, 7⟩).outcome =
        ((sampleRequest.withKey "k2").alone .default sampleAfter
          fun _ => ⟨300000000, .answered, 7⟩).outcome := by
  have h := refused_key_held sample_refused (sample_not_control "k")
  have hretry (now : Instant) := (h.2.2.2 sampleRequest sampleAfter (fun _ => ⟨now, .answered, 7⟩)
    ⟨rfl, rfl⟩ ⟨rfl, rfl⟩ rfl).2
  exact ⟨((hretry 299999999).held rfl (by decide)).1,
    (hretry 300000000).free (by decide) "k2" ⟨rfl, rfl⟩ (by decide) (sample_not_control "k2")⟩

/-- The outcome is a response. -/
def Succeeds (o : Except ApiException PaymentAcceptedResponse) : Prop :=
  ∃ response, o = .ok response

/-- A request is refused for want of its customer. With the customer there, a request with a fresh
key succeeds, and the retry does not. -/
theorem refused_key_unusable : ¬ ∀ (cfg : ApiSettings) (r : Run) (b : Backend)
    (is : Nat → ApiInput) (e : ApiException), r.Refused cfg b is e →
      ∀ (retry : Run) (b' : Backend) (is' : Nat → ApiInput) (idempotencyKey : String),
        r.SameScope retry → retry.ScopeFree b'.database →
          b'.redis r.gateKey = (r.alone cfg b is).world.redis r.gateKey →
            (retry.withKey idempotencyKey).ScopeFree b'.database →
              ¬ (retry.withKey idempotencyKey).Held b' (is' 2).now →
                Succeeds ((retry.withKey idempotencyKey).alone cfg b' is').outcome →
                  Succeeds (retry.alone cfg b' is').outcome := by
  intro husable
  obtain ⟨response, hresponse⟩ := husable .default sampleRequest sampleBefore
    (fun _ => ⟨0, .answered, 7⟩) _ sample_refused sampleRequest sampleAfter
    (fun _ => ⟨0, .answered, 7⟩) "k2" ⟨rfl, rfl⟩ ⟨rfl, rfl⟩ rfl ⟨rfl, rfl⟩ (by decide) ⟨_, rfl⟩
  have hconflict : (sampleRequest.alone .default sampleAfter fun _ => ⟨0, .answered, 7⟩).outcome =
      .error (.app .idempotencyConflict) :=
    (sampleRequest.alone_of_held .default ⟨rfl, rfl⟩ rfl (by decide)).1
  rw [hresponse] at hconflict
  cases hconflict

end Run

end Create

end PaymentsLab
