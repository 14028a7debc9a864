import PaymentsLab.Api.ControlFrame
import PaymentsLab.Api.PolicyJson
import PaymentsLab.Api.RefusedRequests

/-!
# The services over texts

A creation does the same over a Redis of strings as over one of values: its services parse what
they read as what was written (`alike_execute`). So any number of creations, interleaved command by
command over the strings, is matched by creations over the values, with the same commands and the
same outcomes, and with the texts of the same values in Redis (`texts_refine`).
-/

namespace PaymentsLab

open Foundation Program TextBackend

namespace ApiProgram

/-- Programs that go on alike over texts and over values. -/
abbrev Alike (fmt : TextFormat) {α : Type} (Q : α → α → Prop) (p p' : ApiProgram α) : Prop :=
  Similar (Readable fmt) (Replies fmt) Q p p'

variable {fmt : TextFormat} {α β : Type} {Q : α → α → Prop}

theorem alike_redis (command : Redis.Command StoredText) (h : Readable fmt (.redis command)) :
    Alike fmt (fun r r' => r' = command.mapReply fmt.reread r ∧ command.ReplyOf fmt.kinds r)
      (redis command) (redis command) := by
  unfold redis
  refine Similar.bind (Similar.issue h) fun r r' hr => ?_
  obtain ⟨rfl, hof⟩ := hr
  cases r with
  | none => exact .throw _
  | some reply => exact .pure ⟨rfl, hof reply rfl⟩

/-- A command whose reply has no text in it. -/
theorem alike_plain (command : Redis.Command StoredText) (h : Readable fmt (.redis command))
    (hplain : ∀ f r, command.mapReply f r = r) :
    Alike fmt Eq (redis command) (redis command) :=
  (alike_redis command h).mono fun _ _ hr => (hr.1.trans (hplain _ _)).symm

theorem alike_issue {c : ApiCommand} (h : Readable fmt c) :
    Alike fmt (Replies fmt c) (ApiProgram.issue c) (ApiProgram.issue c) :=
  Similar.issue h

theorem alike_now : Alike fmt
    (fun t t' => t = t' ∧ IsInt64 (AmlRuleEngine.wholeSeconds t)) now now :=
  alike_issue (c := ApiCommand.now) trivial

/-- Queries have the same replies. -/
theorem alike_queries {p : ApiProgram α} (h : p.Uses fun _ => False) : Alike fmt Eq p p := by
  refine Similar.of_issues h fun c hc => ?_
  cases c with
  | redis | commit => exact hc.elim
  | now | getByRail => exact ⟨trivial, fun _ _ hr => hr.1⟩
  | _ => exact ⟨trivial, fun _ _ hr => hr⟩

theorem alike_ite {c : Prop} [Decidable c] {p p' q q' : ApiProgram α} (hp : Alike fmt Q p p')
    (hq : Alike fmt Q q q') : Alike fmt Q (if c then p else q) (if c then p' else q') := by
  split
  · exact hp
  · exact hq

/-- A check that may raise, and what follows it where it does not. -/
theorem alike_throw_bind {c : Prop} [Decidable c] {e : ApiException} {f f' : Unit → ApiProgram α}
    (hf : ¬ c → Alike fmt Q (f ()) (f' ())) :
    Alike fmt Q (if c then throw e >>= f else f ()) (if c then throw e >>= f' else f' ()) := by
  split
  · exact .raise e
  · next hc => exact hf hc

end ApiProgram

open ApiProgram

variable {fmt : TextFormat}

/-! ## The limits -/

namespace LimitsService

/-- The same policy, if any, and one that can be written. -/
def SamePolicy (o o' : Option LimitsPolicy) : Prop :=
  o = o' ∧ ∀ policy, o = some policy → policy.Written

theorem alike_cachedPolicy (rail : PaymentMethod) :
    Alike fmt SamePolicy (cachedPolicy rail) (cachedPolicy rail) := by
  have hnone : Alike fmt SamePolicy (pure none) (pure none) :=
    .pure ⟨rfl, fun policy h => by cases h⟩
  refine Similar.tryCatch
    (Similar.bind (alike_redis (.get _) trivial) fun text text' htext => ?_) fun e => ?_
  · obtain ⟨rfl, hof⟩ := htext
    cases text with
    | none => exact hnone
    | some value =>
      have hkind := hof value rfl
      cases value with
      | int n =>
        change Alike fmt _ (throw .validationError) _
        simp only [Redis.Command.mapReply, Option.map_some, TextFormat.reread_int]
        split
        · next heq =>
          exact absurd (StoredText.text.inj (Option.some.inj heq)) (intString_ne_empty n)
        · next heq =>
          cases heq
          exact .raise _
        · next heq => cases heq
      | policy policy =>
        simp only [Redis.Command.mapReply, Option.map_some, TextFormat.reread_policy hkind]
        exact .pure ⟨rfl, fun policy' h => Option.some.inj h ▸ hkind⟩
      | text s =>
        simp only [Redis.Command.mapReply, Option.map_some, TextFormat.reread_text hkind.validate]
        split
        · exact hnone
        · next heq =>
          cases heq
          exact .raise _
        · exact hnone
      | velocityMember | amlEntry => exact hkind.elim
  · cases e <;> first | exact hnone | exact .raise _

theorem alike_cachePolicy (ttl : Int) (rail : PaymentMethod) {policy : LimitsPolicy}
    (h : policy.Written) :
    Alike fmt Eq (cachePolicy ttl rail policy) (cachePolicy ttl rail policy) := by
  refine Similar.tryCatch (alike_plain (.set _ _ _) h fun _ _ => rfl) fun e => ?_
  cases e <;> first | exact .pure rfl | exact .raise _

theorem alike_getPolicy (ttl : Int) (rail : PaymentMethod) :
    Alike fmt (fun p p' => p = p' ∧ p.Written) (getPolicy ttl rail) (getPolicy ttl rail) := by
  refine Similar.bind (alike_cachedPolicy rail) fun policy policy' hpolicy => ?_
  obtain ⟨rfl, hwritten⟩ := hpolicy
  cases policy with
  | some policy => exact .pure ⟨rfl, hwritten policy rfl⟩
  | none =>
    refine Similar.bind (alike_issue (c := .getByRail rail) trivial)
      fun entity entity' hentity => ?_
    obtain ⟨rfl, hwritten⟩ := hentity
    cases entity with
    | none => exact .raise _
    | some entity =>
      have hentity := hwritten entity rfl
      exact Similar.bind (alike_cachePolicy ttl rail hentity) fun _ _ _ => .pure ⟨rfl, hentity⟩

/-- The counter is read as the same integer, which is not below those of 64 bits. -/
theorem alike_redisGetInt (key : String) :
    Alike fmt (fun n n' => n = n' ∧ -2 ^ 63 ≤ n) (redisGetInt key) (redisGetInt key) := by
  refine Similar.bind (alike_redis (.get _) trivial) fun text text' htext => ?_
  obtain ⟨rfl, hof⟩ := htext
  cases text with
  | none => exact .pure ⟨rfl, by decide⟩
  | some value =>
    have hkind := hof value rfl
    cases value with
    | int n =>
      change Alike fmt _ (pure n) _
      simp only [Redis.Command.mapReply, Option.map_some, TextFormat.reread_int]
      split
      · next heq => cases heq
      · next heq => exact absurd (StoredText.text.inj (Option.some.inj heq)) (intString_ne_empty n)
      · next heq =>
        cases heq
        rw [TextFormat.pythonInt?_intString hkind]
        exact .pure ⟨rfl, hkind.1⟩
    | policy policy =>
      simp only [Redis.Command.mapReply, Option.map_some, TextFormat.reread_policy hkind]
      exact .raise _
    | text s =>
      simp only [Redis.Command.mapReply, Option.map_some, TextFormat.reread_text hkind.validate]
      split
      · next heq => cases heq
      · exact .pure ⟨rfl, by decide⟩
      · next heq =>
        cases heq
        cases hint : StoredText.pythonInt? (.text s) with
        | none => exact .raise _
        | some n => exact .pure ⟨rfl, (hkind.pythonInt n hint).1⟩
    | velocityMember | amlEntry => exact hkind.elim

theorem alike_countDailyAmount (key : String) (rail : PaymentMethod) {amount : Decimal}
    (hamount : 0 < amount) {policy : LimitsPolicy} (hpolicy : policy.Written) :
    Alike fmt Eq (countDailyAmount key rail amount policy)
      (countDailyAmount key rail amount policy) := by
  have hcents : 0 ≤ amount.asCents := Decimal.asCents_nonneg (Decimal.coeff_pos hamount).le
  have hlimit : policy.dailyLimitAmount.asCents < 2 ^ 63 := by
    obtain ⟨n, hn, hbound⟩ := hpolicy.stored.dailyLimitAmount
    rw [hn.asCents (hbound.trans (by decide))]
    omega
  refine Similar.bind (alike_redisGetInt key) fun current current' hcurrent => ?_
  obtain ⟨rfl, hlow⟩ := hcurrent
  refine alike_throw_bind fun hle => Similar.bind alike_now fun t t' ht => ?_
  obtain ⟨rfl, -⟩ := ht
  have hprojected : IsInt64 (current + amount.asCents) := by
    constructor
    · omega
    · omega
  exact alike_plain (.set _ _ _) hprojected fun _ _ => rfl

theorem alike_enforceDailyLimit (customerId : String) (rail : PaymentMethod) {amount : Decimal}
    (hamount : 0 < amount) {policy : LimitsPolicy} (hpolicy : policy.Written) :
    Alike fmt Eq (enforceDailyLimit customerId rail amount policy)
      (enforceDailyLimit customerId rail amount policy) := by
  refine Similar.bind alike_now fun t t' ht => ?_
  obtain ⟨rfl, -⟩ := ht
  refine Similar.tryCatch (alike_countDailyAmount _ rail hamount hpolicy) fun e => ?_
  cases e with
  | redisError | valueError =>
    exact alike_queries (uses_checkDailyTotal customerId rail amount policy)
  | _ => exact .raise _

theorem alike_enforceVelocityLimit (customerId : String) (rail : PaymentMethod)
    (policy : LimitsPolicy) :
    Alike fmt Eq (enforceVelocityLimit customerId rail policy)
      (enforceVelocityLimit customerId rail policy) := by
  refine Similar.bind alike_now fun t t' ht => ?_
  obtain ⟨rfl, -⟩ := ht
  refine Similar.tryCatch ?_ fun e => ?_
  · refine Similar.bind (alike_plain (.zremrangebyscore _ _ _) trivial fun _ _ => rfl)
      fun _ _ _ => ?_
    refine Similar.bind (alike_plain (.zcard _) trivial fun _ _ => rfl)
      fun count count' hcount => ?_
    obtain rfl := hcount
    refine alike_throw_bind fun _ => ?_
    refine Similar.bind (alike_plain (.zadd _ _ _) trivial fun _ _ => rfl)
      fun _ _ _ => ?_
    exact Similar.bind (alike_plain (.expire _ _) trivial fun _ _ => rfl)
      fun _ _ _ => .pure rfl
  · cases e with
    | redisError =>
      refine Similar.bind (alike_issue (c := .countOutgoingSince customerId rail _) trivial)
        fun count count' hcount => ?_
      obtain rfl : count = count' := hcount
      exact alike_throw_bind fun _ => .pure rfl
    | _ => exact .raise _

theorem alike_enforce (ttl : Int) (customerId : String) (rail : PaymentMethod) {amount : Decimal}
    (hamount : 0 < amount) :
    Alike fmt Eq (enforce ttl customerId rail amount) (enforce ttl customerId rail amount) := by
  refine Similar.bind (alike_getPolicy ttl rail) fun policy policy' hpolicy => ?_
  obtain ⟨rfl, hpolicy⟩ := hpolicy
  refine Similar.bind (alike_queries (uses_enforceTransactionAmount policy amount)) fun _ _ _ => ?_
  refine Similar.bind (alike_enforceDailyLimit customerId rail hamount hpolicy) fun _ _ _ => ?_
  refine Similar.bind (alike_enforceVelocityLimit customerId rail policy)
    fun count count' hcount => ?_
  obtain rfl := hcount
  exact .pure rfl

end LimitsService

/-! ## The other controls -/

namespace RateLimiterService

variable (cfg : ApiSettings)

theorem alike_allow (dimension : RateLimitDimension) (value : String) (bucket limit : Int) :
    Alike fmt Eq (allow cfg dimension value bucket limit)
      (allow cfg dimension value bucket limit) := by
  refine Similar.tryCatch ?_ fun e => ?_
  · refine Similar.bind (alike_plain (.incr _) trivial fun _ _ => rfl) fun current current' h => ?_
    obtain rfl : current = current' := h
    exact alike_ite (Similar.bind (alike_plain (.expire _ _) trivial fun _ _ => rfl)
      fun _ _ _ => .pure rfl) (.pure rfl)
  · cases e <;> first | exact .pure rfl | exact .raise _

theorem alike_enforceChecks (bucket : Int) (checks : List (RateLimitDimension × String × Int)) :
    Alike fmt Eq (enforceChecks cfg bucket checks) (enforceChecks cfg bucket checks) := by
  induction checks with
  | nil => exact .pure rfl
  | cons check checks ih =>
    refine Similar.bind (alike_allow cfg _ _ bucket _) fun allowed allowed' h => ?_
    obtain rfl := h
    exact alike_throw_bind fun _ => ih

theorem alike_enforce (merchantId customerId accountId : String) :
    Alike fmt Eq (enforce cfg merchantId customerId accountId)
      (enforce cfg merchantId customerId accountId) := by
  refine Similar.bind alike_now fun t t' ht => ?_
  obtain ⟨rfl, -⟩ := ht
  exact alike_enforceChecks cfg _ _

end RateLimiterService

namespace AmlRuleEngine

variable (cfg : ApiSettings)

/-- Entries that are parsed alike. -/
def SameEntries : Option (List StoredText) → Option (List StoredText) → Prop
  | none, none => True
  | some entries, some entries' => entries'.map tryParseEntry = entries.map tryParseEntry
  | _, _ => False

/-- The loop sees of an entry what it is parsed as. -/
theorem sumRecentFrom_congr (rail : String) (cutoff : Int) {entries entries' : List StoredText}
    (h : entries'.map tryParseEntry = entries.map tryParseEntry) (total : DecimalValue) :
    sumRecentFrom rail cutoff total entries' = sumRecentFrom rail cutoff total entries := by
  induction entries generalizing entries' total with
  | nil =>
    rw [List.map_eq_nil_iff.1 h]
  | cons entry entries ih =>
    obtain ⟨entry', rest, rfl, hentry, hrest⟩ := List.map_eq_cons_iff.1 h
    simp only [sumRecentFrom, hentry, ih hrest]

theorem countNearFrom_congr (rail : String) (cutoff : Int) (low high : Decimal)
    {entries entries' : List StoredText}
    (h : entries'.map tryParseEntry = entries.map tryParseEntry) (count : Int) :
    countNearFrom rail cutoff low high count entries' =
      countNearFrom rail cutoff low high count entries := by
  induction entries generalizing entries' count with
  | nil =>
    rw [List.map_eq_nil_iff.1 h]
  | cons entry entries ih =>
    obtain ⟨entry', rest, rfl, hentry, hrest⟩ := List.map_eq_cons_iff.1 h
    simp only [countNearFrom, hentry, ih hrest]

theorem alike_readHistoryEntries (key : String) :
    Alike fmt SameEntries (readHistoryEntries key) (readHistoryEntries key) := by
  refine Similar.tryCatch
    (Similar.bind (alike_redis (.lrange _ _ _) trivial) fun entries entries' h => ?_) fun e => ?_
  · obtain ⟨rfl, hof⟩ := h
    refine .pure ?_
    simp only [SameEntries, Redis.Command.mapReply, List.map_map]
    exact List.map_congr_left fun entry hentry =>
      TextFormat.tryParseEntry_reread (hof entry hentry)
  · cases e <;> first | exact .pure trivial | exact .raise _

theorem alike_totalOutgoingRecent (customerId : String) (rail : PaymentMethod) :
    Alike fmt Eq (totalOutgoingRecent cfg customerId rail)
      (totalOutgoingRecent cfg customerId rail) := by
  refine Similar.bind alike_now fun t t' ht => ?_
  obtain ⟨rfl, -⟩ := ht
  refine Similar.bind (alike_readHistoryEntries _) fun entries entries' h => ?_
  match entries, entries', h with
  | some entries, some entries', h =>
    simp only [sumRecent, sumRecentFrom_congr _ _ h]
    exact alike_queries (issues_sumRecentFrom _ _ _ entries)
  | none, none, _ =>
    refine Similar.bind alike_now fun t t' ht => ?_
    obtain ⟨rfl, -⟩ := ht
    refine Similar.bind (alike_issue (c := .sumOutgoingSince customerId rail _) trivial)
      fun total total' htotal => ?_
    obtain rfl : total = total' := htotal
    exact .pure rfl

theorem alike_nearThresholdCount (customerId : String) (rail : PaymentMethod)
    (maxAmount : Decimal) :
    Alike fmt Eq (nearThresholdCount cfg customerId rail maxAmount)
      (nearThresholdCount cfg customerId rail maxAmount) := by
  refine Similar.bind alike_now fun t t' ht => ?_
  obtain ⟨rfl, -⟩ := ht
  refine Similar.bind (alike_readHistoryEntries _) fun entries entries' h => ?_
  match entries, entries', h with
  | some entries, some entries', h =>
    simp only [countNear, countNearFrom_congr _ _ _ _ h]
    exact alike_queries (issues_countNearFrom _ _ _ _ _ entries)
  | none, none, _ =>
    refine Similar.bind alike_now fun t t' ht => ?_
    obtain ⟨rfl, -⟩ := ht
    exact alike_issue (c := .countNearThresholdSince customerId rail _ _ _) trivial

theorem alike_evaluate (customerId : String) (rail : PaymentMethod) (amount : Decimal)
    (destination : Option String) (policy : LimitsPolicy) :
    Alike fmt Eq (evaluate cfg customerId rail amount destination policy)
      (evaluate cfg customerId rail amount destination policy) := by
  unfold evaluate
  refine alike_ite (.pure rfl) ?_
  refine Similar.bind (alike_totalOutgoingRecent cfg customerId rail) fun total total' h => ?_
  obtain rfl := h
  refine Similar.bind (alike_queries (issues_decimal _)) fun total total' h => ?_
  obtain rfl := h
  refine Similar.bind (alike_queries (issues_decimal _)) fun above above' h => ?_
  obtain rfl := h
  refine alike_ite (.pure rfl) ?_
  refine Similar.bind (alike_nearThresholdCount cfg customerId rail _) fun count count' h => ?_
  obtain rfl := h
  exact alike_ite (.pure rfl) (.pure rfl)

theorem alike_recordOutgoing (customerId : String) (rail : PaymentMethod) {amount : Decimal}
    (hamount : amount.Writable) :
    Alike fmt Eq (recordOutgoing cfg customerId rail amount)
      (recordOutgoing cfg customerId rail amount) := by
  refine Similar.bind alike_now fun t t' ht => ?_
  obtain ⟨rfl, ht⟩ := ht
  refine Similar.tryCatch ?_ fun e => ?_
  · refine Similar.bind (alike_plain (.lpush _ _) ⟨ht, hamount⟩ fun _ _ => rfl) fun _ _ _ => ?_
    refine Similar.bind (alike_plain (.ltrim _ _ _) trivial fun _ _ => rfl) fun _ _ _ => ?_
    exact alike_plain (.expire _ _) trivial fun _ _ => rfl
  · cases e <;> first | exact .pure rfl | exact .raise _

end AmlRuleEngine

/-! ## Creations -/

theorem IdempotencyService.alike_acquire (cfg : ApiSettings) (merchantId idempotencyKey : String) :
    Alike fmt Eq (acquire cfg merchantId idempotencyKey)
      (acquire cfg merchantId idempotencyKey) := by
  refine Similar.tryCatch ?_ fun e => ?_
  · exact alike_plain (.setNx _ (.int 1) _) (show IsInt64 1 by decide) fun _ _ => rfl
  · cases e <;> first | exact .pure rfl | exact .raise _

namespace Create.Run

variable (cfg : ApiSettings) (r : Create.Run)

theorem alike_runPreChecks (customer : Customer) (hamount : 0 < r.request.amount) :
    Alike fmt Eq (r.runPreChecks cfg customer) (r.runPreChecks cfg customer) := by
  refine Similar.bind (alike_queries (KycService.uses_enforce customer _)) fun _ _ _ => ?_
  refine Similar.bind (LimitsService.alike_enforce _ _ _ hamount) fun evaluation evaluation' h => ?_
  obtain rfl := h
  exact Similar.bind (RateLimiterService.alike_enforce cfg _ _ _) fun _ _ _ => .pure rfl

theorem alike_evaluateControls (customer : Customer) (evaluation : LimitsService.Evaluation) :
    Alike fmt Eq (r.evaluateControls cfg customer evaluation)
      (r.evaluateControls cfg customer evaluation) := by
  refine Similar.bind (alike_queries (RiskScoreService.uses_evaluate cfg customer _ _ _ _))
    fun risk risk' h => ?_
  obtain rfl := h
  refine Similar.bind (AmlRuleEngine.alike_evaluate cfg _ _ _ _ _) fun aml aml' h => ?_
  obtain rfl := h
  exact .pure rfl

theorem alike_afterCommitObservability (hamount : r.request.amount.Writable)
    (response : PaymentAcceptedResponse) :
    Alike fmt Eq (r.afterCommitObservability cfg response)
      (r.afterCommitObservability cfg response) := by
  have hqueue : Alike fmt Eq (ApiProgram.issue .countInReview >>= fun _ => pure ())
      (ApiProgram.issue .countInReview >>= fun _ => pure ()) :=
    Similar.bind (alike_issue (c := .countInReview) trivial) fun _ _ _ => .pure rfl
  unfold afterCommitObservability
  split
  · exact Similar.bind (AmlRuleEngine.alike_recordOutgoing cfg _ _ hamount) fun _ _ _ => hqueue
  · exact hqueue

theorem alike_persistAndObserve (startedAt : Instant) (decision : ControlDecision)
    (hamount : r.request.amount.Writable) :
    Alike fmt Eq (r.persistAndObserve cfg startedAt decision)
      (r.persistAndObserve cfg startedAt decision) := by
  refine Similar.bind (alike_issue (c := .newUuid) trivial) fun paymentId paymentId' h => ?_
  obtain rfl : paymentId = paymentId' := h
  refine Similar.bind (alike_issue (c := .newUuid) trivial) fun eventId eventId' h => ?_
  obtain rfl : eventId = eventId' := h
  refine Similar.bind alike_now fun t t' ht => ?_
  obtain ⟨rfl, -⟩ := ht
  refine Similar.bind (alike_issue (c := .commit _ _ _) trivial) fun committed committed' h => ?_
  obtain rfl : committed = committed' := h
  refine alike_ite ?_ (alike_queries r.uses_resolveReplayedAfterConflict)
  exact Similar.bind (r.alike_afterCommitObservability cfg hamount _) fun _ _ _ => .pure rfl

/-- A creation over texts goes on as it does over values. -/
theorem alike_execute (hpos : 0 < r.request.amount) (hamount : r.request.amount.Writable) :
    Alike fmt Eq (r.execute cfg) (r.execute cfg) := by
  refine Similar.bind (alike_issue (c := .begin) trivial) fun startedAt startedAt' h => ?_
  obtain rfl : startedAt = startedAt' := h
  refine Similar.bind (alike_queries r.uses_tryReturnReplayedResponse)
    fun replayed replayed' h => ?_
  obtain rfl := h
  cases replayed with
  | some response => exact .pure rfl
  | none =>
    refine Similar.bind (IdempotencyService.alike_acquire cfg _ _) fun holds holds' h => ?_
    obtain rfl := h
    refine alike_ite ?_ (alike_queries (r.uses_resolvePending _))
    refine Similar.bind (alike_queries r.uses_loadCustomerOrRaise) fun customer customer' h => ?_
    obtain rfl := h
    refine Similar.bind (r.alike_runPreChecks cfg customer hpos) fun evaluation evaluation' h => ?_
    obtain rfl := h
    refine Similar.bind (r.alike_evaluateControls cfg customer evaluation)
      fun decision decision' h => ?_
    obtain rfl := h
    exact r.alike_persistAndObserve cfg startedAt decision hamount

end Create.Run

namespace StoredTexts

open Create

variable {ι : Type} [DecidableEq ι] {cfg : ApiSettings} {runs : ι → Create.Run} {b : Backend}
  {b' : TextBackend}

/-- Creations over a world, none of which has begun. -/
def start {W : Type} (H : Handler ApiCommand ApiReply W ApiInput) (cfg : ApiSettings)
    (runs : ι → Create.Run) (w : W) :
    (H.system ι ApiException PaymentAcceptedResponse).State :=
  ⟨w, fun n => ⟨[], (runs n).execute cfg⟩⟩

/-- Redis with its strings behaves as one that holds the values: creations in any interleaving have
a run over the values in which they issue the same commands and end alike, and that leaves the
values whose texts are in Redis. -/
theorem texts_refine (hpos : ∀ n, 0 < (runs n).request.amount)
    (hwritable : ∀ n, (runs n).request.amount.Writable) (h : Renders fmt b b')
    {s : ((handler fmt).system ι ApiException PaymentAcceptedResponse).State}
    (hrun :
      System.Reaches _ ((handler fmt).goodSteps InRange) (start (handler fmt) cfg runs b') s) :
    ∃ t : (Backend.handler.system ι ApiException PaymentAcceptedResponse).State,
      System.Reaches _ (System.anyStep _) (start Backend.handler cfg runs b) t ∧
      Renders fmt t.world s.world ∧ ∀ n,
        Process.commands (t.proc n) = Process.commands (s.proc n) ∧
        Process.outcome? (t.proc n) = Process.outcome? (s.proc n) := by
  have hstart : Handler.Matches (Renders fmt) (Readable fmt) (Replies fmt)
      (start Backend.handler cfg runs b) (start (handler fmt) cfg runs b') :=
    ⟨h, fun n => ⟨rfl, (runs n).alike_execute cfg (hpos n) (hwritable n)⟩⟩
  obtain ⟨t, hreaches, hmatches⟩ := simulated.of_reaches hstart hrun
  exact ⟨t, hreaches, hmatches.worlds, fun n =>
    ⟨(hmatches.procs n).commands, (hmatches.procs n).outcome?⟩⟩

/-! ## Two payments over strings -/

def sampleRuns (n : Nat) : Create.Run :=
  { Create.Run.sampleRequest with context := ⟨"m", "c", "a", if n = 0 then "k" else "k2"⟩ }

def emptyRedis : Backend where
  database := ⟨[⟨"c", .basic, .active, 0⟩], [Create.Run.samplePolicy], [], [], []⟩
  redis _ := none

def emptyTexts : TextBackend where
  database := emptyRedis.database
  redis _ := none

theorem renders_emptyRedis : Renders jsonFormat emptyRedis emptyTexts where
  database := rfl
  redis := rfl
  kinds _ _ he := by cases he
  policies policy hpolicy := by
    obtain rfl := List.mem_singleton.1 hpolicy
    have hnumeric {n : Int} (hn : n.natAbs < 10 ^ 18) : Decimal.IsNumeric ⟨n, -2⟩ :=
      ⟨n, Decimal.isCents_mk n, hn⟩
    exact ⟨⟨hnumeric (by decide), hnumeric (by decide), hnumeric (by decide)⟩,
      ⟨by decide, by decide⟩, ⟨by decide, by decide⟩, ⟨by decide, by decide⟩, by decide, by decide⟩

/-- `k` commands of call `n`, with Redis available. -/
def commands (n k : Nat) : List (Σ _ : Nat, ApiInput) :=
  List.replicate k ⟨n, (⟨1700000000123457, .answered, n⟩ : ApiInput)⟩

/-- The second call begins before the first has set the limits, and ends after it. -/
def interleaved : List (Σ _ : Nat, ApiInput) :=
  commands 0 17 ++ commands 1 20 ++ commands 0 18 ++ commands 1 16

/-- Which calls have ended, and the text of the total of the day. -/
def summary (s : ((handler jsonFormat).system Nat ApiException PaymentAcceptedResponse).State) :
    Bool × Bool × Option String :=
  ((Process.outcome? (s.proc 0)).isSome, (Process.outcome? (s.proc 1)).isSome,
    (s.world.redis.string? 1700000000123457 "limits:daily:20231114:c:PIX").join)

set_option maxRecDepth 10000 in
/-- Two payments of 100.00 are made in turns, and the total of the day is the string `20000`. -/
theorem texts_refine_interleaved :
    ∃ s : ((handler jsonFormat).system Nat ApiException PaymentAcceptedResponse).State,
      summary s = (true, true, some "20000") ∧
      ∃ t : (Backend.handler.system Nat ApiException PaymentAcceptedResponse).State,
        System.Reaches _ (System.anyStep _)
          (start Backend.handler .default sampleRuns emptyRedis) t ∧
        Renders jsonFormat t.world s.world ∧ ∀ n,
          Process.commands (t.proc n) = Process.commands (s.proc n) ∧
          Process.outcome? (t.proc n) = Process.outcome? (s.proc n) := by
  have hrun : (System.State.run ((handler jsonFormat).goodSteps InRange) interleaved
      (start (handler jsonFormat) .default sampleRuns emptyTexts)).map summary =
        some (true, true, some "20000") := by
    decide +kernel
  obtain ⟨s, hs, hsummary⟩ := Option.map_eq_some_iff.1 hrun
  have hpos (n : Nat) : 0 < (sampleRuns n).request.amount :=
    show 0 < Create.Run.sampleRequest.request.amount by decide
  have hwritable (n : Nat) : (sampleRuns n).request.amount.Writable :=
    show Create.Run.sampleRequest.request.amount.Writable from ⟨by decide, by decide⟩
  exact ⟨s, hsummary,
    texts_refine hpos hwritable renders_emptyRedis (System.Reaches.of_run hs)⟩

end StoredTexts

end PaymentsLab
