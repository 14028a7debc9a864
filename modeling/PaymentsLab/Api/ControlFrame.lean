import PaymentsLab.Api.CreateProgram
import PaymentsLab.Foundation.Sequential

/-!
# What the controls touch

Every control uses keys of its own in Redis and nothing else there (`ApiProgram.Uses`). So from the
customer to the AML rules the controls leave the rows and every other key alone, and do not see
them (`ApiProgram.IsControl`).
-/

namespace PaymentsLab

open Foundation

/-- Queries, and Redis commands on the keys `K`. -/
def ApiCommand.Uses (K : String → Prop) : ApiCommand → Prop
  | .redis command => K command.key
  | .commit _ _ _ => False
  | _ => True

/-- The commands of the controls. -/
def ApiCommand.IsControl : ApiCommand → Prop
  | .redis command => IsControlKey command.key
  | .commit _ _ _ => False
  | _ => True

theorem ApiCommand.Uses.mono {K K' : String → Prop} {c : ApiCommand} (h : c.Uses K)
    (hK : ∀ key, K key → K' key) : c.Uses K' := by
  cases c with
  | redis command => exact hK _ h
  | commit => exact h
  | _ => trivial

theorem ApiCommand.Uses.isControl {c : ApiCommand} (h : c.Uses IsControlKey) : c.IsControl := by
  cases c <;> exact h

/-- The controls cannot tell two backends apart. -/
structure Backend.Alike (b b' : Backend) : Prop where
  database : b.database = b'.database
  redis : ∀ key, IsControlKey key → b.redis key = b'.redis key

namespace Backend

variable {b b' b'' : Backend}

theorem Alike.symm (h : b.Alike b') : b'.Alike b :=
  ⟨h.database.symm, fun key hkey => (h.redis key hkey).symm⟩

theorem Alike.trans (h : b.Alike b') (h' : b'.Alike b'') : b.Alike b'' :=
  ⟨h.database.trans h'.database, fun key hkey => (h.redis key hkey).trans (h'.redis key hkey)⟩

/-- A Redis command gives the same reply on stores that agree at its key, and leaves them so. -/
theorem execRedis_congr (i : ApiInput) {command : Redis.Command StoredText}
    (h : b.redis command.key = b'.redis command.key) :
    (b.execRedis i command).1 = (b'.execRedis i command).1 ∧
      ∀ key, b.redis key = b'.redis key →
        (b.execRedis i command).2.redis key = (b'.execRedis i command).2.redis key := by
  unfold execRedis
  rw [Redis.exec_eq_entry i.now b.redis, Redis.exec_eq_entry i.now b'.redis, h]
  cases Redis.execEntry i.now (b'.redis command.key) command with
  | none => exact ⟨rfl, fun _ => id⟩
  | some r =>
    have hupdate (key : String) (hkey : b.redis key = b'.redis key) :
        Function.update b.redis command.key r.2 key =
          Function.update b'.redis command.key r.2 key := by
      simp only [Function.update_apply, hkey]
    simp only [Option.map_some]
    match i.redis with
    | .answered => exact ⟨rfl, hupdate⟩
    | .redisError true => exact ⟨rfl, hupdate⟩
    | .redisError false => exact ⟨rfl, fun _ => id⟩

theorem exec_database {c : ApiCommand} (hc : c.IsControl) (i : ApiInput) :
    (b.exec i c).2.database = b.database := by
  cases c with
  | redis command => exact (b.execRedis_frame i command).1
  | commit => exact hc.elim
  | _ => rfl

/-- A command of the controls leaves every other key alone. -/
theorem exec_redis_of_not_control {c : ApiCommand} (hc : c.IsControl) (i : ApiInput) {key : String}
    (hkey : ¬ IsControlKey key) : (b.exec i c).2.redis key = b.redis key := by
  cases c with
  | redis command =>
    exact (b.execRedis_frame i command).2 key fun _ heq => hkey (heq ▸ hc)
  | commit => exact hc.elim
  | _ => rfl

theorem Alike.exec (h : b.Alike b') {c : ApiCommand} (hc : c.IsControl) (i : ApiInput) :
    (b.exec i c).1 = (b'.exec i c).1 ∧ (b.exec i c).2.Alike (b'.exec i c).2 := by
  have hdatabase : (b.exec i c).2.database = (b'.exec i c).2.database := by
    rw [exec_database hc, exec_database hc, h.database]
  cases c with
  | redis command =>
    obtain ⟨hreply, hredis⟩ := execRedis_congr i (h.redis command.key hc)
    exact ⟨hreply, hdatabase, fun key hkey => hredis key (h.redis key hkey)⟩
  | commit => exact hc.elim
  | now | newUuid | begin => exact ⟨rfl, h⟩
  | _ =>
    refine ⟨?_, h⟩
    simp only [Backend.exec, h.database]

end Backend

/-! ## The services -/

open Program

namespace ApiProgram

variable {α : Type}

/-- The program commits nothing, and uses the keys `K` of Redis. -/
abbrev Uses (K : String → Prop) (p : ApiProgram α) : Prop :=
  p.Issues (ApiCommand.Uses K)

/-- The program is one of the controls. -/
abbrev IsControl (p : ApiProgram α) : Prop :=
  p.Issues ApiCommand.IsControl

theorem Uses.isControl {p : ApiProgram α} (h : p.Uses IsControlKey) : p.IsControl :=
  Issues.mono h fun _ hc => hc.isControl

variable {K : String → Prop} {β : Type}

theorem uses_issue_bind {c : ApiCommand} {f : ApiReply c → ApiProgram β} (hc : c.Uses K)
    (hf : ∀ reply, (f reply).Uses K) : (issue c >>= f).Uses K :=
  Issues.bind (Program.issues_issue hc) hf

theorem run_redis (b : Backend) (is : Nat → ApiInput) (command : Redis.Command StoredText) :
    (redis command).run Backend.handler b is =
      ⟨(b.execRedis (is 0) command).1.elim (.error .redisError) .ok,
        (b.execRedis (is 0) command).2, fun n => is (n + 1)⟩ := by
  unfold redis ApiProgram.issue
  rw [Program.run_bind, run_issue, Ran.andThen_ok]
  simp only [Backend.handler, Backend.exec]
  cases (b.execRedis (is 0) command).1 <;> rfl

theorem issues_redis {P : ApiCommand → Prop} {command : Redis.Command StoredText}
    (h : P (.redis command)) : (redis command).Issues P := by
  refine Issues.bind (Program.issues_issue h) fun reply => ?_
  cases reply
  · exact issues_throw _
  · exact issues_pure _

theorem uses_redis {command : Redis.Command StoredText} (h : K command.key) :
    (redis command).Uses K :=
  issues_redis h

theorem uses_redis_bind {command : Redis.Command StoredText}
    {f : Redis.Reply command → ApiProgram β} (h : K command.key)
    (hf : ∀ reply, (f reply).Uses K) : (redis command >>= f).Uses K :=
  Issues.bind (uses_redis h) hf

theorem issues_ite {P : ApiCommand → Prop} {c : Prop} [Decidable c] {p q : ApiProgram β}
    (hp : p.Issues P) (hq : q.Issues P) : (if c then p else q).Issues P := by
  split
  · exact hp
  · exact hq

theorem uses_ite {c : Prop} [Decidable c] {p q : ApiProgram β} (hp : p.Uses K)
    (hq : q.Uses K) : (if c then p else q).Uses K :=
  issues_ite hp hq

/-- A conditional step, and what follows it. -/
theorem uses_ite_bind {c : Prop} [Decidable c] {p : ApiProgram Unit}
    {f : Unit → ApiProgram β} (hp : p.Uses K) (hf : (f ()).Uses K) :
    (if c then p >>= f else f ()).Uses K :=
  uses_ite (Issues.bind hp fun _ => hf) hf

/-- A check that may raise, and what follows it. -/
theorem uses_throw_bind {c : Prop} [Decidable c] {e : ApiException}
    {f : Unit → ApiProgram β} (hf : (f ()).Uses K) :
    (if c then throw e >>= f else f ()).Uses K :=
  uses_ite_bind (issues_throw e) hf

end ApiProgram

open ApiProgram

namespace LimitsService

variable {K : String → Prop}

theorem uses_validatePolicy (text : StoredText) : (validatePolicy text).Uses K := by
  unfold validatePolicy
  split
  · exact issues_pure _
  · exact issues_throw _

theorem uses_cachedPolicy {rail : PaymentMethod} (hpolicy : K (limitsPolicyKey rail)) :
    (cachedPolicy rail).Uses K := by
  refine Issues.tryCatch (uses_redis_bind hpolicy fun text => ?_) fun e => ?_
  · split
    · exact issues_pure _
    · exact Issues.bind (uses_validatePolicy _) fun policy => issues_pure (some policy)
    · exact issues_pure _
  · cases e <;> first | exact issues_pure _ | exact issues_throw _

theorem uses_cachePolicy {rail : PaymentMethod} (hpolicy : K (limitsPolicyKey rail)) (ttl : Int)
    (policy : LimitsPolicy) : (cachePolicy ttl rail policy).Uses K := by
  refine Issues.tryCatch (uses_redis hpolicy) fun e => ?_
  cases e <;> first | exact issues_pure _ | exact issues_throw _

theorem uses_getPolicy {rail : PaymentMethod} (hpolicy : K (limitsPolicyKey rail)) (ttl : Int) :
    (getPolicy ttl rail).Uses K := by
  refine Issues.bind (uses_cachedPolicy hpolicy) fun policy => ?_
  cases policy with
  | some policy => exact issues_pure policy
  | none =>
    refine uses_issue_bind (c := .getByRail rail) trivial fun entity => ?_
    cases entity with
    | none => exact issues_throw _
    | some entity =>
      exact Issues.bind (uses_cachePolicy hpolicy ttl entity) fun _ => issues_pure entity

theorem uses_enforceTransactionAmount (policy : LimitsPolicy) (amount : Decimal) :
    (enforceTransactionAmount policy amount).Uses K := by
  unfold enforceTransactionAmount
  exact uses_throw_bind (uses_ite (issues_throw _) (issues_pure ()))

theorem issues_redisGetInt {P : ApiCommand → Prop} {key : String} (hget : P (.redis (.get key))) :
    (redisGetInt key).Issues P := by
  refine Issues.bind (issues_redis hget) fun text => ?_
  split
  · exact issues_pure _
  · exact issues_pure _
  · split
    · exact issues_pure _
    · exact issues_throw _

theorem uses_countDailyAmount {key : String} (hdaily : K key) (rail : PaymentMethod)
    (amount : Decimal) (policy : LimitsPolicy) :
    (countDailyAmount key rail amount policy).Uses K := by
  refine Issues.bind (issues_redisGetInt hdaily) fun current => uses_throw_bind ?_
  exact uses_issue_bind (c := .now) trivial fun t =>
    uses_redis hdaily

theorem uses_checkDailyTotal (customerId : String) (rail : PaymentMethod) (amount : Decimal)
    (policy : LimitsPolicy) : (checkDailyTotal customerId rail amount policy).Uses K := by
  refine uses_issue_bind (c := .now) trivial fun t =>
    uses_issue_bind (c := .sumOutgoingSince customerId rail _) trivial fun total => ?_
  exact uses_ite (issues_throw _) (issues_pure ())

theorem uses_enforceDailyLimit {customerId : String} {rail : PaymentMethod}
    (hdaily : ∀ t, K (limitsDailyKey (dateKey t) customerId rail)) (amount : Decimal)
    (policy : LimitsPolicy) : (enforceDailyLimit customerId rail amount policy).Uses K := by
  refine uses_issue_bind (c := .now) trivial fun t => ?_
  refine Issues.tryCatch (uses_countDailyAmount (hdaily _) rail amount policy) fun e => ?_
  cases e with
  | redisError | valueError => exact uses_checkDailyTotal customerId rail amount policy
  | _ => exact issues_throw _

theorem uses_enforceVelocityLimit {customerId : String} {rail : PaymentMethod}
    (hvelocity : K (limitsVelocityKey customerId rail)) (policy : LimitsPolicy) :
    (enforceVelocityLimit customerId rail policy).Uses K := by
  refine uses_issue_bind (c := .now) trivial fun t => Issues.tryCatch ?_ fun e => ?_
  · refine uses_redis_bind hvelocity fun _ => ?_
    refine uses_redis_bind hvelocity fun count => uses_throw_bind ?_
    refine uses_redis_bind hvelocity fun _ => ?_
    exact uses_redis_bind hvelocity fun _ => issues_pure _
  · cases e with
    | redisError =>
      refine uses_issue_bind (c := .countOutgoingSince customerId rail _) trivial
        fun count => ?_
      exact uses_throw_bind (issues_pure _)
    | _ => exact issues_throw _

theorem uses_enforce {customerId : String} {rail : PaymentMethod}
    (hpolicy : K (limitsPolicyKey rail))
    (hdaily : ∀ t, K (limitsDailyKey (dateKey t) customerId rail))
    (hvelocity : K (limitsVelocityKey customerId rail)) (ttl : Int) (amount : Decimal) :
    (enforce ttl customerId rail amount).Uses K := by
  refine Issues.bind (uses_getPolicy hpolicy ttl) fun policy => ?_
  refine Issues.bind (uses_enforceTransactionAmount policy amount) fun _ => ?_
  refine Issues.bind (uses_enforceDailyLimit hdaily amount policy) fun _ => ?_
  exact Issues.bind (uses_enforceVelocityLimit hvelocity policy) fun _ => issues_pure _

end LimitsService

namespace RateLimiterService

variable {K : String → Prop}
  (hrate : ∀ dimension value bucket, K (rateLimitKey dimension value bucket)) (cfg : ApiSettings)

include hrate

theorem uses_allow (dimension : RateLimitDimension) (value : String) (bucket limit : Int) :
    (allow cfg dimension value bucket limit).Uses K := by
  refine Issues.tryCatch ?_ fun e => ?_
  · refine uses_redis_bind (hrate dimension value bucket) fun current => ?_
    exact uses_ite_bind (uses_redis (hrate dimension value bucket)) (issues_pure _)
  · cases e <;> first | exact issues_pure _ | exact issues_throw _

theorem uses_enforceChecks (bucket : Int)
    (checks : List (RateLimitDimension × String × Int)) :
    (enforceChecks cfg bucket checks).Uses K := by
  induction checks with
  | nil => exact issues_pure ()
  | cons check checks ih =>
    exact Issues.bind (uses_allow hrate cfg _ _ bucket _) fun allowed => uses_throw_bind ih

theorem uses_enforce (merchantId customerId accountId : String) :
    (enforce cfg merchantId customerId accountId).Uses K :=
  uses_issue_bind (c := .now) trivial fun _ => uses_enforceChecks hrate cfg _ _

end RateLimiterService

theorem KycService.uses_enforce {K : String → Prop} (customer : Customer) (rail : PaymentMethod) :
    (enforce customer rail).Uses K := by
  unfold enforce
  exact uses_throw_bind (uses_ite (issues_throw _) (issues_pure ()))

theorem RiskScoreService.uses_evaluate {K : String → Prop} (cfg : ApiSettings) (customer : Customer)
    (amount : Decimal) (policy : LimitsPolicy) (velocityCount : Int)
    (destination : Option String) :
    (evaluate cfg customer amount policy velocityCount destination).Uses K := by
  refine uses_issue_bind (c := .now) trivial fun t => ?_
  refine uses_issue_bind (c := .countFailuresSince _ _) trivial fun failures => ?_
  refine Issues.bind ?_ fun seen => issues_pure _
  unfold destinationSeen
  split
  · exact issues_pure _
  · exact issues_pure _
  · exact issues_issue (c := ApiCommand.destinationSeen _ _) trivial

namespace AmlRuleEngine

variable {K : String → Prop} {P : ApiCommand → Prop}

theorem issues_decimal {α : Type} (a : Option α) : (decimal a).Issues P := by
  cases a
  · exact issues_throw _
  · exact issues_pure _

theorem issues_sumRecentFrom (rail : String) (cutoff : Int) (total : DecimalValue)
    (entries : List StoredText) : (sumRecentFrom rail cutoff total entries).Issues P := by
  induction entries generalizing total with
  | nil => exact issues_pure total
  | cons entry entries ih =>
    unfold sumRecentFrom
    split
    · exact ih total
    · split
      · exact Issues.bind (issues_decimal _) ih
      · exact ih total

theorem issues_countNearFrom (rail : String) (cutoff : Int) (low high : Decimal) (count : Int)
    (entries : List StoredText) :
    (countNearFrom rail cutoff low high count entries).Issues P := by
  have hbetween (amount : DecimalValue) : (between low high amount).Issues P := by
    refine Issues.bind (issues_decimal _) fun below => ?_
    split
    · exact issues_decimal _
    · exact issues_pure false
  induction entries generalizing count with
  | nil => exact issues_pure count
  | cons entry entries ih =>
    unfold countNearFrom
    split
    · exact ih count
    · split
      · exact ih count
      · exact Issues.bind (hbetween _) fun near => ih _

section Reads

variable (cfg : ApiSettings) {customerId : String}
  (hread : P (.redis (.lrange (amlHistoryKey customerId) 0 amlHistoryMaxItems)))
  (hquery : ∀ c, ApiCommand.Uses (fun _ => False) c → P c) (rail : PaymentMethod)

include hread

theorem issues_readHistoryEntries : (readHistoryEntries (amlHistoryKey customerId)).Issues P := by
  refine Issues.tryCatch ?_ fun e => ?_
  · exact Issues.bind (issues_redis hread) fun entries => issues_pure (some entries)
  · cases e <;> first | exact issues_pure _ | exact issues_throw _

include hquery

theorem issues_totalOutgoingRecent : (totalOutgoingRecent cfg customerId rail).Issues P := by
  refine Issues.bind (Program.issues_issue (hquery .now trivial)) fun t => ?_
  refine Issues.bind (issues_readHistoryEntries hread) fun entries => ?_
  cases entries with
  | some entries => exact issues_sumRecentFrom _ _ _ entries
  | none =>
    exact Issues.bind (Program.issues_issue (hquery .now trivial)) fun t =>
      Issues.bind (Program.issues_issue (hquery (.sumOutgoingSince _ _ _) trivial)) fun total =>
        issues_pure _

theorem issues_nearThresholdCount (maxAmount : Decimal) :
    (nearThresholdCount cfg customerId rail maxAmount).Issues P := by
  refine Issues.bind (Program.issues_issue (hquery .now trivial)) fun t => ?_
  refine Issues.bind (issues_readHistoryEntries hread) fun entries => ?_
  cases entries with
  | some entries => exact issues_countNearFrom _ _ _ _ _ entries
  | none =>
    exact Issues.bind (Program.issues_issue (hquery .now trivial)) fun t =>
      Program.issues_issue (hquery (.countNearThresholdSince _ _ _ _ _) trivial)

/-- The rules query, and read the history of the customer. -/
theorem issues_evaluate (amount : Decimal) (destination : Option String) (policy : LimitsPolicy) :
    (evaluate cfg customerId rail amount destination policy).Issues P := by
  unfold evaluate
  split
  · exact issues_pure _
  · refine Issues.bind (issues_totalOutgoingRecent cfg hread hquery rail) fun total => ?_
    refine Issues.bind (issues_decimal _) fun total => ?_
    refine Issues.bind (issues_decimal _) fun above => ?_
    split
    · exact issues_pure _
    · refine Issues.bind (issues_nearThresholdCount cfg hread hquery rail _) fun count => ?_
      exact issues_ite (issues_pure _) (issues_pure _)

end Reads

end AmlRuleEngine

/-- The commands of `record_outgoing`. -/
def RecordsEntry (customerId : String) (rail : PaymentMethod) (amount : Decimal) :
    ApiCommand → Prop
  | .redis (.lpush key text) =>
    key = amlHistoryKey customerId ∧ ∃ timestamp, text = .amlEntry timestamp rail amount
  | c => c.Uses (· = amlHistoryKey customerId)

theorem RecordsEntry.uses {K : String → Prop} {customerId : String} {rail : PaymentMethod}
    {amount : Decimal} {c : ApiCommand} (hc : RecordsEntry customerId rail amount c)
    (haml : K (amlHistoryKey customerId)) : c.Uses K := by
  have huses : c.Uses (· = amlHistoryKey customerId) := by
    cases c with
    | redis command => cases command <;> first | exact hc.1 | exact hc
    | _ => exact hc
  exact huses.mono fun _ hkey => hkey ▸ haml

/-- `record_outgoing`. -/
theorem AmlRuleEngine.issues_recordOutgoing (cfg : ApiSettings) (customerId : String)
    (rail : PaymentMethod) (amount : Decimal) :
    (recordOutgoing cfg customerId rail amount).Issues (RecordsEntry customerId rail amount) := by
  have hentry (t : Int) : RecordsEntry customerId rail amount
      (.redis (.lpush (amlHistoryKey customerId) (.amlEntry t rail amount))) := ⟨rfl, t, rfl⟩
  have htrim : RecordsEntry customerId rail amount
      (.redis (.ltrim (amlHistoryKey customerId) 0 amlHistoryMaxItems)) := rfl
  have hexpire (seconds : Int) : RecordsEntry customerId rail amount
      (.redis (.expire (amlHistoryKey customerId) seconds)) := rfl
  refine Issues.bind (Program.issues_issue (c := ApiCommand.now) trivial) fun t =>
    Issues.tryCatch ?_ fun e => ?_
  · refine Issues.bind (issues_redis (hentry _)) fun _ => ?_
    exact Issues.bind (issues_redis htrim) fun _ => issues_redis (hexpire _)
  · cases e <;> first | exact issues_pure _ | exact issues_throw _

namespace Create

namespace Run

variable {K : String → Prop} (cfg : ApiSettings) (r : Run)

theorem uses_loadCustomerOrRaise : r.loadCustomerOrRaise.Uses K := by
  refine uses_issue_bind (c := .getById _) trivial fun customer => ?_
  cases customer
  · exact issues_throw _
  · exact issues_pure _

theorem uses_tryReturnReplayedResponse : r.tryReturnReplayedResponse.Uses K :=
  uses_issue_bind (c := .getSnapshot _ _) trivial fun _ => issues_pure _

theorem uses_existingResponse : r.existingResponse.Uses K :=
  uses_issue_bind (c := .getByMerchantAndIdempotency _ _) trivial fun _ => issues_pure _

theorem uses_resolveReplayedAfterConflict : r.resolveReplayedAfterConflict.Uses K := by
  refine Issues.bind r.uses_tryReturnReplayedResponse fun replayed => ?_
  cases replayed with
  | some response => exact issues_pure response
  | none =>
    refine Issues.bind r.uses_existingResponse fun existing => ?_
    cases existing with
    | some response => exact issues_pure response
    | none => exact issues_throw _

theorem uses_resolvePending (n : Nat) : (r.resolvePending n).Uses K := by
  induction n with
  | zero => exact issues_throw _
  | succ n ih =>
    refine Issues.bind r.uses_tryReturnReplayedResponse fun replayed => ?_
    cases replayed with
    | some response => exact issues_pure response
    | none =>
      refine Issues.bind r.uses_existingResponse fun existing => ?_
      cases existing with
      | some response => exact issues_pure response
      | none => exact ih

theorem issues_afterCommitObservability (response : PaymentAcceptedResponse) :
    (r.afterCommitObservability cfg response).Issues
      (RecordsEntry r.context.customerId r.request.method r.request.amount) := by
  unfold afterCommitObservability
  have hqueue : (do let _ : Int ← issue .countInReview : ApiProgram Unit).Issues
      (RecordsEntry r.context.customerId r.request.method r.request.amount) :=
    Issues.bind (Program.issues_issue (c := ApiCommand.countInReview) trivial)
      fun _ => issues_pure _
  dsimp only
  split
  · exact Issues.bind (AmlRuleEngine.issues_recordOutgoing cfg _ _ _) fun _ => hqueue
  · exact hqueue

theorem uses_afterCommitObservability (haml : K (amlHistoryKey r.context.customerId))
    (response : PaymentAcceptedResponse) : (r.afterCommitObservability cfg response).Uses K :=
  (r.issues_afterCommitObservability cfg response).mono fun _ hc => hc.uses haml

/-! ## Controls -/

theorem uses_runPreChecks (hpolicy : ∀ rail, K (limitsPolicyKey rail))
    (hdaily : ∀ t customerId rail, K (limitsDailyKey (dateKey t) customerId rail))
    (hvelocity : ∀ customerId rail, K (limitsVelocityKey customerId rail))
    (hrate : ∀ dimension value bucket, K (rateLimitKey dimension value bucket))
    (customer : Customer) : (r.runPreChecks cfg customer).Uses K := by
  refine Issues.bind (KycService.uses_enforce customer _) fun _ => ?_
  refine Issues.bind (LimitsService.uses_enforce (hpolicy _) (fun t => hdaily t _ _)
    (hvelocity _ _) _ _) fun evaluation => ?_
  exact Issues.bind (RateLimiterService.uses_enforce hrate cfg _ _ _) fun _ => issues_pure _

theorem isControl_runPreChecks (customer : Customer) : (r.runPreChecks cfg customer).IsControl :=
  (r.uses_runPreChecks cfg .policy (fun _ => .daily _) .velocity .rate customer).isControl

/-- The evaluation queries, and reads the history of the customer. -/
theorem issues_evaluateControls {P : ApiCommand → Prop}
    (hread : P (.redis (.lrange (amlHistoryKey r.context.customerId) 0 amlHistoryMaxItems)))
    (hquery : ∀ c, ApiCommand.Uses (fun _ => False) c → P c) (customer : Customer)
    (evaluation : LimitsService.Evaluation) :
    (r.evaluateControls cfg customer evaluation).Issues P := by
  refine Issues.bind (Issues.mono (RiskScoreService.uses_evaluate cfg _ _ _ _ _) hquery)
    fun risk => ?_
  exact Issues.bind (AmlRuleEngine.issues_evaluate cfg hread hquery _ _ _ _) fun aml =>
    issues_pure _

theorem uses_evaluateControls (haml : K (amlHistoryKey r.context.customerId)) (customer : Customer)
    (evaluation : LimitsService.Evaluation) :
    (r.evaluateControls cfg customer evaluation).Uses K :=
  r.issues_evaluateControls cfg haml (fun _ hc => hc.mono fun _ => False.elim) customer evaluation

theorem isControl_evaluateControls (customer : Customer) (evaluation : LimitsService.Evaluation) :
    (r.evaluateControls cfg customer evaluation).IsControl :=
  (r.uses_evaluateControls cfg (.aml _) customer evaluation).isControl

end Run

end Create

end PaymentsLab
