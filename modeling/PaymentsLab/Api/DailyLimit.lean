import Mathlib.Algebra.Order.BigOperators.Group.Finset
import PaymentsLab.Api.LimitsService
import PaymentsLab.Foundation.Faults
import PaymentsLab.Foundation.Parts

/-!
# The daily limit under concurrency

Any number of `LimitsService.enforce` calls over one Redis. A call reads the counter of its day,
compares, and sets the sum it has computed, so an update that falls between its `GET` and its `SET`
is lost. Where no counter grows in between, the amounts counted in it stay within the limit
(`daily_limit_holds`).
-/

namespace PaymentsLab

open Foundation

/-- A history of commands of the API. -/
abbrev ApiHistory : Type :=
  Program.History ApiCommand ApiReply

/-! ## What a call has counted -/

/-- The history entry is a `SET` of the key that has been answered. -/
def setsKey (key : String) : (Σ c, ApiReply c) → Bool
  | ⟨.redis (.set key' _ _), some _⟩ => key' = key
  | _ => false

/-- The call has passed the daily check on this counter: it has set it. -/
def Counted (key : String) (h : ApiHistory) : Prop :=
  h.any (setsKey key) = true

instance (key : String) (h : ApiHistory) : Decidable (Counted key h) :=
  inferInstanceAs (Decidable (_ = true))

/-- The value of a counter. -/
def countOf : Option StoredText → Int
  | some (.int n) => n
  | _ => 0

/-- What the last `GET` of the key has read. -/
def lastCount (key : String) : ApiHistory → Int
  | [] => 0
  | ⟨.redis (.get key'), some text⟩ :: h => if key' = key then countOf text else lastCount key h
  | _ :: h => lastCount key h

/-- The counter in the store. -/
def counter (s : Redis.Store StoredText) (key : String) : Int :=
  match s key with
  | some ⟨.string text, _⟩ => countOf (some text)
  | _ => 0

/-- Arguments of `enforce`. -/
structure LimitsCall where
  customerId : String
  rail : PaymentMethod
  amount : Decimal

/-- The replies there can be: daily counters are integers, and cached policies are those of the
table. -/
def Admits (db : Database) : (c : ApiCommand) → ApiReply c → Prop
  | .redis (.get key), reply =>
    (IsDailyKey key → ∃ text, reply = some text ∧ ∀ t ∈ text, ∃ n, t = .int n) ∧
      ∀ rail, key = limitsPolicyKey rail → ∀ text t, reply = some text → t ∈ text →
        ∃ policy, t = .policy policy ∧ db.policyByRail rail = some policy
  | .redis (.set key _ ex), reply => IsDailyKey key → 0 < ex → reply = some ()
  | .getByRail rail, reply => reply = db.policyByRail rail
  | _, _ => True

/-- The command counts the amount of a call: it sets the call's own counter, for the first time, to
what has been read plus the amount, within the limit. -/
structure CountsAmount (db : Database) (call : LimitsCall) (h : ApiHistory) (key : String)
    (command : Redis.Command StoredText) : Prop where
  own : ∃ dateKey, key = limitsDailyKey dateKey call.customerId call.rail
  set : ∃ ex, 0 < ex ∧ command = .set key (.int (lastCount key h + call.amount.asCents)) ex
  first : ¬ Counted key h
  within : ∀ policy, db.policyByRail call.rail = some policy →
    lastCount key h + call.amount.asCents ≤ policy.dailyLimitAmount.asCents

/-- The commands a call may issue: of the daily counters and the cached policies it writes its own
counter, and the policy of the table. -/
def Allows (db : Database) (call : LimitsCall) (h : ApiHistory) : ApiCommand → Prop
  | .redis command =>
    command.writes = true →
      (IsDailyKey command.key → CountsAmount db call h command.key command) ∧
      ∀ rail, command.key = limitsPolicyKey rail → ∃ policy ex,
        command = .set (limitsPolicyKey rail) (.policy policy) ex ∧
          db.policyByRail rail = some policy
  | .commit _ _ _ => False
  | _ => True

theorem setsKey_eq_false {key : String} {command : Redis.Command StoredText}
    {reply : Option (Redis.Reply command)} (h : command.writes = true → command.key ≠ key) :
    setsKey key ⟨.redis command, reply⟩ = false := by
  cases command with
  | set key' text ex =>
    have hne : key' ≠ key := h rfl
    cases reply <;> simp [setsKey, hne]
  | _ => rfl

/-- No daily counter has been set. -/
def NothingCounted (h : ApiHistory) : Prop :=
  ∀ key, IsDailyKey key → ¬ Counted key h

theorem counted_cons_of_not {key : String} {e : Σ c, ApiReply c} {h : ApiHistory}
    (he : setsKey key e = false) : Counted key (e :: h) ↔ Counted key h := by
  simp [Counted, he]

/-- A command on another key counts nothing. -/
theorem NothingCounted.cons {h : ApiHistory} (hnothing : NothingCounted h) {e : Σ c, ApiReply c}
    (he : ∀ key, IsDailyKey key → setsKey key e = false) : NothingCounted (e :: h) :=
  fun key hkey => by
    rw [counted_cons_of_not (he key hkey)]
    exact hnothing key hkey

/-- The call has counted its amount in the counter of a day that it has read on the clock. -/
def CountedToday (call : LimitsCall) (h : ApiHistory) : Prop :=
  ∃ t, ⟨.now, t⟩ ∈ h ∧ Counted (limitsDailyKey (dateKey t) call.customerId call.rail) h

theorem allows_read {db : Database} {call : LimitsCall} {h : ApiHistory}
    {command : Redis.Command StoredText} (hreads : command.writes = false) :
    Allows db call h (.redis command) :=
  fun hwrites => absurd (hreads.symm.trans hwrites) (by decide)

theorem Counted.cons {key : String} {h : ApiHistory} (hcounted : Counted key h)
    (e : Σ c, ApiReply c) : Counted key (e :: h) := by
  unfold Counted at hcounted ⊢
  rw [List.any_cons, hcounted, Bool.or_true]

theorem CountedToday.of_suffix {call : LimitsCall} {h h' : ApiHistory}
    (hcounted : CountedToday call h) (hsuffix : h <:+ h') : CountedToday call h' := by
  obtain ⟨t, hread, hset⟩ := hcounted
  refine ⟨t, hsuffix.subset hread, ?_⟩
  obtain ⟨e, he, hsets⟩ := List.any_eq_true.1 hset
  exact List.any_eq_true.2 ⟨e, hsuffix.subset he, hsets⟩

/-- An answered `SET` counts. -/
theorem counted_set {key : String} {text : StoredText} {ex : Int} {reply : Option Unit}
    {h : ApiHistory} (hreply : reply = some ()) :
    Counted key (⟨.redis (.set key text ex), reply⟩ :: h) := by
  subst hreply
  simp [Counted, setsKey]

/-- A command on a velocity set is allowed. -/
theorem allows_velocity {db : Database} {call : LimitsCall} {h : ApiHistory}
    {command : Redis.Command StoredText} {customerId : String} {rail : PaymentMethod}
    (hkey : command.key = limitsVelocityKey customerId rail) :
    Allows db call h (.redis command) := by
  refine fun _ => ⟨fun hdaily => ?_, fun rail' hrail => ?_⟩
  · exact absurd (hkey ▸ hdaily) (limitsVelocityKey_not_daily customerId rail)
  · exact absurd (hkey.symm.trans hrail) (limitsVelocityKey_ne_policy customerId rail rail')

namespace LimitsService

/-- A command of `_get_policy`. -/
def OfPolicy (rail : PaymentMethod) : ApiCommand → Prop
  | .redis (.get key) => key = limitsPolicyKey rail
  | .redis (.set key (.policy _) _) => key = limitsPolicyKey rail
  | .getByRail rail' => rail' = rail
  | _ => False

/-- The policy of the rail is where `_get_policy` looks for it, and what it does there keeps `Q`. -/
structure PolicyRules (db : Database) (rail : PaymentMethod)
    (admits : (c : ApiCommand) → ApiReply c → Prop) (allows : ApiHistory → ApiCommand → Prop)
    (Q : ApiHistory → Prop) : Prop where
  cached : ∀ reply, admits (.redis (.get (limitsPolicyKey rail))) reply → ∀ text t,
    reply = some text → t ∈ text → ∃ policy, t = .policy policy ∧ db.policyByRail rail = some policy
  row : ∀ reply, admits (.getByRail rail) reply → reply = db.policyByRail rail
  get : ∀ h, Q h → allows h (.redis (.get (limitsPolicyKey rail)))
  query : ∀ h, Q h → allows h (.getByRail rail)
  set : ∀ h policy ex, Q h → db.policyByRail rail = some policy →
    allows h (.redis (.set (limitsPolicyKey rail) (.policy policy) ex))
  keeps : ∀ h c r, OfPolicy rail c → Q h → Q (⟨c, r⟩ :: h)

namespace PolicyRules

variable {db : Database} {rail : PaymentMethod} {admits : (c : ApiCommand) → ApiReply c → Prop}
  {allows : ApiHistory → ApiCommand → Prop} {Q : ApiHistory → Prop} {h : ApiHistory}
  (hrules : PolicyRules db rail admits allows Q) (hQ : Q h)

include hrules hQ

theorem cachedPolicy_obeys :
    (cachedPolicy rail).Obeys admits allows
      (fun h o => Q h ∧ ∀ policy, o = .ok (some policy) → db.policyByRail rail = some policy)
      h := by
  unfold cachedPolicy
  rw [Program.obeys_tryCatch, Program.obeys_bind, ApiProgram.obeys_redis]
  refine ⟨hrules.get h hQ, fun reply hreply => ?_⟩
  have hcons := hrules.keeps h (.redis (.get (limitsPolicyKey rail))) reply rfl hQ
  match reply, hreply with
  | none, _ => exact ⟨hcons, fun _ ho => by cases ho⟩
  | some none, _ => exact ⟨hcons, fun _ ho => by cases ho⟩
  | some (some text), hreply =>
    obtain ⟨policy, rfl, hpolicy⟩ := hrules.cached _ hreply _ text rfl rfl
    refine ⟨hcons, fun policy' ho => ?_⟩
    cases ho
    exact hpolicy

theorem cachePolicy_obeys (ttl : Int) {policy : LimitsPolicy}
    (hpolicy : db.policyByRail rail = some policy) :
    (cachePolicy ttl rail policy).Obeys admits allows (fun h _ => Q h) h := by
  unfold cachePolicy
  rw [Program.obeys_tryCatch]
  refine ApiProgram.obeys_redis.2 ⟨hrules.set h policy ttl hQ hpolicy, fun reply _ => ?_⟩
  have hcons := hrules.keeps h (.redis (.set (limitsPolicyKey rail) (.policy policy) ttl)) reply rfl
    hQ
  cases reply <;> exact hcons

theorem getPolicy_obeys (ttl : Int) :
    (getPolicy ttl rail).Obeys admits allows
      (fun h o => Q h ∧ ∀ policy, o = .ok policy → db.policyByRail rail = some policy) h := by
  unfold getPolicy
  rw [Program.obeys_bind]
  refine (hrules.cachedPolicy_obeys hQ).mono (fun _ _ => id) fun h o ho => ?_
  obtain ⟨hQ, ho⟩ := ho
  match o, ho with
  | .error e, _ => exact ⟨hQ, fun _ ho => by cases ho⟩
  | .ok (some policy), ho =>
    refine ⟨hQ, fun policy' ho' => ?_⟩
    cases ho'
    exact ho policy rfl
  | .ok none, _ =>
    refine ⟨hrules.query h hQ, fun entity hentity => ?_⟩
    have hcons := hrules.keeps h (.getByRail rail) entity rfl hQ
    have hrow := hrules.row entity hentity
    match entity, hrow with
    | none, _ => exact ⟨hcons, fun _ ho => by cases ho⟩
    | some entity, hrow =>
      have hpolicy : db.policyByRail rail = some entity := hrow.symm
      change Program.Obeys _ _ _ (cachePolicy ttl rail entity >>= fun _ => pure entity) _
      refine Program.obeys_bind.2 ((hrules.cachePolicy_obeys hcons ttl hpolicy).mono
        (fun _ _ => id) fun h o hQ => ?_)
      match o with
      | .error e => exact ⟨hQ, fun _ ho => by cases ho⟩
      | .ok () =>
        refine ⟨hQ, fun policy' ho => ?_⟩
        cases ho
        exact hpolicy

end PolicyRules

variable {db : Database} {call : LimitsCall} {h : ApiHistory}

theorem policyRules_daily (db : Database) (call : LimitsCall) (rail : PaymentMethod) :
    PolicyRules db rail (Admits db) (Allows db call) NothingCounted where
  cached reply hreply text t htext ht := hreply.2 rail rfl text t htext ht
  row _ hreply := hreply
  get _ _ := allows_read rfl
  query _ _ := trivial
  set _ policy ex _ hpolicy := by
    refine fun _ => ⟨fun hdaily => ?_, fun rail' hrail => ?_⟩
    · exact absurd hdaily (limitsPolicyKey_not_daily rail)
    cases limitsPolicyKey_injective hrail
    exact ⟨policy, ex, rfl, hpolicy⟩
  keeps h c r hc hnothing := by
    refine hnothing.cons fun key hkey => ?_
    cases c with
    | redis command =>
      cases command with
      | set key' text ex =>
        have hpolicy : key' = limitsPolicyKey rail := by
          cases text with
          | policy => exact hc
          | _ => exact hc.elim
        refine setsKey_eq_false fun _ heq => limitsPolicyKey_not_daily rail ?_
        rw [← hpolicy]
        exact (show key' = key from heq) ▸ hkey
      | _ => rfl
    | _ => rfl

theorem getPolicy_obeys (hnothing : NothingCounted h) (ttl : Int) (rail : PaymentMethod) :
    (getPolicy ttl rail).Obeys (Admits db) (Allows db call)
      (fun h o => NothingCounted h ∧ ∀ policy, o = .ok policy →
        db.policyByRail rail = some policy) h :=
  (policyRules_daily db call rail).getPolicy_obeys hnothing ttl

/-- A daily counter is read as an integer. -/
theorem redisGetInt_obeys (hnothing : NothingCounted h) {key : String} (hdaily : IsDailyKey key) :
    (redisGetInt key).Obeys (Admits db) (Allows db call)
      (fun h o => NothingCounted h ∧ o = .ok (lastCount key h)) h := by
  unfold redisGetInt
  refine Program.obeys_bind.2 (ApiProgram.obeys_redis.2 ⟨allows_read rfl, fun reply hreply => ?_⟩)
  obtain ⟨text, rfl, htext⟩ := hreply.1 hdaily
  have hcons := hnothing.cons (e := ⟨.redis (.get key), some text⟩) fun _ _ => rfl
  match text, htext with
  | none, _ => exact ⟨hcons, by simp [lastCount, countOf]⟩
  | some t, htext =>
    obtain ⟨n, rfl⟩ := htext t rfl
    exact ⟨hcons, by simp [lastCount, countOf]⟩

/-- The counter is set once, with what has been read plus the amount; nothing is caught. -/
theorem countDailyAmount_obeys (hnothing : NothingCounted h) {dateKey : String}
    {policy : LimitsPolicy} (hpolicy : db.policyByRail call.rail = some policy) :
    (countDailyAmount (limitsDailyKey dateKey call.customerId call.rail) call.rail call.amount
        policy).Obeys (Admits db) (Allows db call)
      (fun h o =>
        match o with
        | .ok () => Counted (limitsDailyKey dateKey call.customerId call.rail) h
        | .error e => e ≠ .redisError ∧ e ≠ .valueError) h := by
  have hdaily : IsDailyKey (limitsDailyKey dateKey call.customerId call.rail) :=
    ⟨dateKey, call.customerId, call.rail, rfl⟩
  unfold countDailyAmount
  refine Program.obeys_bind.2 ((redisGetInt_obeys hnothing hdaily).mono (fun _ _ => id) ?_)
  rintro h o ⟨hnothing, rfl⟩
  simp only []
  split
  · exact ⟨by simp, by simp⟩
  · next hwithin =>
    refine ⟨trivial, fun t _ => ?_⟩
    have hcons := hnothing.cons (e := ⟨.now, t⟩) fun _ _ => rfl
    refine ApiProgram.obeys_redis.2 ⟨fun _ => ⟨fun _ => ?_, fun rail hrail => ?_⟩,
      fun reply hreply => ?_⟩
    · refine ⟨⟨dateKey, rfl⟩, ⟨secondsUntilDayEnd t, by unfold secondsUntilDayEnd; omega, rfl⟩,
        hcons _ hdaily, fun policy' hpolicy' => ?_⟩
      cases hpolicy.symm.trans hpolicy'
      exact Int.not_lt.1 hwithin
    · exact absurd (hrail ▸ hdaily) (limitsPolicyKey_not_daily rail)
    · cases hreply hdaily (by unfold secondsUntilDayEnd; omega)
      exact counted_set rfl

/-- With its counter available, the daily check passes where the counter of its day has been set. -/
theorem enforceDailyLimit_obeys (hnothing : NothingCounted h) {policy : LimitsPolicy}
    (hpolicy : db.policyByRail call.rail = some policy) :
    (enforceDailyLimit call.customerId call.rail call.amount policy).Obeys (Admits db)
      (Allows db call) (fun h o => o = .ok () → CountedToday call h) h := by
  unfold enforceDailyLimit
  refine Program.obeys_bind.2 ⟨trivial, fun t _ => ?_⟩
  have hcons := hnothing.cons (e := ⟨.now, t⟩) fun _ _ => rfl
  refine Program.obeys_tryCatch.2 (((countDailyAmount_obeys hcons hpolicy).keep
    List.mem_cons_self).mono (fun _ _ => id) ?_)
  rintro h o ⟨ho, hread⟩
  match o, ho with
  | .ok (), ho => exact fun _ => ⟨t, hread, ho⟩
  | .error .redisError, ho => exact absurd rfl ho.1
  | .error .valueError, ho => exact absurd rfl ho.2
  | .error .validationError, _ | .error .decimalSignal, _ | .error (.app _), _ =>
    exact fun ho => by cases ho

theorem countVelocity_obeys {key : String} (hcounted : Counted key h) (t : Instant)
    (customerId : String) (rail : PaymentMethod) (policy : LimitsPolicy) :
    (countVelocity t (limitsVelocityKey customerId rail) rail policy).Obeys (Admits db)
      (Allows db call) (fun h _ => Counted key h) h := by
  unfold countVelocity
  refine Program.obeys_bind.2 (ApiProgram.obeys_redis.2 ⟨allows_velocity rfl, fun reply _ => ?_⟩)
  cases reply with
  | none => exact hcounted.cons _
  | some reply =>
    refine Program.obeys_bind.2 (ApiProgram.obeys_redis.2 ⟨allows_velocity rfl, fun count _ => ?_⟩)
    cases count with
    | none => exact (hcounted.cons _).cons _
    | some count =>
      simp only [Option.elim_some]
      split
      · exact (hcounted.cons _).cons _
      · refine Program.obeys_bind.2 (ApiProgram.obeys_redis.2 ⟨allows_velocity rfl, fun r _ => ?_⟩)
        cases r with
        | none => exact ((hcounted.cons _).cons _).cons _
        | some r =>
          refine Program.obeys_bind.2
            (ApiProgram.obeys_redis.2 ⟨allows_velocity rfl, fun r _ => ?_⟩)
          cases r <;> exact (((hcounted.cons _).cons _).cons _).cons _

theorem enforceVelocityLimit_obeys {key : String} (hcounted : Counted key h) (customerId : String)
    (rail : PaymentMethod) (policy : LimitsPolicy) :
    (enforceVelocityLimit customerId rail policy).Obeys (Admits db) (Allows db call)
      (fun h _ => Counted key h) h := by
  unfold enforceVelocityLimit
  refine Program.obeys_bind.2 ⟨trivial, fun t _ => Program.obeys_tryCatch.2 ?_⟩
  refine (countVelocity_obeys (hcounted.cons _) t customerId rail policy).mono (fun _ _ => id) ?_
  intro h o hcounted
  match o with
  | .ok _ => exact hcounted
  | .error .redisError =>
    refine ⟨trivial, fun count _ => ?_⟩
    change Program.Obeys _ _ _ (if policy.velocityLimitCount ≤ count then _ else _) _
    split <;> exact hcounted.cons _
  | .error .validationError | .error .valueError | .error .decimalSignal | .error (.app _) =>
    exact hcounted

/-- The bounds of a transaction are checked without a command. -/
theorem enforceTransactionAmount_obeys (policy : LimitsPolicy) (amount : Decimal) :
    (enforceTransactionAmount policy amount).Obeys (Admits db) (Allows db call)
      (fun h' _ => h' = h) h := by
  unfold enforceTransactionAmount
  dsimp only
  split <;> split <;> rfl

/-- A call that passes the daily check has counted its amount. -/
theorem dailyChecked_obeys (db : Database) (call : LimitsCall) (ttl : Int) :
    (dailyChecked ttl call.customerId call.rail call.amount).Obeys (Admits db) (Allows db call)
      (fun h o => ∀ policy, o = .ok policy → CountedToday call h) [] := by
  have hnothing : NothingCounted [] := fun _ _ hcounted => by cases hcounted
  unfold dailyChecked
  refine Program.obeys_bind.2 ((getPolicy_obeys hnothing ttl call.rail).mono (fun _ _ => id) ?_)
  rintro h (e | policy) ⟨hnothing, ho⟩
  · exact fun _ ho => by cases ho
  refine Program.obeys_bind.2 ((enforceTransactionAmount_obeys policy call.amount).mono
    (fun _ _ => id) ?_)
  rintro _ (e | _) rfl
  · exact fun _ ho => by cases ho
  refine Program.obeys_bind.2 ((enforceDailyLimit_obeys hnothing (ho policy rfl)).mono
    (fun _ _ => id) ?_)
  rintro h (e | _) ho
  · exact fun _ ho => by cases ho
  · exact fun _ _ => ho rfl

/-- A call counts its amount in the daily check, and nothing after it. -/
theorem enforce_obeys (db : Database) (call : LimitsCall) (ttl : Int) :
    (enforce ttl call.customerId call.rail call.amount).Obeys (Admits db) (Allows db call)
      (fun _ _ => True) [] := by
  rw [enforce_eq]
  refine Program.obeys_bind.2 ((dailyChecked_obeys db call ttl).mono (fun _ _ => id) ?_)
  rintro h (e | policy) ho
  · trivial
  obtain ⟨t, -, hcounted⟩ := ho policy rfl
  refine Program.obeys_bind.2 ((enforceVelocityLimit_obeys hcounted call.customerId call.rail
    policy).mono (fun _ _ => id) ?_)
  rintro h (e | n) - <;> trivial

end LimitsService

/-! ## Cached policies -/

/-- The cached policies are those of the table. -/
def CachesTable (db : Database) (redis : Redis.Store StoredText) : Prop :=
  ∀ rail e, redis (limitsPolicyKey rail) = some e → ∃ policy,
    e.value = .string (.policy policy) ∧ db.policyByRail rail = some policy

namespace CachesTable

variable {db : Database} {i : ApiInput} {b : Backend}

theorem get (h : CachesTable db b.redis) (hi : i.redis = .answered) (rail : PaymentMethod)
    (text : Option StoredText) (t : StoredText)
    (htext : (b.execRedis i (.get (limitsPolicyKey rail))).1 = some text) (ht : t ∈ text) :
    ∃ policy, t = .policy policy ∧ db.policyByRail rail = some policy := by
  obtain ⟨text', htext', hpolicy⟩ := Redis.Store.string?_of_forall i.now
    (P := fun t => ∃ policy, t = StoredText.policy policy ∧ db.policyByRail rail = some policy)
    fun e he => by
      obtain ⟨policy, hvalue, hpolicy⟩ := h rail e he
      exact ⟨_, hvalue, policy, rfl, hpolicy⟩
  rw [Backend.execRedis_get hi htext'] at htext
  cases htext
  exact hpolicy t ht

/-- A command that writes no cached policy, or that of the table. -/
theorem execRedis (h : CachesTable db b.redis) (i : ApiInput)
    {command : Redis.Command StoredText}
    (hcommand : ∀ rail, command.key = limitsPolicyKey rail → command.writes = true →
      ∃ policy ex, command = .set (limitsPolicyKey rail) (.policy policy) ex ∧
        db.policyByRail rail = some policy) :
    CachesTable db (b.execRedis i command).2.redis := by
  intro rail e he
  by_cases hrail : command.writes = true ∧ command.key = limitsPolicyKey rail
  · obtain ⟨policy, ex, rfl, hrow⟩ := hcommand rail hrail.2 hrail.1
    rcases Backend.execRedis_set_entry he with hvalue | hold
    · exact ⟨policy, hvalue, hrow⟩
    · exact h rail e hold
  · rw [(b.execRedis_frame i command).2 _ fun hwrites heq => hrail ⟨hwrites, heq.symm⟩] at he
    exact h rail e he

end CachesTable

/-! ## The system -/

/-- Calls of `enforce` over one database and one Redis. -/
def limits : System Nat Backend :=
  Backend.handler.system Nat ApiException LimitsService.Evaluation

namespace Limits

/-- A state of the calls. -/
abbrev State : Type := limits.State

/-- A call on its way. -/
def call (s : State) (n : Nat) :
    Process ApiCommand ApiReply ApiException LimitsService.Evaluation :=
  s.proc n

/-- The beginning of the day: no call has begun, no daily counter is set, and cached policies are
those of the table. -/
structure Initial (ttl : Int) (calls : Nat → LimitsCall) (s : State) : Prop where
  call : ∀ n, call s n =
    ⟨[], LimitsService.enforce ttl (calls n).customerId (calls n).rail (calls n).amount⟩
  counters : ∀ key, IsDailyKey key → s.world.redis key = none
  cached : ∀ rail e, s.world.redis (limitsPolicyKey rail) = some e → ∃ policy,
    e.value = .string (.policy policy) ∧ s.world.database.policyByRail rail = some policy

/-- Redis answers, and the key of the next command has not expired. -/
def available : limits.Guard := fun _ w p i =>
  i.redis = .answered ∧
    ∀ key ∈ (Process.next? p).bind ApiCommand.redisKey?, ∀ e ∈ w.redis key, e.Live i.now

instance (n : Nat) (w : Backend) (p : limits.Local n) (i : limits.Act n) :
    Decidable (available n w p i) :=
  inferInstanceAs (Decidable (ApiInput.redis i = .answered ∧
    ∀ key ∈ (Process.next? p).bind ApiCommand.redisKey?, ∀ e ∈ w.redis key, e.Live
      (ApiInput.now i)))

/-- Redis answers, and every `SET` finds the counter no greater than the call has read it. -/
def keepsUpdates : limits.Guard := fun _ w p i =>
  i.redis = .answered ∧ ∀ key ∈ (Process.next? p).bind ApiCommand.setKey?,
    counter w.redis key ≤ lastCount key (Process.history p)

instance (n : Nat) (w : Backend) (p : limits.Local n) (i : limits.Act n) :
    Decidable (keepsUpdates n w p i) :=
  inferInstanceAs (Decidable (ApiInput.redis i = .answered ∧
    ∀ key ∈ (Process.next? p).bind ApiCommand.setKey?,
      counter w.redis key ≤ lastCount key (Process.history p)))

/-- What such a run maintains. -/
structure Holds (db : Database) (calls : Nat → LimitsCall) (s : State) : Prop where
  database : s.world.database = db
  counters : ∀ key e, IsDailyKey key → s.world.redis key = some e → ∃ n, e.value = .string (.int n)
  cached : ∀ rail e, s.world.redis (limitsPolicyKey rail) = some e → ∃ policy,
    e.value = .string (.policy policy) ∧ db.policyByRail rail = some policy
  obeys : ∀ n, (call s n).rest.Obeys (Admits db) (Allows db (calls n)) (fun _ _ => True)
    (call s n).history
  admitted : ∀ n, ∀ e ∈ (call s n).history, Admits db e.1 e.2
  total : ∀ d c r policy, db.policyByRail r = some policy → ∃ ns : Finset Nat,
    (∀ n, n ∈ ns ↔ Counted (limitsDailyKey d c r) (call s n).history) ∧
      ∑ n ∈ ns, (calls n).amount.asCents ≤ counter s.world.redis (limitsDailyKey d c r) ∧
      (ns.Nonempty → counter s.world.redis (limitsDailyKey d c r) ≤
        policy.dailyLimitAmount.asCents)

namespace Holds

variable {db : Database} {calls : Nat → LimitsCall} {s s' : State}

theorem initial {ttl : Int} (h : Initial ttl calls s) : Holds s.world.database calls s where
  database := rfl
  counters key e hkey he := by
    rw [h.counters key hkey] at he
    cases he
  cached := h.cached
  obeys n := by
    rw [h.call]
    exact LimitsService.enforce_obeys _ _ ttl
  admitted n e he := by
    rw [h.call] at he
    cases he
  total d c r policy _ := by
    have hkey : IsDailyKey (limitsDailyKey d c r) := ⟨d, c, r, rfl⟩
    refine ⟨∅, fun n => ?_, ?_, fun hne => ?_⟩
    · rw [h.call]
      simp [Counted]
    · simp [counter, h.counters _ hkey]
    · exact absurd hne (by simp)

/-- The replies are those that are admitted. -/
theorem admits (h : Holds db calls s) {i : ApiInput} (hi : i.redis = .answered) (c : ApiCommand) :
    Admits db c (s.world.exec i c).1 := by
  cases c with
  | redis command =>
    cases command with
    | get key =>
      change Admits db (.redis (.get key)) (s.world.execRedis i (.get key)).1
      refine ⟨fun hkey => ?_, fun rail hrail text t htext ht => ?_⟩
      · obtain ⟨text, htext, hint⟩ := Redis.Store.string?_of_forall i.now
          (P := fun t => ∃ n, t = StoredText.int n) fun e he => by
            obtain ⟨n, hn⟩ := h.counters key e hkey he
            exact ⟨_, hn, n, rfl⟩
        exact ⟨text, by rw [Backend.execRedis_get hi htext], hint⟩
      · subst hrail
        exact CachesTable.get h.cached hi rail text t htext ht
    | set key text ex =>
      intro _ hex
      change (s.world.execRedis i (.set key text ex)).1 = some ()
      rw [Backend.execRedis_set hi _ _ _ hex]
    | _ => trivial
  | getByRail rail =>
    change s.world.database.policyByRail rail = db.policyByRail rail
    rw [h.database]
  | _ => trivial

/-- An allowed command counts the amount of its call, or leaves the daily counters alone. -/
theorem effect (h : Holds db calls s) (i : ApiInput) {n : Nat}
    {c : ApiCommand} (hallows : Allows db (calls n) (call s n).history c) :
    (∃ key command, c = .redis command ∧
        CountsAmount db (calls n) (call s n).history key command) ∨
      (s.world.exec i c).2.database = db ∧
        (∀ key, IsDailyKey key → (s.world.exec i c).2.redis key = s.world.redis key ∧
          setsKey key ⟨c, (s.world.exec i c).1⟩ = false) ∧
        ∀ rail e, (s.world.exec i c).2.redis (limitsPolicyKey rail) = some e → ∃ policy,
          e.value = .string (.policy policy) ∧ db.policyByRail rail = some policy := by
  cases c with
  | redis command =>
    change _ ∨ (s.world.execRedis i command).2.database = db ∧ _
    obtain ⟨hdatabase, hframe⟩ := s.world.execRedis_frame i command
    by_cases hkey : command.writes = true ∧ IsDailyKey command.key
    · exact .inl ⟨command.key, command, rfl, (hallows hkey.1).1 hkey.2⟩
    · have hne {key : String} (hdaily : IsDailyKey key) (hwrites : command.writes = true) :
          key ≠ command.key := by
        rintro rfl
        exact hkey ⟨hwrites, hdaily⟩
      refine .inr ⟨hdatabase.trans h.database, fun key hdaily => ⟨hframe key (hne hdaily),
        setsKey_eq_false fun hwrites => (hne hdaily hwrites).symm⟩, ?_⟩
      exact CachesTable.execRedis h.cached i fun rail hrail hwrites =>
        (hallows hwrites).2 rail hrail
  | commit => exact hallows.elim
  | _ => exact .inr ⟨h.database, fun _ _ => ⟨rfl, rfl⟩, h.cached⟩

/-- A counter after a step that leaves it alone. -/
theorem total_kept (h : Holds db calls s) {d c : String} {r : PaymentMethod}
    {policy : LimitsPolicy} (hpolicy : db.policyByRail r = some policy)
    (hstore : s'.world.redis (limitsDailyKey d c r) = s.world.redis (limitsDailyKey d c r))
    (hcounted : ∀ n, Counted (limitsDailyKey d c r) (call s' n).history ↔
      Counted (limitsDailyKey d c r) (call s n).history) : ∃ ns : Finset Nat,
      (∀ n, n ∈ ns ↔ Counted (limitsDailyKey d c r) (call s' n).history) ∧
        ∑ n ∈ ns, (calls n).amount.asCents ≤ counter s'.world.redis (limitsDailyKey d c r) ∧
        (ns.Nonempty → counter s'.world.redis (limitsDailyKey d c r) ≤
          policy.dailyLimitAmount.asCents) := by
  obtain ⟨ns, hns, hsum, hlimit⟩ := h.total d c r policy hpolicy
  unfold counter at hsum hlimit ⊢
  rw [hstore]
  exact ⟨ns, fun n => (hns n).trans (hcounted n).symm, hsum, hlimit⟩

/-- A counter after a call has set it, with no update lost. -/
theorem total_counted (h : Holds db calls s) {n : Nat} {d c : String} {r : PaymentMethod} {v : Int}
    {policy : LimitsPolicy} (hpolicy : db.policyByRail r = some policy)
    (hcounter : counter s'.world.redis (limitsDailyKey d c r) = v)
    (hread : counter s.world.redis (limitsDailyKey d c r) + (calls n).amount.asCents ≤ v)
    (hwithin : v ≤ policy.dailyLimitAmount.asCents)
    (hfirst : ¬ Counted (limitsDailyKey d c r) (call s n).history)
    (hcounted : Counted (limitsDailyKey d c r) (call s' n).history)
    (hother : ∀ m, m ≠ n → call s' m = call s m) : ∃ ns : Finset Nat,
      (∀ n, n ∈ ns ↔ Counted (limitsDailyKey d c r) (call s' n).history) ∧
        ∑ n ∈ ns, (calls n).amount.asCents ≤ counter s'.world.redis (limitsDailyKey d c r) ∧
        (ns.Nonempty → counter s'.world.redis (limitsDailyKey d c r) ≤
          policy.dailyLimitAmount.asCents) := by
  obtain ⟨ns, hns, hsum, -⟩ := h.total d c r policy hpolicy
  have hnew : n ∉ ns := fun hmem => hfirst ((hns n).1 hmem)
  refine ⟨insert n ns, fun m => ?_, ?_, fun _ => hcounter ▸ hwithin⟩
  · rw [Finset.mem_insert]
    by_cases hm : m = n
    · subst hm
      exact ⟨fun _ => hcounted, fun _ => .inl rfl⟩
    · rw [hother m hm, hns m]
      exact ⟨fun hmem => hmem.resolve_left hm, .inr⟩
  · rw [Finset.sum_insert hnew, hcounter]
    omega

theorem next (h : Holds db calls s) {n : Nat} {i : ApiInput}
    (hguard : keepsUpdates n s.world (s.proc n) i) (hstep : s.step n i = some s') :
    Holds db calls s' := by
  obtain ⟨c, hstepped, hallows, hobeys⟩ := Handler.obeys_next h.obeys hstep
  have hworld : s'.world = (s.world.exec i c).2 := hstepped.world
  have hhistory : (call s' n).history = ⟨c, (s.world.exec i c).1⟩ :: (call s n).history :=
    hstepped.history
  have hother (m : Nat) (hm : m ≠ n) : call s' m = call s m := hstepped.other m hm
  have hadmits := h.admits hguard.1 c
  replace hobeys := hobeys hadmits
  have hadmitted (m : Nat) : ∀ e ∈ (call s' m).history, Admits db e.1 e.2 := by
    by_cases hm : m = n
    · subst hm
      rw [hhistory]
      exact List.forall_mem_cons.2 ⟨hadmits, h.admitted m⟩
    · rw [hother m hm]
      exact h.admitted m
  have hcounted {key : String} (hkey : setsKey key ⟨c, (s.world.exec i c).1⟩ = false) (m : Nat) :
      Counted key (call s' m).history ↔ Counted key (call s m).history := by
    by_cases hm : m = n
    · subst hm
      rw [hhistory]
      exact counted_cons_of_not hkey
    · rw [hother m hm]
  rcases h.effect i hallows with ⟨key, command, rfl, hcounts⟩ | ⟨hdatabase, hdaily, hcached⟩
  · obtain ⟨⟨dateKey, hown⟩, ⟨ex, hex, rfl⟩, hfirst, hwithin⟩ := hcounts
    have hread : counter s.world.redis key ≤ lastCount key (call s n).history := by
      exact hguard.2 key (by rw [hstepped.next]; rfl)
    have hset := Backend.execRedis_set hguard.1 s.world key
      (.int (lastCount key (call s n).history + (calls n).amount.asCents)) hex
    have hstore : s'.world.redis = s.world.redis.fresh i.now key
        (.int (lastCount key (call s n).history + (calls n).amount.asCents)) ex := by
      rw [hworld]
      exact congrArg (fun r => r.2.redis) hset
    have hnotPolicy (rail : PaymentMethod) : limitsPolicyKey rail ≠ key := by
      rintro rfl
      exact limitsPolicyKey_not_daily rail ⟨_, _, _, hown⟩
    refine ⟨?_, fun key' e hkey' he => ?_, fun rail e he => ?_, hobeys,
      hadmitted, fun d c r policy hpolicy => ?_⟩
    · rw [hworld]
      exact (s.world.execRedis_frame i _).1.trans h.database
    · rw [hstore] at he
      by_cases hkey : key' = key
      · subst hkey
        simp only [Redis.Store.fresh, Function.update_self, Option.some.injEq] at he
        subst he
        exact ⟨_, rfl⟩
      · exact h.counters key' e hkey' ((Function.update_of_ne hkey _ _).symm.trans he)
    · rw [hstore] at he
      exact h.cached rail e ((Function.update_of_ne (hnotPolicy rail) _ _).symm.trans he)
    · by_cases hkey : limitsDailyKey d c r = key
      · cases limitsDailyKey_rail (hkey.trans hown)
        subst hkey
        refine h.total_counted (n := n) hpolicy ?_ ?_ (hwithin policy hpolicy) hfirst ?_ hother
        · simp [counter, hstore, Redis.Store.fresh, countOf]
        · omega
        · rw [hhistory]
          exact counted_set (congrArg Prod.fst hset)
      · refine h.total_kept hpolicy ?_ (hcounted (setsKey_eq_false fun _ => Ne.symm hkey))
        rw [hstore]
        exact Function.update_of_ne hkey _ _
  · refine ⟨hworld ▸ hdatabase, fun key e hkey he => ?_, fun rail e he => ?_, hobeys,
      hadmitted, fun d c r policy hpolicy => ?_⟩
    · rw [hworld, (hdaily key hkey).1] at he
      exact h.counters key e hkey he
    · rw [hworld] at he
      exact hcached rail e he
    · have hkey : IsDailyKey (limitsDailyKey d c r) := ⟨d, c, r, rfl⟩
      refine h.total_kept hpolicy ?_ (hcounted (hdaily _ hkey).2)
      rw [hworld, (hdaily _ hkey).1]

end Holds

/-- The daily check of a call has passed: it has returned, in what the call has done. -/
def PassedDaily (ttl : Int) (call : LimitsCall) (h : ApiHistory) : Prop :=
  ∃ policy h', (LimitsService.dailyChecked ttl call.customerId call.rail call.amount).Ends []
    (.ok policy) h' ∧ h' <:+ h

/-- The calls whose daily check has passed have counted their amounts, and the amounts that have
been counted for a customer, rail and day, all of them, stay within the daily limit of the rail's
policy. -/
structure DailyLimitHolds (ttl : Int) (calls : Nat → LimitsCall) (s : State)
    (date customerId : String) (rail : PaymentMethod) (policy : LimitsPolicy) : Prop where
  passed : ∀ n, PassedDaily ttl (calls n) (call s n).history →
    CountedToday (calls n) (call s n).history
  within : ∃ ns : Finset Nat,
    (∀ n, n ∈ ns ↔ Counted (limitsDailyKey date customerId rail) (call s n).history) ∧
      ∑ n ∈ ns, (calls n).amount.asCents ≤ policy.dailyLimitAmount.asCents

theorem Holds.passed {db : Database} {calls : Nat → LimitsCall} {s : State} (h : Holds db calls s)
    {ttl : Int} {n : Nat} (hpassed : PassedDaily ttl (calls n) (call s n).history) :
    CountedToday (calls n) (call s n).history := by
  obtain ⟨policy, h', hends, hsuffix⟩ := hpassed
  have hobeys := LimitsService.dailyChecked_obeys db (calls n) ttl
  have hcounted := hobeys.of_ends hends fun e he => h.admitted n e (hsuffix.subset he)
  exact (hcounted policy rfl).of_suffix hsuffix

/-- The daily limit holds in every run from the beginning of the day in which every `SET` of a
counter finds it no greater than the call has read it, if the limit is not negative. -/
theorem daily_limit_holds {ttl : Int} {calls : Nat → LimitsCall} {s₀ s : State}
    (h₀ : Initial ttl calls s₀) (hrun : limits.Reaches keepsUpdates s₀ s)
    (date customerId : String) {rail : PaymentMethod} {policy : LimitsPolicy}
    (hpolicy : s₀.world.database.policyByRail rail = some policy)
    (hlimit : 0 ≤ policy.dailyLimitAmount.asCents) :
    DailyLimitHolds ttl calls s date customerId rail policy := by
  have h := hrun.invariant (fun hi hguard hstep => Holds.next hi hguard hstep) (Holds.initial h₀)
  obtain ⟨ns, hns, hsum, hcounter⟩ := h.total date customerId rail policy hpolicy
  refine ⟨fun n => h.passed, ns, hns, ?_⟩
  rcases ns.eq_empty_or_nonempty with rfl | hne
  · simpa using hlimit
  · exact hsum.trans (hcounter hne)

/-! ## Runs -/

def samplePolicy : LimitsPolicy where
  rail := .pix
  minAmount := ⟨1, -2⟩
  maxAmount := ⟨10000, -2⟩
  dailyLimitAmount := ⟨10000, -2⟩
  velocityLimitCount := 10
  velocityWindowSeconds := 60

/-- Calls of one customer for 60.00 each, at the beginning of the day. -/
def sampleCalls (_ : Nat) : LimitsCall :=
  ⟨"c", .pix, ⟨6000, -2⟩⟩

def sample : State where
  world := ⟨⟨[], [samplePolicy], [], [], []⟩, fun _ => none⟩
  proc n := ⟨[], LimitsService.enforce 60 (sampleCalls n).customerId (sampleCalls n).rail
    (sampleCalls n).amount⟩

theorem sample_initial : Initial 60 sampleCalls sample where
  call _ := rfl
  counters _ _ := rfl
  cached _ _ h := by cases h

/-- `k` commands of call `n`, with Redis available. -/
def commands (n k : Nat) : List (Σ i, limits.Act i) :=
  List.replicate k ⟨n, (⟨0, .answered, 0⟩ : ApiInput)⟩

/-- Whether each of the first two calls has counted its amount. -/
def firstTwoCounted (s : State) : Bool × Bool :=
  (decide (Counted (limitsDailyKey "19700101" "c" .pix) (call s 0).history),
    decide (Counted (limitsDailyKey "19700101" "c" .pix) (call s 1).history))

set_option maxRecDepth 10000 in
/-- One call after the other: the first passes, and the second reads what it has counted. -/
theorem daily_limit_holds_sequential : ∃ s : State, firstTwoCounted s = (true, false) ∧
    DailyLimitHolds 60 sampleCalls s "19700101" "c" .pix samplePolicy := by
  have hrun : (System.State.run keepsUpdates (commands 0 11 ++ commands 1 3) sample).map
      firstTwoCounted = some (true, false) := by decide
  obtain ⟨s, hs, hcounted⟩ := Option.map_eq_some_iff.1 hrun
  exact ⟨s, hcounted, daily_limit_holds sample_initial (System.Reaches.of_run hs) "19700101" "c"
    rfl (by decide)⟩

/-- Two calls that have passed are together within the limit. -/
theorem DailyLimitHolds.two {s : State} {date customerId : String} {rail : PaymentMethod}
    {policy : LimitsPolicy} (h : DailyLimitHolds 60 sampleCalls s date customerId rail policy)
    (h₀ : Counted (limitsDailyKey date customerId rail) (call s 0).history)
    (h₁ : Counted (limitsDailyKey date customerId rail) (call s 1).history) :
    12000 ≤ policy.dailyLimitAmount.asCents := by
  obtain ⟨ns, hns, hsum⟩ := h.within
  have hsub : ({0, 1} : Finset Nat) ⊆ ns := by
    intro n hn
    rcases Finset.mem_insert.1 hn with rfl | hn
    · exact (hns 0).2 h₀
    · cases Finset.mem_singleton.1 hn
      exact (hns 1).2 h₁
  have htwo : ∑ n ∈ ({0, 1} : Finset Nat), (sampleCalls n).amount.asCents = 12000 := by decide
  have hamount (n : Nat) : 0 ≤ (sampleCalls n).amount.asCents := by
    unfold sampleCalls
    decide
  calc (12000 : Int) = ∑ n ∈ ({0, 1} : Finset Nat), (sampleCalls n).amount.asCents := htwo.symm
    _ ≤ ∑ n ∈ ns, (sampleCalls n).amount.asCents :=
      Finset.sum_le_sum_of_subset_of_nonneg hsub fun n _ _ => hamount n
    _ ≤ policy.dailyLimitAmount.asCents := hsum

set_option maxRecDepth 10000 in
/-- Both of two calls for 60.00 read the counter before the other sets it, and both pass a limit of
100.00. -/
theorem daily_limit_exceeded : ¬ ∀ (ttl : Int) (calls : Nat → LimitsCall) (s₀ s : State)
    (date customerId : String) (rail : PaymentMethod) (policy : LimitsPolicy),
    Initial ttl calls s₀ → limits.Reaches available s₀ s →
      s₀.world.database.policyByRail rail = some policy → 0 ≤ policy.dailyLimitAmount.asCents →
        DailyLimitHolds ttl calls s date customerId rail policy := by
  intro hholds
  have hrun : (System.State.run available
      (commands 0 5 ++ commands 1 3 ++ commands 0 2 ++ commands 1 2) sample).map
      firstTwoCounted = some (true, true) := by decide
  obtain ⟨s, hs, hcounted⟩ := Option.map_eq_some_iff.1 hrun
  simp only [firstTwoCounted, Prod.mk.injEq, decide_eq_true_eq] at hcounted
  have h := hholds 60 sampleCalls sample s "19700101" "c" .pix samplePolicy sample_initial
    (System.Reaches.of_run hs) rfl (by decide)
  exact absurd (h.two hcounted.1 hcounted.2) (by decide)

end Limits

end PaymentsLab
