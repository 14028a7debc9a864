import Mathlib.Data.Int.Interval
import PaymentsLab.Api.Controls
import PaymentsLab.Api.DailyLimit

/-!
# The rate limits under concurrency

Any number of `RateLimiterService.enforce` calls over one Redis. `INCR` gives every number of a
counter to one call only, and a call increments each of its counters once; so at most as many calls
pass a counter as its limit says, however their commands are interleaved and whatever the other
counters answer (`caps_hold`).
-/

namespace PaymentsLab

open Foundation

/-- Arguments of `enforce`. -/
structure RateLimitCall where
  merchantId : String
  customerId : String
  accountId : String

/-- The checks of a call: the dimension, the identity and the limit. -/
def RateLimitCall.checks (cfg : ApiSettings) (call : RateLimitCall) :
    List (RateLimitDimension × String × Int) :=
  [(.merchant, call.merchantId, cfg.merchantRateLimit),
    (.customer, call.customerId, cfg.customerRateLimit),
    (.account, call.accountId, cfg.accountRateLimit)]

/-- Every check is of a dimension of its own, with the limit of the settings. -/
theorem RateLimitCall.nodup_checks (cfg : ApiSettings) (call : RateLimitCall) :
    ((call.checks cfg).map Prod.fst).Nodup := by
  simp only [checks, List.map_cons, List.map_nil]
  decide

/-- The bucket of a reading of the clock. -/
def rateLimitBucket (cfg : ApiSettings) (t : Instant) : Int :=
  Int.tdiv t (cfg.rateLimitWindowSeconds * 1000000)

namespace RateLimits

/-! ## What a call has done -/

/-- What the `INCR` of a key has answered. -/
def incremented (key : String) : ApiHistory → Option Int
  | [] => none
  | ⟨.redis (.incr key'), some n⟩ :: h => if key' = key then some n else incremented key h
  | _ :: h => incremented key h

/-- The reading of the clock. -/
def reading : ApiHistory → Option Instant
  | [] => none
  | ⟨.now, t⟩ :: _ => some t
  | _ :: h => reading h

/-- The key of a rate limit. -/
def IsRateKey (key : String) : Prop :=
  ∃ dimension value bucket, key = rateLimitKey dimension value bucket

/-- The replies there can be where Redis answers and the counters are integers. -/
def Admits : (c : ApiCommand) → ApiReply c → Prop
  | .redis (.incr key), reply => IsRateKey key → ∃ n, reply = some n
  | .redis (.expire _ _), reply => reply = some ()
  | _, _ => True

/-- The commands a call may issue: it increments a counter once, and sets its time to live. -/
def Allows (h : ApiHistory) : ApiCommand → Prop
  | .redis (.incr key) => IsRateKey key ∧ incremented key h = none
  | .redis (.expire key _) => IsRateKey key
  | .now => True
  | _ => False

/-- The checks that have passed, or the one that has not. -/
def Checked (bucket : Int) (checks : List (RateLimitDimension × String × Int)) (h : ApiHistory) :
    Except ApiException Unit → Prop
  | .ok () => ∀ d v limit, (d, v, limit) ∈ checks →
      ∃ n, incremented (rateLimitKey d v bucket) h = some n ∧ n ≤ limit
  | .error e => ∃ d v limit, (d, v, limit) ∈ checks ∧
      e = .app (.rateLimited ("Rate limited by " ++ d.value) d) ∧
        ∃ n, incremented (rateLimitKey d v bucket) h = some n ∧ limit < n

/-- The outcome of a call: each of its counters is within its limit, or one of them is not. -/
def Enforced (cfg : ApiSettings) (call : RateLimitCall) (h : ApiHistory)
    (o : Except ApiException Unit) : Prop :=
  ∃ t, reading h = some t ∧ Checked (rateLimitBucket cfg t) (call.checks cfg) h o

open RateLimiterService

variable {cfg : ApiSettings} {h : ApiHistory}

/-- A check increments its own counter, and compares what it has been answered. -/
theorem allow_obeys {d : RateLimitDimension} {v : String} {bucket : Int} (limit : Int)
    (hfirst : incremented (rateLimitKey d v bucket) h = none) :
    (allow cfg d v bucket limit).Obeys Admits Allows
      (fun h' o => ∃ n, o = .ok (decide (n ≤ limit)) ∧ reading h' = reading h ∧
        ∀ key, incremented key h' =
          if rateLimitKey d v bucket = key then some n else incremented key h) h := by
  have hkey : IsRateKey (rateLimitKey d v bucket) := ⟨d, v, bucket, rfl⟩
  unfold allow
  refine Program.obeys_tryCatch.2 (Program.obeys_bind.2 (ApiProgram.obeys_redis.2
    ⟨⟨hkey, hfirst⟩, fun reply hreply => ?_⟩))
  obtain ⟨n, rfl⟩ := hreply hkey
  simp only [Option.elim_some]
  split
  · refine Program.obeys_bind.2 (ApiProgram.obeys_redis.2 ⟨hkey, fun reply hexpire => ?_⟩)
    obtain rfl : reply = some () := hexpire
    exact ⟨n, rfl, rfl, fun key => rfl⟩
  · exact ⟨n, rfl, rfl, fun key => rfl⟩

/-- The loop of `enforce`, over checks of different dimensions. -/
theorem enforceChecks_obeys {bucket : Int} {checks : List (RateLimitDimension × String × Int)}
    (hnodup : (checks.map Prod.fst).Nodup)
    (hfirst : ∀ check ∈ checks, incremented (rateLimitKey check.1 check.2.1 bucket) h = none) :
    (enforceChecks cfg bucket checks).Obeys Admits Allows
      (fun h' o => reading h' = reading h ∧
        (∀ key, (∀ check ∈ checks, rateLimitKey check.1 check.2.1 bucket ≠ key) →
          incremented key h' = incremented key h) ∧ Checked bucket checks h' o) h := by
  induction checks generalizing h with
  | nil => exact ⟨rfl, fun _ _ => rfl, fun _ _ _ hmem => absurd hmem List.not_mem_nil⟩
  | cons check checks ih =>
    obtain ⟨d, v, limit⟩ := check
    rw [List.map_cons, List.nodup_cons] at hnodup
    -- the keys of the later checks are of other dimensions
    have hother : ∀ check ∈ checks,
        rateLimitKey d v bucket ≠ rateLimitKey check.1 check.2.1 bucket := by
      intro check hcheck heq
      have hd := (rateLimitKey_injective heq).1
      exact hnodup.1 (List.mem_map.2 ⟨check, hcheck, hd.symm⟩)
    unfold enforceChecks
    refine Program.obeys_bind.2 ((allow_obeys limit
      (hfirst _ List.mem_cons_self)).mono (fun _ _ => id) ?_)
    rintro h₁ o ⟨n, rfl, hreading, hincremented⟩
    have hown : incremented (rateLimitKey d v bucket) h₁ = some n := by
      rw [hincremented, if_pos rfl]
    by_cases hn : n ≤ limit
    · simp only [hn, decide_true, Bool.not_true, Bool.false_eq_true, if_false]
      refine (ih hnodup.2 fun check hcheck => ?_).mono (fun _ _ => id) fun h₂ o ho => ?_
      · rw [hincremented, if_neg (hother check hcheck)]
        exact hfirst check (List.mem_cons_of_mem _ hcheck)
      · obtain ⟨hreading', hkept, hchecked⟩ := ho
        refine ⟨hreading'.trans hreading, fun key hkey => ?_, ?_⟩
        · rw [hkept key fun check hcheck => hkey check (List.mem_cons_of_mem _ hcheck),
            hincremented, if_neg (hkey (d, v, limit) List.mem_cons_self)]
        · have hstill : incremented (rateLimitKey d v bucket) h₂ = some n := by
            rw [hkept _ fun check hcheck => (hother check hcheck).symm, hown]
          cases o with
          | ok =>
            intro d' v' limit' hmem
            rcases List.mem_cons.1 hmem with heq | hmem
            · cases heq
              exact ⟨n, hstill, hn⟩
            · exact hchecked d' v' limit' hmem
          | error e =>
            obtain ⟨d', v', limit', hmem, hrest⟩ := hchecked
            exact ⟨d', v', limit', List.mem_cons_of_mem _ hmem, hrest⟩
    · simp only [hn, decide_false, Bool.not_false, if_true]
      refine ⟨hreading, fun key hkey => ?_, d, v, limit, List.mem_cons_self, rfl, n, hown, by omega⟩
      rw [hincremented, if_neg (hkey (d, v, limit) List.mem_cons_self)]

theorem enforce_obeys (cfg : ApiSettings) (call : RateLimitCall) :
    (enforce cfg call.merchantId call.customerId call.accountId).Obeys Admits Allows
      (Enforced cfg call) [] := by
  unfold enforce
  refine Program.obeys_bind.2 ⟨trivial, fun t _ => ?_⟩
  refine (enforceChecks_obeys (call.nodup_checks cfg) fun _ _ => rfl).mono (fun _ _ => id) ?_
  rintro h o ⟨hreading, -, hchecked⟩
  exact ⟨t, hreading, hchecked⟩

/-! ## Counters -/

/-- What is at the key, if anything, is an integer. -/
def IsCounter (s : Redis.Store StoredText) (key : String) : Prop :=
  ∀ e, s key = some e → ∃ n, e.value = .string (.int n)

/-- A counter is a matter of the value at its key. -/
theorem counter_congr {s s' : Redis.Store StoredText} {key : String}
    (h : (s' key).map (·.value) = (s key).map (·.value)) :
    counter s' key = counter s key ∧ (IsCounter s key → IsCounter s' key) := by
  unfold counter IsCounter
  cases he : s key with
  | none =>
    rw [he, Option.map_none, Option.map_eq_none_iff] at h
    simp [h]
  | some e =>
    rw [he, Option.map_some, Option.map_eq_some_iff] at h
    obtain ⟨e', he', hvalue⟩ := h
    obtain ⟨value, expiresAt⟩ := e
    obtain ⟨value', expiresAt'⟩ := e'
    obtain rfl : value' = value := hvalue
    refine ⟨?_, fun hcounter e heq => ?_⟩
    · rw [he']
      cases value' <;> rfl
    · rw [he'] at heq
      cases heq
      exact hcounter ⟨value', expiresAt⟩ rfl

/-- `INCR` of a counter that has not expired. -/
theorem execRedis_incr {i : ApiInput} (hi : i.redis = .answered) {b : Backend} {key : String}
    (hcounter : IsCounter b.redis key) (hlive : ∀ e ∈ b.redis key, e.Live i.now) :
    ∃ expiresAt, b.execRedis i (.incr key) = (some (counter b.redis key + 1),
      { b with
        redis := Function.update b.redis key
          (some ⟨.string (.int (counter b.redis key + 1)), expiresAt⟩) }) := by
  cases he : b.redis key with
  | none =>
    have hfind : b.redis.find i.now key = none := by simp [Redis.Store.find, he]
    refine ⟨none, ?_⟩
    simp [Backend.execRedis, Redis.exec, Redis.Store.string?, Redis.Store.put, hfind, hi, counter,
      he, Redis.Text.ofInt]
  | some e =>
    obtain ⟨n, hn⟩ := hcounter e he
    obtain ⟨value, expiresAt⟩ := e
    obtain rfl : value = .string (.int n) := hn
    have hfind : b.redis.find i.now key = some ⟨.string (.int n), expiresAt⟩ := by
      simp [Redis.Store.find, he, hlive _ he]
    refine ⟨expiresAt, ?_⟩
    simp [Backend.execRedis, Redis.exec, Redis.Store.string?, Redis.Store.put, hfind, hi, counter,
      he, Redis.Text.ofInt, Redis.Text.toInt, countOf]

/-- `EXPIRE` leaves every value alone. -/
theorem execRedis_expire (i : ApiInput) (b : Backend) (key : String) (seconds : Int)
    (key' : String) :
    ((b.execRedis i (.expire key seconds)).2.redis key').map (·.value) =
      (b.redis key').map (·.value) := by
  rcases b.execRedis_cases i (.expire key seconds) with ⟨reply, redis, hexec, heq⟩ | heq
  · rw [heq]
    simp only [Redis.exec] at hexec
    split at hexec
    · cases hexec
      rfl
    · next e hfind =>
      cases hexec
      by_cases hkey : key' = key
      · subst hkey
        simp [(Option.filter_eq_some_iff.1 hfind).1]
      · simp [Function.update_of_ne hkey]
  · rw [heq]

theorem execRedis_expire_reply {i : ApiInput} (hi : i.redis = .answered) (b : Backend)
    (key : String) (seconds : Int) : (b.execRedis i (.expire key seconds)).1 = some () := by
  cases hfind : b.redis.find i.now key <;> simp [Backend.execRedis, Redis.exec, hfind, hi]

end RateLimits

/-! ## The system -/

/-- Calls of `RateLimiterService.enforce` over one Redis. -/
def rateLimits : System Nat Backend :=
  Backend.handler.system Nat ApiException Unit

namespace RateLimits

/-- A state of the calls. -/
abbrev State : Type := rateLimits.State

/-- A call on its way. -/
def call (s : State) (n : Nat) : Process ApiCommand ApiReply ApiException Unit :=
  s.proc n

/-- No call has begun, and no counter is there. -/
structure Initial (cfg : ApiSettings) (calls : Nat → RateLimitCall) (s : State) : Prop where
  call : ∀ n, call s n = ⟨[], RateLimiterService.enforce cfg (calls n).merchantId
    (calls n).customerId (calls n).accountId⟩
  counters : ∀ key, IsRateKey key → s.world.redis key = none

/-- The key of an `INCR`. -/
def incrKey? : ApiCommand → Option String
  | .redis (.incr key) => some key
  | _ => none

/-- Redis answers, and no counter is incremented after it has expired. -/
def inTime : rateLimits.Guard := fun _ w p i =>
  i.redis = .answered ∧
    ∀ key ∈ (Process.next? p).bind incrKey?, ∀ e ∈ w.redis key, e.Live i.now

instance (n : Nat) (w : Backend) (p : rateLimits.Local n) (i : rateLimits.Act n) :
    Decidable (inTime n w p i) :=
  inferInstanceAs (Decidable (ApiInput.redis i = .answered ∧
    ∀ key ∈ (Process.next? p).bind incrKey?, ∀ e ∈ w.redis key, e.Live (ApiInput.now i)))

/-- What such a run maintains: every number up to the counter has been answered to one call at
most. -/
structure Holds (cfg : ApiSettings) (calls : Nat → RateLimitCall) (s : State) : Prop where
  counters : ∀ key, IsRateKey key → IsCounter s.world.redis key
  nonneg : ∀ key, IsRateKey key → 0 ≤ counter s.world.redis key
  obeys : ∀ n, (call s n).rest.Obeys Admits Allows (Enforced cfg (calls n)) (call s n).history
  counted : ∀ n key k, IsRateKey key → incremented key (call s n).history = some k →
    1 ≤ k ∧ k ≤ counter s.world.redis key
  distinct : ∀ m n key k, IsRateKey key → incremented key (call s m).history = some k →
    incremented key (call s n).history = some k → m = n

namespace Holds

variable {cfg : ApiSettings} {calls : Nat → RateLimitCall} {s s' : State}

theorem initial (h : Initial cfg calls s) : Holds cfg calls s where
  counters key hkey e he := by
    rw [h.counters key hkey] at he
    cases he
  nonneg key hkey := by simp [counter, h.counters key hkey]
  obeys n := by
    rw [h.call]
    exact enforce_obeys cfg (calls n)
  counted n key k _ hk := by
    rw [h.call] at hk
    cases hk
  distinct m n key k _ hk := by
    rw [h.call] at hk
    cases hk

/-- A step that changes no value and increments nothing. -/
theorem kept (h : Holds cfg calls s)
    (hobeys : ∀ n, (call s' n).rest.Obeys Admits Allows (Enforced cfg (calls n))
      (call s' n).history)
    (hvalues : ∀ key, (s'.world.redis key).map (·.value) = (s.world.redis key).map (·.value))
    (hincremented : ∀ n key, incremented key (call s' n).history =
      incremented key (call s n).history) : Holds cfg calls s' where
  counters key hkey := (counter_congr (hvalues key)).2 (h.counters key hkey)
  nonneg key hkey := by
    rw [(counter_congr (hvalues key)).1]
    exact h.nonneg key hkey
  obeys := hobeys
  counted n key k hkey hk := by
    rw [hincremented] at hk
    rw [(counter_congr (hvalues key)).1]
    exact h.counted n key k hkey hk
  distinct m n key k hkey hm hn := by
    rw [hincremented] at hm hn
    exact h.distinct m n key k hkey hm hn

/-- A call that increments a counter is answered a number that no call has been answered. -/
theorem ticket (h : Holds cfg calls s) {n : Nat} {key : String} (hkey : IsRateKey key)
    (hobeys : ∀ n, (call s' n).rest.Obeys Admits Allows (Enforced cfg (calls n))
      (call s' n).history) {expiresAt : Option Int}
    (hstore : s'.world.redis = Function.update s.world.redis key
      (some ⟨.string (.int (counter s.world.redis key + 1)), expiresAt⟩))
    (hown : ∀ key', incremented key' (call s' n).history =
      if key = key' then some (counter s.world.redis key + 1)
      else incremented key' (call s n).history)
    (hother : ∀ m, m ≠ n → call s' m = call s m) : Holds cfg calls s' := by
  have hnonneg := h.nonneg key hkey
  have hcounter : counter s'.world.redis key = counter s.world.redis key + 1 := by
    simp [hstore, counter, countOf]
  have hkeep {key' : String} (hne : key' ≠ key) : s'.world.redis key' = s.world.redis key' := by
    rw [hstore, Function.update_of_ne hne]
  -- the other calls, and the other counters, are as before
  have hold {m : Nat} {key' : String} (hne : m ≠ n ∨ key' ≠ key) :
      incremented key' (call s' m).history = incremented key' (call s m).history := by
    by_cases hm : m = n
    · subst hm
      rw [hown, if_neg (Ne.symm (hne.resolve_left fun hm => hm rfl))]
    · rw [hother m hm]
  refine ⟨fun key' hkey' e he => ?_, fun key' hkey' => ?_, hobeys, fun m key' k hkey' hk => ?_,
    fun l m key' k hkey' hl hm => ?_⟩
  · by_cases hne : key' = key
    · subst hne
      rw [hstore, Function.update_self] at he
      cases he
      exact ⟨_, rfl⟩
    · rw [hkeep hne] at he
      exact h.counters key' hkey' e he
  · by_cases hne : key' = key
    · subst hne
      omega
    · have := h.nonneg key' hkey'
      unfold counter at this ⊢
      rwa [hkeep hne]
  · by_cases hne : key' = key
    · subst hne
      rw [hcounter]
      by_cases hm : m = n
      · subst hm
        rw [hown, if_pos rfl] at hk
        cases hk
        omega
      · rw [hold (.inl hm)] at hk
        have := h.counted m key' k hkey' hk
        omega
    · rw [hold (.inr hne)] at hk
      have := h.counted m key' k hkey' hk
      unfold counter at this ⊢
      rwa [hkeep hne]
  · by_cases hne : key' = key
    · subst hne
      have hfresh {m : Nat} (hm : m ≠ n) (hk : incremented key' (call s' m).history = some k) :
          k ≤ counter s.world.redis key' := by
        rw [hold (.inl hm)] at hk
        exact (h.counted m key' k hkey' hk).2
      have hnew (hk : incremented key' (call s' n).history = some k) :
          k = counter s.world.redis key' + 1 := by
        rw [hown, if_pos rfl] at hk
        exact (Option.some.inj hk).symm
      by_cases hln : l = n
      · by_cases hmn : m = n
        · exact hln.trans hmn.symm
        · have := hfresh hmn hm
          have := hnew (hln ▸ hl)
          omega
      · by_cases hmn : m = n
        · have := hfresh hln hl
          have := hnew (hmn ▸ hm)
          omega
        · rw [hold (.inl hln)] at hl
          rw [hold (.inl hmn)] at hm
          exact h.distinct l m key' k hkey' hl hm
    · rw [hold (.inr hne)] at hl hm
      exact h.distinct l m key' k hkey' hl hm

theorem next (h : Holds cfg calls s) {n : Nat} {i : ApiInput}
    (hguard : inTime n s.world (s.proc n) i) (hstep : s.step n i = some s') :
    Holds cfg calls s' := by
  obtain ⟨c, hstepped, hallows, hobeys⟩ := Handler.obeys_next h.obeys hstep
  have hworld : s'.world = (s.world.exec i c).2 := hstepped.world
  have hhistory : (call s' n).history = ⟨c, (s.world.exec i c).1⟩ :: (call s n).history :=
    hstepped.history
  have hother (m : Nat) (hm : m ≠ n) : call s' m = call s m := hstepped.other m hm
  have hkept (hcons : ∀ key, incremented key (⟨c, (s.world.exec i c).1⟩ :: (call s n).history) =
      incremented key (call s n).history) (m : Nat) (key : String) :
      incremented key (call s' m).history = incremented key (call s m).history := by
    by_cases hm : m = n
    · subst hm
      rw [hhistory]
      exact hcons key
    · rw [hother m hm]
  cases c with
  | now => exact h.kept (hobeys trivial) (fun key => by rw [hworld]; rfl) (hkept fun _ => rfl)
  | redis command =>
    cases command with
    | incr key =>
      obtain ⟨hkey, hfirst⟩ := hallows
      obtain ⟨expiresAt, hexec⟩ := execRedis_incr hguard.1 (h.counters key hkey)
        (hguard.2 key (by rw [hstepped.next]; rfl))
      have hreply : (s.world.exec i (.redis (.incr key))).1 =
        some (counter s.world.redis key + 1) := congrArg Prod.fst hexec
      have hstore : s'.world.redis = _ := (congrArg Backend.redis hworld).trans
        (congrArg (fun r => r.2.redis) hexec)
      refine h.ticket (n := n) hkey (hobeys fun _ => ⟨_, hreply⟩) hstore (fun key' => ?_) hother
      rw [hhistory, hreply]
      rfl
    | expire key seconds =>
      refine h.kept (hobeys ?_) (fun key' => ?_) (hkept fun _ => rfl)
      · exact execRedis_expire_reply hguard.1 s.world key seconds
      · rw [hworld]
        exact execRedis_expire i s.world key seconds key'
    | _ => exact hallows.elim
  | _ => exact hallows.elim

end Holds

/-- The call has ended normally. -/
def Passed (p : Process ApiCommand ApiReply ApiException Unit) : Prop :=
  p.rest = .ret ()

/-- The bucket of a call. -/
def bucket? (cfg : ApiSettings) (p : Process ApiCommand ApiReply ApiException Unit) : Option Int :=
  (reading p.history).map (rateLimitBucket cfg)

/-- At most `limit` calls that have the identity pass its counter in a bucket: each of them has been
answered a number of its own. -/
theorem Holds.card_le {cfg : ApiSettings} {calls : Nat → RateLimitCall} {s : State}
    (h : Holds cfg calls s) (d : RateLimitDimension) (v : String) {limit : Int} (bucket : Int)
    (hlimit : 0 ≤ limit) {ns : Finset Nat}
    (hns : ∀ n ∈ ns, Passed (call s n) ∧ bucket? cfg (call s n) = some bucket ∧
      (d, v, limit) ∈ (calls n).checks cfg) : ns.card ≤ limit := by
  have hticket : ∀ n ∈ ns, ∃ k,
      incremented (rateLimitKey d v bucket) (call s n).history = some k ∧ 1 ≤ k ∧ k ≤ limit := by
    intro n hn
    obtain ⟨hpassed, hbucket, hcheck⟩ := hns n hn
    have hobeys := h.obeys n
    rw [hpassed] at hobeys
    obtain ⟨t, ht, hchecked⟩ := hobeys
    rw [bucket?, ht, Option.map_some, Option.some.injEq] at hbucket
    subst hbucket
    obtain ⟨k, hk, hle⟩ := hchecked d v limit hcheck
    exact ⟨k, hk, (h.counted n _ k ⟨d, v, _, rfl⟩ hk).1, hle⟩
  choose! k hk using hticket
  have hcard : ns.card ≤ (Finset.Icc 1 limit).card := by
    refine Finset.card_le_card_of_injOn k (fun n hn => ?_) fun m hm n hn hmn => ?_
    · obtain ⟨-, hone, hle⟩ := hk n hn
      exact Finset.mem_coe.2 (Finset.mem_Icc.2 ⟨hone, hle⟩)
    · exact h.distinct m n _ (k m) ⟨d, v, bucket, rfl⟩ (hk m hm).1 (hmn ▸ (hk n hn).1)
  rw [Int.card_Icc] at hcard
  omega

/-- The caps, in a state of the calls. -/
structure CapsHold (cfg : ApiSettings) (calls : Nat → RateLimitCall) (s : State) : Prop where
  /-- in every bucket, at most `merchantRateLimit` calls with a merchant return normally -/
  merchant : ∀ (merchantId : String) (bucket : Int) (ns : Finset Nat),
    (∀ n ∈ ns, Passed (call s n) ∧ bucket? cfg (call s n) = some bucket ∧
      (calls n).merchantId = merchantId) → ns.card ≤ cfg.merchantRateLimit
  customer : ∀ (customerId : String) (bucket : Int) (ns : Finset Nat),
    (∀ n ∈ ns, Passed (call s n) ∧ bucket? cfg (call s n) = some bucket ∧
      (calls n).customerId = customerId) → ns.card ≤ cfg.customerRateLimit
  account : ∀ (accountId : String) (bucket : Int) (ns : Finset Nat),
    (∀ n ∈ ns, Passed (call s n) ∧ bucket? cfg (call s n) = some bucket ∧
      (calls n).accountId = accountId) → ns.card ≤ cfg.accountRateLimit
  /-- a call that is refused has found the counter of one of its identities above its limit -/
  refused : ∀ n e, (call s n).rest = .raise e →
    ∃ d v limit bucket count, (d, v, limit) ∈ (calls n).checks cfg ∧
      e = .app (.rateLimited ("Rate limited by " ++ d.value) d) ∧
      bucket? cfg (call s n) = some bucket ∧
      incremented (rateLimitKey d v bucket) (call s n).history = some count ∧ limit < count ∧
      count ≤ counter s.world.redis (rateLimitKey d v bucket)

/-- The caps hold in every run in which Redis answers and no counter is incremented after it has
expired. -/
theorem caps_hold {cfg : ApiSettings} {calls : Nat → RateLimitCall} {s₀ s : State}
    (h₀ : Initial cfg calls s₀) (hrun : rateLimits.Reaches inTime s₀ s) :
    CapsHold cfg calls s := by
  have h := hrun.invariant (fun hi hguard hstep => Holds.next hi hguard hstep) (Holds.initial h₀)
  have hmerchant := cfg.merchantRateLimit_ge
  have hcustomer := cfg.customerRateLimit_ge
  have haccount := cfg.accountRateLimit_ge
  refine ⟨fun v bucket ns hns => ?_, fun v bucket ns hns => ?_, fun v bucket ns hns => ?_,
    fun n e he => ?_⟩
  · refine h.card_le .merchant v bucket (by omega) fun n hn => ?_
    obtain ⟨hpassed, hbucket, rfl⟩ := hns n hn
    exact ⟨hpassed, hbucket, by simp [RateLimitCall.checks]⟩
  · refine h.card_le .customer v bucket (by omega) fun n hn => ?_
    obtain ⟨hpassed, hbucket, rfl⟩ := hns n hn
    exact ⟨hpassed, hbucket, by simp [RateLimitCall.checks]⟩
  · refine h.card_le .account v bucket (by omega) fun n hn => ?_
    obtain ⟨hpassed, hbucket, rfl⟩ := hns n hn
    exact ⟨hpassed, hbucket, by simp [RateLimitCall.checks]⟩
  · have hobeys := h.obeys n
    rw [he] at hobeys
    obtain ⟨t, ht, d, v, limit, hcheck, rfl, k, hk, hlt⟩ := hobeys
    exact ⟨d, v, limit, rateLimitBucket cfg t, k, hcheck, rfl, by rw [bucket?, ht]; rfl, hk, hlt,
      (h.counted n _ k ⟨d, v, _, rfl⟩ hk).2⟩

/-! ## A run -/

/-- One payment for each merchant and bucket. -/
def sampleSettings : ApiSettings :=
  { ApiSettings.default with
    merchantRateLimit := 1
    merchantRateLimit_ge := by decide }

/-- Calls of one merchant for several customers. -/
def sampleCalls (n : Nat) : RateLimitCall :=
  ⟨"m", if n = 0 then "c" else "c2", "a"⟩

def sample : State where
  world := ⟨⟨[], [], [], [], []⟩, fun _ => none⟩
  proc n := ⟨[], RateLimiterService.enforce sampleSettings (sampleCalls n).merchantId
    (sampleCalls n).customerId (sampleCalls n).accountId⟩

theorem sample_initial : Initial sampleSettings sampleCalls sample where
  call _ := rfl
  counters _ _ := rfl

/-- `k` commands of call `n`, with Redis available. -/
def commands (n k : Nat) : List (Σ i, rateLimits.Act i) :=
  List.replicate k ⟨n, (⟨0, .answered, 0⟩ : ApiInput)⟩

/-- Whether a call has ended normally, and whether it has been refused. -/
def outcome (p : Process ApiCommand ApiReply ApiException Unit) : Bool × Bool :=
  match p.rest with
  | .ret _ => (true, false)
  | .raise _ => (false, true)
  | .call _ _ => (false, false)

set_option maxRecDepth 10000 in
/-- Two calls of a merchant, interleaved: one passes and the other is refused. -/
theorem caps_hold_interleaved : ∃ s : State,
    (outcome (call s 0), outcome (call s 1)) = ((true, false), (false, true)) ∧
      CapsHold sampleSettings sampleCalls s := by
  have hrun : (System.State.run inTime (commands 0 2 ++ commands 1 2 ++ commands 0 5) sample).map
      (fun s => (outcome (call s 0), outcome (call s 1))) =
        some ((true, false), (false, true)) := by
    decide +kernel
  obtain ⟨s, hs, houtcome⟩ := Option.map_eq_some_iff.1 hrun
  exact ⟨s, houtcome, caps_hold sample_initial (System.Reaches.of_run hs)⟩

end RateLimits

end PaymentsLab
