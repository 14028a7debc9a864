import PaymentsLab.Api.DailyLimit
import PaymentsLab.Api.SequentialCreation

/-!
# The velocity limit under concurrency

Any number of `LimitsService.enforce` calls over one Redis. A call counts the members of the sorted
set of its customer and rail, compares, and adds a member of its own. What is admitted in between
has not been counted, two calls with the same reading and the same count have one member, and a call
with a later reading prunes the window of an earlier one. Where every call has counted what has been
admitted in its window, no window has more admitted calls than the limit (`velocity_limit_holds`).
-/

namespace PaymentsLab

open Foundation

/-! ## What a call has added -/

/-- The score a command adds a member with. -/
def adds? (key : String) : ApiCommand → Option Instant
  | .redis (.zadd key' _ score) => if key' = key then some score else none
  | _ => none

/-- The score of a member that has been added. -/
def addedAt? (key : String) : (Σ c, ApiReply c) → Option Instant
  | ⟨.redis (.zadd key' _ score), some _⟩ => if key' = key then some score else none
  | _ => none

/-- The call has been admitted at a reading of the clock: it has added its member. -/
def Admitted (key : String) (t : Instant) (h : ApiHistory) : Prop :=
  ∃ e ∈ h, addedAt? key e = some t

instance (key : String) (t : Instant) (h : ApiHistory) : Decidable (Admitted key t h) :=
  inferInstanceAs (Decidable (∃ e ∈ h, addedAt? key e = some t))

/-- What the last `ZCARD` of the key has counted. -/
def lastCard (key : String) : ApiHistory → Nat
  | [] => 0
  | ⟨.redis (.zcard key'), some n⟩ :: h => if key' = key then n else lastCard key h
  | _ :: h => lastCard key h

/-- The last reading of the clock. -/
def lastReading : ApiHistory → Instant
  | [] => 0
  | ⟨.now, t⟩ :: _ => t
  | _ :: h => lastReading h

/-- The key of a sorted set. -/
def IsVelocityKey (key : String) : Prop :=
  ∃ customerId rail, key = limitsVelocityKey customerId rail

/-- No member has been added to a velocity set. -/
def NothingAdded (h : ApiHistory) : Prop :=
  ∀ key t, IsVelocityKey key → ¬ Admitted key t h

/-- The replies there can be: cached policies are those of the table, and commands on sorted sets
are answered. -/
def AdmitsSets (db : Database) : (c : ApiCommand) → ApiReply c → Prop
  | .redis (.get key), reply => ∀ rail, key = limitsPolicyKey rail → ∀ text t,
    reply = some text → t ∈ text → ∃ policy, t = .policy policy ∧ db.policyByRail rail = some policy
  | .redis (.zremrangebyscore key _ _), reply => IsVelocityKey key → reply = some ()
  | .redis (.zcard key), reply => IsVelocityKey key → ∃ n, reply = some n
  | .redis (.zadd key _ _), reply => IsVelocityKey key → reply = some ()
  | .redis (.expire key _), reply => IsVelocityKey key → reply = some ()
  | .getByRail rail, reply => reply = db.policyByRail rail
  | _, _ => True

/-- The member that a call adds: the first one, to its own set, with its reading as the score, where
it has counted fewer members than the limit. -/
structure AddsMember (db : Database) (call : LimitsCall) (h : ApiHistory) (key : String)
    (score : Instant) : Prop where
  own : key = limitsVelocityKey call.customerId call.rail
  reading : score = lastReading h
  first : NothingAdded h
  below : ∀ policy, db.policyByRail call.rail = some policy →
    (lastCard key h : Int) < policy.velocityLimitCount

/-- The commands a call may issue: what it writes to the cached policies is the policy of the table,
and on sorted sets there are no other commands than those on them. -/
def AllowsSets (db : Database) (call : LimitsCall) (h : ApiHistory) : ApiCommand → Prop
  | .redis command =>
    (∀ rail, command.key = limitsPolicyKey rail → command.writes = true → ∃ policy ex,
      command = .set (limitsPolicyKey rail) (.policy policy) ex ∧
        db.policyByRail rail = some policy) ∧
    (IsVelocityKey command.key → command.onSet = true) ∧
    ∀ key score, IsVelocityKey key → adds? key (.redis command) = some score →
      AddsMember db call h key score
  | .commit _ _ _ => False
  | _ => True

section Histories

variable {db : Database} {call : LimitsCall} {h : ApiHistory} {key : String} {t : Instant}

theorem adds?_of_addedAt? {c : ApiCommand} {r : ApiReply c} (h : addedAt? key ⟨c, r⟩ = some t) :
    adds? key c = some t := by
  unfold addedAt? at h
  split at h
  · next heq =>
    cases heq
    exact h
  · cases h

/-- A member is added to the set at the key of the command. -/
theorem key_of_adds? {command : Redis.Command StoredText}
    (h : adds? key (.redis command) = some t) : command.key = key := by
  cases command with
  | zadd key' member score =>
    simp only [adds?] at h
    split at h
    · assumption
    · cases h
  | _ => cases h

theorem zadd_of_adds? {c : ApiCommand} (h : adds? key c = some t) :
    ∃ member, c = .redis (.zadd key member t) := by
  unfold adds? at h
  split at h
  · split at h
    · next heq =>
      cases h
      exact ⟨_, by rw [heq]⟩
    · cases h
  · cases h

theorem admitted_cons {e : Σ c, ApiReply c} :
    Admitted key t (e :: h) ↔ addedAt? key e = some t ∨ Admitted key t h := by
  simp [Admitted]

theorem admitted_cons_of_adds? {c : ApiCommand} (hc : adds? key c = none) (r : ApiReply c) :
    Admitted key t (⟨c, r⟩ :: h) ↔ Admitted key t h := by
  rw [admitted_cons]
  refine or_iff_right fun hadded => ?_
  rw [adds?_of_addedAt? hadded] at hc
  cases hc

theorem NothingAdded.cons {c : ApiCommand} (hnothing : NothingAdded h)
    (hc : ∀ key, IsVelocityKey key → adds? key c = none) (r : ApiReply c) :
    NothingAdded (⟨c, r⟩ :: h) := by
  intro key t hkey
  rw [admitted_cons_of_adds? (hc key hkey)]
  exact hnothing key t hkey

/-- A command on another key adds nothing to a velocity set. -/
theorem adds?_of_uses {K : String → Prop} {c : ApiCommand} (hc : c.Uses K)
    (hK : ∀ key, K key → ¬ IsVelocityKey key) (hkey : IsVelocityKey key) : adds? key c = none := by
  cases c with
  | redis command =>
    rw [Option.eq_none_iff_forall_ne_some]
    intro t hadds
    exact hK _ hc ((key_of_adds? hadds).symm ▸ hkey)
  | _ => rfl

theorem limitsPolicyKey_not_velocity (rail : PaymentMethod) :
    ¬ IsVelocityKey (limitsPolicyKey rail) := by
  rintro ⟨customerId, rail', h⟩
  exact limitsVelocityKey_ne_policy customerId rail' rail h.symm

theorem not_velocity_of_daily (h : IsDailyKey key) : ¬ IsVelocityKey key := by
  rintro ⟨customerId, rail, rfl⟩
  exact limitsVelocityKey_not_daily customerId rail h

/-- A command that is on neither a cached policy nor a sorted set is allowed. -/
theorem allowsSets_of_uses {K : String → Prop} {c : ApiCommand} (hc : c.Uses K)
    (hpolicy : ∀ rail, ¬ K (limitsPolicyKey rail))
    (hvelocity : ∀ key, K key → ¬ IsVelocityKey key) :
    AllowsSets db call h c := by
  cases c with
  | redis command =>
    refine ⟨fun rail hkey => ?_, fun hkey => absurd hkey (hvelocity _ hc),
      fun key t hkey hadds => ?_⟩
    · exact absurd (hkey ▸ hc) (hpolicy rail)
    · rw [adds?_of_uses hc hvelocity hkey] at hadds
      cases hadds
  | commit => exact hc.elim
  | _ => trivial

/-- A command on a velocity set. -/
theorem allowsSets_onSet {command : Redis.Command StoredText} (hkey : IsVelocityKey command.key)
    (hset : command.onSet = true)
    (hadds : ∀ key score, adds? key (.redis command) = some score →
      AddsMember db call h key score) :
    AllowsSets db call h (.redis command) := by
  refine ⟨fun rail hpolicy => ?_, fun _ => hset, fun key score _ => hadds key score⟩
  exact absurd (hpolicy ▸ hkey) (limitsPolicyKey_not_velocity rail)

end Histories

namespace LimitsService

variable {db : Database} {call : LimitsCall} {h : ApiHistory}

theorem policyRules_velocity (db : Database) (call : LimitsCall) (rail : PaymentMethod) :
    PolicyRules db rail (AdmitsSets db) (AllowsSets db call) NothingAdded where
  cached reply hreply := hreply rail rfl
  row _ hreply := hreply
  get _ _ := by
    refine ⟨fun _ _ hwrites => (by cases hwrites), fun hkey => ?_,
      fun _ _ _ hadds => by cases hadds⟩
    exact absurd hkey (limitsPolicyKey_not_velocity rail)
  query _ _ := trivial
  set _ policy ex _ hpolicy := by
    refine ⟨fun rail' hrail _ => ?_, fun hkey => ?_, fun _ _ _ hadds => by cases hadds⟩
    · cases limitsPolicyKey_injective hrail
      exact ⟨policy, ex, rfl, hpolicy⟩
    · exact absurd hkey (limitsPolicyKey_not_velocity rail)
  keeps h c r hc hnothing := by
    refine hnothing.cons (fun key hkey => ?_) r
    cases c with
    | redis command => cases command <;> first | rfl | exact hc.elim
    | _ => rfl

/-- The set is pruned and counted, and the member added with the reading. -/
theorem countVelocity_adds (hnothing : NothingAdded h) {policy : LimitsPolicy}
    (hpolicy : db.policyByRail call.rail = some policy) :
    (countVelocity (lastReading h) (limitsVelocityKey call.customerId call.rail) call.rail
        policy).Obeys (AdmitsSets db) (AllowsSets db call)
      (fun h o =>
        match o with
        | .ok _ => Admitted (limitsVelocityKey call.customerId call.rail) (lastReading h) h
        | .error e => e ≠ .redisError) h := by
  have hkey : IsVelocityKey (limitsVelocityKey call.customerId call.rail) := ⟨_, _, rfl⟩
  unfold countVelocity
  refine Program.obeys_bind.2 (ApiProgram.obeys_redis.2
    ⟨allowsSets_onSet hkey rfl fun _ _ hadds => (by cases hadds), fun reply hreply => ?_⟩)
  cases hreply hkey
  refine Program.obeys_bind.2 (ApiProgram.obeys_redis.2
    ⟨allowsSets_onSet hkey rfl fun _ _ hadds => (by cases hadds), fun reply hreply => ?_⟩)
  obtain ⟨count, rfl⟩ := hreply hkey
  simp only [Option.elim_some]
  by_cases hlimit : policy.velocityLimitCount ≤ (count : Int)
  · rw [if_pos hlimit]
    exact fun heq => by cases heq
  rw [if_neg hlimit]
  refine Program.obeys_bind.2 (ApiProgram.obeys_redis.2
    ⟨allowsSets_onSet hkey rfl fun key score hadds => ?_, fun reply hreply => ?_⟩)
  · simp only [adds?] at hadds
    split at hadds
    · next heq =>
      cases hadds
      refine ⟨heq.symm, rfl, fun key t hkey => ?_, fun policy' hpolicy' => ?_⟩
      · rw [admitted_cons_of_adds? rfl, admitted_cons_of_adds? rfl]
        exact hnothing key t hkey
      · cases hpolicy.symm.trans hpolicy'
        simp only [lastCard, if_pos heq]
        exact Int.not_le.1 hlimit
    · cases hadds
  · cases hreply hkey
    refine Program.obeys_bind.2 (ApiProgram.obeys_redis.2
      ⟨allowsSets_onSet hkey rfl fun _ _ hadds => (by cases hadds), fun reply hreply => ?_⟩)
    cases hreply hkey
    refine admitted_cons.2 (.inr (admitted_cons.2 (.inl ?_)))
    exact if_pos rfl

theorem enforceVelocityLimit_adds (hnothing : NothingAdded h) {policy : LimitsPolicy}
    (hpolicy : db.policyByRail call.rail = some policy) :
    (enforceVelocityLimit call.customerId call.rail policy).Obeys (AdmitsSets db)
      (AllowsSets db call)
      (fun h o => ∀ n, o = .ok n →
        Admitted (limitsVelocityKey call.customerId call.rail) (lastReading h) h) h := by
  unfold enforceVelocityLimit
  refine Program.obeys_bind.2 ⟨trivial, fun t _ => Program.obeys_tryCatch.2 ?_⟩
  refine (countVelocity_adds (hnothing.cons (fun _ _ => rfl) t) hpolicy).mono (fun _ _ => id) ?_
  intro h o ho
  match o, ho with
  | .ok n, ho => exact fun _ _ => ho
  | .error .redisError, ho => exact absurd rfl ho
  | .error .validationError, _ | .error .valueError, _ | .error .decimalSignal, _
  | .error (.app _), _ =>
    exact fun _ ho => by cases ho

/-- A call that passes has been admitted at its last reading of the clock. -/
theorem enforce_adds (db : Database) (call : LimitsCall) (ttl : Int) :
    (enforce ttl call.customerId call.rail call.amount).Obeys (AdmitsSets db) (AllowsSets db call)
      (fun h o => ∀ evaluation, o = .ok evaluation →
        Admitted (limitsVelocityKey call.customerId call.rail) (lastReading h) h) [] := by
  have hnothing : NothingAdded [] := fun _ _ _ hadmitted => by
    obtain ⟨_, he, -⟩ := hadmitted
    cases he
  have hkeeps {α : Type} {K : String → Prop} {p : ApiProgram α} {h : ApiHistory} (hp : p.Uses K)
      (hpolicy : ∀ rail, ¬ K (limitsPolicyKey rail))
      (hvelocity : ∀ key, K key → ¬ IsVelocityKey key) (hnothing : NothingAdded h) :
      p.Obeys (AdmitsSets db) (AllowsSets db call) (fun h _ => NothingAdded h) h :=
    hp.obeys (fun _ _ hc _ => allowsSets_of_uses hc hpolicy hvelocity)
      (fun _ _ r hc hnothing => hnothing.cons (fun _ => adds?_of_uses hc hvelocity) r) hnothing
  unfold enforce
  refine Program.obeys_bind.2 (((policyRules_velocity db call call.rail).getPolicy_obeys hnothing
    ttl).mono (fun _ _ => id) ?_)
  rintro h (e | policy) ⟨hnothing, hpolicy⟩
  · exact fun _ ho => by cases ho
  refine Program.obeys_bind.2 ((hkeeps (K := fun _ => False)
    (uses_enforceTransactionAmount policy call.amount) (fun _ => id) (fun _ => False.elim)
    hnothing).mono (fun _ _ => id) ?_)
  rintro h (e | _) hnothing
  · exact fun _ ho => by cases ho
  refine Program.obeys_bind.2 ((hkeeps (K := IsDailyKey)
    (uses_enforceDailyLimit (fun t => ⟨_, _, _, rfl⟩) call.amount policy)
    limitsPolicyKey_not_daily (fun _ => not_velocity_of_daily) hnothing).mono (fun _ _ => id) ?_)
  rintro h (e | _) hnothing
  · exact fun _ ho => by cases ho
  refine Program.obeys_bind.2 ((enforceVelocityLimit_adds hnothing (hpolicy policy rfl)).mono
    (fun _ _ => id) ?_)
  rintro h (e | n) hadmitted
  · exact fun _ ho => by cases ho
  · exact fun _ _ => hadmitted n rfl

end LimitsService

/-! ## The system -/

/-- The members that have been added, by their key and score, the last one first. -/
abbrev Additions : Type :=
  List (String × Instant)

def additionNote (g : Additions) (i : ApiInput) (b : Backend) : ApiCommand → Additions
  | .redis (.zadd key member score) =>
    if (b.execRedis i (.zadd key member score)).1.isSome then (key, score) :: g else g
  | _ => g

/-- Calls of `enforce` over one database and one Redis, with notes on the members added. -/
def velocityLimits : System Nat (Backend × Additions) :=
  (Backend.noting additionNote).system Nat ApiException LimitsService.Evaluation

namespace VelocityLimit

/-- A state of the calls. -/
abbrev State : Type := velocityLimits.State

/-- A call on its way. -/
def call (s : State) (n : Nat) :
    Process ApiCommand ApiReply ApiException LimitsService.Evaluation :=
  s.proc n

/-- No call has begun, cached policies are those of the table, and what there is at the keys of the
sorted sets are sorted sets. -/
structure Initial (ttl : Int) (calls : Nat → LimitsCall) (s : State) : Prop where
  call : ∀ n, call s n =
    ⟨[], LimitsService.enforce ttl (calls n).customerId (calls n).rail (calls n).amount⟩
  notes : s.world.2 = []
  cached : ∀ rail e, s.world.1.redis (limitsPolicyKey rail) = some e → ∃ policy,
    e.value = .string (.policy policy) ∧ s.world.1.database.policyByRail rail = some policy
  sets : ∀ key, IsVelocityKey key → s.world.1.redis.IsSet key

/-- Redis answers, and the key of the next command has not expired. -/
def answers : velocityLimits.Guard := fun _ v p i =>
  ApiInput.redis i = .answered ∧
    ∀ key ∈ (Process.next? p).bind ApiCommand.redisKey?, ∀ e ∈ v.1.redis key, e.Live i.now

instance (n : Nat) (v : Backend × Additions) (p : velocityLimits.Local n)
    (i : velocityLimits.Act n) : Decidable (answers n v p i) :=
  inferInstanceAs (Decidable (ApiInput.redis i = .answered ∧
    ∀ key ∈ (Process.next? p).bind ApiCommand.redisKey?, ∀ e ∈ v.1.redis key, e.Live
      (ApiInput.now i)))

/-- The window of a policy, in microseconds. -/
def window (policy : LimitsPolicy) : Int :=
  policy.velocityWindowSeconds * 1000000

/-- The members added at a key later than a time. -/
def addedLater (key : String) (since : Instant) (g : Additions) : Nat :=
  g.countP fun a => a.1 = key ∧ since < a.2

/-- Redis answers, and a call that adds its member has counted every member that has been added in
its window. -/
def countsAdmitted (customerId : String) (rail : PaymentMethod) (policy : LimitsPolicy) :
    velocityLimits.Guard := fun _ v p i =>
  ApiInput.redis i = .answered ∧
    ∀ t ∈ (Process.next? p).bind (adds? (limitsVelocityKey customerId rail)),
      addedLater (limitsVelocityKey customerId rail) (t - window policy) v.2 ≤
        lastCard (limitsVelocityKey customerId rail) (Process.history p)

instance (customerId : String) (rail : PaymentMethod) (policy : LimitsPolicy) (n : Nat)
    (v : Backend × Additions) (p : velocityLimits.Local n) (i : velocityLimits.Act n) :
    Decidable (countsAdmitted customerId rail policy n v p i) :=
  inferInstanceAs (Decidable (ApiInput.redis i = .answered ∧
    ∀ t ∈ (Process.next? p).bind (adds? (limitsVelocityKey customerId rail)),
      addedLater (limitsVelocityKey customerId rail) (t - window policy) v.2 ≤
        lastCard (limitsVelocityKey customerId rail) (Process.history p)))

/-! ## The calls of a set -/

/-- The calls that have been admitted at a key, with their readings, the last one first. -/
structure Roll (key : String) (policy : LimitsPolicy) (g : Additions) (history : Nat → ApiHistory)
    (admitted : List (Nat × Instant)) : Prop where
  noted : ∀ since, addedLater key since g = admitted.countP fun a => since < a.2
  mem : ∀ n t, (n, t) ∈ admitted ↔ Admitted key t (history n)
  bound : ∀ since, (admitted.countP fun a => since ≤ a.2 ∧ a.2 < since + window policy) ≤
    policy.velocityLimitCount.toNat

namespace Roll

variable {key : String} {policy : LimitsPolicy} {g g' : Additions}
  {history history' : Nat → ApiHistory} {admitted : List (Nat × Instant)}

theorem nil (hhistory : ∀ n, history n = []) : Roll key policy [] history [] where
  noted _ := rfl
  mem n t := by
    rw [hhistory]
    simp [Admitted]
  bound _ := Nat.zero_le _

/-- A step that adds no member at the key. -/
theorem of_eq (h : Roll key policy g history admitted)
    (hnoted : ∀ since, addedLater key since g' = addedLater key since g)
    (hhistory : ∀ n t, Admitted key t (history' n) ↔ Admitted key t (history n)) :
    Roll key policy g' history' admitted where
  noted since := (hnoted since).trans (h.noted since)
  mem n t := (h.mem n t).trans (hhistory n t).symm
  bound := h.bound

/-- A call that has counted the members of its window adds one, below the limit. -/
theorem add (h : Roll key policy g history admitted) {n : Nat} {t : Instant} {card : Nat}
    (hcounted : addedLater key (t - window policy) g ≤ card)
    (hbelow : (card : Int) < policy.velocityLimitCount) (hfirst : ∀ t, ¬ Admitted key t (history n))
    (hown : ∀ t', Admitted key t' (history' n) ↔ t' = t)
    (hother : ∀ m, m ≠ n → history' m = history m) :
    Roll key policy ((key, t) :: g) history' ((n, t) :: admitted) where
  noted since := by
    have hnoted := h.noted since
    unfold addedLater at hnoted ⊢
    by_cases hlater : since < t
    · rw [List.countP_cons_of_pos (by simpa using hlater),
        List.countP_cons_of_pos (by simpa using hlater), hnoted]
    · rw [List.countP_cons_of_neg (by simpa using hlater),
        List.countP_cons_of_neg (by simpa using hlater), hnoted]
  mem m t' := by
    rw [List.mem_cons, Prod.mk.injEq]
    by_cases hm : m = n
    · subst hm
      rw [hown t']
      refine ⟨fun hmem => hmem.elim And.right fun hmem => ?_, fun heq => .inl ⟨rfl, heq⟩⟩
      exact absurd ((h.mem m t').1 hmem) (hfirst t')
    · rw [hother m hm, ← h.mem m t']
      exact or_iff_right fun heq => hm heq.1
  bound since := by
    have hbound := h.bound since
    by_cases hin : since ≤ t ∧ t < since + window policy
    · -- whoever shares a window with the call is later than the beginning of its own
      have hshared : (admitted.countP fun a => since ≤ a.2 ∧ a.2 < since + window policy) ≤
          admitted.countP fun a => t - window policy < a.2 := by
        refine List.countP_mono_left fun a _ ha => ?_
        simp only [decide_eq_true_eq] at ha ⊢
        exact Int.sub_right_lt_of_lt_add (Int.lt_of_lt_of_le hin.2
          (Int.add_le_add_right ha.1 (window policy)))
      have hnoted := h.noted (t - window policy)
      rw [List.countP_cons_of_pos (by simpa using hin)]
      omega
    · rw [List.countP_cons_of_neg (by simpa using hin)]
      exact hbound

/-- Calls of one window are counted in it. -/
theorem card_le (h : Roll key policy g history admitted) (since : Instant) (ns : Finset Nat)
    (hns : ∀ n ∈ ns, ∃ t, Admitted key t (history n) ∧ since ≤ t ∧ t < since + window policy) :
    ns.card ≤ policy.velocityLimitCount.toNat := by
  have hsub : ns ⊆ ((admitted.filter fun a =>
      since ≤ a.2 ∧ a.2 < since + window policy).map Prod.fst).toFinset := by
    intro n hn
    obtain ⟨t, hadmitted, hwithin⟩ := hns n hn
    rw [List.mem_toFinset, List.mem_map]
    exact ⟨(n, t), List.mem_filter.2 ⟨(h.mem n t).2 hadmitted, by simpa using hwithin⟩, rfl⟩
  calc ns.card ≤ _ := Finset.card_le_card hsub
    _ ≤ _ := List.toFinset_card_le _
    _ = admitted.countP fun a => since ≤ a.2 ∧ a.2 < since + window policy := by
      rw [List.length_map, List.countP_eq_length_filter]
    _ ≤ policy.velocityLimitCount.toNat := h.bound since

end Roll

/-! ## Every run -/

/-- The backend of the calls: cached policies are those of the table, and at the keys of the sorted
sets there is nothing else. -/
structure Sound (db : Database) (b : Backend) : Prop where
  database : b.database = db
  cached : CachesTable db b.redis
  sets : ∀ key, IsVelocityKey key → b.redis.IsSet key

namespace Sound

variable {db : Database} {b : Backend} {i : ApiInput}

/-- A command on a sorted set is answered. -/
theorem execRedis (h : Sound db b) (hi : i.redis = .answered)
    (command : Redis.Command StoredText) (hkey : IsVelocityKey command.key)
    (hset : command.onSet = true) : ∃ r redis,
      b.execRedis i command = (some r, { b with redis := redis }) ∧ redis.IsSet command.key := by
  obtain ⟨r, redis, hexec, hredis⟩ := (h.sets command.key hkey).exec hset i.now
  exact ⟨r, redis, Backend.execRedis_answered hi hexec, hredis⟩

theorem admits (h : Sound db b) (hi : i.redis = .answered) (c : ApiCommand) :
    AdmitsSets db c (b.exec i c).1 := by
  cases c with
  | redis command =>
    cases command with
    | get key =>
      rintro rail rfl
      exact h.cached.get hi rail
    | zremrangebyscore key min max =>
      intro hkey
      obtain ⟨_, _, hexec, -⟩ := h.execRedis hi (.zremrangebyscore key min max) hkey rfl
      exact congrArg Prod.fst hexec
    | zcard key =>
      intro hkey
      obtain ⟨count, _, hexec, -⟩ := h.execRedis hi (.zcard key) hkey rfl
      exact ⟨count, congrArg Prod.fst hexec⟩
    | zadd key member score =>
      intro hkey
      obtain ⟨_, _, hexec, -⟩ := h.execRedis hi (.zadd key member score) hkey rfl
      exact congrArg Prod.fst hexec
    | expire key seconds =>
      intro hkey
      obtain ⟨_, _, hexec, -⟩ := h.execRedis hi (.expire key seconds) hkey rfl
      exact congrArg Prod.fst hexec
    | _ => trivial
  | getByRail rail =>
    change b.database.policyByRail rail = db.policyByRail rail
    rw [h.database]
  | _ => trivial

theorem exec (h : Sound db b) (hi : i.redis = .answered) {call : LimitsCall} {history : ApiHistory}
    {c : ApiCommand} (hallows : AllowsSets db call history c) : Sound db (b.exec i c).2 := by
  cases c with
  | redis command =>
    obtain ⟨hdatabase, hframe⟩ := b.execRedis_frame i command
    obtain ⟨hpolicy, hset, -⟩ := hallows
    refine ⟨hdatabase.trans h.database, h.cached.execRedis i hpolicy, fun key hkey => ?_⟩
    by_cases heq : key = command.key
    · subst heq
      obtain ⟨_, redis, hexec, hredis⟩ := h.execRedis hi command hkey (hset hkey)
      change (b.execRedis i command).2.redis.IsSet command.key
      rw [hexec]
      exact hredis
    · exact (h.sets key hkey).of_eq (hframe key fun _ => heq)
  | commit => exact hallows.elim
  | _ => exact h

end Sound

/-- A command that adds no member at the key. -/
theorem addedLater_additionNote {key : String} {c : ApiCommand} (hc : adds? key c = none)
    (g : Additions) (i : ApiInput) (b : Backend) (since : Instant) :
    addedLater key since (additionNote g i b c) = addedLater key since g := by
  cases c with
  | redis command =>
    cases command with
    | zadd key' member score =>
      have hne : key' ≠ key := by
        rintro rfl
        simp [adds?] at hc
      simp only [additionNote]
      split
      · exact List.countP_cons_of_neg (by simp [hne])
      · rfl
    | _ => rfl
  | _ => rfl

/-- A member that has been added is noted. -/
theorem additionNote_zadd {key : String} {member : StoredText} {score : Instant} {g : Additions}
    {i : ApiInput} {b : Backend} (hreply : (b.execRedis i (.zadd key member score)).1 = some ()) :
    additionNote g i b (.redis (.zadd key member score)) = (key, score) :: g := by
  refine if_pos ?_
  rw [hreply]
  rfl

/-- What such a run maintains. -/
structure Holds (db : Database) (calls : Nat → LimitsCall) (customerId : String)
    (rail : PaymentMethod) (policy : LimitsPolicy) (s : State) : Prop where
  sound : Sound db s.world.1
  obeys : ∀ n, (call s n).rest.Obeys (AdmitsSets db) (AllowsSets db (calls n))
    (fun h o => ∀ evaluation, o = .ok evaluation →
      Admitted (limitsVelocityKey (calls n).customerId (calls n).rail) (lastReading h) h)
    (call s n).history
  roll : ∃ admitted, Roll (limitsVelocityKey customerId rail) policy s.world.2
    (fun n => (call s n).history) admitted

namespace Holds

variable {db : Database} {calls : Nat → LimitsCall} {customerId : String} {rail : PaymentMethod}
  {policy : LimitsPolicy} {s s' : State}

theorem initial {ttl : Int} (h : Initial ttl calls s) :
    Holds s.world.1.database calls customerId rail policy s where
  sound := ⟨rfl, h.cached, h.sets⟩
  obeys n := by
    rw [h.call]
    exact LimitsService.enforce_adds s.world.1.database (calls n) ttl
  roll := by
    rw [h.notes]
    exact ⟨[], .nil fun n => congrArg Process.history (h.call n)⟩

theorem next (h : Holds db calls customerId rail policy s)
    (hpolicy : db.policyByRail rail = some policy) {n : Nat} {i : ApiInput}
    (hguard : countsAdmitted customerId rail policy n s.world (s.proc n) i)
    (hstep : s.step n i = some s') : Holds db calls customerId rail policy s' := by
  obtain ⟨c, hstepped, hallows, hobeys⟩ := Handler.obeys_next h.obeys hstep
  have hworld : s'.world = ((s.world.1.exec i c).2, additionNote s.world.2 i s.world.1 c) :=
    hstepped.world
  have hhistory : (call s' n).history = ⟨c, (s.world.1.exec i c).1⟩ :: (call s n).history :=
    hstepped.history
  have hother (m : Nat) (hm : m ≠ n) : call s' m = call s m := hstepped.other m hm
  have hadmits := h.sound.admits hguard.1 c
  refine ⟨?_, hobeys hadmits, ?_⟩
  · rw [hworld]
    exact h.sound.exec hguard.1 hallows
  · obtain ⟨admitted, hroll⟩ := h.roll
    have hkey : IsVelocityKey (limitsVelocityKey customerId rail) := ⟨_, _, rfl⟩
    rw [hworld]
    cases hadds : adds? (limitsVelocityKey customerId rail) c with
    | none =>
      refine ⟨admitted, hroll.of_eq (addedLater_additionNote hadds _ i s.world.1) fun m t => ?_⟩
      by_cases hm : m = n
      · subst hm
        rw [hhistory]
        exact admitted_cons_of_adds? hadds _
      · rw [hother m hm]
    | some t =>
      have hcounted : addedLater (limitsVelocityKey customerId rail) (t - window policy) s.world.2 ≤
          lastCard (limitsVelocityKey customerId rail) (call s n).history := by
        refine hguard.2 t ?_
        rw [hstepped.next]
        exact hadds
      obtain ⟨member, rfl⟩ := zadd_of_adds? hadds
      have hmember := hallows.2.2 _ t hkey hadds
      have hreply : (s.world.1.exec i (.redis (.zadd _ member t))).1 = some () := hadmits hkey
      have hfirst (t' : Instant) : ¬ Admitted _ t' (call s n).history := hmember.first _ t' hkey
      rw [additionNote_zadd hreply]
      refine ⟨(n, t) :: admitted, hroll.add hcounted ?_ hfirst (fun t' => ?_) fun m hm =>
        congrArg Process.history (hother m hm)⟩
      · refine hmember.below policy ?_
        rw [← (limitsVelocityKey_injective hmember.own).2]
        exact hpolicy
      · rw [hhistory, hreply, admitted_cons]
        simp [addedAt?, hfirst t', eq_comm]

end Holds

/-- The calls of a customer and rail that pass have been admitted at their readings of the clock,
and in no window are there more of them than the limit of the rail's policy. -/
structure VelocityLimitHolds (calls : Nat → LimitsCall) (s : State) (customerId : String)
    (rail : PaymentMethod) (policy : LimitsPolicy) : Prop where
  passed : ∀ n evaluation, (calls n).customerId = customerId → (calls n).rail = rail →
    (call s n).rest = .ret evaluation →
      Admitted (limitsVelocityKey customerId rail) (lastReading (call s n).history)
        (call s n).history
  within : ∀ (since : Instant) (ns : Finset Nat),
    (∀ n ∈ ns, ∃ t, Admitted (limitsVelocityKey customerId rail) t (call s n).history ∧
      since ≤ t ∧ t < since + window policy) → ns.card ≤ policy.velocityLimitCount.toNat

/-- The velocity limit holds in every run in which every `ZADD` is of a call that has counted as
many members as have been added in its window. -/
theorem velocity_limit_holds {ttl : Int} {calls : Nat → LimitsCall} {s₀ s : State}
    (h₀ : Initial ttl calls s₀) (customerId : String) {rail : PaymentMethod}
    {policy : LimitsPolicy} (hpolicy : s₀.world.1.database.policyByRail rail = some policy)
    (hrun : velocityLimits.Reaches (countsAdmitted customerId rail policy) s₀ s) :
    VelocityLimitHolds calls s customerId rail policy := by
  have h := hrun.invariant (fun hi hguard hstep => Holds.next hi hpolicy hguard hstep)
    (Holds.initial h₀)
  refine ⟨?_, fun since ns hns => ?_⟩
  · rintro n evaluation rfl rfl hreturned
    have hobeys := h.obeys n
    rw [hreturned] at hobeys
    exact hobeys evaluation rfl
  · obtain ⟨admitted, hroll⟩ := h.roll
    exact hroll.card_le since ns hns

/-! ## Runs -/

def samplePolicy : LimitsPolicy where
  rail := .pix
  minAmount := ⟨1, -2⟩
  maxAmount := ⟨10000, -2⟩
  dailyLimitAmount := ⟨100000, -2⟩
  velocityLimitCount := 1
  velocityWindowSeconds := 60

/-- Calls of one customer for 10.00 each. -/
def sampleCalls (_ : Nat) : LimitsCall :=
  ⟨"c", .pix, ⟨1000, -2⟩⟩

def sample : State where
  world := ⟨⟨⟨[], [samplePolicy], [], [], []⟩, fun _ => none⟩, []⟩
  proc n := ⟨[], LimitsService.enforce 60 (sampleCalls n).customerId (sampleCalls n).rail
    (sampleCalls n).amount⟩

theorem sample_initial : Initial 60 sampleCalls sample where
  call _ := rfl
  notes := rfl
  cached _ _ h := by cases h
  sets _ _ _ h := by cases h

/-- `k` commands of call `n`, with Redis available and the clock at zero. -/
def commands (n k : Nat) : List (Σ i, velocityLimits.Act i) :=
  List.replicate k ⟨n, (⟨0, .answered, 0⟩ : ApiInput)⟩

/-- Whether each of the first two calls has been admitted. -/
def firstTwoAdmitted (s : State) : Bool × Bool :=
  (decide (Admitted (limitsVelocityKey "c" .pix) 0 (call s 0).history),
    decide (Admitted (limitsVelocityKey "c" .pix) 0 (call s 1).history))

set_option maxRecDepth 10000 in
/-- One call after the other: the first is admitted, and the second counts it. -/
theorem velocity_limit_holds_sequential : ∃ s : State, firstTwoAdmitted s = (true, false) ∧
    VelocityLimitHolds sampleCalls s "c" .pix samplePolicy := by
  have hrun : (System.State.run (countsAdmitted "c" .pix samplePolicy)
      (commands 0 12 ++ commands 1 8) sample).map firstTwoAdmitted = some (true, false) := by
    decide
  obtain ⟨s, hs, hadmitted⟩ := Option.map_eq_some_iff.1 hrun
  exact ⟨s, hadmitted, velocity_limit_holds sample_initial "c" rfl (System.Reaches.of_run hs)⟩

set_option maxRecDepth 10000 in
/-- Both of two calls with one reading of the clock count before the other adds its member, and both
are admitted by a limit of one. -/
theorem velocity_limit_exceeded : ¬ ∀ (ttl : Int) (calls : Nat → LimitsCall) (s₀ s : State)
    (customerId : String) (rail : PaymentMethod) (policy : LimitsPolicy), Initial ttl calls s₀ →
      s₀.world.1.database.policyByRail rail = some policy → velocityLimits.Reaches answers s₀ s →
        VelocityLimitHolds calls s customerId rail policy := by
  intro hholds
  have hrun : (System.State.run answers
      (commands 0 10 ++ commands 1 8 ++ commands 0 2 ++ commands 1 2) sample).map
      firstTwoAdmitted = some (true, true) := by decide
  obtain ⟨s, hs, hadmitted⟩ := Option.map_eq_some_iff.1 hrun
  simp only [firstTwoAdmitted, Prod.mk.injEq, decide_eq_true_eq] at hadmitted
  have hwithin := (hholds 60 sampleCalls sample s "c" .pix samplePolicy sample_initial rfl
    (System.Reaches.of_run hs)).within 0 {0, 1} fun n hn => by
      rcases Finset.mem_insert.1 hn with rfl | hn
      · exact ⟨0, hadmitted.1, by decide, by decide⟩
      · cases Finset.mem_singleton.1 hn
        exact ⟨0, hadmitted.2, by decide, by decide⟩
  exact absurd hwithin (by decide)

end VelocityLimit

end PaymentsLab
