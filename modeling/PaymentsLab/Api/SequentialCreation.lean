import PaymentsLab.Api.RefusedRequests
import PaymentsLab.Foundation.Notes

/-!
# Creations one after the other

The parts of `CreatePaymentUseCase.execute` as triples over the backend: what a part leaves alone
(`Backend.AgreeOff`), the policy a run uses (`Backend.PoliciesCached`), and a rule that puts the run
together from its controls and its transaction (`Create.Run.ensures_execute`).
-/

namespace PaymentsLab

open Foundation Program

/-- A condition on the steps of the API. -/
abbrev StepCondition : Type := ApiInput → Backend → ApiCommand → Prop

namespace ApiProgram

variable {α β : Type} {good : StepCondition} {b : Backend}

theorem ensures_issue_bind {W : Type} {H : Handler ApiCommand ApiReply W ApiInput}
    {good : ApiInput → W → ApiCommand → Prop} {w : W} {c : ApiCommand}
    {f : ApiReply c → ApiProgram β} {post : Except ApiException β → W → Prop} :
    (issue c >>= f).Ensures H good post w ↔
      ∀ i, good i w c → (f (H.exec i w c).1).Ensures H good post (H.exec i w c).2 :=
  Iff.rfl

section Redis

variable {command : Redis.Command StoredText}

/-- A Redis command, on any handler. -/
theorem ensures_redis_exec {W : Type} {H : Handler ApiCommand ApiReply W ApiInput}
    {good : ApiInput → W → ApiCommand → Prop} {w : W}
    {post : Except ApiException (Redis.Reply command) → W → Prop} :
    (redis command).Ensures H good post w ↔
      ∀ i, good i w (.redis command) →
        let reply : Option (Redis.Reply command) := (H.exec i w (.redis command)).1
        post (reply.elim (.error .redisError) .ok) (H.exec i w (.redis command)).2 := by
  unfold redis
  rw [Program.ensures_bind]
  refine forall_congr' fun i => imp_congr_right fun _ => ?_
  dsimp only
  generalize (H.exec i w (.redis command)).1 = reply
  cases reply <;> exact Iff.rfl

theorem ensures_redis {post : Except ApiException (Redis.Reply command) → Backend → Prop} :
    (redis command).Ensures Backend.handler good post b ↔
      ∀ i, good i b (.redis command) →
        post ((b.execRedis i command).1.elim (.error .redisError) .ok)
          (b.execRedis i command).2 :=
  ensures_redis_exec

theorem ensures_redis_noting {G : Type} {note : G → ApiInput → Backend → ApiCommand → G}
    {good : ApiInput → Backend × G → ApiCommand → Prop} {v : Backend × G}
    {post : Except ApiException (Redis.Reply command) → Backend × G → Prop} :
    (redis command).Ensures (Backend.handler.noting note) good post v ↔
      ∀ i, good i v (.redis command) →
        post ((v.1.execRedis i command).1.elim (.error .redisError) .ok)
          ((v.1.execRedis i command).2, note v.2 i v.1 (.redis command)) :=
  ensures_redis_exec

end Redis

end ApiProgram

open ApiProgram

/-! ## What a part leaves alone -/

namespace Backend

/-- The rows agree, and the Redis keys other than `K`. -/
structure AgreeOff (K : String → Prop) (b b' : Backend) : Prop where
  database : b'.database = b.database
  redis : ∀ key, ¬ K key → b'.redis key = b.redis key

namespace AgreeOff

variable {K K' : String → Prop} {b b' b'' : Backend}

theorem refl (b : Backend) : b.AgreeOff K b :=
  ⟨rfl, fun _ _ => rfl⟩

theorem trans (h : b.AgreeOff K b') (h' : b'.AgreeOff K b'') : b.AgreeOff K b'' :=
  ⟨h'.database.trans h.database, fun key hkey => (h'.redis key hkey).trans (h.redis key hkey)⟩

theorem mono (h : b.AgreeOff K b') (hK : ∀ key, K key → K' key) : b.AgreeOff K' b' :=
  ⟨h.database, fun key hkey => h.redis key fun hK' => hkey (hK key hK')⟩

/-- Backends that agree on every key are equal. -/
theorem eq (h : b.AgreeOff (fun _ => False) b') : b' = b := by
  obtain ⟨database, redis⟩ := b
  obtain ⟨database', redis'⟩ := b'
  obtain rfl : database' = database := h.database
  obtain rfl : redis' = redis := funext fun key => h.redis key id
  rfl

end AgreeOff

variable {K : String → Prop} {b : Backend}

theorem agreeOff_execRedis (i : ApiInput) {command : Redis.Command StoredText}
    (h : K command.key) : b.AgreeOff K (b.execRedis i command).2 :=
  ⟨(b.execRedis_frame i command).1,
    fun key hkey => (b.execRedis_frame i command).2 key fun _ heq => hkey (heq ▸ h)⟩

theorem agreeOff_exec (i : ApiInput) {c : ApiCommand} (hc : c.Uses K) :
    b.AgreeOff K (b.exec i c).2 := by
  cases c with
  | redis command => exact agreeOff_execRedis i hc
  | commit => exact hc.elim
  | _ => exact .refl b

end Backend

theorem ApiProgram.Uses.ensures {α : Type} {K : String → Prop} {p : ApiProgram α} (hp : p.Uses K)
    (good : StepCondition) (b : Backend) :
    p.Ensures Backend.handler good (fun _ => b.AgreeOff K) b :=
  Issues.ensures (Q := b.AgreeOff K) hp
    (fun i _ _ hc _ h => h.trans (Backend.agreeOff_exec i hc)) (.refl b)

/-- A part that leaves alone what an invariant is about keeps it. -/
theorem ApiProgram.Uses.keeps {α : Type} {K : String → Prop} {p : ApiProgram α} (hp : p.Uses K)
    {Q : Backend → Prop} (hQ : ∀ {b b'}, Backend.AgreeOff K b b' → Q b → Q b')
    {good : StepCondition} {b : Backend} (hb : Q b) :
    p.Ensures Backend.handler good (fun _ => Q) b :=
  (hp.ensures good b).mono fun _ _ h => hQ h hb

/-! ## The policy of a rail -/

/-- The key of a cached policy. -/
def IsPolicyKey (key : String) : Prop :=
  ∃ rail, key = limitsPolicyKey rail

theorem limitsDailyKey_not_policy (dateKey customerId : String) (rail : PaymentMethod) :
    ¬ IsPolicyKey (limitsDailyKey dateKey customerId rail) := by
  rintro ⟨rail', h⟩
  exact limitsPolicyKey_not_daily rail' ⟨_, _, _, h.symm⟩

theorem limitsVelocityKey_not_policy (customerId : String) (rail : PaymentMethod) :
    ¬ IsPolicyKey (limitsVelocityKey customerId rail) := by
  rintro ⟨rail', h⟩
  exact limitsVelocityKey_ne_policy customerId rail rail' h

theorem rateLimitKey_not_policy (dimension : RateLimitDimension) (value : String) (bucket : Int) :
    ¬ IsPolicyKey (rateLimitKey dimension value bucket) := by
  rintro ⟨rail', h⟩
  exact append_ne_append 0 (by decide) (by decide) (by decide) h

theorem amlHistoryKey_not_policy (customerId : String) :
    ¬ IsPolicyKey (amlHistoryKey customerId) := by
  rintro ⟨rail', h⟩
  exact append_ne_append 0 (by decide) (by decide) (by decide) h

namespace Backend

/-- The policies in the cache are those of the table. -/
def PoliciesCached (b : Backend) : Prop :=
  ∀ rail e policy, b.redis (limitsPolicyKey rail) = some e → e.value = .string (.policy policy) →
    b.database.policyByRail rail = some policy

namespace PoliciesCached

variable {b b' : Backend}

theorem of_agreeOff {K : String → Prop} (hK : ∀ key, K key → ¬ IsPolicyKey key)
    (h : b.AgreeOff K b') (hb : b.PoliciesCached) : b'.PoliciesCached := by
  intro rail e policy he hpolicy
  rw [h.redis _ fun hkey => hK _ hkey ⟨rail, rfl⟩] at he
  rw [h.database]
  exact hb rail e policy he hpolicy

/-- A command that puts no policy into the cache, or the one of the table. -/
theorem execRedis (hb : b.PoliciesCached) (i : ApiInput) {command : Redis.Command StoredText}
    (hcommand : ∀ rail policy, command.key = limitsPolicyKey rail →
      command.StringOf (.policy policy) → b.database.policyByRail rail = some policy) :
    (b.execRedis i command).2.PoliciesCached := by
  intro rail e policy he hpolicy
  rw [(b.execRedis_frame i command).1]
  by_cases hkey : command.key = limitsPolicyKey rail
  · rcases b.execRedis_cases i command with ⟨reply, redis, hexec, heq⟩ | heq
    · rw [heq, ← hkey] at he
      rcases Redis.exec_string hexec he hpolicy with ⟨e', he', hpolicy'⟩ | hof
      · exact hb rail e' policy (hkey ▸ he') hpolicy'
      · exact hcommand rail policy hkey hof
    · rw [heq] at he
      exact hb rail e policy he hpolicy
  · rw [(b.execRedis_frame i command).2 _ fun _ heq => hkey heq.symm] at he
    exact hb rail e policy he hpolicy

end PoliciesCached

/-- The reply to a `GET` is what stands at the key. -/
theorem execRedis_get_snd (i : ApiInput) (b : Backend) (key : String) :
    (b.execRedis i (.get key)).2 = b := by
  rcases b.execRedis_cases i (.get key) with ⟨reply, redis, hexec, heq⟩ | heq
  · rw [heq, Redis.exec_of_not_writes hexec rfl]
  · exact heq

theorem execRedis_get_eq_some {i : ApiInput} {b : Backend} {key : String}
    {text : Option StoredText} (h : (b.execRedis i (.get key)).1 = some text) :
    b.redis.string? i.now key = some text := by
  unfold execRedis at h
  split at h
  · next reply redis hexec hanswered =>
    obtain ⟨text', htext', heq⟩ := Option.map_eq_some_iff.1 hexec
    cases heq
    cases h
    exact htext'
  · cases h
  · cases h

end Backend

/-- A string that is found is that of the entry. -/
theorem Redis.Store.entry_of_string? {s : Redis.Store StoredText} {now : Int} {key : String}
    {text : StoredText} (h : s.string? now key = some (some text)) :
    ∃ e, s key = some e ∧ e.value = .string text := by
  unfold Foundation.Redis.Store.string? at h
  split at h
  · cases h
  · next text' expiresAt hfind =>
    cases h
    exact ⟨_, (Option.filter_eq_some_iff.1 hfind).1, rfl⟩
  · cases h

namespace LimitsService

variable {good : StepCondition} {b : Backend}

theorem ensures_validatePolicy (text : StoredText) :
    (validatePolicy text).Ensures Backend.handler good (fun o b' => b' = b ∧
      IfReturned (text = .policy ·) o ∧ IfRaised (· = .validationError) o) b := by
  unfold validatePolicy
  split
  · exact ensures_pure.2 ⟨rfl, rfl, trivial⟩
  · exact ensures_throw.2 ⟨rfl, trivial, rfl⟩

theorem ensures_cachedPolicy (hb : b.PoliciesCached) (rail : PaymentMethod) :
    (cachedPolicy rail).Ensures Backend.handler good (fun o b' => b' = b ∧
      IfReturned (∀ policy ∈ ·, b.database.policyByRail rail = some policy) o) b := by
  have hnone : ∀ policy ∈ (none : Option LimitsPolicy),
      b.database.policyByRail rail = some policy := by
    intro policy hpolicy
    cases hpolicy
  refine ensures_tryCatch.2 (ensures_bind.2 (ensures_redis.2 fun i _ => ?_))
  rw [Backend.execRedis_get_snd]
  cases hreply : (b.execRedis i (.get (limitsPolicyKey rail))).1 with
  | none => exact ensures_pure.2 ⟨rfl, hnone⟩
  | some text =>
    simp only [Option.elim]
    split
    · exact ensures_pure.2 ⟨rfl, hnone⟩
    · next text _ =>
      refine (ensures_validatePolicy text).bind (fun policy b' h => ?_) fun e b' h => ?_
      · obtain ⟨e, he, hpolicy⟩ :=
          Redis.Store.entry_of_string? (Backend.execRedis_get_eq_some hreply)
        refine ensures_pure.2 ⟨h.1, fun policy' heq => ?_⟩
        cases heq
        exact hb rail e policy he (hpolicy.trans (congrArg _ h.2.1))
      · obtain ⟨rfl, -, rfl⟩ := h
        exact ensures_pure.2 ⟨rfl, hnone⟩
    · exact ensures_pure.2 ⟨rfl, hnone⟩

theorem ensures_cachePolicy (hb : b.PoliciesCached) (ttl : Int) {rail : PaymentMethod}
    {policy : LimitsPolicy} (hpolicy : b.database.policyByRail rail = some policy) :
    (cachePolicy ttl rail policy).Ensures Backend.handler good
      (fun _ => Backend.PoliciesCached) b := by
  have hset (i : ApiInput) : (b.execRedis i (.set (limitsPolicyKey rail)
      (.policy policy) ttl)).2.PoliciesCached := by
    refine hb.execRedis i fun rail' policy' hkey hof => ?_
    cases limitsPolicyKey_injective hkey
    cases hof
    exact hpolicy
  refine ensures_tryCatch.2 (ensures_redis.2 fun i _ => ?_)
  cases (b.execRedis i (.set (limitsPolicyKey rail) (.policy policy) ttl)).1 <;> exact hset i

/-- The policy a run uses is the one of the table, and the cache keeps to the table. -/
theorem ensures_getPolicy (hb : b.PoliciesCached) (ttl : Int) (rail : PaymentMethod) :
    (getPolicy ttl rail).Ensures Backend.handler good (fun o b' => b.AgreeOff IsPolicyKey b' ∧
      b'.PoliciesCached ∧
      IfReturned (fun policy => b.database.policyByRail rail = some policy) o) b := by
  refine ((uses_getPolicy ⟨rail, rfl⟩ ttl).ensures good b).and ?_
  refine (ensures_cachedPolicy hb rail).bind ?_ fun e b' h => ⟨h.1 ▸ hb, trivial⟩
  rintro cached b' ⟨rfl, hcached⟩
  cases cached with
  | some policy => exact ⟨hb, hcached policy rfl⟩
  | none =>
    refine ensures_issue_bind.2 fun i _ => ?_
    simp only [Backend.handler, Backend.exec]
    cases hpolicy : b'.database.policyByRail rail with
    | none => exact ⟨hb, trivial⟩
    | some policy =>
      exact (ensures_cachePolicy hb ttl hpolicy).bind (fun _ b'' hb'' => ⟨hb'', rfl⟩)
        fun _ b'' hb'' => ⟨hb'', trivial⟩

end LimitsService

/-! ## The run -/

/-- Handlers of the API that take notes. -/
abbrev Backend.noting {G : Type} (note : G → ApiInput → Backend → ApiCommand → G) :
    Handler ApiCommand ApiReply (Backend × G) ApiInput :=
  Backend.handler.noting note

theorem ApiProgram.Uses.keeps_noting {α G : Type} {K : String → Prop} {p : ApiProgram α}
    (hp : p.Uses K) {note : G → ApiInput → Backend → ApiCommand → G} {Q : Backend × G → Prop}
    (hQ : ∀ {i v c b'}, c.Uses K → v.1.AgreeOff K b' → Q v → Q (b', note v.2 i v.1 c))
    {good : ApiInput → Backend × G → ApiCommand → Prop} {v : Backend × G} (hv : Q v) :
    p.Ensures (Backend.noting note) good (fun _ => Q) v :=
  Issues.ensures hp (fun i _ _ hc _ h => hQ hc (Backend.agreeOff_exec i hc) h) hv

namespace Create

namespace Run

variable (cfg : ApiSettings) (r : Run)

/-- Creations one after the other. -/
def creations (runs : List Run) : ApiProgram Unit :=
  inOrder (runs.map (·.execute cfg))

/-- What every creation keeps, creations one after the other keep. -/
theorem ensures_creations {W : Type} {H : Handler ApiCommand ApiReply W ApiInput}
    {good : ApiInput → W → ApiCommand → Prop} {Q : W → Prop} {w : W} {runs : List Run}
    (hruns : ∀ r ∈ runs, ∀ w, Q w → (r.execute cfg).Ensures H good (fun _ => Q) w) (hw : Q w) :
    (creations cfg runs).Ensures H good (fun _ => Q) w := by
  refine Ensures.inOrder (fun p hp => ?_) hw
  obtain ⟨r, hr, rfl⟩ := List.mem_map.1 hp
  exact hruns r hr

/-- The gate's `SET NX`. -/
def gateCommand : ApiCommand :=
  .redis (.setNx r.gateKey (.int 1) cfg.idempotencyTtlSeconds)

section Rules

variable {G : Type} {note : G → ApiInput → Backend → ApiCommand → G}
  {good : ApiInput → Backend × G → ApiCommand → Prop} {Q J : Backend × G → Prop} {v : Backend × G}

/-- What no query disturbs. -/
def Idle (note : G → ApiInput → Backend → ApiCommand → G) (J : Backend × G → Prop) : Prop :=
  ∀ {i v c}, ApiCommand.Uses (fun _ => False) c → J v → J (v.1, note v.2 i v.1 c)

theorem Idle.of_uses {K : String → Prop}
    (hJ : ∀ {i v c b'}, ApiCommand.Uses K c → v.1.AgreeOff K b' → J v → J (b', note v.2 i v.1 c)) :
    Idle note J :=
  fun hc h => hJ (hc.mono fun _ hkey => hkey.elim) (.refl _) h

theorem Idle.keeps {α : Type} {p : ApiProgram α} (hidle : Idle note J)
    (hp : p.Uses fun _ => False) (hv : J v) :
    p.Ensures (Backend.noting note) good (fun _ => J) v :=
  hp.keeps_noting (fun hc hagree h => hagree.eq ▸ hidle hc h) hv

/-- A run begins, takes its gate and goes on to its creation, or has begun and reads. What holds in
between may speak of the beginning. -/
theorem ensures_execute_from {J : Instant → Backend × G → Prop} (hidle : ∀ t, Idle note (J t))
    (hbegin : ∀ i, good i v .begin → J i.now (v.1, note v.2 i v.1 .begin))
    (hgate : ∀ t i v, good i v (r.gateCommand cfg) → J t v →
      J t ((Backend.noting note).exec i v (r.gateCommand cfg)).2)
    (hcreate : ∀ t v, J t v →
      (r.createPaymentWithControls cfg t).Ensures (Backend.noting note) good (fun _ => Q) v)
    (hend : ∀ t v, J t v → Q v) :
    (r.execute cfg).Ensures (Backend.noting note) good (fun _ => Q) v := by
  refine ensures_issue_bind.2 fun i hi => ensures_bind.2 ?_
  have hidle : Idle note (J i.now) := @hidle i.now
  refine (hidle.keeps r.uses_tryReturnReplayedResponse (hbegin i hi)).mono fun o v₁ h₁ => ?_
  match o with
  | .error e => exact hend _ _ h₁
  | .ok (some response) => exact hend _ _ h₁
  | .ok none =>
    have hpending (v : Backend × G) (hv : J i.now v) : (r.resolvePending pollLimit).Ensures
        (Backend.noting note) good (fun _ => Q) v :=
      (hidle.keeps (r.uses_resolvePending pollLimit) hv).mono fun _ v => hend _ v
    refine ensures_bind.2 (ensures_tryCatch.2 fun i' hi' => ?_)
    have hgate' := hgate i.now i' v₁ hi' h₁
    simp only [gateCommand, gateKey, Handler.noting, Backend.handler, Backend.exec] at hgate' ⊢
    cases (v₁.1.execRedis i' (.setNx (idempotencyScopedKey r.context.merchantId
        r.context.idempotencyKey) (.int 1) cfg.idempotencyTtlSeconds)).1 with
    | none => exact hcreate i.now _ hgate'
    | some acquired =>
      cases acquired with
      | true => exact hcreate i.now _ hgate'
      | false => exact hpending _ hgate'

theorem ensures_execute (hidle : Idle note J)
    (hbegin : ∀ i, good i v .begin → J (v.1, note v.2 i v.1 .begin))
    (hgate : ∀ i v, good i v (r.gateCommand cfg) → J v →
      J ((Backend.noting note).exec i v (r.gateCommand cfg)).2)
    (hcreate : ∀ i v₀ v, good i v₀ .begin → J v →
      (r.createPaymentWithControls cfg i.now).Ensures (Backend.noting note) good (fun _ => Q) v)
    (hend : ∀ v, J v → Q v) :
    (r.execute cfg).Ensures (Backend.noting note) good (fun _ => Q) v := by
  refine r.ensures_execute_from cfg
    (J := fun t v => (∃ (i : ApiInput) (v₀ : Backend × G), i.now = t ∧ good i v₀ .begin) ∧ J v)
    (fun _ _ _ _ hc h => ⟨h.1, hidle hc h.2⟩) (fun i hi => ⟨⟨i, v, rfl, hi⟩, hbegin i hi⟩)
    (fun _ i v hi h => ⟨h.1, hgate i v hi h.2⟩) ?_ fun _ v h => hend v h.2
  rintro _ v ⟨⟨i, v₀, rfl, hi⟩, h⟩
  exact hcreate i v₀ v hi h

/-- A transaction commits its rows and goes on after them, or leaves everything as it was. -/
theorem ensures_persistAndObserve {startedAt : Instant} {decision : ControlDecision}
    (hidle : Idle note J) (hv : J v)
    (hcommit : ∀ i v paymentId eventId t,
      let response := r.acceptedResponse paymentId decision
      let payment := r.paymentRow decision response startedAt
      let event := r.insertedEvent response eventId startedAt t
      let record := r.idempotencyRecord response
      let commit : ApiCommand := .commit payment event record
      J v → good i v commit →
        (v.1.database.Accepts payment event record →
          (r.afterCommitObservability cfg response).Ensures (Backend.noting note) good
            (fun _ => Q) ({ v.1 with database := v.1.database.insert payment event record },
              note v.2 i v.1 commit)) ∧
        (¬ v.1.database.Accepts payment event record → J (v.1, note v.2 i v.1 commit)))
    (hend : ∀ v, J v → Q v) :
    (r.persistAndObserve cfg startedAt decision).Ensures (Backend.noting note) good
      (fun _ => Q) v := by
  refine ensures_issue_bind.2 fun i _ => ensures_issue_bind.2 fun i' _ => ?_
  refine ensures_issue_bind.2 fun t _ => ensures_issue_bind.2 fun i'' hi => ?_
  have h₁ := hidle (i := i) (c := .newUuid) trivial hv
  have h₂ := hidle (i := i') (c := .newUuid) trivial h₁
  have h₃ := hidle (i := t) (c := .now) trivial h₂
  obtain ⟨hyes, hno⟩ := hcommit i'' _ i.uuid i'.uuid t.now h₃ hi
  let next (committed : Bool) : ApiProgram PaymentAcceptedResponse :=
    if committed then do
      r.afterCommitObservability cfg (r.acceptedResponse i.uuid decision)
      return r.acceptedResponse i.uuid decision
    else r.resolveReplayedAfterConflict
  let commit : ApiCommand := .commit
    (r.paymentRow decision (r.acceptedResponse i.uuid decision) startedAt)
    (r.insertedEvent (r.acceptedResponse i.uuid decision) i'.uuid startedAt t.now)
    (r.idempotencyRecord (r.acceptedResponse i.uuid decision))
  let noted : G := note (note (note (note v.2 i v.1 .newUuid) i' v.1 .newUuid) t v.1 .now) i'' v.1
    commit
  change (next (v.1.exec i'' commit).1).Ensures (Backend.noting note) good (fun _ => Q)
    ((v.1.exec i'' commit).2, noted)
  simp only [commit, Backend.exec]
  split
  · next haccepts => exact (hyes haccepts).bind (fun _ _ => id) fun _ _ => id
  · next haccepts =>
    exact (hidle.keeps r.uses_resolveReplayedAfterConflict (hno haccepts)).mono fun _ => hend

end Rules

end Run

end Create

end PaymentsLab
