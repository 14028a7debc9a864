import PaymentsLab.Api.RefusedRequests
import PaymentsLab.Contracts.Validation
import PaymentsLab.Foundation.Separated

/-!
# Key spaces

Which Redis keys of the API are equal. The keys of the controls are told apart by their prefixes,
and their rails, dates, dimensions and buckets have no colon in them. The key of an idempotency gate
has no prefix: it is equal to every key that has the merchant's id before one of its colons and the
idempotency key after it (`RedisKey.text_eq_iff`).
-/

namespace PaymentsLab

open Foundation Separated

/-! ## Parts without a colon -/

theorem colon_not_mem_lastDigits (width n : Nat) : ':' ∉ lastDigits width n := by
  induction width generalizing n with
  | zero => exact List.not_mem_nil
  | succ width ih =>
    have hdigit : ∀ d < 10, ':' ≠ Nat.digitChar d := by decide
    simp only [lastDigits, List.mem_append, List.mem_singleton, not_or]
    exact ⟨ih _, hdigit _ (Nat.mod_lt _ (by decide))⟩

theorem colon_not_mem_dateKey (t : Instant) : ':' ∉ (dateKey t).toList := by
  simp only [dateKey, String.toList_ofList, List.mem_append, not_or]
  exact ⟨⟨colon_not_mem_lastDigits _ _, colon_not_mem_lastDigits _ _⟩,
    colon_not_mem_lastDigits _ _⟩

/-! ## Keys -/

/-- A text that `dateKey` gives. -/
structure UtcDate where
  text : String
  eq_dateKey : ∃ t, text = dateKey t

namespace UtcDate

theorem ext_text {a b : UtcDate} (h : a.text = b.text) : a = b := by
  obtain ⟨_, _⟩ := a
  cases h
  rfl

theorem colon_not_mem (date : UtcDate) : ':' ∉ date.text.toList := by
  obtain ⟨t, ht⟩ := date.eq_dateKey
  exact ht ▸ colon_not_mem_dateKey t

end UtcDate

/-- The keys of the API: the function that builds it, and its arguments. -/
inductive RedisKey
  | idempotencyScoped (merchantId idempotencyKey : Identifier)
  | limitsPolicy (rail : PaymentMethod)
  | limitsDaily (date : UtcDate) (customerId : Identifier) (rail : PaymentMethod)
  | limitsVelocity (customerId : Identifier) (rail : PaymentMethod)
  | rateLimit (dimension : RateLimitDimension) (value : Identifier) (bucket : Int)
  | amlHistory (customerId : Identifier)

namespace RedisKey

/-- The key. -/
def text : RedisKey → String
  | idempotencyScoped merchantId idempotencyKey =>
    Create.idempotencyScopedKey merchantId.text idempotencyKey.text
  | limitsPolicy rail => limitsPolicyKey rail
  | limitsDaily date customerId rail => limitsDailyKey date.text customerId.text rail
  | limitsVelocity customerId rail => limitsVelocityKey customerId.text rail
  | rateLimit dimension value bucket => rateLimitKey dimension value.text bucket
  | amlHistory customerId => amlHistoryKey customerId.text

/-- What stands between the colons that the functions put. -/
def parts : RedisKey → List String
  | idempotencyScoped merchantId idempotencyKey => [merchantId.text, idempotencyKey.text]
  | limitsPolicy rail => ["limits", "policy", rail.value]
  | limitsDaily date customerId rail => ["limits", "daily", date.text, customerId.text, rail.value]
  | limitsVelocity customerId rail => ["limits", "velocity", customerId.text, rail.value]
  | rateLimit dimension value bucket => ["rate", dimension.value, value.text, toString bucket]
  | amlHistory customerId => ["aml", "history", customerId.text]

theorem parts_ne_nil (key : RedisKey) : key.parts.map String.toList ≠ [] := by
  cases key <;> exact List.cons_ne_nil _ _

theorem text_eq_join (key : RedisKey) :
    key.text.toList = join ':' (key.parts.map String.toList) := by
  have hcons (part next : List Char) (rest : List (List Char)) :
      join ':' (part :: next :: rest) = part ++ ':' :: join ':' (next :: rest) :=
    join_cons (List.cons_ne_nil _ _)
  -- the keys, with what stands before the first argument taken apart at its colons
  have hpolicy (rail : PaymentMethod) :
      limitsPolicyKey rail = "limits" ++ ":" ++ "policy" ++ ":" ++ rail.value := rfl
  have hdaily (date customerId : String) (rail : PaymentMethod) :
      limitsDailyKey date customerId rail = "limits" ++ ":" ++ "daily" ++ ":" ++
        (date ++ (":" ++ (customerId ++ (":" ++ rail.value)))) := rfl
  have hvelocity (customerId : String) (rail : PaymentMethod) :
      limitsVelocityKey customerId rail = "limits" ++ ":" ++ "velocity" ++ ":" ++
        (customerId ++ (":" ++ rail.value)) := rfl
  have hrate (dimension : RateLimitDimension) (value : String) (bucket : Int) :
      rateLimitKey dimension value bucket = "rate" ++ ":" ++
        (dimension.value ++ (":" ++ (value ++ (":" ++ toString bucket)))) := rfl
  have haml (customerId : String) :
      amlHistoryKey customerId = "aml" ++ ":" ++ "history" ++ ":" ++ customerId := rfl
  have hcolon : ":".toList = [':'] := rfl
  cases key <;>
    simp only [text, parts, Create.idempotencyScopedKey, hpolicy, hdaily, hvelocity, hrate, haml,
      String.toList_append, hcolon, List.map_cons, List.map_nil, hcons, join_singleton,
      List.append_assoc, List.cons_append, List.nil_append]

/-- The key reads as the gate of a merchant's idempotency key. Two gates do so where the merchant
ids and the idempotency keys differ by a part that is shifted from the one to the other; a key of
the controls does so where it falls in two at a colon. -/
def ReadsAsGate (merchantId idempotencyKey : String) : RedisKey → Prop
  | idempotencyScoped merchantId' idempotencyKey' =>
    ∃ shifted,
      (merchantId'.text = merchantId ++ ":" ++ shifted ∧
        idempotencyKey = shifted ++ ":" ++ idempotencyKey'.text) ∨
      (merchantId = merchantId'.text ++ ":" ++ shifted ∧
        idempotencyKey'.text = shifted ++ ":" ++ idempotencyKey)
  | key =>
    ∃ front back, Cut ':' (key.parts.map String.toList) front back ∧
      merchantId.toList = join ':' front ∧ idempotencyKey.toList = join ':' back

/-- One of two keys is a gate, and the other one reads as it. -/
def Clash : RedisKey → RedisKey → Prop
  | idempotencyScoped merchantId idempotencyKey, key
  | key, idempotencyScoped merchantId idempotencyKey =>
    key.ReadsAsGate merchantId.text idempotencyKey.text
  | _, _ => False

/-! ### The keys of the controls -/

/-- The key is not one of a gate. -/
def OfControl : RedisKey → Prop
  | idempotencyScoped _ _ => False
  | _ => True

theorem limitsDailyKey_injective {d d' c c' : String} {r r' : PaymentMethod}
    (hd : ':' ∉ d.toList) (hd' : ':' ∉ d'.toList)
    (h : limitsDailyKey d c r = limitsDailyKey d' c' r') : d = d' ∧ c = c' ∧ r = r' := by
  obtain ⟨hdate, hrest⟩ := split_first_colon hd hd' ((String.append_right_inj "limits:daily:").1 h)
  exact ⟨hdate, text_rail_injective hrest⟩

theorem amlHistoryKey_injective {c c' : Identifier}
    (h : amlHistoryKey c.text = amlHistoryKey c'.text) : c = c' :=
  Identifier.ext_text ((String.append_right_inj "aml:history:").1 h)

/-- The keys of the controls have one origin each. -/
theorem OfControl.text_injective {a b : RedisKey} (ha : a.OfControl) (hb : b.OfControl)
    (h : a.text = b.text) : a = b := by
  cases a with
  | idempotencyScoped => exact ha.elim
  | limitsPolicy rail =>
    cases b with
    | idempotencyScoped => exact hb.elim
    | limitsPolicy rail' => exact congrArg _ (limitsPolicyKey_injective h)
    | rateLimit | amlHistory =>
      exact absurd h (append_ne_append 0 (by decide) (by decide) (by decide))
    | _ => exact absurd h (append_ne_append 7 (by decide) (by decide) (by decide))
  | limitsDaily date customerId rail =>
    cases b with
    | idempotencyScoped => exact hb.elim
    | limitsDaily date' customerId' rail' =>
      obtain ⟨hdate, hcustomer, rfl⟩ := limitsDailyKey_injective date.colon_not_mem
        date'.colon_not_mem h
      rw [UtcDate.ext_text hdate, Identifier.ext_text hcustomer]
    | rateLimit | amlHistory =>
      exact absurd h (append_ne_append 0 (by decide) (by decide) (by decide))
    | _ => exact absurd h (append_ne_append 7 (by decide) (by decide) (by decide))
  | limitsVelocity customerId rail =>
    cases b with
    | idempotencyScoped => exact hb.elim
    | limitsVelocity customerId' rail' =>
      obtain ⟨hcustomer, rfl⟩ := limitsVelocityKey_injective h
      rw [Identifier.ext_text hcustomer]
    | rateLimit | amlHistory =>
      exact absurd h (append_ne_append 0 (by decide) (by decide) (by decide))
    | _ => exact absurd h (append_ne_append 7 (by decide) (by decide) (by decide))
  | rateLimit dimension value bucket =>
    cases b with
    | idempotencyScoped => exact hb.elim
    | rateLimit dimension' value' bucket' =>
      obtain ⟨rfl, hvalue, rfl⟩ := rateLimitKey_injective h
      rw [Identifier.ext_text hvalue]
    | _ => exact absurd h (append_ne_append 0 (by decide) (by decide) (by decide))
  | amlHistory customerId =>
    cases b with
    | idempotencyScoped => exact hb.elim
    | amlHistory customerId' => exact congrArg _ (amlHistoryKey_injective h)
    | _ => exact absurd h (append_ne_append 0 (by decide) (by decide) (by decide))

/-! ### The keys of the gates -/

theorem idempotencyScoped_toList (merchantId idempotencyKey : String) :
    (Create.idempotencyScopedKey merchantId idempotencyKey).toList =
      merchantId.toList ++ ':' :: idempotencyKey.toList := by
  simp [Create.idempotencyScopedKey]

/-- Where a key of the controls is one of a gate. -/
theorem OfControl.eq_gate_iff {key : RedisKey} (hkey : key.OfControl)
    (merchantId idempotencyKey : String) :
    Create.idempotencyScopedKey merchantId idempotencyKey = key.text ↔
      key.ReadsAsGate merchantId idempotencyKey := by
  have hlist : Create.idempotencyScopedKey merchantId idempotencyKey = key.text ↔
      merchantId.toList ++ ':' :: idempotencyKey.toList =
        join ':' (key.parts.map String.toList) := by
    rw [← idempotencyScoped_toList, ← text_eq_join, String.toList_inj]
  rw [hlist, append_eq_join_iff key.parts_ne_nil]
  cases key <;> first | exact hkey.elim | exact Iff.rfl

/-- Where two gates have one key. -/
theorem gate_eq_gate_iff (m k m' k' : String) :
    Create.idempotencyScopedKey m k = Create.idempotencyScopedKey m' k' ↔
      (m = m' ∧ k = k') ∨ ∃ shifted, (m' = m ++ ":" ++ shifted ∧ k = shifted ++ ":" ++ k') ∨
        (m = m' ++ ":" ++ shifted ∧ k' = shifted ++ ":" ++ k) := by
  have hshift (m k m' k' : String) (c : List Char) (hm : m'.toList = m.toList ++ ':' :: c)
      (hk : k.toList = c ++ ':' :: k'.toList) :
      m' = m ++ ":" ++ String.ofList c ∧ k = String.ofList c ++ ":" ++ k' := by
    constructor <;> apply String.toList_injective <;> simp [hm, hk]
  constructor
  · intro h
    have hlist := congrArg String.toList h
    rw [idempotencyScoped_toList, idempotencyScoped_toList] at hlist
    rcases List.append_eq_append_iff.1 hlist with ⟨c, hm, hk⟩ | ⟨c, hm, hk⟩
    · cases c with
      | nil =>
        rw [List.append_nil] at hm
        exact .inl ⟨String.toList_injective hm.symm, String.toList_injective (List.cons.inj hk).2⟩
      | cons x c =>
        obtain ⟨rfl, hback⟩ := List.cons.inj hk
        exact .inr ⟨_, .inl (hshift m k m' k' c hm hback)⟩
    · cases c with
      | nil =>
        rw [List.append_nil] at hm
        exact .inl ⟨String.toList_injective hm,
          String.toList_injective (List.cons.inj hk).2.symm⟩
      | cons x c =>
        obtain ⟨rfl, hback⟩ := List.cons.inj hk
        exact .inr ⟨_, .inr (hshift m' k' m k c hm hback)⟩
  · rintro (⟨rfl, rfl⟩ | ⟨shifted, ⟨rfl, rfl⟩ | ⟨rfl, rfl⟩⟩)
    · rfl
    · simp only [Create.idempotencyScopedKey, String.append_assoc]
    · simp only [Create.idempotencyScopedKey, String.append_assoc]

/-- Two keys are equal where they have one origin, and where one of them reads as a gate that is the
other one. -/
theorem text_eq_iff (a b : RedisKey) : a.text = b.text ↔ a = b ∨ a.Clash b := by
  cases a with
  | idempotencyScoped m k =>
    cases b with
    | idempotencyScoped m' k' =>
      refine (gate_eq_gate_iff _ _ _ _).trans (or_congr ?_ Iff.rfl)
      constructor
      · rintro ⟨hm, hk⟩
        rw [Identifier.ext_text hm, Identifier.ext_text hk]
      · intro h
        cases h
        exact ⟨rfl, rfl⟩
    | _ =>
      refine (OfControl.eq_gate_iff ?_ _ _).trans ?_
      · trivial
      · exact ⟨.inr, fun h => h.resolve_left nofun⟩
  | _ =>
    cases b with
    | idempotencyScoped m' k' =>
      refine eq_comm.trans ((OfControl.eq_gate_iff ?_ _ _).trans ?_)
      · trivial
      · exact ⟨.inr, fun h => h.resolve_left nofun⟩
    | _ =>
      refine ⟨fun h => .inl (OfControl.text_injective trivial trivial h), ?_⟩
      rintro (h | h)
      · exact congrArg text h
      · exact h.elim

theorem not_clash_self (key : RedisKey) : ¬ key.Clash key := by
  cases key with
  | idempotencyScoped m k =>
    rintro ⟨shifted, ⟨h, -⟩ | ⟨h, -⟩⟩ <;>
    · have hlength := congrArg String.length h
      simp only [String.length_append] at hlength
      have hcolon : ":".length = 1 := by decide
      omega
  | _ => exact id

/-- Of keys that are not equal by themselves, the equal ones are those that clash. -/
theorem eq_of_text_eq_iff (a b : RedisKey) : (a.text = b.text → a = b) ↔ ¬ a.Clash b := by
  constructor
  · intro h hclash
    have heq := h ((text_eq_iff a b).2 (.inr hclash))
    exact not_clash_self b (heq ▸ hclash)
  · intro h heq
    exact ((text_eq_iff a b).1 heq).resolve_right h

/-! ## Taking a gate -/

open Program Create

/-- The gate is taken, and its key is the only one that can change. -/
theorem acquire_redis (cfg : ApiSettings) (merchantId idempotencyKey : String) (b : Backend)
    (is : Nat → ApiInput) :
    ((IdempotencyService.acquire cfg merchantId idempotencyKey).run Backend.handler b is).world =
      (b.execRedis (is 0) (.setNx (idempotencyScopedKey merchantId idempotencyKey) (.int 1)
        cfg.idempotencyTtlSeconds)).2 := by
  unfold IdempotencyService.acquire
  rw [run_tryCatch, ApiProgram.run_redis]
  generalize b.execRedis (is 0) _ = reply
  obtain ⟨reply, b'⟩ := reply
  cases reply <;> rfl

/-- Taking a gate leaves the keys alone that do not clash with it, and no other. -/
theorem acquire_touches_iff (cfg : ApiSettings) (merchantId idempotencyKey : Identifier)
    (key : RedisKey) (hkey : key ≠ .idempotencyScoped merchantId idempotencyKey) :
    (∀ b is, ((IdempotencyService.acquire cfg merchantId.text idempotencyKey.text).run
        Backend.handler b is).world.redis key.text = b.redis key.text) ↔
      ¬ (idempotencyScoped merchantId idempotencyKey).Clash key := by
  constructor
  · intro h hclash
    have htext := (text_eq_iff _ _).2 (.inr hclash)
    have hex : 0 < cfg.idempotencyTtlSeconds := by
      have hge := cfg.idempotencyTtlSeconds_ge
      omega
    -- on an empty store, the gate's entry is found under the other key
    have hrun := h ⟨⟨[], [], [], [], []⟩, fun _ => none⟩ fun _ => ⟨0, .answered, 0⟩
    rw [acquire_redis, ← htext] at hrun
    simp [Backend.execRedis, Redis.exec, hex, Redis.Store.find, Redis.Store.fresh, text] at hrun
  · intro hclash b is
    rw [acquire_redis]
    refine (b.execRedis_frame _ _).2 _ fun _ heq => ?_
    exact ((text_eq_iff (idempotencyScoped merchantId idempotencyKey) key).1 heq.symm).elim
      (fun h => hkey h.symm) hclash

/-- Keys that do not clash are equal only if they have one origin, and taking a gate changes none of
the others; keys that clash are equal, and taking the one as a gate changes the other. -/
theorem key_spaces_apart_iff (a b : RedisKey) (cfg : ApiSettings)
    (merchantId idempotencyKey : Identifier) (key : RedisKey) :
    ((a.text = b.text → a = b) ↔ ¬ a.Clash b) ∧
      ((key ≠ .idempotencyScoped merchantId idempotencyKey →
          ∀ b is, ((IdempotencyService.acquire cfg merchantId.text idempotencyKey.text).run
            Backend.handler b is).world.redis key.text = b.redis key.text) ↔
        ¬ (idempotencyScoped merchantId idempotencyKey).Clash key) := by
  refine ⟨eq_of_text_eq_iff a b, ?_⟩
  by_cases hkey : key = .idempotencyScoped merchantId idempotencyKey
  · subst hkey
    exact ⟨fun _ => not_clash_self _, fun _ hne => absurd rfl hne⟩
  · rw [← acquire_touches_iff cfg merchantId idempotencyKey key hkey]
    exact ⟨fun h => h hkey, fun h _ => h⟩

/-- The gate of the merchant `limits` for the key `policy:PIX`. -/
def policyGate : RedisKey :=
  idempotencyScoped ⟨"limits", by decide, by decide, by decide⟩
    ⟨"policy:PIX", by decide, by decide, by decide⟩

/-- The key of that gate is the one of the cached policy of PIX, and the payments of PIX find an
`int` in place of a policy. -/
theorem policy_gate_overwrites :
    policyGate.text = (limitsPolicy .pix).text ∧ policyGate ≠ limitsPolicy .pix ∧
      ((IdempotencyService.acquire .default "limits" "policy:PIX").run Backend.handler
        ⟨⟨[], [], [], [], []⟩, fun _ => none⟩ fun _ => ⟨0, .answered, 0⟩).world.redis
          (limitsPolicy .pix).text = some ⟨.string (.int 1), some 300000000⟩ := by
  exact ⟨by decide, nofun, by decide⟩

end RedisKey

end PaymentsLab
