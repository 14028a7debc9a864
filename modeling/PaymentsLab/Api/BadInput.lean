import PaymentsLab.Api.Escapes
import PaymentsLab.Api.RequestContext
import PaymentsLab.Foundation.Faults

/-!
# Bad input

`_build_request_context` turns the errors of the currency into a `ValidationAppError` and lets those
of the headers escape as they are. The context it builds goes into statements, and the database
refuses a text with a U+0000 in it, which no check looks for. So bad input is reported exactly if
all headers are acceptable and, where the currency is accepted, the database takes their texts
(`bad_input_reported_iff`).
-/

namespace PaymentsLab

open Foundation
open Foundation.Program (Answers Attempt Ending)

/-! ## The helpers -/

/-- A header `require_header` is satisfied with: a `str` that is neither blank nor, trimmed, too
long. -/
def AcceptableHeader (headers : String → HeaderValue) (key : String) : Prop :=
  ∃ raw, headers key = .text raw ∧ stripText raw ≠ "" ∧ (stripText raw).length ≤ maxHeaderLength

/-- An upper-case code of a supported currency. -/
def IsSupportedCode (upper : String → String) (supported : List String) (code : String) : Prop :=
  code.length = currencyCodeLength ∧
    ∃ item ∈ supported, stripText item ≠ "" ∧ upper (stripText item) = code

/-- What `ensure_supported_currency` returns is the text in upper case, and a supported code. -/
theorem ensureSupportedCurrency_eq_ok {upper : String → String} {supported : List String}
    {currency code : String} (h : ensureSupportedCurrency upper currency supported = .ok code) :
    code = upper (stripText currency) ∧ IsSupportedCode upper supported code := by
  unfold ensureSupportedCurrency at h
  cases htext : normalizeText (.text currency) "currency" with
  | error e =>
    rw [htext] at h
    cases h
  | ok value =>
    obtain ⟨raw, hraw, hvalue, -⟩ := normalizeText_eq_ok.1 htext
    cases hraw
    rw [htext] at h
    dsimp only [bind, Except.bind] at h
    split at h
    · cases h
    next hlength =>
      split at h
      · cases h
      next hmem =>
        cases h
        obtain ⟨item, hitem, hcode⟩ := List.mem_map.1 (not_not.1 hmem)
        obtain ⟨hsupported, hblank⟩ := List.mem_filter.1 hitem
        exact ⟨congrArg upper hvalue.symm, not_not.1 hlength, item, hsupported,
          of_decide_eq_true hblank, hcode⟩

namespace Create

variable {upper : String → String} {supported : List String} {headers : String → HeaderValue}
  {request : CreatePaymentRequest}

/-- An acceptable header is read as an identifier. -/
theorem header_of_acceptable {key : String} (h : AcceptableHeader headers key) :
    ∃ id : Identifier, header headers key = .ok id.text := by
  obtain ⟨raw, hraw, hblank, hle⟩ := h
  refine ⟨⟨stripText raw, stripText_stripText raw, hblank, hle⟩, ?_⟩
  rw [header, requireHeader_eq_ok.2 ⟨raw, hraw, rfl, hblank, hle⟩]
  rfl

/-- Any other header is answered with the `ValueError` of `require_header`. -/
theorem header_of_not_acceptable {key : String} (h : ¬ AcceptableHeader headers key) :
    header headers key = .error .valueError := by
  unfold header
  cases hvalue : requireHeader headers key with
  | error e => rfl
  | ok value =>
    obtain ⟨raw, hraw, rfl, hblank, hle⟩ := requireHeader_eq_ok.1 hvalue
    exact absurd ⟨raw, hraw, hblank, hle⟩ h

/-! ## The context -/

/-- The headers of the context. -/
def requiredHeaders : List String :=
  ["X-Merchant-Id", "X-Customer-Id", "X-Account-Id", "Idempotency-Key"]

/-- A context of identifiers, and the request with its currency normalized to a supported code. -/
structure Normalized (upper : String → String) (supported : List String)
    (request : CreatePaymentRequest) (context : RequestContext)
    (normalized : CreatePaymentRequest) : Prop where
  merchantId : ∃ id : Identifier, id.text = context.merchantId
  customerId : ∃ id : Identifier, id.text = context.customerId
  accountId : ∃ id : Identifier, id.text = context.accountId
  idempotencyKey : ∃ id : Identifier, id.text = context.idempotencyKey
  request : normalized = { request with currency := upper (stripText request.currency) }
  currency : IsSupportedCode upper supported normalized.currency

variable (upper supported request) in
/-- With acceptable headers only the currency is left to refuse. -/
theorem buildRequestContext_eq (h : ∀ key ∈ requiredHeaders, AcceptableHeader headers key) :
    ∃ merchant customer account key : Identifier,
      buildRequestContext upper supported headers request =
        (normalizeCurrency upper supported request.currency).map fun code =>
          (⟨merchant.text, customer.text, account.text, key.text⟩,
            { request with currency := code }) := by
  simp only [requiredHeaders, List.forall_mem_cons] at h
  obtain ⟨hm, hc, ha, hk, -⟩ := h
  obtain ⟨merchant, hmerchant⟩ := header_of_acceptable hm
  obtain ⟨customer, hcustomer⟩ := header_of_acceptable hc
  obtain ⟨account, haccount⟩ := header_of_acceptable ha
  obtain ⟨key, hkey⟩ := header_of_acceptable hk
  refine ⟨merchant, customer, account, key, ?_⟩
  unfold buildRequestContext
  rw [hmerchant, hcustomer, haccount, hkey]
  dsimp only [bind, Except.bind]
  cases normalizeCurrency upper supported request.currency <;> rfl

variable (upper supported request) in
/-- An unsupported currency is refused with a `ValidationAppError`. -/
theorem buildRequestContext_of_acceptable
    (h : ∀ key ∈ requiredHeaders, AcceptableHeader headers key) :
    (∃ context normalized,
      buildRequestContext upper supported headers request = .ok (context, normalized) ∧
        Normalized upper supported request context normalized) ∨
      ∃ message, buildRequestContext upper supported headers request =
        .error (.app (.validation message)) := by
  obtain ⟨merchant, customer, account, key, hbuild⟩ :=
    buildRequestContext_eq upper supported request h
  rw [hbuild]
  unfold normalizeCurrency
  cases hcurrency : ensureSupportedCurrency upper request.currency supported with
  | error message => exact .inr ⟨message, rfl⟩
  | ok code =>
    obtain ⟨hcode, hsupported⟩ := ensureSupportedCurrency_eq_ok hcurrency
    exact .inl ⟨_, _, rfl, ⟨merchant, rfl⟩, ⟨customer, rfl⟩, ⟨account, rfl⟩, ⟨key, rfl⟩,
      hcode ▸ rfl, hsupported⟩

/-- With acceptable headers a context is built exactly if the currency is supported. -/
theorem exists_context_iff (h : ∀ key ∈ requiredHeaders, AcceptableHeader headers key) :
    (∃ context normalized,
      buildRequestContext upper supported headers request = .ok (context, normalized)) ↔
      ∃ code, ensureSupportedCurrency upper request.currency supported = .ok code := by
  obtain ⟨merchant, customer, account, key, hbuild⟩ :=
    buildRequestContext_eq upper supported request h
  rw [hbuild]
  unfold normalizeCurrency
  cases ensureSupportedCurrency upper request.currency supported with
  | error message =>
    constructor
    · rintro ⟨_, _, h⟩
      cases h
    · rintro ⟨_, h⟩
      cases h
  | ok code => exact iff_of_true ⟨_, _, rfl⟩ ⟨code, rfl⟩

/-- One header that is not acceptable is enough for the `ValueError`, whatever the others are. -/
theorem buildRequestContext_of_not_acceptable
    (h : ¬ ∀ key ∈ requiredHeaders, AcceptableHeader headers key) :
    buildRequestContext upper supported headers request = .error .valueError := by
  have hread (key : String) : (∃ s, header headers key = .ok s) ∧ AcceptableHeader headers key ∨
      header headers key = .error .valueError := by
    by_cases hkey : AcceptableHeader headers key
    · obtain ⟨id, hid⟩ := header_of_acceptable hkey
      exact .inl ⟨⟨_, hid⟩, hkey⟩
    · exact .inr (header_of_not_acceptable hkey)
  unfold buildRequestContext
  obtain ⟨⟨merchant, hmerchant⟩, hm⟩ | hmerchant := hread "X-Merchant-Id"
  swap
  · rw [hmerchant]
    rfl
  obtain ⟨⟨customer, hcustomer⟩, hc⟩ | hcustomer := hread "X-Customer-Id"
  swap
  · rw [hmerchant, hcustomer]
    rfl
  obtain ⟨⟨account, haccount⟩, ha⟩ | haccount := hread "X-Account-Id"
  swap
  · rw [hmerchant, hcustomer, haccount]
    rfl
  obtain ⟨⟨key, hkey⟩, hk⟩ | hkey := hread "Idempotency-Key"
  swap
  · rw [hmerchant, hcustomer, haccount, hkey]
    rfl
  refine absurd ?_ h
  simp only [requiredHeaders, List.forall_mem_cons]
  exact ⟨hm, hc, ha, hk, List.forall_mem_nil _⟩

/-- A header that has been read is the one that was sent, trimmed. -/
theorem forall_raw_iff {key value : String} (h : header headers key = .ok value)
    {S : String → Prop} : (∀ raw, headers key = .text raw → S (stripText raw)) ↔ S value := by
  unfold header at h
  cases hrequired : requireHeader headers key with
  | error e =>
    rw [hrequired] at h
    cases h
  | ok value' =>
    rw [hrequired] at h
    cases h
    obtain ⟨raw, hraw, rfl, -⟩ := requireHeader_eq_ok.1 hrequired
    refine ⟨fun hall => hall raw hraw, fun hvalue raw' hraw' => ?_⟩
    cases hraw.symm.trans hraw'
    exact hvalue

/-- The texts of a context are the trimmed headers and the normalized currency. -/
theorem forall_mem_texts_iff {context : RequestContext} {normalized : CreatePaymentRequest}
    (h : buildRequestContext upper supported headers request = .ok (context, normalized))
    {traceId : String} {traceparent : Option String} {pc : Pc} {S : String → Prop} :
    (∀ text ∈ (Run.mk context normalized traceId traceparent pc).texts, S text) ↔
      (∀ key ∈ requiredHeaders, ∀ raw, headers key = .text raw → S (stripText raw)) ∧
        S (upper (stripText request.currency)) := by
  have hheaders : ∀ key ∈ requiredHeaders, AcceptableHeader headers key := by
    by_contra hheaders
    cases (buildRequestContext_of_not_acceptable hheaders).symm.trans h
  simp only [requiredHeaders, List.forall_mem_cons] at hheaders
  obtain ⟨hm, hc, ha, hk, -⟩ := hheaders
  obtain ⟨merchant, hmerchant⟩ := header_of_acceptable hm
  obtain ⟨customer, hcustomer⟩ := header_of_acceptable hc
  obtain ⟨account, haccount⟩ := header_of_acceptable ha
  obtain ⟨key, hkey⟩ := header_of_acceptable hk
  unfold buildRequestContext at h
  rw [hmerchant, hcustomer, haccount, hkey] at h
  dsimp only [bind, Except.bind] at h
  unfold normalizeCurrency at h
  cases hcurrency : ensureSupportedCurrency upper request.currency supported with
  | error message =>
    rw [hcurrency] at h
    cases h
  | ok code =>
    rw [hcurrency] at h
    cases h
    obtain ⟨hcode, -⟩ := ensureSupportedCurrency_eq_ok hcurrency
    simp only [Run.texts, requiredHeaders, List.forall_mem_cons, forall_raw_iff hmerchant,
      forall_raw_iff hcustomer, forall_raw_iff haccount, forall_raw_iff hkey, ← hcode, and_assoc,
      List.not_mem_nil, IsEmpty.forall_iff, implies_true, and_true]

/-! ## The call -/

/-- The database takes the text: it has no U+0000. -/
def Storable (text : String) : Prop :=
  Char.ofNat 0 ∉ text.toList

instance (text : String) : Decidable (Storable text) :=
  inferInstanceAs (Decidable (¬ _))

/-- The texts of the headers and the currency in a command are texts that the database takes. -/
def TakesTexts (c : ApiCommand) : Prop :=
  ∀ text ∈ c.texts, Storable text

instance (c : ApiCommand) : Decidable (TakesTexts c) :=
  inferInstanceAs (Decidable (∀ text ∈ c.texts, Storable text))

/-- What the commands of a call are answered: the database finds the rows it is asked for, and
raises an error at a statement with a text that it does not take. Anything may raise otherwise. -/
structure Replies where
  answers : Answers ApiCommand ApiReply
  found : ∀ h c reply, answers h c = some reply → c.Found reply
  refuses : ∀ h c, ¬ TakesTexts c → answers h c = none

/-- An exception escapes on account of the headers or the currency: one that is not reported, or the
error of a statement that has a text of theirs which the database does not take. -/
def Escapes : Ending ApiCommand ApiException PaymentAcceptedResponse → Prop
  | .returned _ => False
  | .raised e => ¬ e.Reported
  | .failed c => ¬ TakesTexts c

namespace Run

variable (cfg : ApiSettings) (r : Run)

/-- A run with texts that the database takes. -/
theorem not_escapes (hr : ∀ text ∈ r.texts, Storable text) (replies : Replies) :
    ¬ Escapes ((r.execute cfg).attempt replies.answers []).ending := by
  have hmeets := (r.contained_execute cfg hr []).attempt replies.found
  intro hescapes
  unfold Attempt.Meets at hmeets
  generalize ((r.execute cfg).attempt replies.answers []).ending = ending at hescapes hmeets
  cases ending with
  | returned response => exact hescapes
  | raised e => exact hescapes (hmeets e rfl)
  | failed c => exact hescapes hmeets

/-! ## A request that comes to its commit -/

/-- A policy that lets the amount pass. -/
def lenientPolicy : LimitsPolicy where
  rail := r.request.method
  minAmount := r.request.amount
  maxAmount := r.request.amount
  dailyLimitAmount := 0
  velocityLimitCount := 1
  velocityWindowSeconds := 1

/-- Redis does not answer, and what the database says is in favour of the payment. -/
def favour : (c : ApiCommand) → ApiReply c
  | .redis _ => none
  | .now => (0 : Int)
  | .newUuid => (1 : Nat)
  | .begin => (0 : Int)
  | .getSnapshot _ _ => none
  | .getByMerchantAndIdempotency _ _ => none
  | .getById customerId => some ⟨customerId, .full, .active, 0⟩
  | .getByRail _ => some r.lenientPolicy
  | .sumOutgoingSince _ _ _ => (⟨-r.request.amount.coeff, r.request.amount.exp⟩ : Decimal)
  | .countOutgoingSince _ _ _ => (0 : Int)
  | .countNearThresholdSince _ _ _ _ _ => (0 : Int)
  | .countFailuresSince _ _ => (0 : Int)
  | .destinationSeen _ _ => true
  | .countInReview => (0 : Int)
  | .commit _ _ _ => true

/-- The same from a database that does not take every text. -/
def favourable : Replies where
  answers _ c := if TakesTexts c then some (r.favour c) else none
  found h c reply heq := by
    split at heq
    · cases heq
      cases c with
      | getById customerId =>
        intro customer hcustomer
        cases hcustomer
        rfl
      | _ => trivial
    · cases heq
  refuses h c hc := if_neg hc

/-- What a part does in such circumstances: its outcome is one of `Q`. -/
abbrev Favoured {α : Type} (Q : Except ApiException α → Prop) (p : ApiProgram α) : Prop :=
  p.Within (fun c reply => TakesTexts c ∧ reply = r.favour c) (fun _ => True) Q

section Favoured

variable {r} {α β : Type} {Q : Except ApiException β → Prop}

theorem favoured_issue_bind {c : ApiCommand} {f : ApiReply c → ApiProgram β}
    (hf : TakesTexts c → r.Favoured Q (f (r.favour c))) :
    r.Favoured Q (ApiProgram.issue c >>= f) :=
  Program.Within.bind (Q := fun o => TakesTexts c ∧ o = .ok (r.favour c))
    (Program.within_issue trivial fun _ ⟨htakes, hreply⟩ => ⟨htakes, congrArg _ hreply⟩)
    (fun _ ⟨htakes, heq⟩ => by
      cases heq
      exact hf htakes)
    fun _ ⟨_, heq⟩ => by cases heq

theorem Favoured.bind {p : ApiProgram α} {f : α → ApiProgram β} {a : α}
    (hp : r.Favoured (· = .ok a) p) (hf : r.Favoured Q (f a)) : r.Favoured Q (p >>= f) :=
  Program.Within.bind hp
    (fun _ heq => by
      cases heq
      exact hf)
    fun _ heq => by cases heq

/-- A part that returns, whatever it is. -/
theorem Favoured.bind_of_returns {p : ApiProgram α} {f : α → ApiProgram β}
    (hp : r.Favoured (fun o => ∃ a, o = .ok a) p) (hf : ∀ a, r.Favoured Q (f a)) :
    r.Favoured Q (p >>= f) :=
  Program.Within.bind hp (fun a _ => hf a) fun _ ⟨_, heq⟩ => by cases heq

theorem favoured_issue_eq {c : ApiCommand} :
    r.Favoured (· = .ok (r.favour c)) (ApiProgram.issue c) :=
  Program.within_issue trivial fun _ ⟨_, hreply⟩ => congrArg _ hreply

theorem favoured_redis {command : Redis.Command StoredText} :
    r.Favoured (· = .error .redisError) (ApiProgram.redis command) :=
  favoured_issue_bind (c := .redis command) fun _ => Program.within_throw rfl

theorem favoured_redis_bind {command : Redis.Command StoredText}
    {f : Redis.Reply command → ApiProgram β} :
    r.Favoured (· = .error .redisError) (ApiProgram.redis command >>= f) :=
  Program.Within.bind favoured_redis (fun _ heq => by cases heq) fun _ heq => by
    cases heq
    rfl

theorem favoured_issue {c : ApiCommand} :
    r.Favoured (fun o => ∃ reply, o = .ok reply) (ApiProgram.issue c) :=
  Program.within_issue trivial fun reply _ => ⟨reply, rfl⟩

/-- The error of Redis is caught. -/
theorem Favoured.tryCatch {p : ApiProgram β} {handler : ApiException → ApiProgram β}
    (hp : r.Favoured (· = .error .redisError) p) (hh : r.Favoured Q (handler .redisError)) :
    r.Favoured Q (MonadExcept.tryCatch p handler) :=
  Program.Within.tryCatch hp (fun _ heq => by cases heq) fun _ heq => by
    cases heq
    exact hh

theorem favoured_ite {c : Prop} [Decidable c] {p q : ApiProgram β} (hp : r.Favoured Q p)
    (hq : r.Favoured Q q) : r.Favoured Q (if c then p else q) := by
  split
  · exact hp
  · exact hq

theorem favoured_if_neg {c : Prop} [Decidable c] {p q : ApiProgram β} (hc : ¬ c)
    (hq : r.Favoured Q q) : r.Favoured Q (if c then p else q) := by
  rw [if_neg hc]
  exact hq

end Favoured

/-- The total that the database has for the customer makes up for the amount. -/
theorem total_coeff (d : Decimal) : ((⟨-d.coeff, d.exp⟩ : Decimal) + d).coeff = 0 := by
  change (Decimal.fix _).coeff = 0
  have hzero : (⟨-d.coeff, d.exp⟩ : Decimal).scaled (min d.exp d.exp) +
      d.scaled (min d.exp d.exp) = 0 := by
    unfold Decimal.scaled
    dsimp only
    rw [Int.neg_mul, Int.add_left_neg]
  rw [show (⟨-d.coeff, d.exp⟩ : Decimal).exp = d.exp from rfl, hzero]
  unfold Decimal.fix
  split
  · rfl
  · have hpos : (0 : Int) < 10 ^ Decimal.dropped ⟨0, min d.exp d.exp⟩ := Int.pow_pos (by decide)
    unfold Decimal.divHalfEven
    rw [Int.zero_ediv, Int.zero_emod, if_pos (by omega)]

theorem not_lt_self (d : Decimal) : ¬ d < d :=
  Int.lt_irrefl _

theorem not_zero_lt {d : Decimal} (h : d.coeff = 0) : ¬ 0 < d := by
  intro hlt
  change Decimal.scaled 0 _ < d.scaled _ at hlt
  unfold Decimal.scaled at hlt
  rw [h, Int.zero_mul] at hlt
  exact absurd hlt (by rw [show (0 : Decimal).coeff = 0 from rfl, Int.zero_mul]; decide)

/-- The limits let the amount pass. -/
theorem favoured_enforceLimits : r.Favoured (· = .ok ⟨r.lenientPolicy, 1⟩)
    (LimitsService.enforce cfg.limitsPolicyCacheTtlSeconds r.context.customerId r.request.method
      r.request.amount) := by
  have hpolicy : r.Favoured (· = .ok r.lenientPolicy)
      (LimitsService.getPolicy cfg.limitsPolicyCacheTtlSeconds r.request.method) := by
    refine Favoured.bind (a := none)
      (favoured_redis_bind.tryCatch (Program.within_pure rfl)) ?_
    refine favoured_issue_bind (c := .getByRail r.request.method) fun _ => ?_
    refine Favoured.bind (a := ()) (favoured_redis.tryCatch (Program.within_pure rfl)) ?_
    exact Program.within_pure rfl
  have hamount : r.Favoured (· = .ok ())
      (LimitsService.enforceTransactionAmount r.lenientPolicy r.request.amount) :=
    favoured_if_neg (not_lt_self _) (favoured_if_neg (not_lt_self _) (Program.within_pure rfl))
  have hdaily : r.Favoured (· = .ok ()) (LimitsService.enforceDailyLimit r.context.customerId
      r.request.method r.request.amount r.lenientPolicy) := by
    refine favoured_issue_bind (c := .now) fun _ => ?_
    refine Favoured.tryCatch (Program.Within.bind favoured_redis_bind (fun _ heq => by cases heq)
      fun _ heq => by
        cases heq
        rfl) ?_
    refine favoured_issue_bind (c := .now) fun _ => ?_
    refine favoured_issue_bind (c := .sumOutgoingSince r.context.customerId _ _) fun _ => ?_
    exact favoured_if_neg (not_zero_lt (total_coeff _)) (Program.within_pure rfl)
  have hvelocity : r.Favoured (· = .ok 1) (LimitsService.enforceVelocityLimit r.context.customerId
      r.request.method r.lenientPolicy) := by
    refine favoured_issue_bind (c := .now) fun _ => Favoured.tryCatch favoured_redis_bind ?_
    refine favoured_issue_bind (c := .countOutgoingSince r.context.customerId _ _) fun _ => ?_
    exact favoured_if_neg (show ¬ (1 : Int) ≤ 0 by decide) (Program.within_pure rfl)
  exact hpolicy.bind (hamount.bind (hdaily.bind (hvelocity.bind (Program.within_pure rfl))))

theorem favoured_enforceRate : r.Favoured (· = .ok ())
    (RateLimiterService.enforce cfg r.context.merchantId r.context.customerId
      r.context.accountId) := by
  have hallow (dimension : RateLimitDimension) (value : String) (bucket limit : Int) :
      r.Favoured (· = .ok true) (RateLimiterService.allow cfg dimension value bucket limit) :=
    favoured_redis_bind.tryCatch (Program.within_pure rfl)
  have hchecks (bucket : Int) (checks : List (RateLimitDimension × String × Int)) :
      r.Favoured (· = .ok ()) (RateLimiterService.enforceChecks cfg bucket checks) := by
    induction checks with
    | nil => exact Program.within_pure rfl
    | cons check checks ih =>
      exact Favoured.bind (hallow _ _ bucket _) (favoured_if_neg (by decide) ih)
  exact favoured_issue_bind (c := .now) fun _ => hchecks _ _

/-- Risk and AML come to a decision. -/
theorem favoured_evaluateControls (customer : Customer) :
    r.Favoured (fun o => ∃ decision, o = .ok decision)
      (r.evaluateControls cfg customer ⟨r.lenientPolicy, 1⟩) := by
  refine Favoured.bind_of_returns ?_ fun risk => Favoured.bind_of_returns ?_ fun aml =>
    Program.within_pure ⟨_, rfl⟩
  · refine favoured_issue_bind (c := .now) fun _ => ?_
    refine favoured_issue_bind (c := .countFailuresSince customer.customerId _) fun _ => ?_
    refine Favoured.bind_of_returns ?_ fun seen => Program.within_pure ⟨_, rfl⟩
    unfold ApiProgram.destinationSeen
    split
    · exact Program.within_pure ⟨_, rfl⟩
    · exact Program.within_pure ⟨_, rfl⟩
    · exact favoured_issue
  · unfold AmlRuleEngine.evaluate
    split
    · exact Program.within_pure ⟨_, rfl⟩
    have htotal : r.Favoured (· = .ok (.finite ⟨-r.request.amount.coeff, r.request.amount.exp⟩))
        (AmlRuleEngine.totalOutgoingRecent cfg r.context.customerId r.request.method) := by
      refine favoured_issue_bind (c := .now) fun _ => Favoured.bind (a := none) ?_ ?_
      · exact Favoured.tryCatch favoured_redis_bind (Program.within_pure rfl)
      · refine favoured_issue_bind (c := .now) fun _ => ?_
        exact favoured_issue_bind (c := .sumOutgoingSince r.context.customerId _ _) fun _ =>
          Program.within_pure rfl
    refine htotal.bind ?_
    have hadd : DecimalValue.add (.finite ⟨-r.request.amount.coeff, r.request.amount.exp⟩)
        (.finite r.request.amount) =
          some (.finite (⟨-r.request.amount.coeff, r.request.amount.exp⟩ + r.request.amount)) :=
      if_neg fun hover => hover.1 (total_coeff _)
    rw [hadd]
    refine Favoured.bind (Program.within_pure rfl) (Favoured.bind (Program.within_pure rfl) ?_)
    split
    · exact Program.within_pure ⟨_, rfl⟩
    · refine Favoured.bind (a := 0) ?_ ?_
      · refine favoured_issue_bind (c := .now) fun _ => Favoured.bind (a := none) ?_ ?_
        · exact Favoured.tryCatch favoured_redis_bind (Program.within_pure rfl)
        · refine favoured_issue_bind (c := .now) fun _ => ?_
          exact favoured_issue_eq (c := .countNearThresholdSince r.context.customerId _ _ _ _)
      · exact favoured_ite (Program.within_pure ⟨_, rfl⟩) (Program.within_pure ⟨_, rfl⟩)

/-- A run with a text that the database does not take comes to no end of its own. -/
theorem favoured_execute (hr : ¬ ∀ text ∈ r.texts, Storable text) :
    r.Favoured (fun _ => False) (r.execute cfg) := by
  refine favoured_issue_bind (c := .begin) fun _ => ?_
  refine Favoured.bind (a := none) ?_ ?_
  · exact favoured_issue_bind
      (c := .getSnapshot r.context.merchantId r.context.idempotencyKey) fun _ =>
        Program.within_pure rfl
  refine Favoured.bind (a := true) (favoured_redis.tryCatch (Program.within_pure rfl)) ?_
  refine favoured_issue_bind (c := .getById r.context.customerId) fun _ => ?_
  change r.Favoured (fun _ => False) (do
    let evaluation ← r.runPreChecks cfg ⟨r.context.customerId, .full, .active, 0⟩
    let decision ← r.evaluateControls cfg ⟨r.context.customerId, .full, .active, 0⟩ evaluation
    r.persistAndObserve cfg (0 : Int) decision)
  refine Favoured.bind (a := ⟨r.lenientPolicy, 1⟩) ?_ ?_
  · refine Favoured.bind (a := ()) ?_ ((r.favoured_enforceLimits cfg).bind
      ((r.favoured_enforceRate cfg).bind (Program.within_pure rfl)))
    cases r.request.method <;> exact Program.within_pure rfl
  refine Favoured.bind_of_returns (r.favoured_evaluateControls cfg _) fun decision => ?_
  refine favoured_issue_bind (c := .newUuid) fun _ => ?_
  refine favoured_issue_bind (c := .newUuid) fun _ => ?_
  refine favoured_issue_bind (c := .now) fun _ => ?_
  refine favoured_issue_bind (c := .commit _ _ _) fun htakes => absurd (fun text htext => ?_) hr
  -- the commit has all texts of the run among its values
  exact htakes text
    (List.mem_append_left [r.context.merchantId, r.context.idempotencyKey] htext)

/-- In the end the error of the database escapes. -/
theorem escapes_favourable (hr : ¬ ∀ text ∈ r.texts, Storable text) :
    Escapes ((r.execute cfg).attempt r.favourable.answers []).ending := by
  have hadmits (h : Program.History ApiCommand ApiReply) (c : ApiCommand) (reply : ApiReply c)
      (hreply : r.favourable.answers h c = some reply) : TakesTexts c ∧ reply = r.favour c := by
    unfold favourable at hreply
    dsimp only at hreply
    split at hreply
    · next htakes => exact ⟨htakes, (Option.some.inj hreply).symm⟩
    · cases hreply
  have hmeets := (r.favoured_execute cfg hr []).attempt hadmits
  unfold Attempt.Meets at hmeets
  cases hattempt : (r.execute cfg).attempt r.favourable.answers [] with
  | mk h ending =>
    rw [hattempt] at hmeets
    cases ending with
    | returned response => exact hmeets.elim
    | raised e => exact hmeets.elim
    | failed c =>
      intro htakes
      have hnone := (Program.attempt_eq_failed_iff.1 hattempt).2
      exact absurd hnone (by simp [favourable, htakes])

end Run

namespace Call

variable (upper : String → String) (supported : List String) (call : Call)

/-- Bad input is reported as a validation error: the context is built and normalized or a
`ValidationAppError` raised, by `execute` before its first command, and on account of the headers or
the currency nothing else escapes a run of `execute`. -/
structure ReportsBadInput : Prop where
  context : (∃ context normalized,
      buildRequestContext upper supported call.headers call.request = .ok (context, normalized) ∧
        Normalized upper supported call.request context normalized) ∨
    ∃ message, buildRequestContext upper supported call.headers call.request =
        .error (.app (.validation message)) ∧
      ∀ cfg (replies : Replies),
        (call.execute upper supported cfg).attempt replies.answers [] =
          ⟨[], .raised (.app (.validation message))⟩
  contained : ∀ cfg (replies : Replies),
    ¬ Escapes ((call.execute upper supported cfg).attempt replies.answers []).ending

/-- The database takes what an accepted call brings with it. -/
def BringsStorable : Prop :=
  (∃ code, ensureSupportedCurrency upper call.request.currency supported = .ok code) →
    (∀ key ∈ requiredHeaders, ∀ raw, call.headers key = .text raw → Storable (stripText raw)) ∧
      Storable (upper (stripText call.request.currency))

variable {upper supported call} in
/-- What is executed with a context. -/
theorem execute_of_context {cfg : ApiSettings} {context : RequestContext}
    {normalized : CreatePaymentRequest} (h : buildRequestContext upper supported call.headers
      call.request = .ok (context, normalized)) :
    call.execute upper supported cfg =
      (Run.mk context normalized call.traceId call.traceparent .start).execute cfg := by
  unfold execute start
  rw [h]
  rfl

/-- Bad input is reported exactly if every header is a `str`, not blank and, trimmed, of at most 128
characters, and no text of an accepted call has a U+0000 in it. -/
theorem bad_input_reported_iff :
    call.ReportsBadInput upper supported ↔
      (∀ key ∈ requiredHeaders, AcceptableHeader call.headers key) ∧
        call.BringsStorable upper supported := by
  constructor
  · rintro ⟨hcontext, hcontained⟩
    have hheaders : ∀ key ∈ requiredHeaders, AcceptableHeader call.headers key := by
      by_contra hheaders
      rw [buildRequestContext_of_not_acceptable hheaders] at hcontext
      obtain ⟨_, _, h, -⟩ | ⟨_, h, -⟩ := hcontext
      · cases h
      · cases h
    refine ⟨hheaders, fun hcode => ?_⟩
    obtain ⟨context, normalized, hbuild⟩ := (exists_context_iff hheaders).2 hcode
    let r : Run := ⟨context, normalized, call.traceId, call.traceparent, .start⟩
    have hr : ∀ text ∈ r.texts, Storable text := by
      by_contra hr
      have hnot := hcontained .default r.favourable
      rw [execute_of_context hbuild] at hnot
      exact hnot (r.escapes_favourable .default hr)
    exact (forall_mem_texts_iff hbuild).1 hr
  · rintro ⟨hheaders, hstorable⟩
    obtain ⟨context, normalized, hbuild, hnormalized⟩ | ⟨message, hbuild⟩ :=
      buildRequestContext_of_acceptable upper supported call.request hheaders
    · refine ⟨.inl ⟨context, normalized, hbuild, hnormalized⟩, fun cfg replies => ?_⟩
      have hcode := (exists_context_iff hheaders).1 ⟨context, normalized, hbuild⟩
      rw [execute_of_context hbuild]
      -- a context is built of a supported currency
      exact Run.not_escapes cfg _ ((forall_mem_texts_iff hbuild).2 (hstorable hcode)) replies
    · have hattempt (cfg : ApiSettings) (replies : Replies) :
          (call.execute upper supported cfg).attempt replies.answers [] =
            ⟨[], .raised (.app (.validation message))⟩ := by
        unfold execute start
        rw [hbuild]
        rfl
      refine ⟨.inr ⟨message, hbuild, hattempt⟩, fun cfg replies => ?_⟩
      rw [hattempt]
      exact fun hescapes => hescapes trivial

/-- A payment in a supported currency whose idempotency key is blank. -/
def blankKey : Call where
  headers key := .text (if key = "Idempotency-Key" then "  " else "m-1")
  request := ⟨⟨10, 0⟩, "EUR", .pix, none⟩
  traceId := "t"
  traceparent := none

/-- A blank key is answered with a `ValueError`. -/
theorem blank_key_escapes :
    ¬ ∀ (upper : String → String) (supported : List String) (call : Call),
      call.ReportsBadInput upper supported := by
  intro h
  have hblank : ¬ ∀ key ∈ requiredHeaders, AcceptableHeader blankKey.headers key := by
    intro hheaders
    obtain ⟨raw, hraw, hne, -⟩ := hheaders "Idempotency-Key" (by decide)
    cases hraw
    exact hne (by decide)
  obtain ⟨_, _, hbuild, -⟩ | ⟨_, hbuild, -⟩ := (h id ["EUR"] blankKey).context
  · cases (buildRequestContext_of_not_acceptable hblank).symm.trans hbuild
  · cases (buildRequestContext_of_not_acceptable hblank).symm.trans hbuild

end Call

end Create

end PaymentsLab
