import PaymentsLab.Api.BadInput
import PaymentsLab.Contracts.Schema
import PaymentsLab.System.Integrity

/-!
# The rows fit their columns

Every row of a run of the system against the widths of the tables. The rows of payments and of
snapshots always fit, under both descriptions of the tables, and so do the outbox rows under the
ORM's; in the tables of the migration there is no room for the event of a payment that goes to
review (`rows_fit`).
-/

namespace PaymentsLab

open Foundation

/-! ## Rows that are updated -/

theorem Payment.stored_identity (row : Payment) {column : PaymentColumn}
    (hstatus : column ≠ .status) (herror : column ≠ .lastError) :
    row.identity.stored column = row.stored column := by
  cases column with
  | status => exact absurd rfl hstatus
  | lastError => exact absurd rfl herror
  | _ => rfl

/-- An `UPDATE` leaves the texts of a payment alone, but for its last error. -/
theorem Payment.Fits.of_identity {row row' : Payment} (h : row.Fits ormMetadata)
    (hidentity : row'.identity = row.identity)
    (herror : ∀ text ∈ row'.lastError, text.length ≤ 512) : row'.Fits ormMetadata := by
  intro column text htext
  by_cases hstatus : column = .status
  · subst hstatus
    cases htext
    cases row'.status <;> decide
  by_cases hlast : column = .lastError
  · subst hlast
    exact herror text htext
  refine h column text ?_
  rw [← row.stored_identity hstatus hlast, ← hidentity, row'.stored_identity hstatus hlast]
  exact htext

/-- Every version of every row fits its columns. -/
structure World.Fits (schema : Schema) (w : World) : Prop where
  payments : w.payments.All (Payment.Fits schema)
  outbox : w.outbox.All (OutboxEvent.Fits schema)
  idempotency : ∀ record ∈ w.idempotency, record.Fits schema

/-- Rows that fit the columns of the ORM fit those of the migration too, exactly if there is no
event of a payment that goes to review. -/
theorem World.Fits.upgrade_iff {w : World} (h : w.Fits ormMetadata) :
    w.Fits upgrade ↔ w.outbox.All fun row => row.eventType ≠ .paymentReviewRequired := by
  constructor
  · intro hupgrade
    exact hupgrade.outbox.mono fun row => OutboxEvent.fits_upgrade_iff.1
  · intro hevents
    exact ⟨h.payments.mono fun row => Payment.fits_upgrade_iff.2,
      hevents.mono fun row => OutboxEvent.fits_upgrade_iff.2,
      fun record hrecord => IdempotencyRecord.fits_upgrade_iff.2 (h.idempotency record hrecord)⟩

/-- The rows fit the columns of the ORM, and a review event is there only if `reviews`. -/
structure World.Within (reviews : Prop) (w : World) : Prop where
  payments : w.payments.All (Payment.Fits ormMetadata)
  outbox : w.outbox.All fun row => row.eventType = .paymentReviewRequired → reviews
  idempotency : ∀ record ∈ w.idempotency, record.Fits ormMetadata

namespace World.Within

variable {reviews : Prop} {w w' : World}

theorem empty : World.empty.Within reviews :=
  ⟨.empty, .empty, fun _ h => by cases h⟩

theorem fits_ormMetadata (h : w.Within reviews) : w.Fits ormMetadata :=
  ⟨h.payments, h.outbox.mono fun row _ => row.fits_ormMetadata, h.idempotency⟩

theorem fits_upgrade (h : w.Within False) : w.Fits upgrade :=
  h.fits_ormMetadata.upgrade_iff.2 h.outbox

theorem commit (h : w.Within reviews) (t : Session) : (w.commit t).Within reviews :=
  ⟨h.payments.commit t, h.outbox.commit t, h.idempotency⟩

theorem rollback (h : w.Within reviews) (t : Session) : (w.rollback t).Within reviews :=
  ⟨h.payments.rollback t, h.outbox.rollback t, h.idempotency⟩

/-- Payment rows before and after an `UPDATE`. -/
theorem putPayment (h : w.Within reviews) {t : Session} {k : UUID} {row row' : Payment}
    (hrow : w.payments.view t k = some row) (hidentity : row'.identity = row.identity)
    (herror : ∀ text ∈ row'.lastError, text.length ≤ 512) :
    World.Within reviews { w with payments := w.payments.put t k row' } :=
  ⟨h.payments.put ((h.payments.view hrow).of_identity hidentity herror), h.outbox, h.idempotency⟩

theorem addEvent (h : w.Within reviews) {t : Session} {event : OutboxEvent}
    (hevent : event.eventType = .paymentReviewRequired → reviews)
    (hadd : OutboxRepository.addEvent w t event = some w') : w'.Within reviews := by
  obtain ⟨-, -, -, rfl⟩ := OutboxRepository.addEvent_eq_some hadd
  exact ⟨h.payments, h.outbox.put hevent, h.idempotency⟩

/-- A mark leaves the type of the event alone. -/
theorem markEvent (h : w.Within reviews) {t : Session} {event : OutboxEvent} {m : EventMark}
    {now : Instant} {draw : Int} (hmark : Processor.markEvent w t event m now draw = some w') :
    w'.Within reviews := by
  unfold Processor.markEvent OutboxRepository.mark OutboxRepository.run at hmark
  split at hmark
  · obtain ⟨⟨outbox, b⟩, hupdate, rfl⟩ := Option.map_eq_some_iff.1 hmark
    refine ⟨h.payments, h.outbox.update (fun row hrow => ?_) hupdate, h.idempotency⟩
    rw [OutboxRepository.eventType_setMark]
    exact hrow
  · cases hmark

end World.Within

/-! ## The worker -/

namespace Processor

/-- The `last_error` a finalization writes. -/
def Finalization.lastError : Finalization → Option String
  | .confirm _ _ => none
  | .fail _ _ reason => some reason

/-- The message of a `ProcessorError` fits `last_error`. -/
def MessageFits (outcome : Except CallError ProviderResponse) : Prop :=
  ∀ error processorError, outcome = .error error → error.asProcessorError = some processorError →
    processorError.message.length ≤ 512

/-- Every reason of a failure fits `last_error`. -/
theorem lastError_settlement {cfg : Settings} {event : OutboxEvent} {payment : Payment}
    {outcome : Except CallError ProviderResponse} {f : Finalization} (h : MessageFits outcome)
    (hf : (settlement cfg event payment outcome).finalization = some f) :
    ∀ text ∈ f.lastError, text.length ≤ 512 := by
  intro text htext
  unfold settlement at hf
  split at hf
  · split at hf
    · cases hf
      cases htext
    · cases hf
      cases htext
      decide
  next error =>
    split at hf
    next processorError herror =>
      unfold handleProcessorError at hf
      dsimp only at hf
      split at hf
      · cases hf
        cases htext
        exact h error processorError rfl herror
      · cases hf
    · cases hf
      cases htext
      decide

/-- The errors that leave `CallProviderCommand.execute`. -/
theorem CallProviderCommand.execute_error {breakers : String → CircuitBreaker}
    {method : PaymentMethod} {started ended : Instant} {http : Nat → HttpOutcome}
    {error : CallError}
    (h : (CallProviderCommand.execute breakers method started ended http).outcome = .error error) :
    error.asProcessorError = none ∨ ∃ n, ProviderClientAdapter.confirm (http n) = .error error := by
  unfold CallProviderCommand.execute at h
  dsimp only at h
  split at h
  · cases h
    exact .inl rfl
  · split at h
    · cases h
    next hexit =>
      cases h
      exact .inr (retryAsync_error _ _ _ (.inl hexit))
    · cases h
      exact .inl rfl
    next hexit =>
      cases h
      exact .inr (retryAsync_error _ _ _ (.inr hexit))
    · cases h
      exact .inl rfl

/-- The status codes of HTTP have three digits. -/
def ThreeDigits (http : Nat → HttpOutcome) : Prop :=
  ∀ n statusCode body, http n = .response statusCode body → statusCode < 1000

theorem messageFits_execute {breakers : String → CircuitBreaker} {method : PaymentMethod}
    {started ended : Instant} {http : Nat → HttpOutcome} (hhttp : ThreeDigits http) :
    MessageFits (CallProviderCommand.execute breakers method started ended http).outcome := by
  intro error processorError herror hprocessor
  obtain hnone | ⟨n, hn⟩ := CallProviderCommand.execute_error herror
  · cases hnone.symm.trans hprocessor
  · unfold ProviderClientAdapter.confirm at hn
    split at hn
    · cases hn
      cases hprocessor
      decide
    · cases hn
      cases hprocessor
    next statusCode body hresponse =>
      split at hn
      · cases hn
        cases hprocessor
        have hcode := hhttp n statusCode body hresponse
        have hdigits : (toString statusCode).length ≤ 3 := by
          have hlist : (toString statusCode).length = (Nat.toDigits 10 statusCode).length :=
            String.length_ofList
          rw [hlist]
          exact (Nat.length_toDigits_le_iff (by decide) (by decide)).2 hcode
        have hprefix : (toString "Provider returned ").length = 18 := rfl
        rw [String.length_append, hprefix]
        omega
      · split at hn
        · cases hn
          cases hprocessor
        · split at hn
          · cases hn
          · cases hn
            cases hprocessor

/-- The call of the provider that the worker has made, if it is to be settled next. -/
def Worker.Fits (l : Worker) : Prop :=
  ∀ event payment outcome, l.pc = .answered event payment outcome → MessageFits outcome

theorem Worker.Fits.of_ne {l : Worker}
    (h : ∀ event payment outcome, l.pc ≠ .answered event payment outcome) : l.Fits :=
  fun event payment outcome pc => absurd pc (h event payment outcome)

/-- A finalization writes rows that fit. -/
theorem Finalization.run_within {reviews : Prop} {w w' : World} {t : Session} {payment : Payment}
    {eventId : UUID} {now : Instant} {f : Finalization} (h : w.Within reviews)
    (hf : ∀ text ∈ f.lastError, text.length ≤ 512)
    (hrun : f.run w t payment eventId now = some w') : w'.Within reviews := by
  unfold Finalization.run at hrun
  obtain ⟨⟨w₁, b⟩, hupdate, hadd⟩ := Option.bind_eq_some_iff.1 hrun
  have hfirst : w₁.Within reviews := by
    cases f with
    | confirm provider providerReference =>
      rcases PaymentRepository.run_update hupdate with ⟨-, -, row, hrow, -, rfl⟩ | ⟨-, rfl, -⟩
      · exact h.putPayment hrow rfl fun text htext => by cases htext
      · exact h
    | fail provider category reason =>
      rcases PaymentRepository.run_update hupdate with ⟨-, -, row, hrow, -, rfl⟩ | ⟨-, rfl, -⟩
      · exact h.putPayment hrow rfl hf
      · exact h
  refine hfirst.addEvent (fun hreview => ?_) hadd
  cases f <;> cases hreview

/-- Every step of a worker writes rows that fit. -/
theorem Next.within {cfg : Settings} {reviews : Prop} {t : Session} {w w' : World} {l l' : Worker}
    {a : WorkerAction} (hn : Next cfg t w l a w' l') (hw : w.Within reviews) (hl : l.Fits)
    (hhttp : ∀ started ended http, a = .callProvider started ended http → ThreeDigits http) :
    w'.Within reviews ∧ l'.Fits := by
  cases hn with
  | fetched | found | notFound | missed | unfinalized | fetchedFanout | ended =>
    exact ⟨hw, .of_ne (by simp)⟩
  | markedMissing pc mark | markedLost pc mark | marked pc mark | markedFanout pc mark =>
    exact ⟨hw.markEvent mark, .of_ne (by simp)⟩
  | locked pc free view =>
    exact ⟨hw.putPayment view rfl fun text htext => (hw.payments.view view) .lastError text htext,
      .of_ne (by simp)⟩
  | called pc call =>
    refine ⟨⟨hw.payments, hw.outbox, hw.idempotency⟩, fun event payment outcome pc' => ?_⟩
    cases pc'
    rw [call]
    exact messageFits_execute (hhttp _ _ _ rfl)
  | finalized pc final run =>
    exact ⟨Finalization.run_within hw (lastError_settlement (hl _ _ _ pc) final) run,
      .of_ne (by simp)⟩
  | published =>
    exact ⟨⟨hw.payments, hw.outbox, hw.idempotency⟩, .of_ne (by simp)⟩
  | committed | committedFanout => exact ⟨hw.commit t, .of_ne (by simp)⟩
  | crashed => exact ⟨hw.rollback t, .of_ne (by simp)⟩

end Processor

/-! ## The review calls -/

theorem Review.Decision.lastError_fits (d : Review.Decision) :
    ∀ text ∈ d.lastError, text.length ≤ 512 := by
  intro text htext
  cases d with
  | approve => cases htext
  | reject =>
    cases htext
    decide

/-- Every step of a review call writes rows that fit. -/
theorem Review.Next.within {reviews : Prop} {t : Session} {w w' : World} {c c' : Review.Call}
    {a : Review.Action} (hn : Review.Next t w c a w' c') (hw : w.Within reviews) :
    w'.Within reviews := by
  induction hn with
  | updated pc free view =>
    exact hw.putPayment view (Review.Decision.identity_set _ _) (Review.Decision.lastError_fits _)
  | @approved w c payment eventId now pc decision new free =>
    have hput : World.Within reviews { w with
        outbox := w.outbox.put t eventId (c.requestedEvent payment eventId now) } :=
      ⟨hw.payments, hw.outbox.put fun hreview => (by cases hreview), hw.idempotency⟩
    exact hput.commit t
  | rejected => exact hw.commit t
  | decided load update commit ihLoad ihUpdate ihCommit => exact ihCommit (ihUpdate (ihLoad hw))
  | crashed => exact hw.rollback t
  | loaded | refused | unmatched | refusedAtOnce | recorded => exact hw

/-! ## The creations -/

namespace Create

/-- The texts of a run fit their columns. -/
structure Short (context : RequestContext) (request : CreatePaymentRequest) : Prop where
  merchantId : context.merchantId.length ≤ 128
  customerId : context.customerId.length ≤ 128
  accountId : context.accountId.length ≤ 128
  idempotencyKey : context.idempotencyKey.length ≤ 128
  currency : request.currency.length ≤ 3
  destination : ∀ text ∈ request.destination, text.length ≤ 128

theorem Short.fits_paymentRow {r : Run} (h : Short r.context r.request) (decision : ControlDecision)
    (response : PaymentAcceptedResponse) (now : Instant) :
    (r.paymentRow decision response now).inserted.Fits ormMetadata := by
  intro column text htext
  cases column with
  | merchantId =>
    cases htext
    exact h.merchantId
  | customerId =>
    cases htext
    exact h.customerId
  | accountId =>
    cases htext
    exact h.accountId
  | currency =>
    cases htext
    exact h.currency
  | method =>
    cases htext
    simp only [Payment.inserted, Run.paymentRow]
    cases r.request.method <;> decide
  | destination => exact h.destination text htext
  | status =>
    cases htext
    simp only [Payment.inserted, Run.paymentRow]
    cases response.status <;> decide
  | idempotencyKey =>
    cases htext
    exact h.idempotencyKey
  | riskDecision =>
    cases htext
    simp only [Payment.inserted, Run.paymentRow]
    cases decision.riskDecision <;> decide
  | amlDecision =>
    cases htext
    simp only [Payment.inserted, Run.paymentRow]
    cases decision.amlDecision <;> decide
  | lastError => cases htext

theorem Short.fits_idempotencyRecord {r : Run} (h : Short r.context r.request)
    (response : PaymentAcceptedResponse) : (r.idempotencyRecord response).Fits ormMetadata := by
  intro column text htext
  cases column with
  | merchantId =>
    cases htext
    exact h.merchantId
  | idempotencyKey =>
    cases htext
    exact h.idempotencyKey

/-- The payment about to be inserted goes to review. -/
def Pc.ForReview : Pc → Prop
  | .persist _ response => response.status = .inReview
  | _ => False

instance : (pc : Pc) → Decidable pc.ForReview
  | .persist _ response => inferInstanceAs (Decidable (response.status = .inReview))
  | .start | .gate | .poll _ | .pollPayment _ | .controls | .conflict | .conflictPayment
  | .committed _ | .returned _ | .raised _ | .crashed => inferInstanceAs (Decidable False)

/-- The event of a creation asks for a review only if the payment goes to review. -/
theorem Run.status_of_outboxEvent {r : Run} {response : PaymentAcceptedResponse} {eventId : UUID}
    {now : Instant} {event : OutboxEvent} (h : r.outboxEvent response eventId now = some event)
    (htype : event.eventType = .paymentReviewRequired) : response.status = .inReview := by
  unfold Run.outboxEvent at h
  split at h
  · cases h
    cases htype
  next hstatus => exact hstatus
  · cases h

/-- Every step of a creation writes rows that fit. -/
theorem Next.within {reviews : Prop} {t : Session} {w w' : World} {r r' : Run} {a : Action}
    (hn : Next t w r a w' r') (hw : w.Within reviews) (hr : Short r.context r.request)
    (hreview : ∀ eventId now, a = .persist eventId now → r.pc.ForReview → reviews) :
    w'.Within reviews ∧ Short r'.context r'.request := by
  cases hn with
  | replayed | unknown | polled | unresolved | answered | repolled | gaveUp | refused
  | conflicted | observed | crashed | controlled => exact ⟨hw, hr⟩
  | @acquired reply =>
    obtain ⟨gate, hgate⟩ := r.acquire_fst w reply
    rw [hgate]
    exact ⟨⟨hw.payments, hw.outbox, hw.idempotency⟩, hr⟩
  | @persisted decision response eventId now w₁ pc free rows =>
    obtain ⟨-, -, -, rfl⟩ := Run.insertRows_eq_some rows
    refine ⟨World.Within.commit ⟨hw.payments.put (hr.fits_paymentRow decision response now), ?_,
      fun record hrecord => ?_⟩ t, hr⟩
    · cases hevent : r.outboxEvent response eventId now with
      | none => exact hw.outbox
      | some event =>
        refine hw.outbox.put fun htype => hreview eventId now rfl ?_
        rw [pc]
        exact Run.status_of_outboxEvent hevent htype
    · rcases List.mem_append.1 hrecord with hold | hnew
      · exact hw.idempotency record hold
      · cases List.mem_singleton.1 hnew
        exact hr.fits_idempotencyRecord response

end Create

/-! ## Accepted requests -/

/-- What the validation of `CreatePaymentRequest` lets through; `upper` is `str.upper`. -/
structure CreatePaymentRequest.Validated (upper : String → String)
    (request : CreatePaymentRequest) : Prop where
  amount : 0 < request.amount
  currency : ∃ raw : String, raw.length = 3 ∧ request.currency = upper raw
  destination : ∀ text ∈ request.destination, text.length ≤ 128

/-- The run of a validated request with accepted headers. -/
def Create.Run.Accepted (r : Run) : Prop :=
  ∃ (upper : String → String) (supported : List String) (call : Call),
    call.request.Validated upper ∧ call.start upper supported = .ok r

/-- The texts of an accepted request fit. -/
theorem Create.Run.Accepted.short {r : Run} (h : r.Accepted) : Short r.context r.request := by
  obtain ⟨upper, supported, call, hvalidated, hstart⟩ := h
  unfold Call.start at hstart
  by_cases hheaders : ∀ key ∈ requiredHeaders, AcceptableHeader call.headers key
  · obtain ⟨context, normalized, hbuild, hnormalized⟩ | ⟨message, hbuild⟩ :=
      buildRequestContext_of_acceptable upper supported call.request hheaders
    · rw [hbuild] at hstart
      cases hstart
      obtain ⟨⟨m, hm⟩, ⟨c, hc⟩, ⟨a, ha⟩, ⟨k, hk⟩, hrequest, hcurrency⟩ := hnormalized
      refine ⟨hm ▸ m.length_le, hc ▸ c.length_le, ha ▸ a.length_le, hk ▸ k.length_le,
        hcurrency.1.le, ?_⟩
      rw [hrequest]
      exact hvalidated.destination
    · rw [hbuild] at hstart
      cases hstart
  · rw [buildRequestContext_of_not_acceptable hheaders] at hstart
    cases hstart

/-! ## Runs -/

/-- What a session holds fits its columns. -/
def Session.Fits : (t : Session) → t.Local → Prop
  | .worker _, l => Processor.Worker.Fits l
  | .review _, _ => True
  | .create _, r => Create.Short r.context r.request
  | .environment, _ => True

namespace Payments

variable {cfg : Processor.Settings}

/-- Runs in which HTTP status codes have three digits, and a payment that goes to review is inserted
only if `reviews`. -/
def insertsReviews (reviews : Prop) : (payments cfg).Guard
  | .worker _, _, _, .callProvider _ _ http => Processor.ThreeDigits http
  | .create _, _, r, .persist _ _ => Create.Pc.ForReview r.pc → reviews
  | _, _, _, _ => True

/-- What such a run maintains. -/
structure RowsFit (reviews : Prop) (s : State cfg) : Prop where
  world : s.world.Within reviews
  fits : ∀ t, Session.Fits t (s.proc t)

namespace RowsFit

variable {reviews : Prop} {s s' : State cfg}

theorem initial (h : Initial s) (haccepted : ∀ n, (create s n).Accepted) : RowsFit reviews s where
  world := by
    rw [h.world]
    exact .empty
  fits t := by
    cases t with
    | worker n => exact .of_ne fun event payment outcome pc => by cases (h.worker n).symm.trans pc
    | review n => trivial
    | create n => exact (haccepted n).short
    | environment => trivial

theorem next (h : RowsFit reviews s) {i : Session} {a : i.Act}
    (hguard : @insertsReviews cfg reviews i s.world (s.proc i) a) (hstep : s.step i a = some s') :
    RowsFit reviews s' := by
  have hown : s'.world.Within reviews ∧ Session.Fits i (s'.proc i) := by
    have hself := System.State.step_self hstep
    have hfits := h.fits i
    cases i with
    | worker n =>
      refine Processor.Next.within (Processor.Worker.next_of_step hself) h.world hfits ?_
      rintro started ended http rfl
      exact hguard
    | review n => exact ⟨Review.Next.within (Review.Call.next_of_step hself) h.world, trivial⟩
    | create n =>
      refine Create.Next.within (Create.Run.next_of_step hself) h.world hfits ?_
      rintro eventId now rfl
      exact hguard
    | environment =>
      cases a with
      | expireGate key =>
        obtain ⟨hworld, -⟩ := Prod.mk.inj (Option.some.inj hself)
        rw [← hworld]
        exact ⟨⟨h.world.payments, h.world.outbox, h.world.idempotency⟩, trivial⟩
  refine ⟨hown.1, fun t => ?_⟩
  by_cases ht : t = i
  · subst ht
    exact hown.2
  · rw [System.State.step_proc_ne hstep ht]
    exact h.fits t

theorem of_reaches (hrun : (payments cfg).Reaches (insertsReviews reviews) s s')
    (h : RowsFit reviews s) : RowsFit reviews s' :=
  hrun.invariant (fun hfit hguard hstep => hfit.next hguard hstep) h

end RowsFit

/-- The rows of every run fit the columns of the ORM. They fit those of the migration as long as
there is no event of a payment that goes to review. -/
theorem rows_fit_ormMetadata {s₀ s : State cfg} (h₀ : Initial s₀)
    (haccepted : ∀ n, (create s₀ n).Accepted)
    (hrun : (payments cfg).Reaches (insertsReviews True) s₀ s) :
    s.world.Fits ormMetadata ∧ (s.world.Fits upgrade ↔
      s.world.outbox.All fun row => row.eventType ≠ .paymentReviewRequired) := by
  have h := (RowsFit.of_reaches hrun (.initial h₀ haccepted)).world.fits_ormMetadata
  exact ⟨h, h.upgrade_iff⟩

/-- The rows of every run that inserts no payment that goes to review fit the columns of the ORM and
those of the migration. -/
theorem rows_fit {s₀ s : State cfg} (h₀ : Initial s₀) (haccepted : ∀ n, (create s₀ n).Accepted)
    (hrun : (payments cfg).Reaches (insertsReviews False) s₀ s) :
    s.world.Fits ormMetadata ∧ s.world.Fits upgrade := by
  have h := (RowsFit.of_reaches hrun (.initial h₀ haccepted)).world
  exact ⟨h.fits_ormMetadata, h.fits_upgrade⟩

/-- Runs of creations alone; a payment that goes to review is inserted only if `reviews`. -/
def createsReviews (reviews : Prop) : (payments cfg).Guard
  | .create _, _, r, _ => Create.Pc.ForReview r.pc → reviews
  | _, _, _, _ => False

instance {reviews : Prop} [Decidable reviews] : (i : Session) → (w : World) →
    (l : (payments cfg).Local i) → (a : (payments cfg).Act i) →
    Decidable (@createsReviews cfg reviews i w l a)
  | .create _, _, r, _ => inferInstanceAs (Decidable (Create.Pc.ForReview r.pc → reviews))
  | .worker _, _, _, _ | .review _, _, _, _ | .environment, _, _, _ =>
    inferInstanceAs (Decidable False)

theorem insertsReviews_of_createsReviews {reviews : Prop} (i : Session) (w : World)
    (l : (payments cfg).Local i) (a : (payments cfg).Act i)
    (h : createsReviews reviews i w l a) : insertsReviews reviews i w l a := by
  cases i with
  | worker n => exact h.elim
  | review n => exact h.elim
  | create n =>
    cases a with
    | persist eventId now => exact h
    | _ => trivial
  | environment => exact h.elim

/-- The headers of the sample. -/
def sampleHeaders (key : String) : HeaderValue :=
  .text (if key = "X-Merchant-Id" then "m"
    else if key = "X-Customer-Id" then "c"
    else if key = "X-Account-Id" then "a"
    else "k")

/-- The creations of the sample are accepted. -/
theorem accepted_sample (n : Nat) : (create sample n).Accepted := by
  have hbuild :
      Create.buildRequestContext id ["BRL"] sampleHeaders ⟨⟨10000, -2⟩, "BRL", .pix, none⟩ =
      .ok (⟨"m", "c", "a", "k"⟩, ⟨⟨10000, -2⟩, "BRL", .pix, none⟩) := by
    decide
  refine ⟨id, ["BRL"],
    ⟨sampleHeaders, ⟨⟨10000, -2⟩, "BRL", .pix, none⟩, s!"trace{n}", none⟩, ?_, ?_⟩
  · refine ⟨?_, ⟨"BRL", rfl, rfl⟩, fun text htext => by cases htext⟩
    change (0 : Decimal) < ⟨10000, -2⟩
    decide
  · unfold Create.Call.start
    rw [hbuild]
    rfl

set_option maxRecDepth 10000 in
/-- A payment that is accepted at once. -/
theorem rows_fit_received : ∃ s : State sampleSettings,
    s.world.status 1 = some .received ∧ s.world.Fits ormMetadata ∧ s.world.Fits upgrade := by
  have hrun : (System.State.run (createsReviews False) (creation 0 ⟨0, .allow, .allow⟩ 1 10)
      sample).map (fun s => s.world.status 1) = some (some .received) := by decide
  obtain ⟨s, hs, hstatus⟩ := Option.map_eq_some_iff.1 hrun
  exact ⟨s, hstatus, rows_fit (fresh_initial _ _ _) accepted_sample
    ((System.Reaches.of_run hs).mono insertsReviews_of_createsReviews)⟩

set_option maxRecDepth 10000 in
/-- The migration's tables have no room for the event of a payment that goes to review. -/
theorem review_event_too_long : ¬ ∀ (cfg : Processor.Settings) (s₀ s : State cfg), Initial s₀ →
    (∀ n, (create s₀ n).Accepted) → (payments cfg).Reaches (insertsReviews True) s₀ s →
    s.world.Fits ormMetadata ∧ s.world.Fits upgrade := by
  intro hfits
  have hrun : (System.State.run (createsReviews True) (creation 0 ⟨0, .review, .allow⟩ 1 10)
      sample).map (fun s => (s.world.outbox.committed 10).map (·.eventType)) =
      some (some .paymentReviewRequired) := by decide
  obtain ⟨s, hs, heq⟩ := Option.map_eq_some_iff.1 hrun
  obtain ⟨event, hevent, htype⟩ := Option.map_eq_some_iff.1 heq
  have hupgrade := (hfits _ _ s (fresh_initial _ _ _) accepted_sample
    ((System.Reaches.of_run hs).mono insertsReviews_of_createsReviews)).2
  exact OutboxEvent.fits_upgrade_iff.1 (hupgrade.outbox.committed hevent) htype

end Payments

end PaymentsLab
