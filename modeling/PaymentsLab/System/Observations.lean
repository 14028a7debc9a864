import Mathlib.Logic.Relation
import PaymentsLab.System.Correspondence
import PaymentsLab.System.Creation
import PaymentsLab.System.Delivery
import PaymentsLab.System.Reviews

/-!
# What stays, and what a client sees

Nothing that is committed is ever taken back: no run deletes a row, rewrites the columns that name
a payment or an event, reopens a closed event, or forgets a record, a call or a publication
(`committed_kept`). With one processor and atomic reviews the status of a payment moves as well:
`PaymentStatus.Follows` is the graph of its life, and two readings by `GetPaymentUseCase` are
always in its order (`reading_moves_forward`).
-/

namespace PaymentsLab

open Foundation

/-- `PaymentStatusResponse`. -/
structure PaymentStatusResponse where
  paymentId : UUID
  merchantId : String
  customerId : String
  accountId : String
  amount : Decimal
  currency : String
  method : PaymentMethod
  status : PaymentStatus
  idempotencyKey : String
  riskScore : Int
  riskDecision : RiskDecision
  amlDecision : AmlDecision
  createdAt : Instant
  updatedAt : Instant
  lastError : Option String
  deriving DecidableEq

/-- The fields of a response that do not change over the life of a payment; the others are
blanked. -/
def PaymentStatusResponse.identity (r : PaymentStatusResponse) : PaymentStatusResponse :=
  { r with status := .received, updatedAt := 0, lastError := none }

/-- `GetPaymentUseCase.execute`, in a session of its own that has written nothing; `updatedAt` is
the column of that name, which no other statement reads. -/
def getPayment (w : World) (updatedAt : UUID → Instant) (paymentId : UUID) :
    Except AppError PaymentStatusResponse :=
  match w.payments.committed paymentId with
  | none => .error (.validation "Payment not found")
  | some payment => .ok
    { paymentId := payment.paymentId
      merchantId := payment.merchantId
      customerId := payment.customerId
      accountId := payment.accountId
      amount := payment.amount
      currency := payment.currency
      method := payment.method
      status := payment.status
      idempotencyKey := payment.idempotencyKey
      riskScore := payment.riskScore
      riskDecision := payment.riskDecision
      amlDecision := payment.amlDecision
      createdAt := payment.createdAt
      updatedAt := updatedAt paymentId
      lastError := payment.lastError }

/-- A reading that finds the payment. -/
theorem getPayment_eq_ok {w : World} {updatedAt : UUID → Instant} {p : UUID}
    {r : PaymentStatusResponse} (h : getPayment w updatedAt p = .ok r) :
    ∃ row, w.payments.committed p = some row ∧ r.status = row.status := by
  unfold getPayment at h
  split at h
  · cases h
  · next row hrow =>
    cases h
    exact ⟨row, hrow, rfl⟩

/-- Rows that agree in the columns no `UPDATE` sets give responses that agree. -/
theorem getPayment_of_identity {w w' : World} {updatedAt updatedAt' : UUID → Instant} {p : UUID}
    {r : PaymentStatusResponse} {row row' : Payment} (h : getPayment w updatedAt p = .ok r)
    (hrow : w.payments.committed p = some row) (hrow' : w'.payments.committed p = some row')
    (hident : row'.identity = row.identity) :
    ∃ r', getPayment w' updatedAt' p = .ok r' ∧ r'.status = row'.status ∧
      r'.identity = r.identity := by
  unfold getPayment at h ⊢
  rw [hrow] at h
  rw [hrow']
  cases h
  simp only [Payment.identity, Payment.mk.injEq] at hident
  refine ⟨_, rfl, rfl, ?_⟩
  simp [PaymentStatusResponse.identity, hident]

/-! ## Rows stay -/

/-- What is committed or sent in `w` is still there in `w'`. -/
structure World.Retains (w w' : World) : Prop where
  payment : ∀ {p row}, w.payments.committed p = some row →
    ∃ row', w'.payments.committed p = some row' ∧ row'.identity = row.identity
  event : ∀ {k row}, w.outbox.committed k = some row →
    ∃ row', w'.outbox.committed k = some row' ∧ row'.identity = row.identity ∧
      (row.status ≠ .pending → row'.status ≠ .pending)
  idempotency : w.idempotency <+: w'.idempotency
  confirms : w.confirms <+: w'.confirms
  published : w.published <+: w'.published

namespace World.Retains

variable {w w' w'' : World}

theorem refl (w : World) : w.Retains w where
  payment hrow := ⟨_, hrow, rfl⟩
  event hrow := ⟨_, hrow, rfl, id⟩
  idempotency := List.prefix_rfl
  confirms := List.prefix_rfl
  published := List.prefix_rfl

theorem trans (h : w.Retains w') (h' : w'.Retains w'') : w.Retains w'' where
  payment hrow := by
    obtain ⟨row', hrow', hident⟩ := h.payment hrow
    obtain ⟨row'', hrow'', hident'⟩ := h'.payment hrow'
    exact ⟨row'', hrow'', hident'.trans hident⟩
  event hrow := by
    obtain ⟨row', hrow', hident, hclosed⟩ := h.event hrow
    obtain ⟨row'', hrow'', hident', hclosed'⟩ := h'.event hrow'
    exact ⟨row'', hrow'', hident'.trans hident, fun hp => hclosed' (hclosed hp)⟩
  idempotency := h.idempotency.trans h'.idempotency
  confirms := h.confirms.trans h'.confirms
  published := h.published.trans h'.published

end World.Retains

/-- A mark changes neither what names an event nor that it is closed. -/
theorem EventRows.keeps {marked : Option (OutboxEvent × EventMark)} {w w' : World}
    (h : EventRows marked w w') {k : UUID} {row : OutboxEvent}
    (hrow : w.outbox.committed k = some row) :
    ∃ row', w'.outbox.committed k = some row' ∧ row'.identity = row.identity ∧
      (row.status ≠ .pending → row'.status ≠ .pending) := by
  rcases h.kept hrow with hsame | ⟨event, m, at', -, -, hset⟩
  · exact ⟨row, hsame, rfl, id⟩
  · refine ⟨_, hset, by simp, fun hclosed => ?_⟩
    rw [OutboxRepository.status_setMark]
    cases m with
    | sent | failed => simp [EventMark.delivery]
    | reschedule => exact hclosed

namespace Payments

variable {cfg : Processor.Settings} {good later : (payments cfg).Guard} {s₀ s s' : State cfg}

/-- A step keeps what is committed. -/
theorem Integrity.keeps (h : Integrity s) {i : Session} {a : i.Act} (hstep : s.step i a = some s') :
    s.world.Retains s'.world where
  payment hrow := (h.next hstep).1.keepsRow h.wf hrow
  event hrow := (h.eventRows hstep).keeps hrow
  idempotency := by
    rcases h.persists_or hstep with ⟨n, decision, response, now, -, -, -, hpersists⟩ | ⟨hsame, -⟩
    · rw [hpersists.idempotency]
      exact List.prefix_append _ _
    · exact ⟨[], by rw [hsame, List.append_nil]⟩
  confirms := by
    rcases confirms_step hstep with hsame | ⟨n, event, payment, calls, -, -, hmore⟩
    · exact ⟨[], by rw [hsame, List.append_nil]⟩
    · rw [hmore]
      exact List.prefix_append _ _
  published := by
    rw [published_step hstep]
    exact List.prefix_append _ _

/-- A run keeps what is committed. -/
theorem Integrity.keeps_of_reaches (h : Integrity s) (hrun : (payments cfg).Reaches later s s') :
    s.world.Retains s'.world := by
  have hinv : Integrity s' ∧ s.world.Retains s'.world := by
    refine hrun.invariant (I := fun s' => Integrity s' ∧ s.world.Retains s'.world) ?_ ⟨h, .refl _⟩
    rintro s₁ s₂ i a ⟨hi, hkeeps⟩ - hstep
    exact ⟨(hi.next hstep).2, hkeeps.trans (hi.keeps hstep)⟩
  exact hinv.2

/-- Whatever the sessions do, and in whatever order: what is committed in a reachable state stays
in every later one. -/
theorem committed_kept (h₀ : Initial s₀) (hrun : (payments cfg).Reaches good s₀ s)
    (hlater : (payments cfg).Reaches later s s') : s.world.Retains s'.world :=
  (integrity_of_reaches hrun (.initial h₀)).keeps_of_reaches hlater

/-- Two workers fetch the event of payment 1; the first confirms the payment, the second one loses
the lock. -/
theorem committed_kept_raced : ∃ s s' : State sampleSettings,
    s.world.status 1 = some .received ∧ s'.world.status 1 = some .confirmed ∧
      s.world.Retains s'.world := by
  have hrun : (System.State.run (System.anyStep _) fetchedTwice sample).map (·.world.status 1) =
      some (some .received) := by decide
  obtain ⟨s, hs, hstatus⟩ := Option.map_eq_some_iff.1 hrun
  have hlater : ((System.State.run (System.anyStep _) fetchedTwice sample).bind
      (System.State.run (System.anyStep _) ([⟨.worker 1, Processor.WorkerAction.getById⟩] ++
        callProvider 0 (answer false) ++ settle 0 12 0 ++ lose 1))).map (·.world.status 1) =
      some (some .confirmed) := by decide
  rw [hs, Option.bind_some] at hlater
  obtain ⟨s', hs', hstatus'⟩ := Option.map_eq_some_iff.1 hlater
  exact ⟨s, s', hstatus, hstatus',
    committed_kept (fresh_initial _ _ _) (System.Reaches.of_run hs) (System.Reaches.of_run hs')⟩

end Payments

/-! ## The life of a payment -/

namespace PaymentStatus

/-- The steps of the life of a payment. -/
inductive Follows : PaymentStatus → PaymentStatus → Prop
  | approved : Follows .inReview .received
  | rejected : Follows .inReview .blocked
  /-- the provider has failed for a while -/
  | retried : Follows .received .processing
  | settled {s s' : PaymentStatus} (opened : s = .received ∨ s = .processing)
    (terminal : s'.Terminal) : Follows s s'

/-- The order of the life of a payment. -/
def Leads : PaymentStatus → PaymentStatus → Prop :=
  Relation.ReflTransGen Follows

/-- How far a payment has come. -/
def stage : PaymentStatus → Nat
  | .inReview => 0
  | .received => 1
  | .processing => 2
  | _ => 3

theorem Follows.stage_lt {s s' : PaymentStatus} (h : Follows s s') : s.stage < s'.stage := by
  cases h with
  | approved | rejected | retried => decide
  | settled opened terminal =>
    rcases opened with rfl | rfl <;> rcases terminal with rfl | rfl <;> decide

/-- The life of a payment does not go in circles: what follows another status is further on. -/
theorem Leads.stage_lt {s s' : PaymentStatus} (h : Leads s s') (hne : s ≠ s') :
    s.stage < s'.stage := by
  induction h with
  | refl => exact absurd rfl hne
  | @tail s₁ s₂ _ hlast ih =>
    by_cases hs : s = s₁
    · rw [hs]
      exact hlast.stage_lt
    · exact (ih hs).trans hlast.stage_lt

/-- Nothing follows a status a payment ends in. -/
theorem Leads.eq_of_final {s s' : PaymentStatus} (h : Leads s s')
    (hs : s = .confirmed ∨ s = .failed ∨ s = .blocked) : s' = s := by
  by_contra hne
  have hlt := h.stage_lt (Ne.symm hne)
  have hle : s'.stage ≤ 3 := by cases s' <;> decide
  have hfinal : s.stage = 3 := by rcases hs with rfl | rfl | rfl <;> rfl
  omega

end PaymentStatus

namespace Ledger

variable {L : Ledger} {m : Move} {p : UUID} {s : PaymentStatus}

theorem Phase.ne_validated (h : L.Phase p) (hs : L.status p = some s) : s ≠ .validated := by
  rintro rfl
  cases h with
  | absent status => cases status.symm.trans hs
  | waiting status | opened _ status => rcases status with h | h <;> cases h.symm.trans hs
  | closed _ _ o status => cases o <;> cases status.symm.trans hs

/-- An orderly move takes a payment one step further in its life, or leaves it where it is. -/
theorem Phase.follows_apply (h : L.Phase p) (ha : L.Admissible m) (ho : L.Orderly m)
    (hs : L.status p = some s) :
    ∃ s', (L.apply m).status p = some s' ∧ (s' = s ∨ s.Follows s') := by
  rcases L.status_apply m p with ⟨hsame, -⟩ | ⟨s', hassigned, hnew⟩
  · exact ⟨s, hsame.trans hs, .inl rfl⟩
  · refine ⟨s', hnew, ?_⟩
    cases m with
    | retry p' k =>
      cases hassigned
      rcases (h.of_pending ha ho).1 with hopen | hopen <;> cases hopen.symm.trans hs
      · exact .inr .retried
      · exact .inl rfl
    | settle p' k o d e =>
      cases hassigned
      refine .inr (.settled ?_ o.terminal_status)
      rcases (h.of_pending ha.1 ho).1 with hopen | hopen <;> cases hopen.symm.trans hs
      · exact .inl rfl
      · exact .inr rfl
    | approve p' k =>
      cases hassigned
      cases hs.symm.trans ho
      exact .inr .approved
    | reject p' =>
      cases hassigned
      cases hs.symm.trans ho
      exact .inr .rejected
    | create | createWith =>
      cases hassigned
      cases ha.1.symm.trans hs
    | _ => cases hassigned

end Ledger

namespace Payments

variable {cfg : Processor.Settings} {s₀ s s' : State cfg} {p : UUID}

/-- With one processor the status of a payment moves along its life. -/
theorem OneProcessorHolds.leads (h : OneProcessorHolds s)
    (hrun : (payments cfg).Reaches oneProcessor s s') {status : PaymentStatus}
    (hs : s.world.status p = some status) :
    ∃ status', s'.world.status p = some status' ∧ status.Leads status' := by
  induction hrun with
  | refl => exact ⟨status, hs, .refl⟩
  | @step s₁ s₂ i a run meets next ih =>
    obtain ⟨status₁, hs₁, hleads⟩ := ih
    have h₁ := h.of_reaches run
    have hatomic : @landingAtomic cfg (fun _ => True) i s₁.world (s₁.proc i) a := by
      cases i with
      | worker n => exact fun _ _ _ _ _ _ => trivial
      | review n => exact meets
      | create n => trivial
      | environment => trivial
    obtain ⟨-, m, hm, hadm, hlands, hledger⟩ :=
      h₁.landed.next (fun _ => rfl) (landing_of_atomic hatomic) next
    obtain ⟨status₂, hs₂, hstep⟩ :=
      (h₁.phases p).follows_apply hadm (h₁.orderly meets hm hadm hlands) hs₁
    refine ⟨status₂, ?_, ?_⟩
    · rw [← World.ledger_status, hledger, hs₂]
    · rcases hstep with rfl | hfollows
      · exact hleads
      · exact hleads.tail hfollows

/-- With one processor and atomic reviews: a payment that has been read is found again, with the
same data, in a status its life leads to from the one read before, and is never `VALIDATED`. -/
theorem reading_moves_forward (h₀ : Initial s₀) (hrun : (payments cfg).Reaches oneProcessor s₀ s)
    (hlater : (payments cfg).Reaches oneProcessor s s') {updatedAt updatedAt' : UUID → Instant}
    {r : PaymentStatusResponse} (hget : getPayment s.world updatedAt p = .ok r) :
    r.status ≠ .validated ∧ ∃ r', getPayment s'.world updatedAt' p = .ok r' ∧
      r'.identity = r.identity ∧ r.status.Leads r'.status := by
  have h := (OneProcessorHolds.initial h₀).of_reaches hrun
  obtain ⟨row, hrow, hstatus⟩ := getPayment_eq_ok hget
  have hs : s.world.status p = some r.status := by simp [World.status, hrow, hstatus]
  obtain ⟨row', hrow', hident⟩ := (h.landed.integrity.keeps_of_reaches hlater).payment hrow
  obtain ⟨r', hget', hstatus', hsame⟩ := getPayment_of_identity hget hrow hrow' hident
  obtain ⟨status', hs', hleads⟩ := h.leads hlater hs
  refine ⟨(h.phases p).ne_validated hs, r', hget', hsame, ?_⟩
  have hlast : status' = r'.status := by
    rw [World.status, hrow', Option.map_some, Option.some.injEq] at hs'
    rw [← hs', hstatus']
  exact hlast ▸ hleads

set_option maxRecDepth 10000 in
/-- A client reads a payment in review, and again after its approval and confirmation. -/
theorem reading_moves_forward_confirmed : ∃ s s' : State sampleSettings, ∃ r,
    getPayment s.world (fun _ => 0) 1 = .ok r ∧ r.status = .inReview ∧
      s'.world.status 1 = some .confirmed ∧ ∃ r', getPayment s'.world (fun _ => 1) 1 = .ok r' ∧
        r'.identity = r.identity ∧ r.status.Leads r'.status := by
  let created : List (Σ i, (payments sampleSettings).Act i) :=
    creation 0 ⟨0, .review, .allow⟩ 1 10
  let request : OutboxEvent :=
    .new 11 1 .paymentRequested (.paymentRequested 1 "m" "review" none) 0
  have hrun : (System.State.run oneProcessor created sample).map (fun s =>
      (getPayment s.world (fun _ => 0) 1).toOption.map (·.status)) = some (some .inReview) := by
    decide
  obtain ⟨s, hs, hread⟩ := Option.map_eq_some_iff.1 hrun
  have hlater : ((System.State.run oneProcessor created sample).bind
      (System.State.run oneProcessor ([⟨.review 0, Review.Action.decide 11 0⟩,
        ⟨.worker 0, Processor.WorkerAction.fetchPendingRequested 0 [request]⟩] ++
        callProvider 0 (answer false) ++ settle 0 12 0))).map (·.world.status 1) =
      some (some .confirmed) := by decide
  rw [hs, Option.bind_some] at hlater
  obtain ⟨s', hs', hstatus'⟩ := Option.map_eq_some_iff.1 hlater
  cases hget : getPayment s.world (fun _ => 0) 1 with
  | error e =>
    rw [hget] at hread
    cases hread
  | ok r =>
    rw [hget] at hread
    exact ⟨s, s', r, hget, Option.some.inj hread, hstatus', (reading_moves_forward
      (fresh_initial _ _ _) (System.Reaches.of_run hs) (System.Reaches.of_run hs') hget).2⟩

end Payments

end PaymentsLab
