import PaymentsLab.System.Observations

/-!
# Answers and later readings

What a client is told and what it reads afterwards fit together. A response of a creation, be it the
first one, a replay of the snapshot or an answer from the payment row, and a response of a review
name a payment that is found from then on, with the decisions of the response, and in a status its
life leads to from the one in the response (`answers_hold`).
-/

namespace PaymentsLab

open Foundation

/-- The payment a response names is there, with its decisions, and no less far in its life. -/
def World.Bears (w : World) (response : PaymentAcceptedResponse) : Prop :=
  ∃ row, w.payments.committed response.paymentId = some row ∧
    row.riskDecision = response.riskDecision ∧ row.amlDecision = response.amlDecision ∧
      response.status.Leads row.status

/-- A reading of a payment a response names. -/
theorem World.Bears.getPayment {w : World} {response : PaymentAcceptedResponse}
    (h : w.Bears response) (updatedAt : UUID → Instant) :
    ∃ row r, w.payments.committed response.paymentId = some row ∧
      PaymentsLab.getPayment w updatedAt response.paymentId = .ok r ∧
      r.merchantId = row.merchantId ∧ r.idempotencyKey = row.idempotencyKey ∧
      r.riskDecision = response.riskDecision ∧ r.amlDecision = response.amlDecision ∧
      response.status.Leads r.status := by
  obtain ⟨row, hrow, hrisk, haml, hleads⟩ := h
  unfold PaymentsLab.getPayment
  rw [hrow]
  exact ⟨row, _, rfl, rfl, rfl, rfl, hrisk, haml, hleads⟩

namespace Review

variable {w w' : World} {t : Session} {c c' : Call} {a : Action}

/-- The response of a call that has committed its decision. -/
def Call.answer (c : Call) : Option PaymentAcceptedResponse :=
  match c.pc with
  | .committed payment => some (buildReviewResponse c payment)
  | .returned response => some response
  | _ => none

/-- An atomic call answers with what it has just committed. -/
theorem Call.Inv.answer_cases (hw : w.WF) (h : Call.Inv w t c) (hn : Next t w c a w' c')
    (ha : a.Atomic) {response : PaymentAcceptedResponse} (hanswer : c'.answer = some response) :
    c.answer = some response ∨ w'.Bears response := by
  cases hn with
  | loaded | updated | unmatched | approved | rejected => exact ha.elim
  | refused | refusedAtOnce | crashed => cases hanswer
  | recorded pc =>
    refine .inl ?_
    rw [← hanswer]
    simp [Call.answer, pc]
  | decided load update commit =>
    obtain ⟨pc, row, hrow, hstatus, rfl, rfl, hinv⟩ := h.decided hw load update
    have hclean := h.clean (by simp [pc])
    refine .inr ?_
    cases commit with
    | approved pc' | rejected pc' =>
      cases pc'
      cases hanswer
      refine ⟨c.decision.set row, ?_, rfl, rfl, .refl⟩
      simp [buildReviewResponse, hclean.payments]

end Review

namespace Payments

variable {cfg : Processor.Settings} {s₀ s s' : State cfg}

/-- What a response says of its payment stays true. -/
theorem OneProcessorHolds.bears (h : OneProcessorHolds s)
    (hrun : (payments cfg).Reaches oneProcessor s s') {response : PaymentAcceptedResponse}
    (hbears : s.world.Bears response) : s'.world.Bears response := by
  obtain ⟨row, hrow, hrisk, haml, hleads⟩ := hbears
  obtain ⟨row', hrow', hident⟩ := (h.landed.integrity.keeps_of_reaches hrun).payment hrow
  obtain ⟨-, -, hrisk', haml'⟩ := Payment.scope_of_identity hident
  have hold : s.world.status response.paymentId = some row.status := by simp [World.status, hrow]
  obtain ⟨status, hstatus, hleads'⟩ := h.leads hrun hold
  have hlast : row'.status = status := by
    simpa [World.status, hrow'] using hstatus
  exact ⟨row', hrow', hrisk'.trans hrisk, haml'.trans haml, hlast ▸ hleads.trans hleads'⟩

/-- The records and the answers of all sessions are true of their payments. -/
structure AnswersHold (s : State cfg) : Prop where
  holds : OneProcessorHolds s
  scopes : Scopes s
  recorded : ∀ record ∈ s.world.idempotency, s.world.Bears record.responsePayload
  created : ∀ n response, (create s n).pc.answer = some response → s.world.Bears response
  reviewed : ∀ n response, (review s n).answer = some response → s.world.Bears response

namespace AnswersHold

theorem initial (h : Initial s) : AnswersHold s where
  holds := .initial h
  scopes := .initial h
  recorded record hrecord := by
    rw [h.world] at hrecord
    cases hrecord
  created n response hn := by
    rw [show (create s n).pc = .start from h.create n] at hn
    cases hn
  reviewed n response hn := by
    simp only [Review.Call.answer, show (review s n).pc = .start from h.review n] at hn
    cases hn

/-- A creation answers with its snapshot, its payment row, or the payment it has just created. -/
theorem created_next (h : AnswersHold s) {i : Session} {a : i.Act}
    (hstep : s.step i a = some s')
    (hkept : ∀ {response}, s.world.Bears response → s'.world.Bears response) {n : Nat}
    {response : PaymentAcceptedResponse} (hn : (create s' n).pc.answer = some response) :
    s'.world.Bears response := by
  by_cases hi : Session.create n = i
  · subst hi
    have hrun := Create.Run.next_of_step (System.State.step_self hstep)
    rcases hrun.answer_cases hn with hold | ⟨record, hsnapshot, rfl⟩ |
      ⟨payment, -, hpayment, rfl⟩ | hcommitted
    · exact hkept (h.created n response hold)
    · exact hkept (h.recorded record (IdempotencyRepository.getSnapshot_eq_some hsnapshot).1)
    · obtain ⟨hrow, -⟩ := PaymentRepository.getByMerchantAndIdempotency_eq_some
        h.scopes.integrity.wf hpayment
      exact hkept ⟨payment, hrow, rfl, rfl, .refl⟩
    · rcases h.scopes.integrity.persists_or hstep with
        ⟨n', decision, response', now, hn', hpc, hpc', hpersists⟩ | ⟨-, -, hpc⟩
      · cases hn'
        cases hcommitted.symm.trans hpc'
        obtain ⟨paymentId, rfl⟩ :=
          Create.Run.Inv.built (h.scopes.integrity.inv (.create n)) _ _ hpc
        exact ⟨_, (hpersists.rows _).trans (if_pos rfl), rfl, rfl, .refl⟩
      · exact absurd hcommitted (hpc n response rfl)
  · have hproc : create s' n = create s n := System.State.step_proc_ne hstep hi
    rw [hproc] at hn
    exact hkept (h.created n response hn)

theorem next (h : AnswersHold s) {i : Session} {a : i.Act}
    (hguard : @oneProcessor cfg i s.world (s.proc i) a) (hstep : s.step i a = some s') :
    AnswersHold s' := by
  have hkept {response : PaymentAcceptedResponse} (hbears : s.world.Bears response) :
      s'.world.Bears response := h.holds.bears (.step .refl hguard hstep) hbears
  refine ⟨(h.holds.next hguard hstep).1, h.scopes.next hstep, fun record hrecord => ?_,
    fun n response => h.created_next hstep hkept, fun n response hn => ?_⟩
  · rcases h.scopes.integrity.persists_or hstep with
      ⟨n, decision, response, now, -, hpc, -, hpersists⟩ | ⟨hsame, -⟩
    · rw [hpersists.idempotency, List.mem_append, List.mem_singleton] at hrecord
      rcases hrecord with hrecord | rfl
      · exact hkept (h.recorded record hrecord)
      · obtain ⟨paymentId, rfl⟩ :=
          Create.Run.Inv.built (h.scopes.integrity.inv (.create n)) _ _ hpc
        exact ⟨_, (hpersists.rows _).trans (if_pos rfl), rfl, rfl, .refl⟩
    · exact hkept (h.recorded record (hsame ▸ hrecord))
  · by_cases hi : Session.review n = i
    · subst hi
      have hinv : Review.Call.Inv s.world (.review n) (review s n) :=
        h.scopes.integrity.inv (.review n)
      rcases hinv.answer_cases h.scopes.integrity.wf
        (Review.Call.next_of_step (System.State.step_self hstep)) hguard hn with hold | hnew
      · exact hkept (h.reviewed n response hold)
      · exact hnew
    · have hproc : review s' n = review s n := System.State.step_proc_ne hstep hi
      rw [hproc] at hn
      exact hkept (h.reviewed n response hn)

end AnswersHold

/-- Readings in `w` that fit the responses returned in `s`. -/
structure AnswersFit (s : State cfg) (w : World) : Prop where
  created : ∀ n response, (create s n).pc = .returned response → ∀ updatedAt, ∃ r,
    getPayment w updatedAt response.paymentId = .ok r ∧
      r.merchantId = (create s n).context.merchantId ∧
      r.idempotencyKey = (create s n).context.idempotencyKey ∧
      r.riskDecision = response.riskDecision ∧ r.amlDecision = response.amlDecision ∧
      response.status.Leads r.status
  reviewed : ∀ n response, (review s n).pc = .returned response → ∀ updatedAt, ∃ r,
    getPayment w updatedAt response.paymentId = .ok r ∧
      r.riskDecision = response.riskDecision ∧ r.amlDecision = response.amlDecision ∧
      response.status.Leads r.status

/-- With one processor and atomic reviews, every response fits every later reading, also when it is
a replay that is older than the payment's status. -/
theorem answers_hold (h₀ : Initial s₀) (hrun : (payments cfg).Reaches oneProcessor s₀ s)
    (hlater : (payments cfg).Reaches oneProcessor s s') : AnswersFit s s'.world := by
  have h : AnswersHold s :=
    hrun.invariant (fun hi hguard hstep => AnswersHold.next hi hguard hstep) (.initial h₀)
  refine ⟨fun n response hn updatedAt => ?_, fun n response hn updatedAt => ?_⟩
  · have hanswer : (create s n).pc.answer = some response := by rw [hn]; rfl
    obtain ⟨row, r, hrow, hget, hm, hk, hrest⟩ :=
      (h.holds.bears hlater (h.created n response hanswer)).getPayment updatedAt
    obtain ⟨row₀, hrow₀, hm₀, hk₀⟩ := h.scopes.answered n response hanswer
    obtain ⟨row', hrow', hident⟩ := (h.scopes.integrity.keeps_of_reaches hlater).payment hrow₀
    cases hrow.symm.trans hrow'
    obtain ⟨hm', hk', -⟩ := Payment.scope_of_identity hident
    exact ⟨r, hget, hm.trans (hm'.trans hm₀), hk.trans (hk'.trans hk₀), hrest⟩
  · have hanswer : (review s n).answer = some response := by
      unfold Review.Call.answer
      rw [hn]
    obtain ⟨row, r, -, hget, -, -, hrest⟩ :=
      (h.holds.bears hlater (h.reviewed n response hanswer)).getPayment updatedAt
    exact ⟨r, hget, hrest⟩

set_option maxRecDepth 10000 in
/-- A payment is put in review and approved; the creation replays its snapshot after the payment
has been confirmed. -/
theorem answers_hold_replayed : ∃ s : State sampleSettings, ∃ response,
    (create s 1).pc = .returned response ∧ response.status = .inReview ∧
      s.world.status 1 = some .confirmed ∧ AnswersFit s s.world := by
  let request : OutboxEvent :=
    .new 11 1 .paymentRequested (.paymentRequested 1 "m" "review" none) 0
  have hrun : (System.State.run oneProcessor (creation 0 ⟨0, .review, .allow⟩ 1 10 ++
      [⟨.review 0, Review.Action.decide 11 0⟩, ⟨.review 0, Review.Action.recordReviewQueueSize⟩,
        ⟨.worker 0, Processor.WorkerAction.fetchPendingRequested 0 [request]⟩] ++
      callProvider 0 (answer false) ++ settle 0 12 0 ++
      [⟨.create 1, Create.Action.readSnapshot⟩]) sample).map
        (fun s => ((create s 1).pc.response.map (·.status), s.world.status 1)) =
      some (some .inReview, some .confirmed) := by
    decide
  obtain ⟨s, hs, heq⟩ := Option.map_eq_some_iff.1 hrun
  obtain ⟨hreplayed, hstatus⟩ := Prod.mk.inj heq
  obtain ⟨response, hresponse, hreview⟩ := Option.map_eq_some_iff.1 hreplayed
  exact ⟨s, response, Create.Pc.response_eq_some.1 hresponse, hreview, hstatus,
    answers_hold (fresh_initial _ _ _) (System.Reaches.of_run hs) .refl⟩

end Payments

end PaymentsLab
