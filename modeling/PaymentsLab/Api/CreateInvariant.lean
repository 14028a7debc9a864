import PaymentsLab.Api.CreatePayment
import PaymentsLab.System.Statements

/-!
# What a creation does to the tables

`Next` lists the steps of a run of `CreatePaymentUseCase` (`Run.next_of_step`). A run holds no row
between two of its steps (`Run.Inv`): its only transaction is the step `persisted`.
-/

namespace PaymentsLab

open Foundation

namespace Create

/-- The steps of a creation. -/
inductive Next (t : Session) (w : World) (r : Run) : Action → World → Run → Prop
  | replayed {record : IdempotencyRecord} (pc : r.pc = .start ∨ (∃ i, r.pc = .poll i) ∨
      r.pc = .conflict) (snapshot : r.snapshot w = some record) :
    Next t w r .readSnapshot w { r with pc := .returned record.responsePayload }
  | unknown (pc : r.pc = .start) (snapshot : r.snapshot w = none) :
    Next t w r .readSnapshot w { r with pc := .gate }
  | acquired {reply : GateReply} (pc : r.pc = .gate) :
    Next t w r (.acquire reply) (r.acquire w reply).1
      { r with pc := if (r.acquire w reply).2 then .controls else .poll 0 }
  | polled {i : Nat} (pc : r.pc = .poll i) (snapshot : r.snapshot w = none) :
    Next t w r .readSnapshot w { r with pc := .pollPayment i }
  | unresolved (pc : r.pc = .conflict) (snapshot : r.snapshot w = none) :
    Next t w r .readSnapshot w { r with pc := .conflictPayment }
  | answered {payment : Payment} (pc : (∃ i, r.pc = .pollPayment i) ∨ r.pc = .conflictPayment)
    (row : r.existingPayment w = some payment) :
    Next t w r .readPayment w
      { r with pc := .returned (r.buildResponseFromExistingPayment payment) }
  | repolled {i : Nat} (pc : r.pc = .pollPayment i) (row : r.existingPayment w = none)
    (more : i + 1 < pollLimit) : Next t w r .readPayment w { r with pc := .poll (i + 1) }
  | gaveUp (pc : (∃ i, r.pc = .pollPayment i ∧ ¬ i + 1 < pollLimit) ∨ r.pc = .conflictPayment)
    (row : r.existingPayment w = none) :
    Next t w r .readPayment w { r with pc := .raised .idempotencyConflict }
  | refused {error : AppError} {paymentId : UUID} (pc : r.pc = .controls) :
    Next t w r (.runControls (.error error) paymentId) w { r with pc := .raised error }
  | controlled {decision : ControlDecision} {paymentId : UUID} (pc : r.pc = .controls) :
    Next t w r (.runControls (.ok decision) paymentId) w
      { r with pc := .persist decision (r.buildPaymentResponse paymentId decision.finalStatus
          decision.riskDecision decision.amlDecision) }
  | persisted {decision : ControlDecision} {response : PaymentAcceptedResponse} {eventId : UUID}
    {now : Instant} {w₁ : World} (pc : r.pc = .persist decision response)
    (free : ¬ r.ScopeTaken w) (rows : r.insertRows w t decision response eventId now = some w₁) :
    Next t w r (.persist eventId now) (w₁.commit t) { r with pc := .committed response }
  | conflicted {decision : ControlDecision} {response : PaymentAcceptedResponse} {eventId : UUID}
    {now : Instant} (pc : r.pc = .persist decision response)
    (refused : r.persistPaymentTransaction w t decision response eventId now = none) :
    Next t w r (.persist eventId now) w { r with pc := .conflict }
  | observed {response : PaymentAcceptedResponse} (pc : r.pc = .committed response) :
    Next t w r .observe w { r with pc := .returned response }
  | crashed : Next t w r .crash w { r with pc := .crashed }

theorem Run.next_of_step {t : Session} {w w' : World} {r r' : Run} {a : Action}
    (h : r.step t w a = some (w', r')) : Next t w r a w' r' := by
  unfold Run.step at h
  split at h
  case h_1 pc =>
    split at h <;> cases h
    · exact .replayed (.inl pc) ‹_›
    · exact .unknown pc ‹_›
  case h_2 pc =>
    cases h
    exact .acquired pc
  case h_3 pc =>
    split at h <;> cases h
    · exact .replayed (.inr (.inl ⟨_, pc⟩)) ‹_›
    · exact .polled pc ‹_›
  case h_4 pc =>
    split at h <;> cases h
    · exact .answered (.inl ⟨_, pc⟩) ‹_›
    · split
      · exact .repolled pc ‹_› ‹_›
      · exact .gaveUp (.inl ⟨_, pc, ‹_›⟩) ‹_›
  case h_5 pc =>
    split at h <;> cases h
    · exact .refused pc
    · exact .controlled pc
  case h_6 pc =>
    split at h
    · next hw =>
      cases h
      unfold Run.persistPaymentTransaction at hw
      split at hw
      · cases hw
      · next hfree =>
        obtain ⟨w₁, hrows, rfl⟩ := Option.map_eq_some_iff.1 hw
        exact .persisted pc hfree hrows
    · cases h
      exact .conflicted pc ‹_›
  case h_7 pc =>
    split at h <;> cases h
    · exact .replayed (.inr (.inr pc)) ‹_›
    · exact .unresolved pc ‹_›
  case h_8 pc =>
    split at h <;> cases h
    · exact .answered (.inr pc) ‹_›
    · exact .gaveUp (.inr pc) ‹_›
  case h_9 pc =>
    cases h
    exact .observed pc
  case h_10 => cases h
  case h_11 => cases h
  case h_12 => cases h
  case h_13 =>
    cases h
    exact .crashed
  case h_14 => cases h

theorem Next.same_run {t : Session} {w w' : World} {r r' : Run} {a : Action}
    (h : Next t w r a w' r') : r'.context = r.context ∧ r'.traceId = r.traceId := by
  cases h <;> exact ⟨rfl, rfl⟩

/-- The four ways to a response. -/
theorem Next.answer_cases {t : Session} {w w' : World} {r r' : Run} {a : Action}
    (h : Next t w r a w' r') {response : PaymentAcceptedResponse}
    (hr' : r'.pc.answer = some response) :
    r.pc.answer = some response ∨
      (∃ record, r.snapshot w = some record ∧ response = record.responsePayload) ∨
      (∃ payment, a = .readPayment ∧ r.existingPayment w = some payment ∧
        response = r.buildResponseFromExistingPayment payment) ∨
      r'.pc = .committed response := by
  cases h with
  | replayed pc snapshot =>
    cases hr'
    exact .inr (.inl ⟨_, snapshot, rfl⟩)
  | answered pc row =>
    cases hr'
    exact .inr (.inr (.inl ⟨_, rfl, row, rfl⟩))
  | persisted =>
    cases hr'
    exact .inr (.inr (.inr rfl))
  | observed pc =>
    cases hr'
    exact .inl (by rw [pc]; rfl)
  | @acquired reply pc =>
    cases hholds : (r.acquire w reply).2 <;> simp [hholds, Pc.answer] at hr'
  | unknown | polled | unresolved | repolled | gaveUp | refused | controlled | conflicted
  | crashed => cases hr'

/-- The inserts of a creation: two or three new rows. -/
theorem Run.insertRows_eq_some {r : Run} {w w₁ : World} {t : Session} {decision : ControlDecision}
    {response : PaymentAcceptedResponse} {eventId : UUID} {now : Instant}
    (h : r.insertRows w t decision response eventId now = some w₁) :
    w.payments.committed response.paymentId = none ∧ w.payments.Free t response.paymentId ∧
      (∀ e, r.outboxEvent response eventId now = some e →
        w.outbox.committed e.eventId = none ∧ w.outbox.Free t e.eventId) ∧
      w₁ = { w with
        payments :=
          w.payments.put t response.paymentId (r.paymentRow decision response now).inserted
        idempotency := w.idempotency ++ [r.idempotencyRecord response]
        outbox :=
          match r.outboxEvent response eventId now with
          | some e => w.outbox.put t e.eventId e
          | none => w.outbox } := by
  unfold Run.insertRows at h
  obtain ⟨payments, hp, hrest⟩ := Option.bind_eq_some_iff.1 h
  obtain ⟨hnew, -, hfree, rfl⟩ := RowStore.insert_eq_some hp
  refine ⟨hnew, hfree, ?_⟩
  cases hevent : r.outboxEvent response eventId now with
  | none =>
    rw [hevent] at hrest
    cases hrest
    exact ⟨fun e he => (by cases he), rfl⟩
  | some e =>
    rw [hevent] at hrest
    obtain ⟨hnew', -, hfree', rfl⟩ := OutboxRepository.addEvent_eq_some hrest
    refine ⟨fun e' he' => ?_, rfl⟩
    cases he'
    exact ⟨hnew', hfree'⟩

theorem Run.aggregateId_outboxEvent {r : Run} {response : PaymentAcceptedResponse} {eventId : UUID}
    {now : Instant} {e : OutboxEvent} (h : r.outboxEvent response eventId now = some e) :
    e.aggregateId = response.paymentId := by
  unfold Run.outboxEvent at h
  split at h <;> cases h <;> rfl

/-- The gate's statement changes the gate keys only. -/
theorem Run.acquire_fst (r : Run) (w : World) (reply : GateReply) :
    ∃ gate, (r.acquire w reply).1 = { w with gate := gate } := by
  cases reply with
  | answered =>
    simp only [Run.acquire]
    split
    · exact ⟨w.gate, rfl⟩
    · exact ⟨_, rfl⟩
  | redisError applied =>
    simp only [Run.acquire]
    split
    · exact ⟨_, rfl⟩
    · exact ⟨w.gate, rfl⟩

/-- A creation calls no provider and publishes nothing. -/
theorem Next.effects {t : Session} {w w' : World} {r r' : Run} {a : Action}
    (h : Next t w r a w' r') : w'.confirms = w.confirms ∧ w'.published = w.published := by
  cases h with
  | @acquired reply pc =>
    obtain ⟨gate, hgate⟩ := r.acquire_fst w reply
    rw [hgate]
    exact ⟨rfl, rfl⟩
  | persisted pc free rows =>
    obtain ⟨-, -, -, rfl⟩ := Run.insertRows_eq_some rows
    exact ⟨rfl, rfl⟩
  | _ => exact ⟨rfl, rfl⟩

/-- A run between two of its steps. -/
structure Run.Inv (w : World) (t : Session) (r : Run) : Prop where
  clean : w.Clean t
  built : ∀ decision response, r.pc = .persist decision response →
    ∃ paymentId, response = r.buildPaymentResponse paymentId decision.finalStatus
      decision.riskDecision decision.amlDecision

namespace Run.Inv

variable {w w' : World} {t : Session} {r r' : Run} {a : Action}

/-- A run that has not begun. -/
theorem start (hclean : w.Clean t) (hpc : r.pc = .start) : Run.Inv w t r :=
  ⟨hclean, by simp [hpc]⟩

theorem stable (h : Run.Inv w t r) (hr : w.Rely t w') : Run.Inv w' t r :=
  ⟨h.clean.stable hr, h.built⟩

/-- Every step of a creation is a sequence of statements and keeps the invariant. -/
theorem next (h : Run.Inv w t r) (hn : Next t w r a w' r') :
    Statements t w w' ∧ Run.Inv w' t r' := by
  cases hn with
  | replayed | unknown | polled | unresolved | answered | repolled | gaveUp | refused
  | conflicted | observed | crashed =>
    exact ⟨.nil, h.clean, fun _ _ hpc => by cases hpc⟩
  | controlled =>
    refine ⟨.nil, h.clean, fun d response hpc => ?_⟩
    cases hpc
    exact ⟨_, rfl⟩
  | @acquired reply pc =>
    obtain ⟨gate, hgate⟩ := r.acquire_fst w reply
    rw [hgate]
    refine ⟨(Statement.outside w.idempotency gate w.confirms w.published).single,
      ⟨h.clean.payments, h.clean.outbox⟩, fun d response hpc => ?_⟩
    by_cases hholds : (r.acquire w reply).2 <;> simp [hholds] at hpc
  | @persisted decision response eventId now w₁ pc free rows =>
    obtain ⟨hnew, hfree, hevent, rfl⟩ := insertRows_eq_some rows
    refine ⟨.cons ?_ .commit, World.clean_commit _ t, fun _ _ hpc => by cases hpc⟩
    have hput : Statements t w { w with
        payments :=
          w.payments.put t response.paymentId (r.paymentRow decision response now).inserted
        idempotency := w.idempotency ++ [r.idempotencyRecord response] } :=
      .cons (Statement.putPayment hfree rfl (by simp [hnew])).single
        (.outside (w.idempotency ++ [r.idempotencyRecord response]) w.gate w.confirms w.published)
    cases he : r.outboxEvent response eventId now with
    | none => exact hput
    | some e =>
      obtain ⟨hnewEvent, hfreeEvent⟩ := hevent e he
      refine .cons hput (.putEvent hfreeEvent rfl (by simp [hnewEvent]) ?_)
      simp [RowStore.view, aggregateId_outboxEvent he]

end Run.Inv

end Create

end PaymentsLab
