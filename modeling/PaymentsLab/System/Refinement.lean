import PaymentsLab.System.Integrity
import PaymentsLab.System.Ledger

/-!
# The system refines the ledger

`World.ledger` is the ledger of the committed rows. Every step of the system is one admissible move
of it (`Payments.Integrity.moves`): a commit of a worker, of a review or of a creation, or no move
at all. `Session.Moves` says which place of which program makes which move.
-/

namespace PaymentsLab

open Foundation

/-- The ledger of the committed rows. -/
def World.ledger (w : World) : Ledger where
  status := w.status
  kind k := (w.outbox.committed k).map fun e => (e.aggregateId, e.eventType)
  delivery k := (w.outbox.committed k).map (·.status)

namespace World

variable {w w' : World} {t : Session}

theorem ledger_congr (hp : ∀ k, w'.payments.committed k = w.payments.committed k)
    (ho : ∀ k, w'.outbox.committed k = w.outbox.committed k) : w'.ledger = w.ledger := by
  ext1
  · funext k
    simp [ledger, status, hp k]
  · funext k
    simp [ledger, ho k]
  · funext k
    simp [ledger, ho k]

@[simp] theorem ledger_status (w : World) : w.ledger.status = w.status :=
  rfl

theorem ledger_isRequest {p k : UUID} : w.ledger.IsRequest p k ↔
    ∃ e, w.outbox.committed k = some e ∧ e.aggregateId = p ∧ e.eventType = .paymentRequested := by
  simp [Ledger.IsRequest, ledger, Option.map_eq_some_iff]

theorem ledger_kind_eq_none {k : UUID} : w.ledger.kind k = none ↔ w.outbox.committed k = none := by
  simp [ledger]

/-- `k` is a committed event of payment `p` of this type. -/
def IsEvent (w : World) (p : UUID) (type : EventType) (k : UUID) (e : OutboxEvent) : Prop :=
  w.outbox.committed k = some e ∧ e.aggregateId = p ∧ e.eventType = type

theorem exists_isEvent {w : World} {p k : UUID} {type : EventType} :
    (∃ e, w.IsEvent p type k e) ↔ w.ledger.kind k = some (p, type) := by
  simp [IsEvent, ledger, Option.map_eq_some_iff]

theorem exists_isEvent_status {w : World} {p k : UUID} {type : EventType}
    {d : OutboxStatus} : (∃ e, w.IsEvent p type k e ∧ e.status = d) ↔
      w.ledger.kind k = some (p, type) ∧ w.ledger.delivery k = some d := by
  constructor
  · rintro ⟨e, ⟨he, rfl, rfl⟩, rfl⟩
    simp [ledger, he]
  · rintro ⟨hk, hd⟩
    obtain ⟨e, he⟩ := exists_isEvent.2 hk
    exact ⟨e, he, by simpa [ledger, he.1] using hd⟩

/-- The payment of an event has a status. -/
theorem WF.status_isSome (hw : w.WF) {p k : UUID} {type : EventType}
    (h : w.ledger.kind k = some (p, type)) : (w.status p).isSome := by
  obtain ⟨e, he, heq⟩ := Option.map_eq_some_iff.1 h
  cases heq
  simpa [status] using hw.event_payment he

theorem WF.noEvent (hw : w.WF) {p : UUID} (h : w.status p = none) : w.ledger.NoEvent p := by
  intro k type hk
  have := hw.status_isSome hk
  simp [h] at this

theorem ledger_put_payment (w : World) (t : Session) (k : UUID) (r : Payment) :
    { w with payments := w.payments.put t k r }.ledger = w.ledger :=
  ledger_congr (by simp) (by simp)

theorem ledger_put_event (w : World) (t : Session) (k : UUID) (r : OutboxEvent) :
    { w with outbox := w.outbox.put t k r }.ledger = w.ledger :=
  ledger_congr (by simp) (by simp)

theorem ledger_rollback (w : World) (t : Session) : (w.rollback t).ledger = w.ledger :=
  ledger_congr (by simp) (by simp)

/-- A commit without a payment row. -/
theorem status_commit_of_free (h : w.payments.writes t = fun _ => none) :
    (w.commit t).status = w.status := by
  funext k
  simp [status, h]

/-- A commit with one payment row. -/
theorem HoldsPayment.status_commit {k : UUID} {s : PaymentStatus} (h : w.HoldsPayment t k s) :
    (w.commit t).status = overlay (some (k, s)) w.status := by
  obtain ⟨row, hrow, rfl⟩ := h
  funext k'
  by_cases hk : k' = k
  · subst hk
    simp [status, overlay, hrow]
  · simp [status, overlay, hrow, Function.update_of_ne hk]

/-- A commit with at most one new event. -/
theorem ledger_commit_singleEvent {added : Option OutboxEvent}
    (hwrites : w.outbox.writes t = singleEvent added)
    (hadded : ∀ e, added = some e → e.status = .pending) :
    (w.commit t).ledger.kind =
        overlay (added.map fun e => (e.eventId, e.aggregateId, e.eventType)) w.ledger.kind ∧
      (w.commit t).ledger.delivery =
        overlay (added.map fun e => (e.eventId, .pending)) w.ledger.delivery := by
  have hcommitted (k : UUID) : (w.commit t).outbox.committed k =
      (singleEvent added k).or (w.outbox.committed k) := by
    rw [outbox_commit, RowStore.committed_commit, hwrites]
  simp only [ledger, hcommitted]
  cases added with
  | none => exact ⟨rfl, rfl⟩
  | some e =>
    refine ⟨funext fun k => ?_, funext fun k => ?_⟩
    · by_cases hk : k = e.eventId
      · simp [overlay, hk]
      · simp [overlay, hk, singleEvent_some]
    · by_cases hk : k = e.eventId
      · simp [overlay, hk, hadded e rfl]
      · simp [overlay, hk, singleEvent_some]

end World

/-- The delivery status a mark sets, if any. -/
def EventMark.delivery : EventMark → Option OutboxStatus
  | .sent => some .sent
  | .failed _ => some .failed
  | .reschedule _ => none

theorem OutboxRepository.status_setMark (at' : Instant) (m : EventMark) (row : OutboxEvent) :
    (OutboxRepository.setMark at' m row).status = m.delivery.getD row.status := by
  cases m <;> rfl

namespace Processor

def Finalization.outcome : Finalization → Outcome
  | .confirm .. => .confirmed
  | .fail .. => .failed

theorem Finalization.status_eq (f : Finalization) : f.status = f.outcome.status := by
  cases f <;> rfl

theorem Finalization.eventType_eq (f : Finalization) : f.eventType = f.outcome.eventType := by
  cases f <;> rfl

/-- A settlement either reschedules the event or finalizes the payment and closes the event. -/
theorem settlement_cases (cfg : Settings) (event : OutboxEvent) (payment : Payment)
    (outcome : Except CallError ProviderResponse) :
    (∃ n, settlement cfg event payment outcome = ⟨none, .reschedule n⟩) ∨
      ∃ f m d, settlement cfg event payment outcome = ⟨some f, m⟩ ∧ m.delivery = some d ∧
        d ≠ .pending := by
  unfold settlement
  split
  · split
    · exact .inr ⟨_, _, _, rfl, rfl, by decide⟩
    · exact .inr ⟨_, _, _, rfl, rfl, by decide⟩
  · split
    · simp only [handleProcessorError]
      split
      · exact .inr ⟨_, _, _, rfl, rfl, by decide⟩
      · exact .inl ⟨_, rfl⟩
    · exact .inr ⟨_, _, _, rfl, rfl, by decide⟩

end Processor

/-- The events after the commit of a worker. -/
theorem Processor.HoldsEvents.committed_commit {w : World} {t : Session}
    {added : Option OutboxEvent} {event : OutboxEvent} {m : EventMark}
    (hnew : ∀ e, added = some e → w.outbox.committed e.eventId = none)
    (hadded : ∀ e, added = some e → e.status = .pending)
    (h : Processor.HoldsEvents w t added (some (event, m))) :
    (w.commit t).ledger.kind =
        overlay (added.map fun e => (e.eventId, e.aggregateId, e.eventType)) w.ledger.kind ∧
      (w.commit t).ledger.delivery =
        overlay (added.map fun e => (e.eventId, .pending))
          (overlay (m.delivery.map fun d => (event.eventId, d)) w.ledger.delivery) := by
  obtain ⟨row, at', hrow, hwrites⟩ := h
  have hcommitted (k : UUID) : (w.commit t).outbox.committed k =
      if k = event.eventId then some (OutboxRepository.setMark at' m row)
      else (singleEvent added k).or (w.outbox.committed k) := by
    rw [World.outbox_commit, RowStore.committed_commit, hwrites]
    by_cases hk : k = event.eventId
    · simp [hk]
    · simp [hk]
  simp only [World.ledger, hcommitted]
  cases added with
  | none =>
    refine ⟨funext fun k => ?_, funext fun k => ?_⟩
    · by_cases hk : k = event.eventId
      · simp [overlay, hk, hrow]
      · simp [overlay, hk]
    · by_cases hk : k = event.eventId
      · cases hm : m.delivery <;>
          simp [overlay, hk, hrow, OutboxRepository.status_setMark, hm]
      · cases hm : m.delivery <;> simp [overlay, hk]
  | some e =>
    have hne : event.eventId ≠ e.eventId := by
      intro heq
      rw [heq, hnew e rfl] at hrow
      cases hrow
    have hsingle (k : UUID) (hk : k ≠ e.eventId) : singleEvent (some e) k = none := by
      rw [singleEvent_some, Function.update_of_ne hk]
    refine ⟨funext fun k => ?_, funext fun k => ?_⟩
    · by_cases hk : k = event.eventId
      · simp [overlay, hk, hrow, Function.update_of_ne hne]
      · by_cases he : k = e.eventId
        · simp [overlay, he, hne.symm]
        · simp [overlay, hk, hsingle k he, Function.update_of_ne he]
    · by_cases hk : k = event.eventId
      · cases hm : m.delivery <;>
          simp [overlay, hk, hrow, Function.update_of_ne hne,
            OutboxRepository.status_setMark, hm]
      · by_cases he : k = e.eventId
        · simp [overlay, he, hne.symm, hadded e rfl]
        · cases hm : m.delivery <;>
            simp [overlay, hk, hsingle k he, Function.update_of_ne he]

theorem OutboxRepository.ledger_mark {w w' : World} {t : Session} {eventId : UUID} {m : EventMark}
    {at' : Instant} (h : OutboxRepository.mark w t eventId m at' = some w') :
    w'.ledger = w.ledger := by
  unfold OutboxRepository.mark OutboxRepository.run at h
  obtain ⟨⟨s, b⟩, hu, rfl⟩ := Option.map_eq_some_iff.1 h
  rcases RowStore.update_cases hu with ⟨-, -, row, -, -, rfl⟩ | ⟨-, rfl, -⟩
  · exact w.ledger_put_event t eventId _
  · rfl

theorem Processor.ledger_markEvent {w w' : World} {t : Session} {event : OutboxEvent}
    {m : EventMark} {now : Instant} {draw : Int}
    (h : Processor.markEvent w t event m now draw = some w') : w'.ledger = w.ledger := by
  unfold Processor.markEvent at h
  split at h
  · exact OutboxRepository.ledger_mark h
  · cases h

/-! ## Workers -/

namespace Processor

/-- The move of a step of a worker. -/
inductive Moves (cfg : Settings) (l : Worker) : WorkerAction → Ledger.Move → Prop
  | skip {a : WorkerAction} : Moves cfg l a .skip
  | lose {event : OutboxEvent} (pc : l.pc = .committing event .lost) :
    Moves cfg l .commit (.lose event.eventId)
  | retry {event : OutboxEvent} {payment : Payment} {outcome : Except CallError ProviderResponse}
    {n : Int} (pc : l.pc = .committing event (.settled payment outcome))
    (settle : settlement cfg event payment outcome = ⟨none, .reschedule n⟩) :
    Moves cfg l .commit (.retry payment.paymentId event.eventId)
  | settle {event : OutboxEvent} {payment : Payment} {outcome : Except CallError ProviderResponse}
    {f : Finalization} {m : EventMark} {d : OutboxStatus} {e : UUID}
    (pc : l.pc = .committing event (.settled payment outcome))
    (settle : settlement cfg event payment outcome = ⟨some f, m⟩) :
    Moves cfg l .commit (.settle payment.paymentId event.eventId f.outcome d e)
  | fanOut {event : OutboxEvent} {success : Bool} {d : OutboxStatus}
    (pc : l.pc = .committingFanout event success) :
    Moves cfg l .commit (.fanOut event.eventId d)

/-- Only a commit is a move. -/
theorem Moves.eq_skip {cfg : Settings} {l : Worker} {a : WorkerAction} {m : Ledger.Move}
    (h : Moves cfg l a m) (ha : a ≠ .commit) : m = .skip := by
  cases h with
  | skip => rfl
  | _ => exact absurd rfl ha

namespace Worker.Inv

variable {cfg : Settings} {w w' : World} {t : Session} {l l' : Worker} {a : WorkerAction}

/-- Type and payment of a known event are those of its row. -/
theorem kind_known (h : Worker.Inv cfg w t l) {e : OutboxEvent}
    (he : e ∈ l.events ∨ l.pc.event = some e) :
    w.ledger.kind e.eventId = some (e.aggregateId, e.eventType) := by
  obtain ⟨row, hrow, hident⟩ := h.known e he
  simp [World.ledger, hrow, OutboxEvent.eventType_of_identity hident,
    OutboxEvent.aggregateId_of_identity hident]

/-- The requested events a worker knows. -/
theorem isRequest (h : Worker.Inv cfg w t l) (hfansOut : l.pc.fansOut = false) {e : OutboxEvent}
    (he : e ∈ l.events ∨ l.pc.event = some e) : w.ledger.IsRequest e.aggregateId e.eventId := by
  unfold Ledger.IsRequest
  rw [h.kind_known he, (h.kind e he).2 hfansOut]

/-- The commit of a worker that has lost the lock. -/
theorem ledger_commit_lost (h : Worker.Inv cfg w t l) {event : OutboxEvent}
    (pc : l.pc = .committing event .lost) :
    (w.commit t).ledger = w.ledger.apply (.lose event.eventId) := by
  obtain ⟨added, hem, hnew, hev⟩ := h.events
  rw [pc] at hem hev
  cases added with
  | some e => exact hem.elim
  | none =>
    obtain ⟨hkind, hdelivery⟩ := hev.committed_commit (by simp) (by simp)
    ext1
    · exact World.status_commit_of_free (h.free (by rw [pc]; rfl))
    · exact hkind
    · exact hdelivery

/-- The commit of a fan-out event. -/
theorem ledger_commit_fanout (h : Worker.Inv cfg w t l) {event : OutboxEvent} {success : Bool}
    (pc : l.pc = .committingFanout event success) :
    (w.commit t).ledger =
      w.ledger.apply (match (fanoutMark cfg event success).delivery with
        | some d => .fanOut event.eventId d
        | none => .skip) := by
  obtain ⟨added, hem, hnew, hev⟩ := h.events
  rw [pc] at hem hev
  cases added with
  | some e => exact hem.elim
  | none =>
    obtain ⟨hkind, hdelivery⟩ := hev.committed_commit (by simp) (by simp)
    have hstatus := World.status_commit_of_free (h.free (by rw [pc]; rfl))
    cases hd : (fanoutMark cfg event success).delivery with
    | none =>
      rw [hd] at hdelivery
      ext1
      · exact hstatus
      · exact hkind
      · exact hdelivery
    | some d =>
      rw [hd] at hdelivery
      ext1
      · exact hstatus
      · exact hkind
      · exact hdelivery

/-- The commit of a settled event. -/
theorem ledger_commit_settled (h : Worker.Inv cfg w t l) {event : OutboxEvent} {payment : Payment}
    {outcome : Except CallError ProviderResponse}
    (pc : l.pc = .committing event (.settled payment outcome)) :
    ∃ m, Moves cfg l .commit m ∧ w.ledger.Admissible m ∧
      (w.commit t).ledger = w.ledger.apply m := by
  have hrequest := h.isRequest (by rw [pc]; rfl) (.inr (by rw [pc]; rfl))
  rw [← h.payment event payment (by rw [pc]; rfl) (by rw [pc]; rfl)] at hrequest
  obtain ⟨added, hem, hnew, hev⟩ := h.events
  rw [pc] at hem hev
  rcases settlement_cases cfg event payment outcome with ⟨n, hs⟩ | ⟨f, m, d, hs, hm, hd⟩
  · have hstatus := (h.held payment .processing (by rw [pc]; rfl)
      (by simp [pc, WorkerPc.heldStatus, hs])).status_commit
    simp only [WorkerPc.emitted, hs, Option.map_none] at hem
    cases added with
    | some e => exact hem.elim
    | none =>
      obtain ⟨hkind, hdelivery⟩ := hev.committed_commit (by simp) (by simp)
      simp only [Branch.mark, hs] at hdelivery
      refine ⟨.retry payment.paymentId event.eventId, .retry pc hs, hrequest, ?_⟩
      ext1
      · exact hstatus
      · exact hkind
      · exact hdelivery
  · have hstatus := (h.held payment f.outcome.status (by rw [pc]; rfl)
      (by simp [pc, WorkerPc.heldStatus, hs, Finalization.status_eq])).status_commit
    simp only [WorkerPc.emitted, hs, Option.map_some] at hem
    cases added with
    | none => exact hem.elim
    | some e =>
      obtain ⟨eventId, now, rfl⟩ := hem
      obtain ⟨hkind, hdelivery⟩ := hev.committed_commit hnew (by
        intro e he
        cases he
        rfl)
      simp only [Branch.mark, hs, hm] at hdelivery
      refine ⟨.settle payment.paymentId event.eventId f.outcome d eventId, .settle pc hs,
        ⟨hrequest, hd, World.ledger_kind_eq_none.2 (hnew _ rfl)⟩, ?_⟩
      ext1
      · exact hstatus
      · rw [hkind, Option.map_some, OutboxEvent.eventType_new, Finalization.eventType_eq]
        rfl
      · exact hdelivery

/-- Every step of a worker is a move of the ledger. -/
theorem moves (h : Worker.Inv cfg w t l) (hn : Next cfg t w l a w' l') :
    ∃ m, Moves cfg l a m ∧ w.ledger.Admissible m ∧ w'.ledger = w.ledger.apply m := by
  have quiet {w' : World} {a : WorkerAction} (hsame : w'.ledger = w.ledger) :
      ∃ m, Moves cfg l a m ∧ w.ledger.Admissible m ∧ w'.ledger = w.ledger.apply m :=
    ⟨.skip, .skip, trivial, hsame⟩
  cases hn with
  | fetched | found | notFound | missed | unfinalized | fetchedFanout | ended => exact quiet rfl
  | called | published => exact quiet rfl
  | markedMissing pc mark => exact quiet (ledger_markEvent mark)
  | markedLost pc mark => exact quiet (ledger_markEvent mark)
  | marked pc mark => exact quiet (ledger_markEvent mark)
  | markedFanout pc mark => exact quiet (ledger_markEvent mark)
  | locked => exact quiet (World.ledger_put_payment _ _ _ _)
  | crashed => exact quiet (World.ledger_rollback _ _)
  | @finalized event payment outcome eventId now w' f pc final run =>
    obtain ⟨row₀, hwrites, -⟩ := h.held payment _ (by rw [pc]; rfl) (by rw [pc]; rfl)
    have hown : w.payments.writes t payment.paymentId = some row₀ := by
      rw [hwrites, Function.update_self]
    obtain ⟨-, -, -, -, rfl⟩ := Finalization.run_eq_some hown run
    exact quiet (World.ledger_congr (by simp) (by simp))
  | @committed event branch pc =>
    cases branch with
    | missing => exact absurd h.present (by simp [pc, WorkerPc.orphaned])
    | lost =>
      refine ⟨_, .lose pc, ?_, h.ledger_commit_lost pc⟩
      exact ⟨_, h.isRequest (by rw [pc]; rfl) (.inr (by rw [pc]; rfl))⟩
    | settled payment outcome => exact h.ledger_commit_settled pc
  | @committedFanout event success pc =>
    have hledger := h.ledger_commit_fanout pc
    cases hd : (fanoutMark cfg event success).delivery with
    | none =>
      rw [hd] at hledger
      exact quiet hledger
    | some d =>
      rw [hd] at hledger
      refine ⟨_, .fanOut pc, fun p hp => ?_, hledger⟩
      have hkind := h.kind_known (.inr (by rw [pc]; rfl : l.pc.event = some event))
      have hfan := h.kind event (.inr (by rw [pc]; rfl))
      rw [Ledger.IsRequest, hkind, Option.some.injEq, Prod.mk.injEq] at hp
      rw [pc] at hfan
      exact absurd (hfan.1 hp.2) (by simp [WorkerPc.fansOut])

/-- A step that is no commit leaves the ledger alone. -/
theorem ledger_eq (h : Worker.Inv cfg w t l) (hn : Next cfg t w l a w' l') (ha : a ≠ .commit) :
    w'.ledger = w.ledger := by
  obtain ⟨m, hm, -, hledger⟩ := h.moves hn
  cases hm.eq_skip ha
  exact hledger

end Worker.Inv

end Processor

/-! ## Reviews -/

namespace Review

/-- The step of a call that commits its decision: the commit after its `UPDATE`, or all of it at
once on a payment in review. -/
def Call.Decides (w : World) (c : Call) (a : Action) : Prop :=
  (∃ payment, c.pc = .updated payment) ∨
    c.pc = .start ∧ (∃ eventId now, a = .decide eventId now) ∧
      w.status c.paymentId = some .inReview

/-- The move of a step of a review call. -/
inductive Moves (w : World) (c : Call) : Action → Ledger.Move → Prop
  | skip {a : Action} : Moves w c a .skip
  | approve {a : Action} {eventId : UUID} (decides : c.Decides w a)
    (decision : c.decision = .approve) : Moves w c a (.approve c.paymentId eventId)
  | reject {a : Action} (decides : c.Decides w a) (decision : c.decision = .reject) :
    Moves w c a (.reject c.paymentId)

namespace Call.Inv

variable {w w' : World} {t : Session} {c c' : Call} {a : Action}

/-- The commit of a decision. -/
theorem ledger_commit (h : Call.Inv w t c) {payment : Payment} {eventId : UUID} {now : Instant}
    (pc : c.pc = .updated payment) (hn : Next t w c (.commit eventId now) w' c') :
    w.ledger.Admissible
        (match c.decision with
          | .approve => .approve c.paymentId eventId
          | .reject => .reject c.paymentId) ∧
      w'.ledger = w.ledger.apply
        (match c.decision with
          | .approve => .approve c.paymentId eventId
          | .reject => .reject c.paymentId) := by
  obtain ⟨hheld, hclean⟩ := h.held payment pc
  have hstatus := hheld.status_commit
  have hknown : (w.status c.paymentId).isSome := by
    simpa [World.status] using h.known (by rw [pc]; rfl)
  cases hn with
  | rejected _ hd =>
    rw [hd] at hstatus ⊢
    have hwrites : w.outbox.writes t = singleEvent none := hclean
    obtain ⟨hkind, hdelivery⟩ := w.ledger_commit_singleEvent hwrites (by simp)
    refine ⟨hknown, ?_⟩
    ext1
    · exact hstatus
    · exact hkind
    · exact hdelivery
  | @approved _ _ payment' _ _ _ hd hnew hfree =>
    rw [hd] at hstatus ⊢
    have hwrites : (w.outbox.put t eventId (c.requestedEvent payment' eventId now)).writes t =
        singleEvent (some (c.requestedEvent payment' eventId now)) := by
      rw [RowStore.writes_put_self, hclean, singleEvent_some]
      rfl
    obtain ⟨hkind, hdelivery⟩ := World.ledger_commit_singleEvent (w := { w with
      outbox := w.outbox.put t eventId (c.requestedEvent payment' eventId now) }) hwrites (by
        intro e he
        cases he
        rfl)
    rw [World.ledger_put_event] at hkind hdelivery
    refine ⟨⟨hknown, World.ledger_kind_eq_none.2 hnew⟩, ?_⟩
    ext1
    · exact hstatus
    · exact hkind
    · exact hdelivery

/-- The commit of a decision, as a move. -/
theorem moves_commit (h : Call.Inv w t c) {payment : Payment} {eventId : UUID} {now : Instant}
    (pc : c.pc = .updated payment) (hn : Next t w c (.commit eventId now) w' c')
    {w₀ : World} {c₀ : Call} (hdecides : c₀.Decides w₀ a) (hdecision : c₀.decision = c.decision)
    (hpayment : c₀.paymentId = c.paymentId) (hledger : w.ledger = w₀.ledger) :
    ∃ m, Moves w₀ c₀ a m ∧ w₀.ledger.Admissible m ∧ w'.ledger = w₀.ledger.apply m := by
  obtain ⟨hadm, hmove⟩ := h.ledger_commit pc hn
  rw [hledger, ← hpayment] at hadm hmove
  cases hd : c.decision with
  | approve =>
    rw [hd] at hadm hmove hdecision
    exact ⟨_, .approve hdecides hdecision, hadm, hmove⟩
  | reject =>
    rw [hd] at hadm hmove hdecision
    exact ⟨_, .reject hdecides hdecision, hadm, hmove⟩

/-- Every step of a review call is a move of the ledger. -/
theorem moves (hw : w.WF) (h : Call.Inv w t c) (hn : Next t w c a w' c') :
    ∃ m, Moves w c a m ∧ w.ledger.Admissible m ∧ w'.ledger = w.ledger.apply m := by
  have quiet {w' : World} {a : Action} (hsame : w'.ledger = w.ledger) :
      ∃ m, Moves w c a m ∧ w.ledger.Admissible m ∧ w'.ledger = w.ledger.apply m :=
    ⟨.skip, .skip, trivial, hsame⟩
  cases hn with
  | loaded | refused | refusedAtOnce | unmatched | recorded => exact quiet rfl
  | updated => exact quiet (World.ledger_put_payment _ _ _ _)
  | crashed => exact quiet (World.ledger_rollback _ _)
  | approved pc hd hnew hfree =>
    exact h.moves_commit pc (.approved pc hd hnew hfree) (.inl ⟨_, pc⟩) rfl rfl rfl
  | @rejected _ _ payment eventId now pc hd =>
    have hn : Next t w c (.commit eventId now) (w.commit t) { c with pc := .committed payment } :=
      .rejected pc hd
    exact h.moves_commit pc hn (.inl ⟨_, pc⟩) rfl rfl rfl
  | decided load update commit =>
    obtain ⟨pc, row, hrow, hstatus, rfl, rfl, h₂⟩ := h.decided hw load update
    refine h₂.moves_commit rfl commit (.inr ⟨pc, ⟨_, _, rfl⟩, ?_⟩) rfl rfl
      (World.ledger_put_payment _ _ _ _)
    simp [World.status, hrow, hstatus]

end Call.Inv

end Review

/-! ## Creations -/

namespace Create

/-- The move of a step of a creation. -/
inductive Moves (r : Run) : Action → Ledger.Move → Prop
  | skip {a : Action} : Moves r a .skip
  | create {decision : ControlDecision} {response : PaymentAcceptedResponse} {eventId : UUID}
    {now : Instant} (pc : r.pc = .persist decision response) :
    Moves r (.persist eventId now) (.create response.paymentId response.status)
  | createWith {decision : ControlDecision} {response : PaymentAcceptedResponse} {eventId : UUID}
    {now : Instant} {e : OutboxEvent} (pc : r.pc = .persist decision response)
    (event : r.outboxEvent response eventId now = some e) :
    Moves r (.persist eventId now)
      (.createWith response.paymentId response.status e.eventId e.eventType)

theorem ControlDecision.finalStatus_cases (d : ControlDecision) :
    d.finalStatus = .blocked ∨ d.finalStatus = .inReview ∨ d.finalStatus = .received := by
  unfold finalStatus resolveStatusFromDecisions
  split
  · exact .inl rfl
  · split
    · exact .inr (.inl rfl)
    · exact .inr (.inr rfl)

/-- A creation without an event blocks its payment. -/
theorem Run.outboxEvent_eq_none {r : Run} {response : PaymentAcceptedResponse}
    {d : ControlDecision} (hs : response.status = d.finalStatus) {eventId : UUID} {now : Instant}
    (h : r.outboxEvent response eventId now = none) : response.status = .blocked := by
  rcases d.finalStatus_cases with hd | hd | hd
  · rw [hs, hd]
  · simp [outboxEvent, hs, hd] at h
  · simp [outboxEvent, hs, hd] at h

/-- The event of a creation goes with the status of its payment. -/
theorem Run.outboxEvent_eq_some {r : Run} {response : PaymentAcceptedResponse} {eventId : UUID}
    {now : Instant} {e : OutboxEvent} (h : r.outboxEvent response eventId now = some e) :
    e.status = .pending ∧
      (response.status = .received ∧ e.eventType = .paymentRequested ∨
        response.status = .inReview ∧ e.eventType = .paymentReviewRequired) := by
  unfold outboxEvent at h
  split at h
  · next hs =>
    cases h
    exact ⟨rfl, .inl ⟨hs, rfl⟩⟩
  · next hs =>
    cases h
    exact ⟨rfl, .inr ⟨hs, rfl⟩⟩
  · cases h

/-- What the session of a creation holds before its commit. -/
theorem Run.insertRows_holds {r : Run} {w w₁ : World} {t : Session} {decision : ControlDecision}
    {response : PaymentAcceptedResponse} {eventId : UUID} {now : Instant} (hclean : w.Clean t)
    (h : r.insertRows w t decision response eventId now = some w₁) :
    w₁.HoldsPayment t response.paymentId response.status ∧
      w₁.outbox.writes t = singleEvent (r.outboxEvent response eventId now) ∧
      w₁.ledger = w.ledger := by
  obtain ⟨-, -, -, rfl⟩ := insertRows_eq_some h
  refine ⟨⟨(r.paymentRow decision response now).inserted, ?_, rfl⟩, ?_, ?_⟩
  · rw [RowStore.writes_put_self, hclean.payments]
  · cases r.outboxEvent response eventId now with
    | none => exact hclean.outbox
    | some e => simp [hclean.outbox, singleEvent_some]
  · cases r.outboxEvent response eventId now with
    | none => exact World.ledger_congr (by simp) (by simp)
    | some e => exact World.ledger_congr (by simp) (by simp)

namespace Run.Inv

variable {w w' : World} {t : Session} {r r' : Run} {a : Action}

/-- Every step of a creation is a move of the ledger. -/
theorem moves (hw : w.WF) (h : Run.Inv w t r) (hn : Next t w r a w' r') :
    ∃ m, Moves r a m ∧ w.ledger.Admissible m ∧ w'.ledger = w.ledger.apply m := by
  have quiet {w' : World} {a : Action} (hsame : w'.ledger = w.ledger) :
      ∃ m, Moves r a m ∧ w.ledger.Admissible m ∧ w'.ledger = w.ledger.apply m :=
    ⟨.skip, .skip, trivial, hsame⟩
  cases hn with
  | replayed | unknown | polled | unresolved | answered | repolled | gaveUp | refused
  | controlled | conflicted | observed | crashed => exact quiet rfl
  | @acquired reply pc =>
    obtain ⟨gate, hgate⟩ := r.acquire_fst w reply
    rw [hgate]
    exact quiet rfl
  | @persisted decision response eventId now w₁ pc free rows =>
    obtain ⟨hnew, -, hevent, -⟩ := insertRows_eq_some rows
    obtain ⟨hheld, hwrites, hledger⟩ := insertRows_holds h.clean rows
    obtain ⟨paymentId, hbuilt⟩ := h.built decision response pc
    have hfinal : response.status = decision.finalStatus := by
      rw [hbuilt]
      rfl
    have hnone : w.status response.paymentId = none := by simp [World.status, hnew]
    have hstatus := hheld.status_commit
    rw [← World.ledger_status w₁, hledger] at hstatus
    obtain ⟨hkind, hdelivery⟩ := World.ledger_commit_singleEvent hwrites
      fun e he => (Run.outboxEvent_eq_some he).1
    rw [hledger] at hkind hdelivery
    cases he : r.outboxEvent response eventId now with
    | none =>
      rw [he] at hkind hdelivery
      refine ⟨_, .create pc, ⟨hnone, hw.noEvent hnone, Run.outboxEvent_eq_none hfinal he⟩, ?_⟩
      ext1
      · exact hstatus
      · exact hkind
      · exact hdelivery
    | some e =>
      rw [he] at hkind hdelivery
      refine ⟨_, .createWith pc he, ⟨hnone, hw.noEvent hnone,
        World.ledger_kind_eq_none.2 (hevent e he).1, (Run.outboxEvent_eq_some he).2⟩, ?_⟩
      ext1
      · exact hstatus
      · rw [hkind, Option.map_some, Run.aggregateId_outboxEvent he]
        rfl
      · exact hdelivery

end Run.Inv

end Create

/-! ## The system -/

/-- The move of a step of a session. -/
def Session.Moves (cfg : Processor.Settings) (w : World) :
    (t : Session) → t.Local → t.Act → Ledger.Move → Prop
  | .worker _, l, a, m => Processor.Moves cfg l a m
  | .review _, c, a, m => Review.Moves w c a m
  | .create _, r, a, m => Create.Moves r a m
  | .environment, _, _, m => m = .skip

namespace Payments

variable {cfg : Processor.Settings} {s s' : State cfg}

/-- Every step of the system is an admissible move of the ledger. -/
theorem Integrity.moves (h : Integrity s) {i : Session} {a : i.Act} (hstep : s.step i a = some s') :
    ∃ m, Session.Moves cfg s.world i (s.proc i) a m ∧ s.world.ledger.Admissible m ∧
      s'.world.ledger = s.world.ledger.apply m := by
  have hown := System.State.step_self hstep
  have hinv := h.inv i
  cases i with
  | worker n => exact Processor.Worker.Inv.moves hinv (Processor.Worker.next_of_step hown)
  | review n => exact Review.Call.Inv.moves h.wf hinv (Review.Call.next_of_step hown)
  | create n => exact Create.Run.Inv.moves h.wf hinv (Create.Run.next_of_step hown)
  | environment =>
    refine ⟨.skip, rfl, trivial, ?_⟩
    cases a with
    | expireGate key =>
      obtain ⟨w', l', he, rfl⟩ := System.State.step_eq_some.1 hstep
      cases he
      rfl

end Payments

end PaymentsLab
