import PaymentsLab.Contracts.Enums
import PaymentsLab.Contracts.Persistence

/-!
# The ledger

What the two tables are for, without rows, versions, sessions and locks: every payment has a
status, and every outbox event belongs to a payment, has a type and is pending, sent or failed.
A `Move` is what one commit does to the ledger.

Every commit of the services is an `Admissible` move. `Requests` is the discipline of the requested
events, that a payment has at most one and none before it is handed over to the processor; it is
kept where reviews decide payments that are in review.
-/

namespace PaymentsLab

/-- The statuses of a payment that has been handed over to the processor. -/
def PaymentStatus.Active (s : PaymentStatus) : Prop :=
  s = .received ∨ s = .processing ∨ s.Terminal

instance (s : PaymentStatus) : Decidable s.Active :=
  inferInstanceAs (Decidable (s = .received ∨ s = .processing ∨ s.Terminal))

theorem PaymentStatus.Terminal.active {s : PaymentStatus} (h : s.Terminal) : s.Active :=
  .inr (.inr h)

/-- A terminal outcome of a payment. -/
inductive Outcome
  | confirmed
  | failed
  deriving DecidableEq

def Outcome.status : Outcome → PaymentStatus
  | .confirmed => .confirmed
  | .failed => .failed

def Outcome.eventType : Outcome → EventType
  | .confirmed => .paymentConfirmed
  | .failed => .paymentFailed

@[simp] theorem Outcome.terminal_status (o : Outcome) : o.status.Terminal := by
  cases o <;> decide

@[simp] theorem Outcome.terminal_eventType (o : Outcome) : o.eventType.Terminal := by
  cases o <;> decide

@[simp] theorem Outcome.eventType_ne_requested (o : Outcome) : o.eventType ≠ .paymentRequested := by
  cases o <;> decide

/-- Statuses of payments; payments, types and delivery statuses of events. -/
@[ext]
structure Ledger where
  status : UUID → Option PaymentStatus
  kind : UUID → Option (UUID × EventType)
  delivery : UUID → Option OutboxStatus

/-- A map with one entry replaced, or none. -/
def overlay {α : Type} : Option (UUID × α) → (UUID → Option α) → UUID → Option α
  | some (k, a), f => Function.update f k (some a)
  | none, f => f

theorem overlay_cases {α : Type} (e : Option (UUID × α)) (f : UUID → Option α) (k : UUID) :
    overlay e f k = f k ∧ (∀ a, e ≠ some (k, a)) ∨
      ∃ a, e = some (k, a) ∧ overlay e f k = some a := by
  cases e with
  | none => exact .inl ⟨rfl, by simp⟩
  | some e =>
    obtain ⟨k', a⟩ := e
    by_cases hk : k = k'
    · subst hk
      exact .inr ⟨a, rfl, by simp [overlay]⟩
    · exact .inl ⟨by simp [overlay, Function.update_of_ne hk], by simp [Ne.symm hk]⟩

namespace Ledger

/-- What a commit can do. -/
inductive Move
  | skip
  /-- an event that is not a request has been published, or its publication given up -/
  | fanOut (event : UUID) (delivery : OutboxStatus)
  /-- a request is marked sent by a worker that has lost the optimistic lock -/
  | lose (event : UUID)
  /-- a request is rescheduled and its payment left in processing -/
  | retry (payment event : UUID)
  | settle (payment event : UUID) (outcome : Outcome) (delivery : OutboxStatus) (emitted : UUID)
  | approve (payment event : UUID)
  | reject (payment : UUID)
  | create (payment : UUID) (status : PaymentStatus)
  /-- a creation that adds an event -/
  | createWith (payment : UUID) (status : PaymentStatus) (event : UUID) (type : EventType)

namespace Move

/-- The status a move assigns. -/
def assigned : Move → Option (UUID × PaymentStatus)
  | .retry p _ => some (p, .processing)
  | .settle p _ o _ _ => some (p, o.status)
  | .approve p _ => some (p, .received)
  | .reject p => some (p, .blocked)
  | .create p s => some (p, s)
  | .createWith p s _ _ => some (p, s)
  | _ => none

/-- The event a move marks. -/
def marked : Move → Option (UUID × OutboxStatus)
  | .fanOut k d => some (k, d)
  | .lose k => some (k, .sent)
  | .settle _ k _ d _ => some (k, d)
  | _ => none

/-- The event a move adds. -/
def added : Move → Option (UUID × UUID × EventType)
  | .settle p _ o _ e => some (e, p, o.eventType)
  | .approve p k => some (k, p, .paymentRequested)
  | .createWith p _ k type => some (k, p, type)
  | _ => none

end Move

/-- The ledger after a move. -/
def apply (L : Ledger) (m : Move) : Ledger where
  status := overlay m.assigned L.status
  kind := overlay m.added L.kind
  delivery := overlay (m.added.map fun e => (e.1, .pending)) (overlay m.marked L.delivery)

/-- `k` is a requested event of `p`. -/
def IsRequest (L : Ledger) (p k : UUID) : Prop :=
  L.kind k = some (p, .paymentRequested)

/-- Payment `p` has no event. -/
def NoEvent (L : Ledger) (p : UUID) : Prop :=
  ∀ k type, L.kind k ≠ some (p, type)

/-- The moves of the services: identities that are introduced are new, the worker acts on requests,
and a creation decides what becomes of its payment. -/
def Admissible (L : Ledger) : Move → Prop
  | .skip => True
  | .fanOut k _ => ∀ p, ¬ L.IsRequest p k
  | .lose k => ∃ p, L.IsRequest p k
  | .retry p k => L.IsRequest p k
  | .settle p k _ d e => L.IsRequest p k ∧ d ≠ .pending ∧ L.kind e = none
  | .approve p k => (L.status p).isSome ∧ L.kind k = none
  | .reject p => (L.status p).isSome
  | .create p s => L.status p = none ∧ L.NoEvent p ∧ s = .blocked
  | .createWith p s k type => L.status p = none ∧ L.NoEvent p ∧ L.kind k = none ∧
      (s = .received ∧ type = .paymentRequested ∨ s = .inReview ∧ type = .paymentReviewRequired)

/-! ## What a move changes -/

section Frame

variable {L : Ledger} {m : Move} {p k : UUID}

theorem status_apply (L : Ledger) (m : Move) (p : UUID) :
    (L.apply m).status p = L.status p ∧ (∀ s, m.assigned ≠ some (p, s)) ∨
      ∃ s, m.assigned = some (p, s) ∧ (L.apply m).status p = some s :=
  overlay_cases m.assigned L.status p

theorem kind_apply (L : Ledger) (m : Move) (k : UUID) :
    (L.apply m).kind k = L.kind k ∧ (∀ e, m.added ≠ some (k, e)) ∨
      ∃ e, m.added = some (k, e) ∧ (L.apply m).kind k = some e :=
  overlay_cases m.added L.kind k

/-- The delivery status of an event a move does not add. -/
theorem delivery_apply (hold : ∀ e, m.added ≠ some (k, e)) :
    (L.apply m).delivery k = L.delivery k ∧ (∀ d, m.marked ≠ some (k, d)) ∨
      ∃ d, m.marked = some (k, d) ∧ (L.apply m).delivery k = some d := by
  have hsame : (L.apply m).delivery k = overlay m.marked L.delivery k := by
    rcases overlay_cases (m.added.map fun e => (e.1, OutboxStatus.pending))
      (overlay m.marked L.delivery) k with ⟨h, -⟩ | ⟨d, h, -⟩
    · exact h
    · obtain ⟨⟨k', e⟩, he, heq⟩ := Option.map_eq_some_iff.1 h
      cases heq
      exact absurd he (hold e)
  rw [hsame]
  exact overlay_cases m.marked L.delivery k

/-- A new event is pending. -/
theorem delivery_added {e : UUID × EventType} (h : m.added = some (k, e)) :
    (L.apply m).delivery k = some .pending := by
  simp [apply, h, overlay]

/-- An event a move adds did not exist. -/
theorem Admissible.kind_added (h : L.Admissible m) {e : UUID × EventType}
    (he : m.added = some (k, e)) : L.kind k = none := by
  cases m <;> cases he
  · exact h.2.2
  · exact h.2
  · exact h.2.2.1

/-- Events keep their payment and type. -/
theorem Admissible.kind_kept (h : L.Admissible m) {e : UUID × EventType}
    (hk : L.kind k = some e) : (L.apply m).kind k = some e := by
  rcases L.kind_apply m k with ⟨hsame, -⟩ | ⟨e', he', -⟩
  · rw [hsame, hk]
  · rw [h.kind_added he'] at hk
    cases hk

/-- The requests after a move. -/
theorem isRequest_apply (h : (L.apply m).IsRequest p k) :
    L.IsRequest p k ∧ (∀ e, m.added ≠ some (k, e)) ∨ m = .approve p k ∨
      ∃ s, m = .createWith p s k .paymentRequested := by
  unfold IsRequest at h
  rcases L.kind_apply m k with ⟨hsame, hold⟩ | ⟨e, he, hnew⟩
  · exact .inl ⟨hsame.symm.trans h, hold⟩
  · rw [hnew] at h
    cases h
    cases m with
    | settle p' k' o d e' =>
      simp only [Move.added, Option.some.injEq, Prod.mk.injEq] at he
      exact absurd he.2.2 o.eventType_ne_requested
    | approve p' k' =>
      cases he
      exact .inr (.inl rfl)
    | createWith p' s k' type =>
      cases he
      exact .inr (.inr ⟨s, rfl⟩)
    | _ => cases he

end Frame

/-! ## The discipline of the requests -/

/-- A payment with a request has been handed over to the processor. -/
def RequestsActive (L : Ledger) : Prop :=
  ∀ ⦃p k⦄, L.IsRequest p k → ∃ s, L.status p = some s ∧ s.Active

/-- A payment has at most one request. -/
def RequestsUnique (L : Ledger) : Prop :=
  ∀ ⦃p k k'⦄, L.IsRequest p k → L.IsRequest p k' → k = k'

section Requests

variable {L : Ledger} {m : Move}

/-- A payment that is not active has no request. -/
theorem RequestsActive.not_isRequest (h : L.RequestsActive) {p k : UUID} {s : PaymentStatus}
    (hs : L.status p = some s) (hactive : ¬ s.Active) : ¬ L.IsRequest p k := by
  intro hk
  obtain ⟨s', hs', ha⟩ := h hk
  cases hs.symm.trans hs'
  exact hactive ha

/-- Requests stay with active payments as long as no active payment is rejected. -/
theorem RequestsActive.apply (h : L.RequestsActive) (ha : L.Admissible m)
    (hreject : ∀ p s, m = .reject p → L.status p = some s → ¬ s.Active) :
    (L.apply m).RequestsActive := by
  intro p k hk
  rcases isRequest_apply hk with ⟨hold, -⟩ | rfl | ⟨s, rfl⟩
  · rcases L.status_apply m p with ⟨hsame, -⟩ | ⟨s, hs, hnew⟩
    · rw [hsame]
      exact h hold
    · refine ⟨s, hnew, ?_⟩
      cases m with
      | retry => cases hs; exact .inr (.inl rfl)
      | settle => cases hs; exact (Outcome.terminal_status _).active
      | approve => cases hs; exact .inl rfl
      | reject =>
        cases hs
        obtain ⟨s, hs, hactive⟩ := h hold
        exact absurd hactive (hreject p s rfl hs)
      | create => cases hs; exact absurd hold (ha.2.1 _ _)
      | createWith => cases hs; exact absurd hold (ha.2.1 _ _)
      | _ => cases hs
  · exact ⟨.received, by simp [Ledger.apply, Move.assigned, overlay], .inl rfl⟩
  · rcases ha.2.2.2 with ⟨rfl, -⟩ | ⟨-, hne⟩
    · exact ⟨.received, by simp [Ledger.apply, Move.assigned, overlay], .inl rfl⟩
    · cases hne

/-- A payment gets no second request as long as approvals find their payment without one. -/
theorem RequestsUnique.apply (h : L.RequestsUnique) (ha : L.Admissible m)
    (happrove : ∀ p k, m = .approve p k → ∀ k', ¬ L.IsRequest p k') :
    (L.apply m).RequestsUnique := by
  intro p k k' hk hk'
  rcases isRequest_apply hk with ⟨hold, hadd⟩ | rfl | ⟨s, rfl⟩
  · rcases isRequest_apply hk' with ⟨hold', -⟩ | rfl | ⟨s, rfl⟩
    · exact h hold hold'
    · exact absurd hold (happrove p k' rfl k)
    · exact absurd hold (ha.2.1 _ _)
  · rcases isRequest_apply hk' with ⟨hold', -⟩ | heq | ⟨s, heq⟩
    · exact absurd hold' (happrove p k rfl k')
    · cases heq
      rfl
    · cases heq
  · rcases isRequest_apply hk' with ⟨hold', -⟩ | heq | ⟨s', heq⟩
    · exact absurd hold' (ha.2.1 _ _)
    · cases heq
    · cases heq
      rfl

end Requests

end Ledger

end PaymentsLab
