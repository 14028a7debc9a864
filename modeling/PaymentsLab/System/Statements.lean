import PaymentsLab.System.World

/-!
# What the statements of one session do to the others

`World.WF` is the integrity of the two tables at any moment of any run: rows sit under their own
keys, an uncommitted version differs from the committed row only in the columns an `UPDATE` sets,
and every event belongs to a payment. `Statement` is the repertoire of a session; `WF` is kept by
every statement (`Statements.wf`), and `World.Rely` is all that a session can see of the statements
of another one (`Statements.rely`).
-/

namespace PaymentsLab

open Foundation

/-- The columns of a payment no `UPDATE` sets; the other columns are blanked. -/
def Payment.identity (p : Payment) : Payment :=
  { p with status := .received, version := 0, lastError := none }

/-- The columns of an outbox event no `UPDATE` sets; the other columns are blanked. -/
def OutboxEvent.identity (e : OutboxEvent) : OutboxEvent :=
  { e with status := .pending, attempts := 0, nextAttemptAt := 0 }

theorem OutboxEvent.eventType_of_identity {e f : OutboxEvent} (h : e.identity = f.identity) :
    e.eventType = f.eventType := by
  simpa [identity] using congrArg OutboxEvent.eventType h

theorem OutboxEvent.aggregateId_of_identity {e f : OutboxEvent} (h : e.identity = f.identity) :
    e.aggregateId = f.aggregateId := by
  simpa [identity] using congrArg OutboxEvent.aggregateId h

theorem OutboxEvent.eventId_of_identity {e f : OutboxEvent} (h : e.identity = f.identity) :
    e.eventId = f.eventId := by
  simpa [identity] using congrArg OutboxEvent.eventId h

@[simp] theorem OutboxRepository.identity_setMark (at' : Instant) (m : EventMark)
    (row : OutboxEvent) : (OutboxRepository.setMark at' m row).identity = row.identity := by
  cases m <;> rfl

@[simp] theorem OutboxRepository.eventType_setMark (at' : Instant) (m : EventMark)
    (row : OutboxEvent) : (OutboxRepository.setMark at' m row).eventType = row.eventType := by
  cases m <;> rfl

@[simp] theorem OutboxRepository.aggregateId_setMark (at' : Instant) (m : EventMark)
    (row : OutboxEvent) : (OutboxRepository.setMark at' m row).aggregateId = row.aggregateId := by
  cases m <;> rfl

@[simp] theorem OutboxRepository.eventId_setMark (at' : Instant) (m : EventMark)
    (row : OutboxEvent) : (OutboxRepository.setMark at' m row).eventId = row.eventId := by
  cases m <;> rfl

/-! ## Statements of the repositories -/

/-- What an `UPDATE` of the `payments` table does. -/
theorem PaymentRepository.run_update {w w' : World} {t : Session} {k : UUID} {p : Payment → Bool}
    {f : Payment → Payment} {b : Bool}
    (h : PaymentRepository.run w (w.payments.update t k p f) = some (w', b)) :
    (b = true ∧ w.payments.Free t k ∧ ∃ row, w.payments.view t k = some row ∧ p row = true ∧
      w' = { w with payments := w.payments.put t k (f row) }) ∨
    (b = false ∧ w' = w ∧ ∀ row, w.payments.view t k = some row →
      w.payments.committed k ≠ none → w.payments.Free t k ∧ p row = false) := by
  unfold PaymentRepository.run at h
  obtain ⟨⟨s, b'⟩, hu, he⟩ := Option.map_eq_some_iff.1 h
  cases he
  rcases RowStore.update_cases hu with ⟨rfl, free, row, hv, hp, rfl⟩ | ⟨rfl, rfl, hn⟩
  · exact .inl ⟨rfl, free, row, hv, hp, rfl⟩
  · exact .inr ⟨rfl, rfl, hn⟩

/-- A mark on an outbox row that exists. -/
theorem OutboxRepository.mark_eq_some {w w' : World} {t : Session} {eventId : UUID}
    {m : EventMark} {at' : Instant} {row₀ : OutboxEvent}
    (hrow : w.outbox.committed eventId = some row₀) (hown : w.outbox.writes t eventId = none)
    (h : OutboxRepository.mark w t eventId m at' = some w') :
    w.outbox.Free t eventId ∧
      w' = { w with outbox := w.outbox.put t eventId (OutboxRepository.setMark at' m row₀) } := by
  have hview : w.outbox.view t eventId = some row₀ := by
    rw [RowStore.view_of_committed hown, hrow]
  unfold OutboxRepository.mark OutboxRepository.run at h
  obtain ⟨⟨s, b⟩, hu, rfl⟩ := Option.map_eq_some_iff.1 h
  rcases RowStore.update_cases hu with ⟨-, free, row, hv, -, rfl⟩ | ⟨-, -, hn⟩
  · cases hview.symm.trans hv
    exact ⟨free, rfl⟩
  · have hne : w.outbox.committed eventId ≠ none := by simp [hrow]
    exact absurd (hn row₀ hview hne).2 (by simp)

/-- A new outbox row. -/
theorem OutboxRepository.addEvent_eq_some {w w' : World} {t : Session} {e : OutboxEvent}
    (h : OutboxRepository.addEvent w t e = some w') :
    w.outbox.committed e.eventId = none ∧ (∀ t', w.outbox.writes t' e.eventId = none) ∧
      w.outbox.Free t e.eventId ∧
      w' = { w with outbox := w.outbox.put t e.eventId e } := by
  unfold OutboxRepository.addEvent at h
  obtain ⟨s, hs, rfl⟩ := Option.map_eq_some_iff.1 h
  obtain ⟨hc, hw, hf, rfl⟩ := RowStore.insert_eq_some hs
  exact ⟨hc, hw, hf, rfl⟩

/-! ## Integrity -/

namespace World

@[simp] theorem payments_commit (w : World) (t : Session) :
    (w.commit t).payments = w.payments.commit t :=
  rfl

@[simp] theorem outbox_commit (w : World) (t : Session) :
    (w.commit t).outbox = w.outbox.commit t :=
  rfl

@[simp] theorem payments_rollback (w : World) (t : Session) :
    (w.rollback t).payments = w.payments.rollback t :=
  rfl

@[simp] theorem outbox_rollback (w : World) (t : Session) :
    (w.rollback t).outbox = w.outbox.rollback t :=
  rfl

/-- Integrity of the tables. -/
structure WF (w : World) : Prop where
  payments : w.payments.Coherent Payment.paymentId Payment.identity
  outbox : w.outbox.Coherent OutboxEvent.eventId OutboxEvent.identity
  event_payment : ∀ {k r}, w.outbox.committed k = some r →
    (w.payments.committed r.aggregateId).isSome
  event_write_payment : ∀ {t k r}, w.outbox.writes t k = some r →
    (w.payments.view t r.aggregateId).isSome

theorem WF.empty : WF World.empty :=
  ⟨.empty, .empty, by simp [World.empty], by simp [World.empty]⟩

/-- What session `t` can rely on while other sessions take the world from `w` to `w'`. -/
structure Rely (t : Session) (w w' : World) : Prop where
  payments : w.payments.Rely Payment.identity t w'.payments
  outbox : w.outbox.Rely OutboxEvent.identity t w'.outbox

theorem Rely.refl (t : Session) (w : World) : Rely t w w :=
  ⟨.refl t _, .refl t _⟩

theorem Rely.trans {t : Session} {w w' w'' : World} (h : Rely t w w') (h' : Rely t w' w'') :
    Rely t w w'' :=
  ⟨h.payments.trans h'.payments, h.outbox.trans h'.outbox⟩

end World

/-- The repertoire of session `i`. -/
inductive Statement (i : Session) (w : World) : World → Prop
  /-- gate keys, idempotency records, provider calls and publications -/
  | outside (idempotency : List IdempotencyRecord) (gate : String → Bool)
    (confirms published : List UUID) :
    Statement i w { w with
      idempotency := idempotency, gate := gate, confirms := confirms, published := published }
  | putPayment {k : UUID} {r : Payment} (free : w.payments.Free i k) (key : r.paymentId = k)
    (same : ∀ r₀, w.payments.committed k = some r₀ → r.identity = r₀.identity) :
    Statement i w { w with payments := w.payments.put i k r }
  | putEvent {k : UUID} {r : OutboxEvent} (free : w.outbox.Free i k) (key : r.eventId = k)
    (same : ∀ r₀, w.outbox.committed k = some r₀ → r.identity = r₀.identity)
    (payment : (w.payments.view i r.aggregateId).isSome) :
    Statement i w { w with outbox := w.outbox.put i k r }
  | commit : Statement i w (w.commit i)
  | rollback : Statement i w (w.rollback i)

/-- Several statements of one session in a row. -/
inductive Statements (i : Session) (w : World) : World → Prop
  | nil : Statements i w w
  | cons {w' w'' : World} (first : Statements i w w') (last : Statement i w' w'') :
    Statements i w w''

theorem Statement.single {i : Session} {w w' : World} (h : Statement i w w') :
    Statements i w w' :=
  .cons .nil h

namespace Statement

variable {i : Session} {w w' : World}

/-- Integrity of the tables is kept by every statement. -/
theorem wf (h : Statement i w w') (hw : w.WF) : w'.WF := by
  cases h with
  | outside => exact ⟨hw.1, hw.2, hw.3, hw.4⟩
  | @putPayment k r free key same =>
    refine ⟨hw.payments.put free key same, hw.outbox, fun h => ?_, fun {t k' r'} h => ?_⟩
    · simpa using hw.event_payment h
    · have hv := hw.event_write_payment h
      simp only [RowStore.view, RowStore.committed_put, Option.isSome_or, Bool.or_eq_true] at hv ⊢
      refine hv.imp_left fun hv => ?_
      by_cases ht : t = i
      · subst ht
        rw [RowStore.writes_put_self]
        by_cases hk : r'.aggregateId = k
        · simp [hk]
        · rwa [Function.update_of_ne hk]
      · rwa [RowStore.writes_put_ne free ht]
  | @putEvent k r free key same payment =>
    refine ⟨hw.payments, hw.outbox.put free key same, fun h => hw.event_payment (by simpa using h),
      fun {t k' r'} h => ?_⟩
    by_cases ht : t = i
    · subst ht
      rw [RowStore.writes_put_self] at h
      by_cases hk : k' = k
      · subst hk
        rw [Function.update_self] at h
        cases h
        exact payment
      · rw [Function.update_of_ne hk] at h
        exact hw.event_write_payment h
    · rw [RowStore.writes_put_ne free ht] at h
      exact hw.event_write_payment h
  | commit =>
    refine ⟨hw.payments.commit i, hw.outbox.commit i, fun {k r} h => ?_, fun {t k r} h => ?_⟩
    · rw [World.outbox_commit, RowStore.committed_commit, Option.or_eq_some_iff] at h
      rcases h with h | ⟨-, h⟩
      · simpa [RowStore.view] using hw.event_write_payment h
      · simp [hw.event_payment h]
    · by_cases ht : t = i
      · subst ht
        simp at h
      · rw [World.outbox_commit, RowStore.writes_commit_ne _ ht] at h
        have hv := hw.event_write_payment h
        simp only [RowStore.view, World.payments_commit, RowStore.writes_commit_ne _ ht,
          RowStore.committed_commit, Option.isSome_or, Bool.or_eq_true] at hv ⊢
        exact hv.imp_right .inr
  | rollback =>
    refine ⟨hw.payments.rollback i, hw.outbox.rollback i, fun h => ?_, fun {t k r} h => ?_⟩
    · simpa using hw.event_payment (by simpa using h)
    · by_cases ht : t = i
      · subst ht
        simp at h
      · rw [World.outbox_rollback, RowStore.writes_rollback_ne _ ht] at h
        simpa [RowStore.view, RowStore.writes_rollback_ne _ ht] using hw.event_write_payment h

/-- What another session sees of a statement. -/
theorem rely (h : Statement i w w') (hw : w.WF) {t : Session} (ht : t ≠ i) : World.Rely t w w' := by
  cases h with
  | outside => exact ⟨.refl t _, .refl t _⟩
  | putPayment free => exact ⟨.put free ht, .refl t _⟩
  | putEvent free => exact ⟨.refl t _, .put free ht⟩
  | commit => exact ⟨.commit hw.payments ht, .commit hw.outbox ht⟩
  | rollback => exact ⟨.rollback ht, .rollback ht⟩

end Statement

namespace Statements

variable {i : Session} {w w' w'' : World}

theorem trans (h : Statements i w w') (h' : Statements i w' w'') : Statements i w w'' := by
  induction h' with
  | nil => exact h
  | cons _ last ih => exact .cons ih last

theorem wf (h : Statements i w w') (hw : w.WF) : w'.WF := by
  induction h with
  | nil => exact hw
  | cons _ last ih => exact last.wf ih

theorem rely (h : Statements i w w') (hw : w.WF) {t : Session} (ht : t ≠ i) :
    World.Rely t w w' := by
  induction h with
  | nil => exact .refl t w
  | cons first last ih => exact ih.trans (last.rely (first.wf hw) ht)

end Statements

/-! ## Sessions that hold nothing, and events that are committed -/

/-- Session `t` holds no row. -/
structure World.Clean (w : World) (t : Session) : Prop where
  payments : w.payments.writes t = fun _ => none
  outbox : w.outbox.writes t = fun _ => none

theorem World.Clean.stable {w w' : World} {t : Session} (h : w.Clean t) (hr : w.Rely t w') :
    w'.Clean t :=
  ⟨hr.payments.writes.trans h.payments, hr.outbox.writes.trans h.outbox⟩

theorem World.clean_commit (w : World) (t : Session) : (w.commit t).Clean t := by
  constructor <;> simp

theorem World.clean_rollback (w : World) (t : Session) : (w.rollback t).Clean t := by
  constructor <;> simp

/-- The only payment row session `t` holds is that of `k`, with this status. -/
def World.HoldsPayment (w : World) (t : Session) (k : UUID) (status : PaymentStatus) : Prop :=
  ∃ row, w.payments.writes t = Function.update (fun _ => none) k (some row) ∧ row.status = status

theorem World.HoldsPayment.stable {w w' : World} {t : Session} {k : UUID} {status : PaymentStatus}
    (h : w.HoldsPayment t k status) (hr : w.Rely t w') : w'.HoldsPayment t k status := by
  obtain ⟨row, hrow, hstatus⟩ := h
  exact ⟨row, hr.payments.writes.trans hrow, hstatus⟩

/-- The row is committed, up to the columns an `UPDATE` sets. -/
def World.HasEvent (w : World) (e : OutboxEvent) : Prop :=
  ∃ row, w.outbox.committed e.eventId = some row ∧ row.identity = e.identity

theorem World.HasEvent.stable {w w' : World} {t : Session} {e : OutboxEvent} (h : w.HasEvent e)
    (hr : w.Rely t w') : w'.HasEvent e := by
  obtain ⟨row, hrow, he⟩ := h
  obtain ⟨row', hrow', he'⟩ := hr.outbox.kept hrow
  exact ⟨row', hrow', he'.trans he⟩

/-- The rows of an ordered selection are committed. -/
theorem OutboxRepository.Ordered.mem {w : World} {due : OutboxEvent → Bool}
    {ordered : List OutboxEvent} (h : OutboxRepository.Ordered w due ordered) {e : OutboxEvent}
    (he : e ∈ ordered) : due e = true ∧ ∃ k, w.outbox.committed k = some e := by
  have hmem := List.mem_filter.1 (h.1.mem_iff.1 he)
  exact ⟨hmem.2, RowStore.mem_rows.1 hmem.1⟩

/-- Committed events stay, whoever moves. -/
theorem Statement.hasEvent {w w' : World} {i : Session} (h : Statement i w w') (hw : w.WF)
    {e : OutboxEvent} (he : w.HasEvent e) : w'.HasEvent e := by
  obtain ⟨row, hrow, hident⟩ := he
  cases h with
  | outside | putPayment | rollback => exact ⟨row, by simpa using hrow, hident⟩
  | putEvent => exact ⟨row, by simpa using hrow, hident⟩
  | commit =>
    cases hwrite : w.outbox.writes i e.eventId with
    | none => exact ⟨row, by simp [hwrite, hrow], hident⟩
    | some row' =>
      exact ⟨row', by simp [hwrite], (hw.outbox.writes_ident hwrite hrow).trans hident⟩

theorem Statements.hasEvent {w w' : World} {i : Session} (h : Statements i w w') (hw : w.WF)
    {e : OutboxEvent} (he : w.HasEvent e) : w'.HasEvent e := by
  induction h with
  | nil => exact he
  | cons first last ih => exact last.hasEvent (first.wf hw) ih

theorem World.WF.hasEvent {w : World} (hw : w.WF) {e : OutboxEvent}
    (h : ∃ k, w.outbox.committed k = some e) : w.HasEvent e := by
  obtain ⟨k, hk⟩ := h
  rw [← hw.outbox.committed_key hk] at hk
  exact ⟨e, hk, rfl⟩

theorem World.WF.payment_of_hasEvent {w : World} (hw : w.WF) {e : OutboxEvent}
    (h : w.HasEvent e) : (w.payments.committed e.aggregateId).isSome := by
  obtain ⟨row, hrow, hident⟩ := h
  rw [← OutboxEvent.aggregateId_of_identity hident]
  exact hw.event_payment hrow

/-- The outbox rows of a session that has added `added` and nothing else. -/
def singleEvent (added : Option OutboxEvent) (k : UUID) : Option OutboxEvent :=
  added.filter fun e => e.eventId = k

@[simp] theorem singleEvent_none : singleEvent none = fun _ => none :=
  rfl

@[simp] theorem singleEvent_some_self (e : OutboxEvent) :
    singleEvent (some e) e.eventId = some e := by
  simp [singleEvent]

theorem singleEvent_some (e : OutboxEvent) :
    singleEvent (some e) = Function.update (fun _ => none) e.eventId (some e) := by
  funext k
  by_cases hk : k = e.eventId
  · subst hk
    simp
  · simp [singleEvent, Function.update_of_ne hk, Ne.symm hk]

theorem singleEvent_eq_some {added : Option OutboxEvent} {k : UUID} {e : OutboxEvent}
    (h : singleEvent added k = some e) : added = some e ∧ e.eventId = k := by
  unfold singleEvent at h
  rw [Option.filter_eq_some_iff] at h
  exact ⟨h.1, by simpa using h.2⟩

end PaymentsLab
