import PaymentsLab.Processor.WorkerSteps

/-!
# What a worker holds at each place of its program

`Worker.Inv` ties the uncommitted rows of a worker's session to its place in `run_once`: the rows
it holds, and with which contents. Every step of the worker keeps it and is a sequence of
statements (`Worker.Inv.next`), and no other session can break it (`Worker.Inv.stable`).
-/

namespace PaymentsLab

open Foundation

/-- A mark on an event whose row is committed and not held. -/
theorem Processor.markEvent_eq_some {w w' : World} {t : Session} {event row : OutboxEvent}
    {m : EventMark} {now : Instant} {draw : Int}
    (hrow : w.outbox.committed event.eventId = some row)
    (hown : w.outbox.writes t event.eventId = none)
    (h : Processor.markEvent w t event m now draw = some w') :
    w.outbox.Free t event.eventId ∧
      w' = { w with
        outbox := w.outbox.put t event.eventId
          (OutboxRepository.setMark (EventMark.nextAttemptAt now draw m) m row) } := by
  unfold Processor.markEvent at h
  split at h
  · exact OutboxRepository.mark_eq_some hrow hown h
  · cases h

namespace Processor

/-! ## The live variables of a place -/

namespace WorkerPc

/-- The place is in the loop over the fan-out events. -/
def fansOut : WorkerPc → Bool
  | .fanout => true
  | .published _ _ => true
  | .committingFanout _ _ => true
  | _ => false

/-- The event in hand. -/
def event : WorkerPc → Option OutboxEvent
  | .missing event => some event
  | .loaded event _ => some event
  | .lost event => some event
  | .processing event _ => some event
  | .answered event _ _ => some event
  | .finalized event _ _ => some event
  | .committing event _ => some event
  | .published event _ => some event
  | .committingFanout event _ => some event
  | _ => none

/-- The event in hand has no payment. -/
def orphaned : WorkerPc → Bool
  | .missing _ => true
  | .committing _ .missing => true
  | _ => false

/-- The event in hand, once the lock on its payment is lost. -/
def lostEvent : WorkerPc → Option OutboxEvent
  | .lost event => some event
  | .committing event .lost => some event
  | _ => none

/-- The payment in hand. -/
def payment : WorkerPc → Option Payment
  | .loaded _ payment => some payment
  | .processing _ payment => some payment
  | .answered _ payment _ => some payment
  | .finalized _ payment _ => some payment
  | .committing _ (.settled payment _) => some payment
  | _ => none

/-- The finalization that is already in the session. -/
def emitted (cfg : Settings) : WorkerPc → Option (Payment × Finalization)
  | .finalized event payment outcome =>
    (settlement cfg event payment outcome).finalization.map fun f => (payment, f)
  | .committing event (.settled payment outcome) =>
    (settlement cfg event payment outcome).finalization.map fun f => (payment, f)
  | _ => none

/-- The status of the payment row the worker holds, while it holds one. -/
def heldStatus (cfg : Settings) : WorkerPc → Option PaymentStatus
  | .processing _ _ => some .processing
  | .answered _ _ _ => some .processing
  | .finalized event payment outcome =>
    some (((settlement cfg event payment outcome).finalization.map (·.status)).getD .processing)
  | .committing event (.settled payment outcome) =>
    some (((settlement cfg event payment outcome).finalization.map (·.status)).getD .processing)
  | _ => none

/-- The mark that is already on the event row. -/
def marked (cfg : Settings) : WorkerPc → Option (OutboxEvent × EventMark)
  | .committing event branch => some (event, branch.mark cfg event)
  | .committingFanout event success => some (event, fanoutMark cfg event success)
  | _ => none

end WorkerPc

/-- `added` is the event of the finalization `final`. -/
def IsEmission : Option (Payment × Finalization) → Option OutboxEvent → Prop
  | none, none => True
  | some (payment, f), some e =>
    ∃ eventId now, e = .new eventId payment.paymentId f.eventType (f.payload payment) now
  | _, _ => False

/-! ## The invariant -/

/-- The outbox rows a worker holds: the event it has added, which is new, and the event it has
marked. -/
def HoldsEvents (w : World) (t : Session) (added : Option OutboxEvent) :
    Option (OutboxEvent × EventMark) → Prop
  | none => w.outbox.writes t = singleEvent added
  | some (event, m) => ∃ row at', w.outbox.committed event.eventId = some row ∧
      w.outbox.writes t =
        Function.update (singleEvent added) event.eventId
          (some (OutboxRepository.setMark at' m row))

/-- What a worker holds at each place of its program. -/
structure Worker.Inv (cfg : Settings) (w : World) (t : Session) (l : Worker) : Prop where
  known : ∀ e, e ∈ l.events ∨ l.pc.event = some e → w.HasEvent e
  kind : ∀ e, e ∈ l.events ∨ l.pc.event = some e →
    (e.eventType = .paymentRequested ↔ l.pc.fansOut = false)
  payment : ∀ e p, l.pc.event = some e → l.pc.payment = some p → p.paymentId = e.aggregateId
  present : l.pc.orphaned = false
  free : l.pc.heldStatus cfg = none → w.payments.writes t = fun _ => none
  held : ∀ p status, l.pc.payment = some p → l.pc.heldStatus cfg = some status →
    w.HoldsPayment t p.paymentId status
  events : ∃ added, IsEmission (l.pc.emitted cfg) added ∧
    (∀ e, added = some e → w.outbox.committed e.eventId = none) ∧
    HoldsEvents w t added (l.pc.marked cfg)

namespace Worker.Inv

variable {cfg : Settings} {w w' : World} {t : Session} {l l' : Worker} {a : WorkerAction}

/-- At a place with no statement pending the worker holds nothing. -/
theorem clean (h : Worker.Inv cfg w t l) (hheld : l.pc.heldStatus cfg = none)
    (hemitted : l.pc.emitted cfg = none) (hmarked : l.pc.marked cfg = none) : w.Clean t := by
  refine ⟨h.free hheld, ?_⟩
  obtain ⟨added, hem, -, hev⟩ := h.events
  rw [hemitted] at hem
  rw [hmarked] at hev
  cases added with
  | none => exact hev
  | some e => exact hem.elim

/-- A place with no statement pending. -/
theorem of_clean (hclean : w.Clean t)
    (hknown : ∀ e, e ∈ l.events ∨ l.pc.event = some e → w.HasEvent e)
    (hkind : ∀ e, e ∈ l.events ∨ l.pc.event = some e →
      (e.eventType = .paymentRequested ↔ l.pc.fansOut = false))
    (hpayment : ∀ e p, l.pc.event = some e → l.pc.payment = some p → p.paymentId = e.aggregateId)
    (hpresent : l.pc.orphaned = false) (hheld : l.pc.heldStatus cfg = none)
    (hemitted : l.pc.emitted cfg = none)
    (hmarked : l.pc.marked cfg = none) : Worker.Inv cfg w t l where
  known := hknown
  kind := hkind
  payment := hpayment
  present := hpresent
  free _ := hclean.payments
  held p status _ hs := by
    rw [hheld] at hs
    cases hs
  events := ⟨none, by simp [hemitted, IsEmission], by simp, by
    rw [hmarked]
    exact hclean.outbox⟩

/-- A worker that has fetched nothing. -/
theorem idle (hclean : w.Clean t) (hpc : l.pc = .idle) (hevents : l.events = []) :
    Worker.Inv cfg w t l := by
  obtain ⟨breakers, events, pc⟩ := l
  cases hpc
  cases hevents
  exact of_clean hclean (fun e he => by simp [WorkerPc.event] at he)
    (fun e he => by simp [WorkerPc.event] at he) (fun e p he => by cases he) rfl rfl rfl rfl

/-- An added event and the marked event have different ids, so both rows are held. -/
theorem writes_added {added : Option OutboxEvent} {m : Option (OutboxEvent × EventMark)}
    (hnew : ∀ e, added = some e → w.outbox.committed e.eventId = none)
    (h : HoldsEvents w t added m) {e : OutboxEvent} (he : added = some e) :
    w.outbox.writes t e.eventId = some e := by
  subst he
  cases m with
  | none =>
    have h' : w.outbox.writes t = singleEvent (some e) := h
    rw [h', singleEvent_some_self]
  | some m =>
    obtain ⟨row, at', hrow, hw⟩ := h
    have hne : e.eventId ≠ m.1.eventId := by
      intro heq
      rw [← heq, hnew e rfl] at hrow
      cases hrow
    rw [hw, Function.update_of_ne hne, singleEvent_some_self]

/-- No other session can break it. -/
theorem stable (h : Worker.Inv cfg w t l) (hr : w.Rely t w') : Worker.Inv cfg w' t l where
  known e he := (h.known e he).stable hr
  kind := h.kind
  payment := h.payment
  present := h.present
  free hs := hr.payments.writes.trans (h.free hs)
  held p status hp hs := (h.held p status hp hs).stable hr
  events := by
    obtain ⟨added, hem, hnew, hev⟩ := h.events
    refine ⟨added, hem, fun e he => ?_, ?_⟩
    · rw [hr.outbox.held (by rw [writes_added hnew hev he]; rfl)]
      exact hnew e he
    · cases hm : l.pc.marked cfg with
      | none =>
        rw [hm] at hev
        exact hr.outbox.writes.trans hev
      | some m =>
        rw [hm] at hev
        obtain ⟨row, at', hrow, hw⟩ := hev
        refine ⟨row, at', ?_, hr.outbox.writes.trans hw⟩
        rw [hr.outbox.held (by rw [hw, Function.update_self]; rfl)]
        exact hrow

/-- Before its mark the event in hand is not held. -/
theorem writes_event (h : Worker.Inv cfg w t l) (hmarked : l.pc.marked cfg = none)
    {event : OutboxEvent} (hevent : l.pc.event = some event) :
    w.outbox.writes t event.eventId = none := by
  obtain ⟨row, hrow, hident⟩ := h.known event (.inr hevent)
  obtain ⟨added, hem, hnew, hev⟩ := h.events
  rw [hmarked] at hev
  have hwrites : w.outbox.writes t = singleEvent added := hev
  rw [hwrites]
  cases hs : singleEvent added event.eventId with
  | none => rfl
  | some e =>
    obtain ⟨he, hid⟩ := singleEvent_eq_some hs
    have := hnew e he
    rw [hid, hrow] at this
    cases this

/-- The row a mark leaves behind. -/
theorem writes_mark (h : Worker.Inv cfg w t l) (hmarked : l.pc.marked cfg = none)
    {event : OutboxEvent} (hevent : l.pc.event = some event) {m : EventMark} {now : Instant}
    {draw : Int} (hmark : markEvent w t event m now draw = some w') :
    ∃ row, w'.outbox.writes t event.eventId =
      some (OutboxRepository.setMark (EventMark.nextAttemptAt now draw m) m row) := by
  obtain ⟨row, hrow, -⟩ := h.known event (.inr hevent)
  obtain ⟨-, rfl⟩ := markEvent_eq_some hrow (h.writes_event hmarked hevent) hmark
  exact ⟨row, by rw [RowStore.writes_put_self, Function.update_self]⟩

/-- The statement of a mark on the event in hand, and what the worker holds after it. -/
theorem mark (hw : w.WF) (h : Worker.Inv cfg w t l) (hmarked : l.pc.marked cfg = none)
    {event : OutboxEvent} (hevent : l.pc.event = some event) {m : EventMark} {now : Instant}
    {draw : Int} (hmark : markEvent w t event m now draw = some w') :
    Statement t w w' ∧ w'.payments = w.payments ∧
      ∃ added, IsEmission (l.pc.emitted cfg) added ∧
        (∀ e, added = some e → w'.outbox.committed e.eventId = none) ∧
        HoldsEvents w' t added (some (event, m)) := by
  have hown := h.writes_event hmarked hevent
  obtain ⟨row, hrow, hident⟩ := h.known event (.inr hevent)
  obtain ⟨added, hem, hnew, hev⟩ := h.events
  rw [hmarked] at hev
  have hwrites : w.outbox.writes t = singleEvent added := hev
  obtain ⟨hfree, rfl⟩ := markEvent_eq_some hrow hown hmark
  refine ⟨.putEvent hfree ?_ ?_ ?_, rfl, added, hem, fun e he => ?_, row,
    EventMark.nextAttemptAt now draw m, ?_, ?_⟩
  · simpa using OutboxEvent.eventId_of_identity hident
  · intro r₀ hr₀
    cases hrow.symm.trans hr₀
    simp
  · have hp := hw.event_payment hrow
    simp only [RowStore.view, OutboxRepository.aggregateId_setMark, Option.isSome_or, hp,
      Bool.or_true]
  · simpa using hnew e he
  · simpa using hrow
  · rw [RowStore.writes_put_self, hwrites]

/-- A batch just fetched. -/
theorem fetch (hw : w.WF) {due : OutboxEvent → Bool} {ordered : List OutboxEvent} {n : Nat}
    (rows : OutboxRepository.Ordered w due ordered) {e : OutboxEvent} (he : e ∈ ordered.take n) :
    due e = true ∧ w.HasEvent e :=
  have hmem := rows.mem (List.mem_of_mem_take he)
  ⟨hmem.1, hw.hasEvent hmem.2⟩

/-- The rest of the batch, after one event has been taken from it. -/
theorem taken {event : OutboxEvent} {rest : List OutboxEvent} (hevents : l.events = event :: rest)
    {e : OutboxEvent} (he : e ∈ rest ∨ some event = some e) : e ∈ l.events := by
  rw [hevents]
  rcases he with he | he
  · exact List.mem_cons_of_mem _ he
  · cases he
    exact List.mem_cons_self

theorem kind_requested {now : Instant} {e : OutboxEvent}
    (h : OutboxRepository.dueRequested now e = true) : e.eventType = .paymentRequested := by
  simp only [OutboxRepository.dueRequested, decide_eq_true_eq] at h
  exact h.1

theorem kind_fanout {now : Instant} {e : OutboxEvent}
    (h : OutboxRepository.dueFanout now e = true) : e.eventType ≠ .paymentRequested := by
  simp only [OutboxRepository.dueFanout, decide_eq_true_eq] at h
  intro he
  rw [he] at h
  simp at h

/-- A step within the handling of one event keeps the batch, the event and the payment in hand. -/
theorem carry (h : Worker.Inv cfg w t l) (hw : w.WF) (hs : Statements t w w')
    (hevents : l'.events = l.events) (hevent : l'.pc.event = l.pc.event)
    (hfansOut : l'.pc.fansOut = l.pc.fansOut) (horphaned : l'.pc.orphaned = l.pc.orphaned)
    (hpayment : ∀ p', l'.pc.payment = some p' →
      ∃ p, l.pc.payment = some p ∧ p'.paymentId = p.paymentId)
    (free : l'.pc.heldStatus cfg = none → w'.payments.writes t = fun _ => none)
    (held : ∀ p status, l'.pc.payment = some p → l'.pc.heldStatus cfg = some status →
      w'.HoldsPayment t p.paymentId status)
    (events : ∃ added, IsEmission (l'.pc.emitted cfg) added ∧
      (∀ e, added = some e → w'.outbox.committed e.eventId = none) ∧
      HoldsEvents w' t added (l'.pc.marked cfg)) : Worker.Inv cfg w' t l' where
  known e he := by
    rw [hevents, hevent] at he
    exact hs.hasEvent hw (h.known e he)
  kind e he := by
    rw [hevents, hevent] at he
    rw [hfansOut]
    exact h.kind e he
  payment e p' he hp' := by
    rw [hevent] at he
    obtain ⟨p, hp, hid⟩ := hpayment p' hp'
    rw [hid]
    exact h.payment e p he hp
  present := horphaned.trans h.present
  free := free
  held := held
  events := events

/-- The end of a transaction: the worker holds nothing and goes on with its batch. -/
theorem ended (h : Worker.Inv cfg w t l) (hw : w.WF) (hs : Statements t w w') (hclean : w'.Clean t)
    (hevents : ∀ e ∈ l'.events, e ∈ l.events) (hevent : l'.pc.event = none)
    (hfansOut : l'.events = [] ∨ l'.pc.fansOut = l.pc.fansOut) (hpresent : l'.pc.orphaned = false)
    (hheld : l'.pc.heldStatus cfg = none) (hemitted : l'.pc.emitted cfg = none)
    (hmarked : l'.pc.marked cfg = none) : Worker.Inv cfg w' t l' := by
  refine of_clean hclean (fun e he => ?_) (fun e he => ?_) (fun e p he => ?_) hpresent
    hheld hemitted hmarked
  · rcases he with he | he
    · exact hs.hasEvent hw (h.known e (.inl (hevents e he)))
    · rw [hevent] at he
      cases he
  · rcases he with he | he
    · rcases hfansOut with hnil | hfansOut
      · rw [hnil] at he
        cases he
      · rw [hfansOut]
        exact h.kind e (.inl (hevents e he))
    · rw [hevent] at he
      cases he
  · rw [hevent] at he
    cases he

/-- The mark on the event in hand. -/
theorem marks (h : Worker.Inv cfg w t l) (hw : w.WF) {event : OutboxEvent} {m : EventMark}
    {now : Instant} {draw : Int} (hmark : markEvent w t event m now draw = some w')
    (hnone : l.pc.marked cfg = none) (hsome : l'.pc.marked cfg = some (event, m))
    (hevent : l.pc.event = some event) (hevents : l'.events = l.events)
    (hevent' : l'.pc.event = l.pc.event) (hfansOut : l'.pc.fansOut = l.pc.fansOut)
    (horphaned : l'.pc.orphaned = l.pc.orphaned) (hpayment : l'.pc.payment = l.pc.payment)
    (hheld : l'.pc.heldStatus cfg = l.pc.heldStatus cfg)
    (hemitted : l'.pc.emitted cfg = l.pc.emitted cfg) :
    Statements t w w' ∧ Worker.Inv cfg w' t l' := by
  obtain ⟨hs, hp, hadded⟩ := h.mark hw hnone hevent hmark
  refine ⟨hs.single, h.carry hw hs.single hevents hevent' hfansOut horphaned (fun p' hp' => ?_)
    (fun hn => ?_) (fun p status hp' hstatus => ?_) ?_⟩
  · exact ⟨p', hpayment ▸ hp', rfl⟩
  · rw [hp]
    exact h.free (hheld ▸ hn)
  · unfold World.HoldsPayment
    rw [hp]
    exact h.held p status (hpayment ▸ hp') (hheld ▸ hstatus)
  · rw [hemitted, hsome]
    exact hadded

/-- A batch is fetched, of events for the part of the program that handles it. -/
theorem fetches (hw : w.WF) (hclean : w.Clean t) {due : OutboxEvent → Bool}
    {ordered : List OutboxEvent} {n : Nat} (rows : OutboxRepository.Ordered w due ordered)
    (hevents : l'.events = ordered.take n)
    (hkind : ∀ e, due e = true → (e.eventType = .paymentRequested ↔ l'.pc.fansOut = false))
    (hevent : l'.pc.event = none) (hpresent : l'.pc.orphaned = false)
    (hheld : l'.pc.heldStatus cfg = none) (hemitted : l'.pc.emitted cfg = none)
    (hmarked : l'.pc.marked cfg = none) : Worker.Inv cfg w t l' := by
  have hfetched : ∀ e, e ∈ l'.events ∨ l'.pc.event = some e → due e = true ∧ w.HasEvent e := by
    intro e he
    rw [hevents, hevent] at he
    rcases he with he | he
    · exact fetch hw rows he
    · cases he
  refine of_clean hclean (fun e he => (hfetched e he).2) (fun e he => hkind e (hfetched e he).1)
    (fun e p he => ?_) hpresent hheld hemitted hmarked
  rw [hevent] at he
  cases he

/-- The lock on the payment in hand. -/
theorem locks (h : Worker.Inv cfg w t l) (hw : w.WF) {event : OutboxEvent} {payment row : Payment}
    (hpc : l.pc = .loaded event payment) (free : w.payments.Free t payment.paymentId)
    (view : w.payments.view t payment.paymentId = some row)
    (hw' : w' = { w with
      payments := w.payments.put t payment.paymentId
        { row with status := .processing, version := payment.version + 1 } }) :
    Statements t w w' ∧
      Worker.Inv cfg w' t { l with pc := .processing event (cfg.afterMarkProcessing payment) } := by
  obtain ⟨breakers, batch, pc⟩ := l
  cases hpc
  cases hw'
  have hc := h.clean rfl rfl rfl
  rw [RowStore.view_of_committed (by rw [hc.payments])] at view
  have hkey := hw.payments.committed_key view
  have hs : Statement t w { w with
      payments := w.payments.put t payment.paymentId
        { row with status := .processing, version := payment.version + 1 } } := by
    refine .putPayment free hkey fun r₀ hr₀ => ?_
    cases view.symm.trans hr₀
    rfl
  refine ⟨hs.single, h.carry hw hs.single rfl rfl rfl rfl (fun p' hp' => ?_) (fun hn => ?_)
    (fun p status hp' hstatus => ?_) ⟨none, trivial, by simp, hc.outbox⟩⟩
  · cases hp'
    exact ⟨payment, rfl, by simp⟩
  · cases hn
  · cases hp'
    cases hstatus
    refine ⟨{ row with status := .processing, version := payment.version + 1 }, ?_, rfl⟩
    rw [RowStore.writes_put_self, hc.payments, Settings.paymentId_afterMarkProcessing]

/-- The outcome of the payment in hand, with its event. -/
theorem finalizes (h : Worker.Inv cfg w t l) (hw : w.WF) {event : OutboxEvent} {payment : Payment}
    {outcome : Except CallError ProviderResponse} {eventId : UUID} {now : Instant}
    {f : Finalization} (hpc : l.pc = .answered event payment outcome)
    (final : (settlement cfg event payment outcome).finalization = some f)
    (run : f.run w t payment eventId now = some w') :
    Statements t w w' ∧
      Worker.Inv cfg w' t { l with pc := .finalized event payment outcome } := by
  obtain ⟨breakers, batch, pc⟩ := l
  cases hpc
  obtain ⟨row₀, hwrites, -⟩ := h.held payment _ rfl rfl
  have hclean : w.outbox.writes t = fun _ => none := by
    obtain ⟨added, hem, -, hev⟩ := h.events
    cases added with
    | none => exact hev
    | some e => exact hem.elim
  have hown : w.payments.writes t payment.paymentId = some row₀ := by
    rw [hwrites, Function.update_self]
  obtain ⟨hfree, hnew, -, hfreeEvent, rfl⟩ := Finalization.run_eq_some hown run
  have hkey := hw.payments.writes_key hown
  have hput : Statement t w { w with
      payments := w.payments.put t payment.paymentId (f.set payment row₀) } := by
    refine .putPayment hfree (by simpa using hkey) fun r₀ hr₀ => ?_
    simpa using hw.payments.writes_ident hown hr₀
  have hs := Statements.cons hput.single (.putEvent (r := .new eventId payment.paymentId
    f.eventType (f.payload payment) now) hfreeEvent rfl (by simp [hnew])
    (by simp [RowStore.view]))
  refine ⟨hs, h.carry hw hs rfl rfl rfl rfl (fun p' hp' => ⟨p', hp', rfl⟩) (fun hn => ?_)
    (fun p status hp' hstatus => ?_)
    ⟨some (.new eventId payment.paymentId f.eventType (f.payload payment) now), ?_, ?_, ?_⟩⟩
  · cases hn
  · cases hp'
    refine ⟨f.set payment row₀, ?_, ?_⟩
    · rw [RowStore.writes_put_self, hwrites, Function.update_idem]
    · simpa [WorkerPc.heldStatus, final] using hstatus
  · simp only [WorkerPc.emitted, final, Option.map_some]
    exact ⟨eventId, now, rfl⟩
  · intro e he
    cases he
    simpa using hnew
  · show RowStore.writes _ t = _
    rw [RowStore.writes_put_self, hclean, singleEvent_some]
    rfl

/-- Every step of a worker is a sequence of statements and keeps the invariant. -/
theorem next (hw : w.WF) (h : Worker.Inv cfg w t l) (hn : Next cfg t w l a w' l') :
    Statements t w w' ∧ Worker.Inv cfg w' t l' := by
  obtain ⟨breakers, batch, pc⟩ := l
  cases hn with
  | fetched pc rows =>
    cases pc
    exact ⟨.nil, fetches hw (h.clean rfl rfl rfl) rows rfl
      (fun e he => ⟨fun _ => rfl, fun _ => kind_requested he⟩) rfl rfl rfl rfl rfl⟩
  | found pc events row =>
    cases pc
    have hc := h.clean rfl rfl rfl
    refine ⟨.nil, of_clean hc (fun e he => h.known e (.inl (taken events he)))
      (fun e he => h.kind e (.inl (taken events he))) (fun e p he hp => ?_) rfl rfl rfl rfl⟩
    cases he
    cases hp
    rw [RowStore.view_of_committed (by rw [hc.payments])] at row
    exact hw.payments.committed_key row
  | notFound pc events row =>
    cases pc
    have hc := h.clean rfl rfl rfl
    rw [RowStore.view_of_committed (by rw [hc.payments])] at row
    have hknown := h.known _ (.inl (taken events (.inr rfl)))
    exact absurd row (Option.isSome_iff_ne_none.1 (hw.payment_of_hasEvent hknown))
  | markedMissing pc mark =>
    cases pc
    exact h.marks hw mark rfl rfl rfl rfl rfl rfl rfl rfl rfl rfl
  | locked pc free view => exact h.locks hw pc free view rfl
  | missed pc stale =>
    cases pc
    have hc := h.clean rfl rfl rfl
    refine ⟨.nil, h.carry hw .nil rfl rfl rfl rfl (fun p' hp' => ?_) (fun _ => hc.payments)
      (fun p status hp' => ?_) ⟨none, trivial, by simp, hc.outbox⟩⟩
    · cases hp'
    · cases hp'
  | markedLost pc mark =>
    cases pc
    exact h.marks hw mark rfl rfl rfl rfl rfl rfl rfl rfl rfl rfl
  | @called event payment started ended http run pc call =>
    cases pc
    have hs := Statement.outside (i := t) (w := w) w.idempotency w.gate
      (w.confirms ++ List.replicate run.confirms payment.paymentId) w.published
    refine ⟨hs.single, h.carry hw hs.single rfl rfl rfl rfl (fun p' hp' => ⟨p', hp', rfl⟩)
      (fun hn => ?_) h.held h.events⟩
    cases hn
  | finalized pc final run => exact h.finalizes hw pc final run
  | @unfinalized event payment outcome eventId now pc final =>
    cases pc
    refine ⟨.nil, h.carry hw .nil rfl rfl rfl rfl (fun p' hp' => ⟨p', hp', rfl⟩) (fun hn => ?_)
      (fun p status hp' hstatus => ?_) ?_⟩
    · cases hn
    · simp only [WorkerPc.heldStatus, final, Option.map_none, Option.getD_none] at hstatus
      exact h.held p status hp' hstatus
    · simp only [WorkerPc.emitted, final, Option.map_none]
      exact h.events
  | marked pc mark =>
    cases pc
    exact h.marks hw mark rfl rfl rfl rfl rfl rfl rfl rfl rfl rfl
  | committed pc =>
    cases pc
    exact ⟨Statement.commit.single, h.ended hw Statement.commit.single (w.clean_commit t)
      (fun e he => he) rfl (.inr rfl) rfl rfl rfl rfl⟩
  | fetchedFanout pc rows =>
    cases pc
    exact ⟨.nil, fetches hw (h.clean rfl rfl rfl) rows rfl
      (fun e he => ⟨fun hr => absurd hr (kind_fanout he), fun hf => by cases hf⟩)
      rfl rfl rfl rfl rfl⟩
  | @published event rest success pc events =>
    cases pc
    have hc := h.clean rfl rfl rfl
    have hs := Statement.outside (i := t) (w := w) w.idempotency w.gate w.confirms
      (if success then w.published ++ [event.eventId] else w.published)
    refine ⟨hs.single, of_clean ⟨hc.payments, hc.outbox⟩
      (fun e he => h.known e (.inl (taken events he)))
      (fun e he => h.kind e (.inl (taken events he))) (fun e p _ hp => ?_)
      rfl rfl rfl rfl⟩
    cases hp
  | markedFanout pc mark =>
    cases pc
    exact h.marks hw mark rfl rfl rfl rfl rfl rfl rfl rfl rfl rfl
  | committedFanout pc =>
    cases pc
    exact ⟨Statement.commit.single, h.ended hw Statement.commit.single (w.clean_commit t)
      (fun e he => he) rfl (.inr rfl) rfl rfl rfl rfl⟩
  | ended pc events =>
    have hc : w.Clean t := by
      rcases pc with pc | pc <;>
      · cases pc
        exact h.clean rfl rfl rfl
    exact ⟨.nil, h.ended hw .nil hc (fun e he => he) rfl (.inl events) rfl rfl rfl rfl⟩
  | crashed =>
    exact ⟨Statement.rollback.single, h.ended hw Statement.rollback.single (w.clean_rollback t)
      (by simp) rfl (.inl rfl) rfl rfl rfl rfl⟩

end Worker.Inv

end Processor

end PaymentsLab
