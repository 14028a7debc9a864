import PaymentsLab.System.Observations

/-!
# The books of the system

The gauges the services report are read off one of the two tables each: `backlog_size` and
`oldest_pending_lag_seconds` off the outbox, `count_in_review` off the payments. With one processor
and atomic reviews the two tables agree in number as well (`books_balance`), and what has left the
system on the event bus is true of the payments for good (`published_truthful`).
-/

namespace PaymentsLab

open Foundation

namespace OutboxRepository

/-- A request that waits for the processor. -/
def isBacklog (row : OutboxEvent) : Bool :=
  row.status = .pending ∧ row.eventType = .paymentRequested

/-- `backlog_size`. -/
def backlogSize (w : World) : Nat :=
  w.outbox.rows.countP isBacklog

/-- `oldest_pending_lag_seconds`, in microseconds. -/
def oldestPendingLag (w : World) (now : Instant) : Int :=
  match ((w.outbox.rows.filter isBacklog).map (·.createdAt)).min? with
  | none => 0
  | some oldest => max 0 (now - oldest)

/-- No request waits longer than the lag. -/
theorem age_le_oldestPendingLag {w : World} {k : UUID} {row : OutboxEvent}
    (hrow : w.outbox.committed k = some row) (hbacklog : isBacklog row = true) (now : Instant) :
    now - row.createdAt ≤ oldestPendingLag w now := by
  have hmem : row.createdAt ∈ (w.outbox.rows.filter isBacklog).map (·.createdAt) :=
    List.mem_map_of_mem (List.mem_filter.2 ⟨RowStore.mem_rows.2 ⟨k, hrow⟩, hbacklog⟩)
  unfold oldestPendingLag
  split
  · next hnone =>
    rw [List.min?_eq_none_iff.1 hnone] at hmem
    cases hmem
  · next oldest holdest =>
    have hle : oldest ≤ row.createdAt := (List.min?_eq_some_iff.1 holdest).2 _ hmem
    have hlag : now - row.createdAt ≤ now - oldest := Int.sub_le_sub_left hle now
    exact Int.le_trans hlag (Int.le_max_right _ _)

/-- Without a backlog there is no lag. -/
theorem oldestPendingLag_of_backlogSize {w : World} (h : backlogSize w = 0) (now : Instant) :
    oldestPendingLag w now = 0 := by
  rw [backlogSize, List.countP_eq_length_filter, List.length_eq_zero_iff] at h
  simp [oldestPendingLag, h]

end OutboxRepository

/-- `count_in_review`. -/
def PaymentRepository.countInReview (w : World) : Nat :=
  w.payments.rows.countP fun row => row.status = .inReview

/-- The two tables of `w` agree in number: the backlog is the payments that are with the processor,
every outcome has its event, and every payment is counted once. -/
structure World.Balanced (w : World) : Prop where
  backlog : OutboxRepository.backlogSize w =
    w.payments.rows.countP fun row => row.status = .received ∨ row.status = .processing
  outcomes : ∀ o : Outcome, (w.outbox.rows.countP fun row => row.eventType = o.eventType) =
    w.payments.rows.countP fun row => row.status = o.status
  total : w.payments.rows.length = OutboxRepository.backlogSize w +
    PaymentRepository.countInReview w +
    (w.payments.rows.countP fun row => row.status = .blocked) +
    (w.outbox.rows.countP fun row => row.eventType = .paymentConfirmed) +
    (w.outbox.rows.countP fun row => row.eventType = .paymentFailed)
  /-- a payment with the processor has waited no longer than the lag -/
  lag : ∀ now p, w.status p = some .received ∨ w.status p = some .processing →
    ∃ k e, w.IsEvent p .paymentRequested k e ∧
      now - e.createdAt ≤ OutboxRepository.oldestPendingLag w now
  caughtUp : ∀ now, OutboxRepository.backlogSize w = 0 →
    OutboxRepository.oldestPendingLag w now = 0

namespace World

variable {w : World}

/-- Events selected by a predicate are as many as the payments of these statuses, if they belong to
different payments and these are the payments they belong to. -/
theorem WF.countP_events (hw : w.WF) {P : OutboxEvent → Bool} {Q : Payment → Bool}
    (hunique : ∀ {k k' e e'}, w.outbox.committed k = some e → w.outbox.committed k' = some e' →
      P e = true → P e' = true → e.aggregateId = e'.aggregateId → k = k')
    (hlink : ∀ p, (∃ k e, w.outbox.committed k = some e ∧ P e = true ∧ e.aggregateId = p) ↔
      ∃ row, w.payments.committed p = some row ∧ Q row = true) :
    w.outbox.rows.countP P = w.payments.rows.countP Q := by
  have hevents : ((w.outbox.rows.filter P).map (·.aggregateId)).Nodup := by
    refine List.Nodup.map_on (fun e he e' he' heq => ?_) ?_
    · obtain ⟨he, hP⟩ := List.mem_filter.1 he
      obtain ⟨he', hP'⟩ := List.mem_filter.1 he'
      obtain ⟨k, hk⟩ := RowStore.mem_rows.1 he
      obtain ⟨k', hk'⟩ := RowStore.mem_rows.1 he'
      cases hunique hk hk' hP hP' heq
      exact Option.some.inj (hk.symm.trans hk')
    · exact (RowStore.nodup_rows fun _ _ hk => hw.outbox.committed_key hk).filter _
  have hpayments : ((w.payments.rows.filter Q).map (·.paymentId)).Nodup :=
    (RowStore.nodup_map_rows fun _ _ hk => hw.payments.committed_key hk).sublist
      (List.filter_sublist.map _)
  have hperm : ((w.outbox.rows.filter P).map (·.aggregateId)).Perm
      ((w.payments.rows.filter Q).map (·.paymentId)) := by
    refine (List.perm_ext_iff_of_nodup hevents hpayments).2 fun p => ?_
    simp only [List.mem_map, List.mem_filter, RowStore.mem_rows]
    constructor
    · rintro ⟨e, ⟨⟨k, hk⟩, hP⟩, rfl⟩
      obtain ⟨row, hrow, hQ⟩ := (hlink _).1 ⟨k, e, hk, hP, rfl⟩
      exact ⟨row, ⟨⟨_, hrow⟩, hQ⟩, hw.payments.committed_key hrow⟩
    · rintro ⟨row, ⟨⟨p, hrow⟩, hQ⟩, rfl⟩
      rw [← hw.payments.committed_key hrow] at hrow
      obtain ⟨k, e, hk, hP, heq⟩ := (hlink _).2 ⟨row, hrow, hQ⟩
      exact ⟨e, ⟨⟨k, hk⟩, hP⟩, heq⟩
  have hlength := hperm.length_eq
  rw [List.length_map, List.length_map] at hlength
  rw [List.countP_eq_length_filter, List.countP_eq_length_filter, hlength]

/-- Payments of a status, told by the ledger. -/
theorem exists_row_status {p : UUID} {s : PaymentStatus} :
    (∃ row, w.payments.committed p = some row ∧ row.status = s) ↔ w.status p = some s := by
  simp [status, Option.map_eq_some_iff]

/-- Payments that have left validation are in one of the phases of the books. -/
theorem length_rows_eq {rows : List Payment} (h : ∀ row ∈ rows, row.status ≠ .validated) :
    rows.length = (rows.countP fun row => row.status = .received ∨ row.status = .processing) +
      (rows.countP fun row => row.status = .inReview) +
      (rows.countP fun row => row.status = .blocked) +
      (rows.countP fun row => row.status = .confirmed) +
      (rows.countP fun row => row.status = .failed) := by
  induction rows with
  | nil => rfl
  | cons row rows ih =>
    have hrest := ih fun row' hrow' => h row' (List.mem_cons_of_mem _ hrow')
    have hrow := h row List.mem_cons_self
    simp only [List.length_cons, List.countP_cons]
    cases hs : row.status <;> simp [hs, -Bool.decide_or] at hrow ⊢ <;> omega

end World

namespace Payments

variable {cfg : Processor.Settings} {s₀ s s' : State cfg}

/-- With one processor and atomic reviews the books balance in every state. -/
theorem books_balance (h₀ : Initial s₀) (hrun : (payments cfg).Reaches oneProcessor s₀ s) :
    s.world.Balanced := by
  have h := (OneProcessorHolds.initial h₀).of_reaches hrun
  have hw := h.landed.integrity.wf
  have hkind {k : UUID} {e : OutboxEvent} (hk : s.world.outbox.committed k = some e) :
      s.world.ledger.kind k = some (e.aggregateId, e.eventType) := by
    simp [World.ledger, hk]
  have hpending (p : UUID) : (∃ k e, s.world.outbox.committed k = some e ∧
      OutboxRepository.isBacklog e = true ∧ e.aggregateId = p) ↔
      s.world.status p = some .received ∨ s.world.status p = some .processing := by
    rw [← World.ledger_status, ← (h.phases p).pending_iff]
    refine exists_congr fun k => ?_
    rw [Ledger.IsRequest, ← World.exists_isEvent_status]
    refine exists_congr fun e => ?_
    simp only [World.IsEvent, OutboxRepository.isBacklog, decide_eq_true_eq]
    tauto
  have hbacklog : OutboxRepository.backlogSize s.world = s.world.payments.rows.countP
      fun row => row.status = .received ∨ row.status = .processing := by
    refine hw.countP_events (fun {k k' e e'} hk hk' hP hP' heq => ?_) fun p => ?_
    · simp only [OutboxRepository.isBacklog, decide_eq_true_eq] at hP hP'
      have hrequest := (hkind hk).trans (by rw [hP.2])
      have hrequest' := (hkind hk').trans (by rw [hP'.2, ← heq])
      exact (h.phases _).request_unique hrequest hrequest'
    · rw [hpending, ← World.exists_row_status, ← World.exists_row_status, ← exists_or]
      simp [and_or_left]
  have houtcomes (o : Outcome) :
      (s.world.outbox.rows.countP fun row => row.eventType = o.eventType) =
      s.world.payments.rows.countP fun row => row.status = o.status := by
    refine hw.countP_events (fun {k k' e e'} hk hk' hP hP' heq => ?_) fun p => ?_
    · rw [decide_eq_true_eq] at hP hP'
      have houtcome := (hkind hk).trans (by rw [hP])
      have houtcome' := (hkind hk').trans (by rw [hP', ← heq])
      exact ((h.phases _).outcome_unique houtcome houtcome').1
    · simp only [decide_eq_true_eq]
      rw [World.exists_row_status, ← World.ledger_status, ← (h.phases p).outcome_iff o]
      refine exists_congr fun k => ?_
      rw [← World.exists_isEvent]
      refine exists_congr fun e => ?_
      simp only [World.IsEvent]
      tauto
  refine ⟨hbacklog, houtcomes, ?_, fun now p hp => ?_,
    fun now => (OutboxRepository.oldestPendingLag_of_backlogSize · now)⟩
  · have hconfirmed : (s.world.outbox.rows.countP fun row => row.eventType = .paymentConfirmed) =
        s.world.payments.rows.countP fun row => row.status = .confirmed := houtcomes .confirmed
    have hfailed : (s.world.outbox.rows.countP fun row => row.eventType = .paymentFailed) =
        s.world.payments.rows.countP fun row => row.status = .failed := houtcomes .failed
    rw [hbacklog, hconfirmed, hfailed]
    refine World.length_rows_eq fun row hrow => ?_
    obtain ⟨p, hp⟩ := RowStore.mem_rows.1 hrow
    exact (h.phases p).ne_validated (by simp [World.status, hp])
  · obtain ⟨k, e, hk, hbacklog, rfl⟩ := (hpending p).2 hp
    have htype := hbacklog
    simp only [OutboxRepository.isBacklog, decide_eq_true_eq] at htype
    exact ⟨k, e, ⟨hk, rfl, htype.2⟩, OutboxRepository.age_le_oldestPendingLag hk hbacklog now⟩

/-- The books of two creations, one of which is put in review. -/
theorem books_balance_twice : ∃ s : State sampleSettings,
    OutboxRepository.backlogSize s.world = 1 ∧ PaymentRepository.countInReview s.world = 1 ∧
      s.world.Balanced := by
  let sample : State sampleSettings :=
    fresh sampleSettings (fun _ => ⟨.approve, 1, "review", none, .start⟩)
      fun n => ⟨⟨"m", "c", "a", s!"k{n}"⟩, ⟨⟨10000, -2⟩, "BRL", .pix, none⟩, "trace", none, .start⟩
  have hrun : (System.State.run oneProcessor
      (creation 0 ⟨0, .allow, .allow⟩ 1 10 ++ creation 1 ⟨0, .review, .allow⟩ 2 11) sample).map
        (fun s => (OutboxRepository.backlogSize s.world, PaymentRepository.countInReview s.world)) =
      some (1, 1) := by
    decide
  obtain ⟨s, hs, heq⟩ := Option.map_eq_some_iff.1 hrun
  obtain ⟨hbacklog, hreview⟩ := Prod.mk.inj heq
  exact ⟨s, hbacklog, hreview, books_balance (fresh_initial _ _ _) (System.Reaches.of_run hs)⟩

end Payments

/-! ## What has left the system -/

/-- What has been published in `w` is true of the payments of `w'`. -/
structure World.TrulyPublished (w w' : World) : Prop where
  fanout : ∀ k ∈ w.published, ∃ e, w.outbox.committed k = some e ∧ e.eventType ≠ .paymentRequested
  outcome : ∀ k ∈ w.published, ∀ p (o : Outcome) e, w.IsEvent p o.eventType k e →
    w'.status p = some o.status
  single : ∀ k ∈ w.published, ∀ k' ∈ w.published, ∀ p (o o' : Outcome) e e',
    w.IsEvent p o.eventType k e → w.IsEvent p o'.eventType k' e' → k = k' ∧ o = o'

namespace Payments

variable {cfg : Processor.Settings} {good : (payments cfg).Guard} {s₀ s s' : State cfg}

/-- Only committed fan-out events are published. -/
structure FannedOut (s : State cfg) : Prop where
  integrity : Integrity s
  fanout : ∀ k ∈ s.world.published,
    ∃ e, s.world.outbox.committed k = some e ∧ e.eventType ≠ .paymentRequested

namespace FannedOut

theorem initial (h : Initial s) : FannedOut s where
  integrity := .initial h
  fanout k hk := by
    rw [h.world] at hk
    cases hk

/-- A worker publishes what it has fetched. -/
theorem publishes (h : Integrity s) {i : Session} {a : i.Act} (hstep : s.step i a = some s')
    {e : OutboxEvent} (he : Payments.publishes i (s.proc i) a = some e) :
    ∃ row, s.world.outbox.committed e.eventId = some row ∧ row.eventType ≠ .paymentRequested := by
  cases i with
  | review | create | environment => cases he
  | worker n =>
    have hn := Processor.Worker.next_of_step (System.State.step_self hstep)
    obtain ⟨hmem, hpc, -⟩ := hn.delivers he
    have hinv : Processor.Worker.Inv cfg s.world (.worker n) (worker s n) := h.inv (.worker n)
    obtain ⟨row, hrow, hident⟩ := hinv.known e (.inl hmem)
    refine ⟨row, hrow, fun htype => ?_⟩
    rw [OutboxEvent.eventType_of_identity hident] at htype
    have hfans := (hinv.kind e (.inl hmem)).1 htype
    rw [show (worker s n).pc = .fanout from hpc] at hfans
    cases hfans

theorem next (h : FannedOut s) {i : Session} {a : i.Act} (hstep : s.step i a = some s') :
    FannedOut s' where
  integrity := (h.integrity.next hstep).2
  fanout k hk := by
    have hkept {row : OutboxEvent} (hrow : s.world.outbox.committed k = some row)
        (hfan : row.eventType ≠ .paymentRequested) :
        ∃ e, s'.world.outbox.committed k = some e ∧ e.eventType ≠ .paymentRequested := by
      obtain ⟨row', hrow', hident, -⟩ := (h.integrity.keeps hstep).event hrow
      exact ⟨row', hrow', OutboxEvent.eventType_of_identity hident ▸ hfan⟩
    rcases (mem_published_step hstep).1 hk with hold | ⟨e, he, rfl⟩
    · obtain ⟨row, hrow, hfan⟩ := h.fanout k hold
      exact hkept hrow hfan
    · obtain ⟨row, hrow, hfan⟩ := publishes h.integrity hstep he
      exact hkept hrow hfan

/-- Whatever the workers do, a request never leaves the system. -/
theorem of_reaches (h : FannedOut s) (hrun : (payments cfg).Reaches good s s') : FannedOut s' :=
  hrun.invariant (fun hi _ hstep => hi.next hstep) h

end FannedOut

/-- With one processor and atomic reviews, what has been published is true and stays true: an
outcome on the event bus is the status of its payment then and ever after, and no payment has two
of them there. -/
theorem published_truthful (h₀ : Initial s₀) (hrun : (payments cfg).Reaches oneProcessor s₀ s)
    (hlater : (payments cfg).Reaches oneProcessor s s') : s.world.TrulyPublished s'.world := by
  have h := (OneProcessorHolds.initial h₀).of_reaches hrun
  refine ⟨((FannedOut.initial h₀).of_reaches hrun).fanout, fun k _ p o e he => ?_,
    fun k _ k' _ p o o' e e' he he' => ?_⟩
  · have hs := ((h.phases p).outcome_iff o).1 ⟨k, World.exists_isEvent.1 ⟨e, he⟩⟩
    rw [World.ledger_status] at hs
    obtain ⟨status, hs', hleads⟩ := h.leads hlater hs
    have hfinal : status = o.status :=
      hleads.eq_of_final (by cases o <;> simp [Outcome.status])
    rw [hs', hfinal]
  · exact (h.phases p).outcome_unique (World.exists_isEvent.1 ⟨e, he⟩)
      (World.exists_isEvent.1 ⟨e', he'⟩)

set_option maxRecDepth 10000 in
/-- A payment is confirmed, and its event published. -/
theorem published_truthful_confirmed : ∃ s : State fanoutSettings,
    12 ∈ s.world.published ∧ s.world.TrulyPublished s.world := by
  let request : OutboxEvent := .new 10 1 .paymentRequested (.paymentRequested 1 "m" "trace" none) 0
  let confirmed : OutboxEvent :=
    .new 12 1 .paymentConfirmed (.paymentConfirmed 1 "m" "pix-provider" "ref") 0
  have hrun : (System.State.run oneProcessor (creation 0 ⟨0, .allow, .allow⟩ 1 10 ++
      [⟨.worker 0, Processor.WorkerAction.fetchPendingRequested 0 [request]⟩] ++
      callProvider 0 (answer false) ++ settle 0 12 0 ++
      [⟨.worker 0, Processor.WorkerAction.fetchPendingFanout 0 [confirmed]⟩] ++
      publishesFanout 0 true) fanoutSample).map (·.world.published) = some [12] := by
    decide
  obtain ⟨s, hs, hpublished⟩ := Option.map_eq_some_iff.1 hrun
  exact ⟨s, by simp [hpublished],
    published_truthful (fresh_initial _ _ _) (System.Reaches.of_run hs) .refl⟩

end Payments

end PaymentsLab
