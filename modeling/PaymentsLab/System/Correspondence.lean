import PaymentsLab.System.Landing

/-!
# Payments and their events with one processor

With one outbox worker and atomic reviews, every payment is in one of four phases, and its events
say which one (`Ledger.Phase`). A ledger move keeps the phases as long as it is `Orderly`: reviews
decide payments in review, and the worker handles pending requests and never loses the lock. The
rest of the module shows that a single worker is orderly, also with a stale batch in its hands.
-/

namespace PaymentsLab

open Foundation

namespace Ledger

/-- The phases of a payment, told by its status and by its events. -/
inductive Phase (L : Ledger) (p : UUID) : Prop
  | absent (status : L.status p = none) (events : L.NoEvent p)
  /-- in review or blocked: no request, no outcome -/
  | waiting (status : L.status p = some .inReview ∨ L.status p = some .blocked)
    (requests : ∀ k, ¬ L.IsRequest p k)
    (outcomes : ∀ k (o : Outcome), L.kind k ≠ some (p, o.eventType))
  /-- with the processor: one pending request, no outcome -/
  | opened (k : UUID) (status : L.status p = some .received ∨ L.status p = some .processing)
    (request : ∀ k', L.IsRequest p k' ↔ k' = k) (pending : L.delivery k = some .pending)
    (outcomes : ∀ k (o : Outcome), L.kind k ≠ some (p, o.eventType))
  /-- finished: one closed request, one event of the outcome -/
  | closed (k e : UUID) (o : Outcome) (status : L.status p = some o.status)
    (request : ∀ k', L.IsRequest p k' ↔ k' = k)
    (delivery : L.delivery k = some .sent ∨ L.delivery k = some .failed)
    (outcome : ∀ e' (o' : Outcome), L.kind e' = some (p, o'.eventType) ↔ e' = e ∧ o' = o)

/-- A move of a single, undisturbed processor and of atomic reviews. -/
def Orderly (L : Ledger) : Move → Prop
  | .lose _ => False
  | .retry _ k => L.delivery k = some .pending
  | .settle _ k _ _ _ => L.delivery k = some .pending
  | .approve p _ => L.status p = some .inReview
  | .reject p => L.status p = some .inReview
  | _ => True

namespace Phase

variable {L L' : Ledger} {m : Move} {p q : UUID}

/-- A phase depends on the status of the payment, its events and the delivery of its requests. -/
theorem congr (h : L.Phase p) (hstatus : L'.status p = L.status p)
    (hkind : ∀ k type, L'.kind k = some (p, type) ↔ L.kind k = some (p, type))
    (hdelivery : ∀ k, L.IsRequest p k → L'.delivery k = L.delivery k) : L'.Phase p := by
  have hrequest (k : UUID) : L'.IsRequest p k ↔ L.IsRequest p k := hkind k .paymentRequested
  cases h with
  | absent status events =>
    exact .absent (hstatus.trans status) fun k type hk => events k type ((hkind k type).1 hk)
  | waiting status requests outcomes =>
    refine .waiting (hstatus ▸ status) (fun k hk => requests k ((hrequest k).1 hk)) fun k o hk => ?_
    exact outcomes k o ((hkind k o.eventType).1 hk)
  | opened k status request pending outcomes =>
    refine .opened k (hstatus ▸ status) (fun k' => (hrequest k').trans (request k')) ?_
      fun k o hk => outcomes k o ((hkind k o.eventType).1 hk)
    rw [hdelivery k ((request k).2 rfl), pending]
  | closed k e o status request delivery outcome =>
    refine .closed k e o (hstatus.trans status) (fun k' => (hrequest k').trans (request k')) ?_
      fun e' o' => (hkind e' o'.eventType).trans (outcome e' o')
    rw [hdelivery k ((request k).2 rfl)]
    exact delivery

/-- A move leaves every payment in its phase that it neither assigns a status nor adds an event to,
nor marks a request of. -/
theorem untouched (h : L.Phase q) (ha : L.Admissible m)
    (hassigned : ∀ s, m.assigned ≠ some (q, s)) (hadded : ∀ k type, m.added ≠ some (k, q, type))
    (hmarked : ∀ k d, m.marked = some (k, d) → ¬ L.IsRequest q k) : (L.apply m).Phase q := by
  refine h.congr ?_ (fun k type => ?_) fun k hk => ?_
  · rcases L.status_apply m q with ⟨hsame, -⟩ | ⟨s, hs, -⟩
    · exact hsame
    · exact absurd hs (hassigned s)
  · rcases L.kind_apply m k with ⟨hsame, -⟩ | ⟨e, he, hnew⟩
    · rw [hsame]
    · rw [hnew, ha.kind_added he]
      refine ⟨fun heq => ?_, fun heq => by cases heq⟩
      cases heq
      exact absurd he (hadded k type)
  · have hold (e : UUID × EventType) (he : m.added = some (k, e)) : False := by
      cases (ha.kind_added he).symm.trans hk
    rcases delivery_apply hold with ⟨hsame, -⟩ | ⟨d, hd, -⟩
    · exact hsame
    · exact absurd hk (hmarked k d hd)

/-- A payment with a pending request is with the processor. -/
theorem of_pending (h : L.Phase p) {k : UUID} (hk : L.IsRequest p k)
    (hd : L.delivery k = some .pending) :
    (L.status p = some .received ∨ L.status p = some .processing) ∧
      (∀ k', L.IsRequest p k' ↔ k' = k) ∧ ∀ k (o : Outcome), L.kind k ≠ some (p, o.eventType) := by
  cases h with
  | absent status events => exact absurd hk (events k _)
  | waiting status requests outcomes => exact absurd hk (requests k)
  | opened k₀ status request pending outcomes =>
    cases (request k).1 hk
    exact ⟨status, request, outcomes⟩
  | closed k₀ e o status request delivery outcome =>
    cases (request k).1 hk
    rw [hd] at delivery
    simp at delivery

/-- A payment in review has neither a request nor an outcome. -/
theorem of_inReview (h : L.Phase p) (hs : L.status p = some .inReview) :
    (∀ k, ¬ L.IsRequest p k) ∧ ∀ k (o : Outcome), L.kind k ≠ some (p, o.eventType) := by
  cases h with
  | absent status events => cases status.symm.trans hs
  | waiting status requests outcomes => exact ⟨requests, outcomes⟩
  | opened k status => rcases status with h | h <;> cases h.symm.trans hs
  | closed k e o status =>
    cases o <;> cases status.symm.trans hs

theorem retry (h : L.Phase p) {k : UUID} (ha : L.Admissible (.retry p k))
    (ho : L.Orderly (.retry p k)) : (L.apply (.retry p k)).Phase p := by
  obtain ⟨-, hrequest, hnone⟩ := h.of_pending ha ho
  exact .opened k (.inr (by simp [Ledger.apply, Move.assigned, overlay])) hrequest ho hnone

theorem settle (h : L.Phase p) {k e : UUID} {o : Outcome} {d : OutboxStatus}
    (ha : L.Admissible (.settle p k o d e)) (ho : L.Orderly (.settle p k o d e)) :
    (L.apply (.settle p k o d e)).Phase p := by
  obtain ⟨-, hrequest, hnone⟩ := h.of_pending ha.1 ho
  have hne : k ≠ e := by
    rintro rfl
    cases ha.2.2.symm.trans ha.1
  have hkind (k' : UUID) : (L.apply (.settle p k o d e)).kind k' =
      if k' = e then some (p, o.eventType) else L.kind k' := by
    by_cases hk' : k' = e <;> simp [Ledger.apply, Move.added, overlay, hk']
  refine .closed k e o (by simp [Ledger.apply, Move.assigned, overlay]) (fun k' => ?_) ?_
    fun e' o' => ?_
  · rw [IsRequest, hkind]
    by_cases hk' : k' = e
    · subst hk'
      simp [o.eventType_ne_requested, hne.symm]
    · rw [if_neg hk']
      exact hrequest k'
  · have hdelivery : (L.apply (.settle p k o d e)).delivery k = some d := by
      simp [Ledger.apply, Move.added, Move.marked, overlay, Function.update_of_ne hne]
    rw [hdelivery]
    cases d with
    | pending => exact absurd rfl ha.2.1
    | sent => exact .inl rfl
    | failed => exact .inr rfl
  · rw [hkind]
    by_cases he' : e' = e
    · cases o <;> cases o' <;> simp [he', Outcome.eventType]
    · simp [he', hnone]

/-- A payment without events gets its first request. -/
theorem request (hrequests : ∀ k, ¬ L.IsRequest p k)
    (houtcomes : ∀ k (o : Outcome), L.kind k ≠ some (p, o.eventType)) {k : UUID}
    (hassigned : m.assigned = some (p, .received))
    (hadded : m.added = some (k, p, .paymentRequested)) : (L.apply m).Phase p := by
  have hkind (k' : UUID) : (L.apply m).kind k' =
      if k' = k then some (p, .paymentRequested) else L.kind k' := by
    by_cases hk' : k' = k <;> simp [Ledger.apply, hadded, overlay, hk']
  refine .opened k (.inl (by simp [Ledger.apply, hassigned, overlay])) (fun k' => ?_)
    (delivery_added hadded) fun k' o => ?_
  · rw [IsRequest, hkind]
    by_cases hk' : k' = k
    · simp [hk']
    · simpa [hk', IsRequest] using hrequests k'
  · rw [hkind]
    by_cases hk' : k' = k
    · cases o <;> simp [hk', Outcome.eventType]
    · simpa [hk'] using houtcomes k' o

/-! What a phase says about the events of its payment. -/

theorem request_unique (h : L.Phase p) {k k' : UUID} (hk : L.IsRequest p k)
    (hk' : L.IsRequest p k') : k = k' := by
  cases h with
  | absent status events => exact absurd hk (events k _)
  | waiting status requests => exact absurd hk (requests k)
  | opened k₀ status request | closed k₀ e o status request =>
    exact ((request k).1 hk).trans ((request k').1 hk').symm

theorem pending_iff (h : L.Phase p) : (∃ k, L.IsRequest p k ∧ L.delivery k = some .pending) ↔
    L.status p = some .received ∨ L.status p = some .processing := by
  constructor
  · rintro ⟨k, hk, hd⟩
    exact (h.of_pending hk hd).1
  · intro hs
    cases h with
    | absent status => simp [status] at hs
    | waiting status => rcases status with status | status <;> simp [status] at hs
    | opened k status request pending => exact ⟨k, (request k).2 rfl, pending⟩
    | closed k e o status => cases o <;> simp [status, Outcome.status] at hs

theorem closed_iff (h : L.Phase p) :
    (∃ k, L.IsRequest p k ∧ (L.delivery k = some .sent ∨ L.delivery k = some .failed)) ↔
      L.status p = some .confirmed ∨ L.status p = some .failed := by
  cases h with
  | absent status events =>
    refine ⟨fun ⟨k, hk, _⟩ => absurd hk (events k _), fun hs => ?_⟩
    simp [status] at hs
  | waiting status requests =>
    refine ⟨fun ⟨k, hk, _⟩ => absurd hk (requests k), fun hs => ?_⟩
    rcases status with status | status <;> simp [status] at hs
  | opened k status request pending =>
    refine ⟨fun ⟨k', hk', hd⟩ => ?_, fun hs => ?_⟩
    · cases (request k').1 hk'
      simp [pending] at hd
    · rcases status with status | status <;> simp [status] at hs
  | closed k e o status request delivery =>
    refine ⟨fun _ => ?_, fun _ => ⟨k, (request k).2 rfl, delivery⟩⟩
    cases o
    · exact .inl status
    · exact .inr status

theorem outcome_iff (h : L.Phase p) (o : Outcome) :
    (∃ k, L.kind k = some (p, o.eventType)) ↔ L.status p = some o.status := by
  cases h with
  | absent status events =>
    refine ⟨fun ⟨k, hk⟩ => absurd hk (events k _), fun hs => ?_⟩
    cases status.symm.trans hs
  | waiting status requests outcomes =>
    refine ⟨fun ⟨k, hk⟩ => absurd hk (outcomes k o), fun hs => ?_⟩
    rcases status with status | status <;> cases o <;> cases status.symm.trans hs
  | opened k status request pending outcomes =>
    refine ⟨fun ⟨k, hk⟩ => absurd hk (outcomes k o), fun hs => ?_⟩
    rcases status with status | status <;> cases o <;> cases status.symm.trans hs
  | closed k e o' status request delivery outcome =>
    refine ⟨fun ⟨k', hk'⟩ => ?_, fun hs => ⟨e, (outcome e o).2 ⟨rfl, ?_⟩⟩⟩
    · cases ((outcome k' o).1 hk').2
      exact status
    · have hsame : o'.status = o.status := Option.some.inj (status.symm.trans hs)
      cases o <;> cases o' <;> first | rfl | cases hsame

theorem outcome_unique (h : L.Phase p) {o o' : Outcome} {k k' : UUID}
    (hk : L.kind k = some (p, o.eventType)) (hk' : L.kind k' = some (p, o'.eventType)) :
    k = k' ∧ o = o' := by
  cases h with
  | absent status events => exact absurd hk (events k _)
  | waiting status requests outcomes => exact absurd hk (outcomes k o)
  | opened k₀ status request pending outcomes => exact absurd hk (outcomes k o)
  | closed k₀ e o₀ status request delivery outcome =>
    obtain ⟨rfl, rfl⟩ := (outcome k o).1 hk
    obtain ⟨rfl, rfl⟩ := (outcome k' o').1 hk'
    exact ⟨rfl, rfl⟩

/-- Orderly moves keep every payment in a phase. -/
theorem apply (h : ∀ p, L.Phase p) (ha : L.Admissible m) (ho : L.Orderly m) (q : UUID) :
    (L.apply m).Phase q := by
  cases m with
  | skip => exact h q
  | fanOut k d =>
    refine (h q).untouched ha (by simp [Move.assigned]) (by simp [Move.added]) fun k' d' hk' => ?_
    cases hk'
    exact ha q
  | lose => exact ho.elim
  | retry p k =>
    by_cases hq : p = q
    · subst hq
      exact (h p).retry ha ho
    · exact (h q).untouched ha (by simp [Move.assigned, hq]) (by simp [Move.added])
        (by simp [Move.marked])
  | settle p k o d e =>
    by_cases hq : p = q
    · subst hq
      exact (h p).settle ha ho
    · refine (h q).untouched ha (by simp [Move.assigned, hq]) (by simp [Move.added, hq])
        fun k' d' hk' hrequest => ?_
      cases hk'
      cases ha.1.symm.trans hrequest
      exact hq rfl
  | approve p k =>
    by_cases hq : p = q
    · subst hq
      obtain ⟨hrequests, houtcomes⟩ := (h p).of_inReview ho
      exact request hrequests houtcomes rfl rfl
    · exact (h q).untouched ha (by simp [Move.assigned, hq]) (by simp [Move.added, hq])
        (by simp [Move.marked])
  | reject p =>
    by_cases hq : p = q
    · subst hq
      obtain ⟨hrequests, houtcomes⟩ := (h p).of_inReview ho
      exact .waiting (.inr (by simp [Ledger.apply, Move.assigned, overlay])) hrequests houtcomes
    · exact (h q).untouched ha (by simp [Move.assigned, hq]) (by simp [Move.added])
        (by simp [Move.marked])
  | create p s =>
    by_cases hq : p = q
    · subst hq
      obtain ⟨-, hnone, rfl⟩ := ha
      exact .waiting (.inr (by simp [Ledger.apply, Move.assigned, overlay])) (fun k => hnone k _)
        fun k o => hnone k _
    · exact (h q).untouched ha (by simp [Move.assigned, hq]) (by simp [Move.added])
        (by simp [Move.marked])
  | createWith p s k type =>
    by_cases hq : p = q
    · subst hq
      obtain ⟨-, hnone, -, ⟨rfl, rfl⟩ | ⟨rfl, rfl⟩⟩ := ha
      · exact request (fun k => hnone k _) (fun k o => hnone k _) rfl rfl
      · have hkind (k' : UUID) (type : EventType) (htype : type ≠ .paymentReviewRequired) :
            (L.apply (.createWith p .inReview k .paymentReviewRequired)).kind k' ≠
              some (p, type) := by
          by_cases hk' : k' = k
          · simp [Ledger.apply, Move.added, overlay, hk', htype.symm]
          · simpa [Ledger.apply, Move.added, overlay, hk'] using hnone k' type
        refine .waiting (.inl (by simp [Ledger.apply, Move.assigned, overlay])) (fun k' => ?_)
          fun k' o => hkind k' _ (by cases o <;> decide)
        exact hkind k' _ (by decide)
    · exact (h q).untouched ha (by simp [Move.assigned, hq]) (by simp [Move.added, hq])
        (by simp [Move.marked])

/-- A blocked payment stays blocked. -/
theorem blocked_apply (h : ∀ p, L.Phase p) (ha : L.Admissible m) (ho : L.Orderly m)
    (hp : L.status p = some .blocked) : (L.apply m).status p = some .blocked := by
  rcases L.status_apply m p with ⟨hsame, -⟩ | ⟨s, hs, hnew⟩
  · exact hsame.trans hp
  · cases m with
    | retry p' k =>
      cases hs
      rcases ((h p).of_pending ha ho).1 with h | h <;> cases hp.symm.trans h
    | settle p' k o d e =>
      cases hs
      rcases ((h p).of_pending ha.1 ho).1 with h | h <;> cases hp.symm.trans h
    | approve | reject =>
      cases hs
      cases hp.symm.trans ho
    | create | createWith =>
      cases hs
      cases hp.symm.trans ha.1
    | _ => cases hs

end Phase

end Ledger

/-! ## Committed rows a review or a creation leaves alone -/

/-- An atomic call changes the row of a payment in review only. -/
theorem Review.Call.Inv.committed_payments {w w' : World} {t : Session} {c c' : Call} {a : Action}
    (hw : w.WF) (h : Call.Inv w t c) (hn : Next t w c a w' c') (ha : a.Atomic) {p : UUID}
    (hp : w.status p ≠ some .inReview) : w'.payments.committed p = w.payments.committed p := by
  cases hn with
  | loaded | refused | updated | unmatched | approved | rejected => exact ha.elim
  | refusedAtOnce | recorded => rfl
  | crashed => simp
  | decided load update commit =>
    obtain ⟨pc, row, hrow, hstatus, rfl, rfl, -⟩ := h.decided hw load update
    have hne : p ≠ c.paymentId := by
      rintro rfl
      exact hp (by simp [World.status, hrow, hstatus])
    have hclean := h.clean (by simp [pc])
    cases commit with
    | approved | rejected => simp [hclean.payments, Function.update_of_ne hne]

/-- A creation changes no row that exists. -/
theorem Create.Run.Inv.committed_payments {w w' : World} {t : Session} {r r' : Run} {a : Action}
    (h : Run.Inv w t r) (hn : Next t w r a w' r') {p : UUID}
    (hp : (w.payments.committed p).isSome) :
    w'.payments.committed p = w.payments.committed p := by
  cases hn with
  | replayed | unknown | polled | unresolved | answered | repolled | gaveUp | refused
  | controlled | conflicted | observed | crashed => rfl
  | @acquired reply pc =>
    obtain ⟨gate, hgate⟩ := r.acquire_fst w reply
    rw [hgate]
  | @persisted decision response eventId now w₁ pc free rows =>
    obtain ⟨hnew, -, -, rfl⟩ := insertRows_eq_some rows
    have hne : p ≠ response.paymentId := by
      rintro rfl
      rw [hnew] at hp
      cases hp
    simp [h.clean.payments, Function.update_of_ne hne]

namespace Processor

/-- A worker alone: the requests it knows are pending and different, the payment it has loaded is
the committed row, and it has not lost the lock. -/
structure Worker.Undisturbed (w : World) (l : Worker) : Prop where
  pending : ∀ e, (e ∈ l.events ∨ l.pc.event = some e) → l.pc.fansOut = false →
    w.ledger.delivery e.eventId = some .pending
  distinct : ((l.pc.event.toList ++ l.events).map (·.eventId)).Nodup
  row : ∀ payment ∈ l.pc.target, w.payments.committed payment.paymentId = some payment
  lost : l.pc.lostEvent = none

namespace Worker.Undisturbed

variable {cfg : Settings} {w w' : World} {t : Session} {l l' : Worker} {a : WorkerAction}

/-- The batch has no duplicates. -/
theorem distinct_fetched (hw : w.WF) {due : OutboxEvent → Bool} {ordered : List OutboxEvent}
    (rows : OutboxRepository.Ordered w due ordered) (n : Nat) :
    ((ordered.take n).map (·.eventId)).Nodup := by
  have hrows : (w.outbox.rows.map (·.eventId)).Nodup :=
    RowStore.nodup_map_rows fun _ _ hk => hw.outbox.committed_key hk
  have hfilter := hrows.sublist ((List.filter_sublist (p := due)).map _)
  exact ((rows.1.map _).nodup_iff.2 hfilter).sublist ((List.take_sublist n ordered).map _)

/-- A request just fetched is pending. -/
theorem pending_fetched (hw : w.WF) {now : Instant} {ordered : List OutboxEvent} {n : Nat}
    (rows : OutboxRepository.Ordered w (OutboxRepository.dueRequested now) ordered)
    {e : OutboxEvent} (he : e ∈ ordered.take n) :
    w.ledger.delivery e.eventId = some .pending := by
  obtain ⟨hdue, k, hk⟩ := rows.mem (List.mem_of_mem_take he)
  have hkey := hw.outbox.committed_key hk
  simp only [OutboxRepository.dueRequested, decide_eq_true_eq] at hdue
  simp [World.ledger, hkey, hk, hdue.2.1]

/-- The commit marks the event in hand and leaves the rest of the batch pending. -/
theorem pending_committed (h : Undisturbed w l) (hinv : Worker.Inv cfg w t l)
    (hn : Next cfg t w l .commit w' l') {event : OutboxEvent} {branch : Branch}
    (pc : l.pc = .committing event branch) {e : OutboxEvent} (he : e ∈ l.events) :
    w'.ledger.delivery e.eventId = some .pending := by
  obtain ⟨m, hm, hadm, hledger⟩ := hinv.moves hn
  rw [hledger]
  have hkind := hinv.kind_known (.inl he)
  have hold (added : UUID × EventType) (hadded : m.added = some (e.eventId, added)) : False := by
    rw [hadm.kind_added hadded] at hkind
    cases hkind
  rcases Ledger.delivery_apply hold with ⟨hsame, -⟩ | ⟨d, hmarked, -⟩
  · rw [hsame]
    exact h.pending e (.inl he) (by rw [pc]; rfl)
  · have hid : e.eventId = event.eventId := by
      cases hm with
      | skip => cases hmarked
      | lose pc' | settle pc' =>
        cases pc.symm.trans pc'
        simp only [Ledger.Move.marked, Option.some.injEq, Prod.mk.injEq] at hmarked
        exact hmarked.1.symm
      | retry => cases hmarked
      | fanOut pc' => cases pc.symm.trans pc'
    have hdistinct := h.distinct
    rw [pc] at hdistinct
    simp only [WorkerPc.event, Option.toList_some, List.singleton_append, List.map_cons,
      List.nodup_cons, List.mem_map] at hdistinct
    exact absurd ⟨e, he, hid⟩ hdistinct.1

/-- A step within the handling of one event, up to the commit. -/
theorem carry (h : Undisturbed w l) (hledger : w'.ledger = w.ledger)
    (hevents : l'.events = l.events) (hevent : l'.pc.event = l.pc.event)
    (hfansOut : l'.pc.fansOut = l.pc.fansOut) (htarget : l'.pc.target = none)
    (hlost : l'.pc.lostEvent = none) : Undisturbed w' l' where
  pending e he hf := by
    rw [hevents, hevent] at he
    rw [hledger]
    exact h.pending e he (hfansOut ▸ hf)
  distinct := by
    rw [hevents, hevent]
    exact h.distinct
  row payment hpayment := by
    rw [htarget] at hpayment
    cases hpayment
  lost := hlost

/-- A step of the worker itself. -/
theorem next (h : Undisturbed w l) (hw : w.WF) (hinv : Worker.Inv cfg w t l)
    (hn : Next cfg t w l a w' l') : Undisturbed w' l' := by
  have quiet : a ≠ .commit → w'.ledger = w.ledger := hinv.ledger_eq hn
  obtain ⟨breakers, batch, pc⟩ := l
  cases hn with
  | fetched pc rows =>
    refine ⟨fun e he _ => ?_, distinct_fetched hw rows _, by simp [WorkerPc.target], rfl⟩
    rcases he with he | he
    · exact pending_fetched hw rows he
    · cases he
  | @found event rest payment pc events row =>
    cases pc
    cases events
    have hclean := hinv.clean rfl rfl rfl
    rw [RowStore.view_of_committed (by rw [hclean.payments])] at row
    refine ⟨fun e he hf => h.pending e (.inl ?_) hf, h.distinct, fun p hp => ?_, rfl⟩
    · exact Worker.Inv.taken rfl he
    · cases hp
      rw [hw.payments.committed_key row, row]
  | notFound pc events row =>
    cases pc
    cases events
    refine ⟨fun e he hf => h.pending e (.inl ?_) hf, h.distinct, by simp [WorkerPc.target], rfl⟩
    exact Worker.Inv.taken rfl he
  | markedMissing pc mark | locked pc | called pc | finalized pc | unfinalized pc | marked pc =>
    cases pc
    exact h.carry (quiet (by simp)) rfl rfl rfl rfl rfl
  | markedFanout pc =>
    cases pc
    exact h.carry (quiet (by simp)) rfl rfl rfl rfl rfl
  | @missed event payment pc stale =>
    cases pc
    have hclean := hinv.clean rfl rfl rfl
    have hrow := h.row payment rfl
    have hview : w.payments.view t payment.paymentId = some payment := by
      rw [RowStore.view_of_committed (by rw [hclean.payments]), hrow]
    exact absurd rfl (stale payment hview (by simp [hrow])).2
  | markedLost pc =>
    cases pc
    exact absurd h.lost (by simp [WorkerPc.lostEvent])
  | committed pc =>
    refine ⟨fun e he _ => ?_, ?_, by simp [WorkerPc.target], rfl⟩
    · rcases he with he | he
      · exact h.pending_committed hinv (.committed pc) pc he
      · cases he
    · cases pc
      exact h.distinct.sublist ((List.sublist_append_right _ _).map _)
  | fetchedFanout pc rows =>
    exact ⟨fun e he hf => (by cases hf), distinct_fetched hw rows _, by simp [WorkerPc.target], rfl⟩
  | published pc events =>
    cases pc
    cases events
    exact ⟨fun e he hf => (by cases hf), h.distinct, by simp [WorkerPc.target], rfl⟩
  | committedFanout pc =>
    cases pc
    exact ⟨fun e he hf => (by cases hf), h.distinct.sublist ((List.sublist_append_right _ _).map _),
      by simp [WorkerPc.target], rfl⟩
  | ended pc events =>
    cases events
    exact ⟨by simp [WorkerPc.event], by simp [WorkerPc.event], by simp [WorkerPc.target], rfl⟩
  | crashed =>
    exact ⟨by simp [WorkerPc.event], by simp [WorkerPc.event], by simp [WorkerPc.target], rfl⟩

/-- A step of a review or of a creation. -/
theorem stable (h : Undisturbed w l) (hinv : Worker.Inv cfg w t l) {m : Ledger.Move}
    (hadm : w.ledger.Admissible m) (hmarked : m.marked = none)
    (hledger : w'.ledger = w.ledger.apply m)
    (hrow : ∀ p, w.status p = some .received ∨ w.status p = some .processing →
      w'.payments.committed p = w.payments.committed p)
    (hphases : ∀ p, w.ledger.Phase p) : Undisturbed w' l where
  pending e he hfansOut := by
    have hkind := hinv.kind_known he
    have hold (added : UUID × EventType) (hadded : m.added = some (e.eventId, added)) : False := by
      rw [hadm.kind_added hadded] at hkind
      cases hkind
    rw [hledger]
    rcases Ledger.delivery_apply hold with ⟨hsame, -⟩ | ⟨d, hd, -⟩
    · rw [hsame]
      exact h.pending e he hfansOut
    · rw [hmarked] at hd
      cases hd
  distinct := h.distinct
  row payment hpayment := by
    have hpc : ∃ event, l.pc = .loaded event payment := by
      unfold WorkerPc.target at hpayment
      split at hpayment <;> cases hpayment
      exact ⟨_, ‹_›⟩
    obtain ⟨event, pc⟩ := hpc
    have hevent : l.pc.event = some event := by rw [pc]; rfl
    have hrequest := hinv.isRequest (by rw [pc]; rfl) (.inr hevent)
    have hopen := ((hphases _).of_pending hrequest
      (h.pending event (.inr hevent) (by rw [pc]; rfl))).1
    rw [← hinv.payment event payment hevent (by rw [pc]; rfl)] at hopen
    rw [hrow _ hopen]
    exact h.row payment hpayment
  lost := h.lost

end Worker.Undisturbed

end Processor

/-! ## Runs with one processor -/

/-- A payment and its events tell the same story. -/
structure World.Corresponds (w : World) (p : UUID) : Prop where
  oneRequest : ∀ k k' e e', w.IsEvent p .paymentRequested k e →
    w.IsEvent p .paymentRequested k' e' → k = k'
  pending : (∃ k e, w.IsEvent p .paymentRequested k e ∧ e.status = .pending) ↔
    w.status p = some .received ∨ w.status p = some .processing
  closed : (∃ k e, w.IsEvent p .paymentRequested k e ∧ (e.status = .sent ∨ e.status = .failed)) ↔
    w.status p = some .confirmed ∨ w.status p = some .failed
  confirmed : (∃! k, ∃ e, w.IsEvent p .paymentConfirmed k e) ↔ w.status p = some .confirmed
  failed : (∃! k, ∃ e, w.IsEvent p .paymentFailed k e) ↔ w.status p = some .failed
  exclusive : ∀ k k' e e', w.IsEvent p .paymentConfirmed k e → ¬ w.IsEvent p .paymentFailed k' e'
  unconfirmed : w.status p ≠ some .confirmed → ∀ k e, ¬ w.IsEvent p .paymentConfirmed k e
  unfailed : w.status p ≠ some .failed → ∀ k e, ¬ w.IsEvent p .paymentFailed k e
  waiting : w.status p = some .inReview ∨ w.status p = some .blocked →
    ∀ k e, ¬ w.IsEvent p .paymentRequested k e

/-- The phase of a payment tells its events. -/
theorem World.corresponds_of_phase {w : World} {p : UUID} (h : w.ledger.Phase p) :
    w.Corresponds p := by
  have hkind {k : UUID} {type : EventType} {e : OutboxEvent} (he : w.IsEvent p type k e) :
      w.ledger.kind k = some (p, type) := exists_isEvent.1 ⟨e, he⟩
  have hunique (o : Outcome) :
      (∃! k, ∃ e, w.IsEvent p o.eventType k e) ↔ w.status p = some o.status := by
    rw [← ledger_status, ← h.outcome_iff o]
    simp only [exists_isEvent]
    refine ⟨fun hk => hk.exists, fun ⟨k, hk⟩ => ⟨k, hk, fun k' hk' => ?_⟩⟩
    exact (h.outcome_unique hk' hk).1
  have hnone (o : Outcome) (hs : w.status p ≠ some o.status) (k : UUID) (e : OutboxEvent) :
      ¬ w.IsEvent p o.eventType k e :=
    fun he => hs ((h.outcome_iff o).1 ⟨k, hkind he⟩)
  refine ⟨fun k k' e e' he he' => h.request_unique (hkind he) (hkind he'), ?_, ?_,
    hunique .confirmed, hunique .failed, fun k k' e e' he he' => ?_, hnone .confirmed,
    hnone .failed, fun hs k e he => ?_⟩
  · rw [← ledger_status, ← h.pending_iff]
    exact exists_congr fun k => exists_isEvent_status
  · rw [← ledger_status, ← h.closed_iff]
    refine exists_congr fun k => ?_
    simp only [and_or_left, exists_or, exists_isEvent_status]
    rfl
  · have hsame : k = k' ∧ Outcome.confirmed = Outcome.failed :=
      h.outcome_unique (hkind he) (hkind he')
    cases hsame.2
  · rcases hs with hs | hs
    · exact (h.of_inReview hs).1 k (hkind he)
    · cases h with
      | absent status => cases status.symm.trans hs
      | waiting status requests => exact requests k (hkind he)
      | opened k status => rcases status with status | status <;> cases status.symm.trans hs
      | closed k e o status => cases o <;> cases status.symm.trans hs

namespace Payments

variable {cfg : Processor.Settings}

/-- Runs with one worker, number 0, and atomic reviews. -/
def oneProcessor : (payments cfg).Guard
  | .worker n, _, _, _ => n = 0
  | .review _, _, _, a => Review.Action.Atomic a
  | _, _, _, _ => True

instance : (i : Session) → (w : World) → (l : (payments cfg).Local i) →
    (a : (payments cfg).Act i) → Decidable (@oneProcessor cfg i w l a)
  | .worker n, _, _, _ => inferInstanceAs (Decidable (n = 0))
  | .review _, _, _, a => Review.Action.decidableAtomic a
  | .create _, _, _, _ => inferInstanceAs (Decidable True)
  | .environment, _, _, _ => inferInstanceAs (Decidable True)

/-- What such a run maintains. -/
structure OneProcessorHolds (s : State cfg) : Prop where
  landed : Landed (fun _ => True) (fun _ s => s = .inReview) s
  phases : ∀ p, s.world.ledger.Phase p
  undisturbed : Processor.Worker.Undisturbed s.world (worker s 0)

namespace OneProcessorHolds

variable {s s' : State cfg}

theorem initial (h : Initial s) : OneProcessorHolds s where
  landed := .initial h
  phases p := by
    rw [h.world]
    exact .absent rfl fun k type hk => by cases hk
  undisturbed := by
    have hpc : (worker s 0).pc = .idle := h.worker 0
    have hevents : (worker s 0).events = [] := h.batch 0
    constructor <;>
      simp [hpc, hevents, Processor.WorkerPc.event, Processor.WorkerPc.target,
        Processor.WorkerPc.lostEvent]

/-- The moves of such a run are orderly. -/
theorem orderly (h : OneProcessorHolds s) {i : Session} {a : i.Act}
    (hguard : @oneProcessor cfg i s.world (s.proc i) a) {m : Ledger.Move}
    (hm : Session.Moves cfg s.world i (s.proc i) a m) (hadm : s.world.ledger.Admissible m)
    (hlands : MoveLands (fun _ => True) (fun _ s => s = .inReview) s.world.ledger m) :
    s.world.ledger.Orderly m := by
  cases i with
  | worker n =>
    cases (hguard : n = 0)
    have hundisturbed := h.undisturbed
    cases hm with
    | skip | fanOut => trivial
    | @lose event pc =>
      replace pc : (worker s 0).pc = .committing event .lost := pc
      have hlost := hundisturbed.lost
      rw [pc] at hlost
      cases hlost
    | @retry event payment outcome attempts pc settle =>
      replace pc : (worker s 0).pc = .committing event (.settled payment outcome) := pc
      exact hundisturbed.pending event (.inr (by rw [pc]; rfl)) (by rw [pc]; rfl)
    | @settle event payment outcome f m d e pc settle =>
      replace pc : (worker s 0).pc = .committing event (.settled payment outcome) := pc
      exact hundisturbed.pending event (.inr (by rw [pc]; rfl)) (by rw [pc]; rfl)
  | review n =>
    cases hm with
    | skip => trivial
    | approve =>
      obtain ⟨st, hst⟩ := Option.isSome_iff_exists.1 hadm.1
      cases hlands st hst
      exact hst
    | reject =>
      obtain ⟨st, hst⟩ := Option.isSome_iff_exists.1 hadm
      cases hlands st hst
      exact hst
  | create n =>
    cases hm with
    | skip | create | createWith => trivial
  | environment =>
    cases hm
    trivial

theorem next (h : OneProcessorHolds s) {i : Session} {a : i.Act}
    (hguard : @oneProcessor cfg i s.world (s.proc i) a) (hstep : s.step i a = some s') :
    OneProcessorHolds s' ∧ ∀ p, s.world.status p = some .blocked →
      s'.world.status p = some .blocked := by
  have hatomic : @landingAtomic cfg (fun _ => True) i s.world (s.proc i) a := by
    cases i with
    | worker n => exact fun _ _ _ _ _ _ => trivial
    | review n => exact hguard
    | create n => trivial
    | environment => trivial
  obtain ⟨hlanded, m, hm, hadm, hlands, hledger⟩ :=
    h.landed.next (fun _ => rfl) (landing_of_atomic hatomic) hstep
  have horderly := h.orderly hguard hm hadm hlands
  have hown := System.State.step_self hstep
  have hwf := h.landed.integrity.wf
  have hworker := h.landed.integrity.inv (.worker 0)
  refine ⟨⟨hlanded, fun p => ?_, ?_⟩, fun p hp => ?_⟩
  · rw [hledger]
    exact Ledger.Phase.apply h.phases hadm horderly p
  · cases i with
    | worker n =>
      cases (hguard : n = 0)
      exact h.undisturbed.next hwf hworker (Processor.Worker.next_of_step hown)
    | review n =>
      have hproc : worker s' 0 = worker s 0 := System.State.step_proc_ne hstep (by simp)
      have hmarked : m.marked = none := by cases hm <;> rfl
      rw [hproc]
      refine h.undisturbed.stable hworker hadm hmarked hledger (fun p hp => ?_) h.phases
      refine Review.Call.Inv.committed_payments hwf (h.landed.integrity.inv (.review n))
        (Review.Call.next_of_step hown) hguard ?_
      rcases hp with hp | hp <;> simp [hp]
    | create n =>
      have hproc : worker s' 0 = worker s 0 := System.State.step_proc_ne hstep (by simp)
      have hmarked : m.marked = none := by cases hm <;> rfl
      rw [hproc]
      refine h.undisturbed.stable hworker hadm hmarked hledger (fun p hp => ?_) h.phases
      refine Create.Run.Inv.committed_payments (h.landed.integrity.inv (.create n))
        (Create.Run.next_of_step hown) ?_
      rcases hp with hp | hp <;>
        exact Option.isSome_map.symm.trans (by rw [← World.status, hp]; rfl)
    | environment =>
      have hproc : worker s' 0 = worker s 0 := System.State.step_proc_ne hstep (by simp)
      have hmarked : m.marked = none := by
        cases hm
        rfl
      rw [hproc]
      refine h.undisturbed.stable hworker hadm hmarked hledger (fun p _ => ?_) h.phases
      cases a with
      | expireGate key =>
        obtain ⟨w', l', he, rfl⟩ := System.State.step_eq_some.1 hstep
        cases he
        rfl
  · rw [← World.ledger_status, hledger]
    exact Ledger.Phase.blocked_apply h.phases hadm horderly hp

theorem of_reaches (h : OneProcessorHolds s) (hrun : (payments cfg).Reaches oneProcessor s s') :
    OneProcessorHolds s' :=
  hrun.invariant (fun hi hguard hstep => (hi.next hguard hstep).1) h

/-- Blocked payments stay blocked along a run. -/
theorem blocked_of_reaches (h : OneProcessorHolds s)
    (hrun : (payments cfg).Reaches oneProcessor s s') {p : UUID}
    (hp : s.world.status p = some .blocked) : s'.world.status p = some .blocked := by
  induction hrun with
  | refl => exact hp
  | step run meets next ih => exact ((h.of_reaches run).next meets next).2 p ih

end OneProcessorHolds

/-- With one processor and atomic reviews, every payment corresponds to its events in every state
reached from empty tables, and blocked payments stay blocked: creations and reviews may fall
anywhere, and any step may fail. -/
theorem payments_correspond {s₀ s s' : State cfg} (h₀ : Initial s₀)
    (hrun : (payments cfg).Reaches oneProcessor s₀ s)
    (hlater : (payments cfg).Reaches oneProcessor s s') (p : UUID) :
    s.world.Corresponds p ∧
      (s.world.status p = some .blocked → s'.world.status p = some .blocked) :=
  have h := (OneProcessorHolds.initial h₀).of_reaches hrun
  ⟨World.corresponds_of_phase (h.phases p), h.blocked_of_reaches hlater⟩

set_option maxRecDepth 10000 in
/-- A payment is approved, a first run of the worker dies after the provider call, and a second one
confirms the payment. -/
theorem payments_correspond_after_crash : ∃ s : State sampleSettings,
    s.world.status 1 = some .confirmed ∧ s.world.Corresponds 1 := by
  let request : OutboxEvent :=
    .new 11 1 .paymentRequested (.paymentRequested 1 "m" "review" none) 0
  let fetch : List (Σ i, (payments sampleSettings).Act i) :=
    [⟨.worker 0, Processor.WorkerAction.fetchPendingRequested 0 [request]⟩]
  have hrun : (System.State.run oneProcessor (creation 0 ⟨0, .review, .allow⟩ 1 10 ++
      [⟨.review 0, Review.Action.decide 11 0⟩] ++ fetch ++ callProvider 0 (answer false) ++
      [⟨.worker 0, Processor.WorkerAction.crash⟩] ++ fetch ++ callProvider 0 (answer false) ++
      settle 0 12 0) sample).map (·.world.status 1) = some (some .confirmed) := by decide
  obtain ⟨s, hs, hstatus⟩ := Option.map_eq_some_iff.1 hrun
  exact ⟨s, hstatus,
    (payments_correspond (fresh_initial _ _ _) (System.Reaches.of_run hs) .refl 1).1⟩

end Payments

end PaymentsLab
