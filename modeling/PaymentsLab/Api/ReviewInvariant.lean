import PaymentsLab.Api.ReviewPayment
import PaymentsLab.System.Statements

/-!
# What a review call holds

`Next` lists the steps of a review call with the table changes written out
(`Call.next_of_step`). `Call.Inv` ties the uncommitted rows of its session to its place in
`execute`: a call holds one payment row between its `UPDATE` and its commit, and nothing else.
-/

namespace PaymentsLab

open Foundation

namespace Review

/-- The columns a decision sets. -/
def Decision.set (d : Decision) (row : Payment) : Payment :=
  { row with status := d.status, lastError := d.lastError }

@[simp] theorem Decision.identity_set (d : Decision) (row : Payment) :
    (d.set row).identity = row.identity :=
  rfl

/-- The event of an approval. -/
def Call.requestedEvent (c : Call) (payment : Payment) (eventId : UUID) (now : Instant) :
    OutboxEvent :=
  .new eventId c.paymentId .paymentRequested
    (.paymentRequested c.paymentId payment.merchantId c.traceId c.traceparent) now

/-- What the check of `_load_review_payment_or_raise` accepts. -/
theorem loadReviewPaymentOrRaise_ok {w : World} {t : Session} {p : UUID} {payment : Payment}
    (h : loadReviewPaymentOrRaise w t p = .ok payment) :
    w.payments.view t p = some payment ∧ payment.status = .inReview := by
  unfold loadReviewPaymentOrRaise at h
  split at h
  · cases h
  · next hv =>
    split at h
    · next hs =>
      cases h
      exact ⟨hv, hs⟩
    · cases h

/-- A refused call has raised a `ValidationAppError`. -/
theorem loadReviewPaymentOrRaise_error {w : World} {t : Session} {p : UUID} {e : AppError}
    (h : loadReviewPaymentOrRaise w t p = .error e) : ∃ message, e = .validation message := by
  unfold loadReviewPaymentOrRaise at h
  split at h
  · cases h
    exact ⟨_, rfl⟩
  · split at h
    · cases h
    · cases h
      exact ⟨_, rfl⟩

/-- The steps of a review call; `decided` is `load`, `updateStatus` and `commit` in one. -/
inductive Next (t : Session) : World → Call → Action → World → Call → Prop
  | loaded {w : World} {c : Call} {payment : Payment} (pc : c.pc = .start)
    (view : w.payments.view t c.paymentId = some payment) (status : payment.status = .inReview) :
    Next t w c .load w { c with pc := .loaded payment }
  | refused {w : World} {c : Call} {message : String} (pc : c.pc = .start) :
    Next t w c .load w { c with pc := .raised (.validation message) }
  | updated {w : World} {c : Call} {payment row : Payment} (pc : c.pc = .loaded payment)
    (free : w.payments.Free t c.paymentId) (view : w.payments.view t c.paymentId = some row) :
    Next t w c .updateStatus
      { w with payments := w.payments.put t c.paymentId (c.decision.set row) }
      { c with pc := .updated payment }
  | unmatched {w : World} {c : Call} {payment : Payment} (pc : c.pc = .loaded payment)
    (none : w.payments.view t c.paymentId = none ∨ w.payments.committed c.paymentId = none) :
    Next t w c .updateStatus w { c with pc := .updated payment }
  | approved {w : World} {c : Call} {payment : Payment} {eventId : UUID} {now : Instant}
    (pc : c.pc = .updated payment) (decision : c.decision = .approve)
    (new : w.outbox.committed eventId = none) (free : w.outbox.Free t eventId) :
    Next t w c (.commit eventId now)
      ({ w with
          outbox := w.outbox.put t eventId (c.requestedEvent payment eventId now) }.commit t)
      { c with pc := .committed payment }
  | rejected {w : World} {c : Call} {payment : Payment} {eventId : UUID} {now : Instant}
    (pc : c.pc = .updated payment) (decision : c.decision = .reject) :
    Next t w c (.commit eventId now) (w.commit t) { c with pc := .committed payment }
  | decided {w w' w'' w''' : World} {c c' c'' c''' : Call} {eventId : UUID} {now : Instant}
    (load : Next t w c .load w' c') (update : Next t w' c' .updateStatus w'' c'')
    (commit : Next t w'' c'' (.commit eventId now) w''' c''') :
    Next t w c (.decide eventId now) w''' c'''
  | refusedAtOnce {w : World} {c : Call} {message : String} {eventId : UUID} {now : Instant}
    (pc : c.pc = .start) :
    Next t w c (.decide eventId now) w { c with pc := .raised (.validation message) }
  | recorded {w : World} {c : Call} {payment : Payment} (pc : c.pc = .committed payment) :
    Next t w c .recordReviewQueueSize w { c with pc := .returned (buildReviewResponse c payment) }
  | crashed {w : World} {c : Call} (running : ¬ ∃ e, c.pc = .raised e) :
    Next t w c .crash (w.rollback t) { c with pc := .crashed }

theorem next_of_load {t : Session} {w : World} {c : Call} (pc : c.pc = .start) :
    Next t w c .load w (load t w c) := by
  unfold load
  split
  · next h =>
    obtain ⟨hv, hs⟩ := loadReviewPaymentOrRaise_ok h
    exact .loaded pc hv hs
  · next h =>
    obtain ⟨message, rfl⟩ := loadReviewPaymentOrRaise_error h
    exact .refused pc

theorem next_of_updateStatus {t : Session} {w w' : World} {c c' : Call} {payment : Payment}
    (pc : c.pc = .loaded payment) (h : updateStatus t w c payment = some (w', c')) :
    Next t w c .updateStatus w' c' := by
  unfold updateStatus at h
  obtain ⟨⟨w₁, b⟩, hu, he⟩ := Option.map_eq_some_iff.1 h
  cases he
  rcases PaymentRepository.run_update hu with ⟨rfl, free, row, hv, -, rfl⟩ | ⟨rfl, rfl, hn⟩
  · exact .updated pc free hv
  · refine .unmatched pc ?_
    by_contra hne
    obtain ⟨hv, hc⟩ := not_or.1 hne
    obtain ⟨row, hrow⟩ := Option.ne_none_iff_exists'.1 hv
    exact absurd (hn row hrow hc).2 (by simp)

theorem next_of_commit {t : Session} {w w' : World} {c c' : Call} {payment : Payment}
    {eventId : UUID} {now : Instant} (pc : c.pc = .updated payment)
    (h : commit t w c payment eventId now = some (w', c')) :
    Next t w c (.commit eventId now) w' c' := by
  unfold commit at h
  split at h
  · next hd =>
    obtain ⟨w₁, hw, he⟩ := Option.map_eq_some_iff.1 h
    cases he
    obtain ⟨hnew, -, hfree, rfl⟩ := OutboxRepository.addEvent_eq_some hw
    exact .approved pc hd hnew hfree
  · next hd =>
    cases h
    exact .rejected pc hd

theorem Call.next_of_step {t : Session} {w w' : World} {c c' : Call} {a : Action}
    (h : c.step t w a = some (w', c')) : Next t w c a w' c' := by
  unfold Call.step at h
  split at h
  case h_1 pc =>
    cases h
    exact next_of_load pc
  case h_2 pc => exact next_of_updateStatus pc h
  case h_3 pc => exact next_of_commit pc h
  case h_4 pc =>
    have hload := next_of_load (t := t) (w := w) pc
    split at h
    · next payment hpc =>
      obtain ⟨⟨w₁, c₁⟩, hu, hc⟩ := Option.bind_eq_some_iff.1 h
      have hcall : load t w c = { c with pc := .loaded payment } := by
        rw [← hpc]
        unfold load
        split <;> rfl
      rw [hcall] at hload
      have hupdate := next_of_updateStatus (c := { c with pc := .loaded payment }) rfl hu
      have hc₁ : c₁ = { c with pc := .updated payment } := by
        unfold updateStatus at hu
        obtain ⟨r, -, he⟩ := Option.map_eq_some_iff.1 hu
        cases he
        rfl
      rw [hc₁] at hupdate
      exact .decided hload hupdate (next_of_commit (c := { c with pc := .updated payment }) rfl hc)
    · next hpc =>
      cases h
      unfold load at hpc ⊢
      split
      · next h => exact absurd (by rw [h]) (hpc _)
      · next h =>
        obtain ⟨message, rfl⟩ := loadReviewPaymentOrRaise_error h
        exact .refusedAtOnce pc
  case h_5 pc =>
    cases h
    exact .recorded pc
  case h_6 => cases h
  case h_7 => cases h
  case h_8 => cases h
  case h_9 hraised _ =>
    cases h
    exact .crashed fun ⟨e, he⟩ => hraised e he
  case h_10 => cases h

/-- A review call has no effect outside the database. -/
theorem Next.effects {t : Session} {w w' : World} {c c' : Call} {a : Action}
    (h : Next t w c a w' c') : w'.confirms = w.confirms ∧ w'.published = w.published := by
  induction h with
  | decided _ _ _ ih₁ ih₂ ih₃ =>
    exact ⟨ih₃.1.trans (ih₂.1.trans ih₁.1), ih₃.2.trans (ih₂.2.trans ih₁.2)⟩
  | _ => exact ⟨rfl, rfl⟩

/-- The call has seen the row of its payment. -/
def Pc.known : Pc → Bool
  | .loaded _ => true
  | .updated _ => true
  | .committed _ => true
  | .returned _ => true
  | _ => false

/-- What a review call holds at each place of its program. -/
structure Call.Inv (w : World) (t : Session) (c : Call) : Prop where
  clean : (∀ payment, c.pc ≠ .updated payment) → w.Clean t
  known : c.pc.known = true → (w.payments.committed c.paymentId).isSome
  held : ∀ payment, c.pc = .updated payment →
    w.HoldsPayment t c.paymentId c.decision.status ∧ w.outbox.writes t = fun _ => none
  refused : ∀ e, c.pc = .raised e → ∃ message, e = .validation message

namespace Call.Inv

variable {w w' : World} {t : Session} {c c' : Call} {a : Action}

/-- No other session can break it. -/
theorem stable (h : Call.Inv w t c) (hr : w.Rely t w') : Call.Inv w' t c where
  clean hpc := (h.clean hpc).stable hr
  known hpc := by
    obtain ⟨row, hrow⟩ := Option.isSome_iff_exists.1 (h.known hpc)
    obtain ⟨row', hrow', -⟩ := hr.payments.kept hrow
    simp [hrow']
  held payment hpc :=
    ⟨(h.held payment hpc).1.stable hr, hr.outbox.writes.trans (h.held payment hpc).2⟩
  refused := h.refused

/-- A place at which nothing is held. -/
theorem of_clean (hclean : w.Clean t) (hupdated : ∀ payment, c.pc ≠ .updated payment)
    (hknown : c.pc.known = true → (w.payments.committed c.paymentId).isSome)
    (hrefused : ∀ e, c.pc = .raised e → ∃ message, e = .validation message) :
    Call.Inv w t c where
  clean _ := hclean
  known := hknown
  held payment hpc := absurd hpc (hupdated payment)
  refused := hrefused

/-- A call that has not begun. -/
theorem start (hclean : w.Clean t) (hpc : c.pc = .start) : Call.Inv w t c :=
  of_clean hclean (by simp [hpc]) (by simp [hpc, Pc.known]) (by simp [hpc])

/-- The end of the transaction. -/
theorem committed (hknown : (w.payments.committed c.paymentId).isSome)
    {payment : Payment} : Call.Inv (w.commit t) t { c with pc := .committed payment } := by
  refine of_clean (w.clean_commit t) (fun _ => by simp) (fun _ => ?_) (fun _ he => by cases he)
  simp [hknown]

/-- Every step of a review call is a sequence of statements and keeps the invariant. -/
theorem next (hw : w.WF) (h : Call.Inv w t c) (hn : Next t w c a w' c') :
    Statements t w w' ∧ Call.Inv w' t c' := by
  induction hn with
  | loaded pc view status =>
    have hc := h.clean (by simp [pc])
    rw [RowStore.view_of_committed (by rw [hc.payments])] at view
    exact ⟨.nil, of_clean hc (fun _ => by simp) (fun _ => by simp [view])
      (fun _ he => by cases he)⟩
  | refused pc | refusedAtOnce pc =>
    have hc := h.clean (by simp [pc])
    refine ⟨.nil, of_clean hc (fun _ => by simp) (fun hk => by cases hk) (fun e he => ?_)⟩
    cases he
    exact ⟨_, rfl⟩
  | @updated w c payment row pc free view =>
    have hc := h.clean (by simp [pc])
    rw [RowStore.view_of_committed (by rw [hc.payments])] at view
    have hkey := hw.payments.committed_key view
    have hs : Statement t w { w with
        payments := w.payments.put t c.paymentId (c.decision.set row) } := by
      refine .putPayment free hkey fun r₀ hr₀ => ?_
      cases view.symm.trans hr₀
      rfl
    refine ⟨hs.single, ⟨fun hpc => absurd rfl (hpc payment), fun _ => by simp [view],
      fun payment hpc => ⟨⟨c.decision.set row, ?_, rfl⟩, hc.outbox⟩, fun e he => by cases he⟩⟩
    rw [RowStore.writes_put_self, hc.payments]
  | unmatched pc none =>
    have hc := h.clean (by simp [pc])
    have hknown := h.known (by rw [pc]; rfl)
    rw [RowStore.view_of_committed (by rw [hc.payments]), or_self] at none
    simp [none] at hknown
  | @approved w c payment eventId now pc decision new free =>
    have hknown := h.known (by rw [pc]; rfl)
    have hput : Statement t w { w with
        outbox := w.outbox.put t eventId (c.requestedEvent payment eventId now) } := by
      refine .putEvent free rfl (by simp [new]) ?_
      simp [RowStore.view, Call.requestedEvent, hknown]
    exact ⟨.cons hput.single .commit, committed (w := { w with
      outbox := w.outbox.put t eventId (c.requestedEvent payment eventId now) }) hknown⟩
  | rejected pc decision =>
    exact ⟨Statement.commit.single, committed (h.known (by rw [pc]; rfl))⟩
  | decided load update commit ihLoad ihUpdate ihCommit =>
    obtain ⟨s₁, h₁⟩ := ihLoad hw h
    obtain ⟨s₂, h₂⟩ := ihUpdate (s₁.wf hw) h₁
    obtain ⟨s₃, h₃⟩ := ihCommit (s₂.wf (s₁.wf hw)) h₂
    exact ⟨s₁.trans (s₂.trans s₃), h₃⟩
  | recorded pc =>
    exact ⟨.nil, of_clean (h.clean (by simp [pc])) (fun _ => by simp)
      (fun _ => h.known (by rw [pc]; rfl)) (fun _ he => by cases he)⟩
  | crashed =>
    exact ⟨Statement.rollback.single, of_clean (World.clean_rollback _ t) (fun _ => by simp)
      (fun hk => by cases hk) (fun _ he => by cases he)⟩

/-- A call that decides at once has found its payment in review. -/
theorem decided (hw : w.WF) (h : Call.Inv w t c) {w₁ w₂ : World} {c₁ c₂ : Call}
    (load : Next t w c .load w₁ c₁) (update : Next t w₁ c₁ .updateStatus w₂ c₂) :
    c.pc = .start ∧ ∃ row, w.payments.committed c.paymentId = some row ∧ row.status = .inReview ∧
      w₂ = { w with payments := w.payments.put t c.paymentId (c.decision.set row) } ∧
      c₂ = { c with pc := .updated row } ∧ Call.Inv w₂ t c₂ := by
  have h₁ := h.next hw load
  have h₂ := h₁.2.next (h₁.1.wf hw) update
  cases load with
  | refused pc =>
    cases update with
    | updated pc' | unmatched pc' => cases pc'
  | @loaded _ _ payment pc view status =>
    have hclean := h.clean (by simp [pc])
    rw [RowStore.view_of_committed (by rw [hclean.payments])] at view
    cases update with
    | unmatched pc' none => simp [RowStore.view_of_committed, hclean.payments, view] at none
    | updated pc' free view' =>
      cases pc'
      simp only [RowStore.view_of_committed, hclean.payments, view] at view'
      cases view'
      exact ⟨pc, payment, view, status, rfl, rfl, h₂.2⟩

end Call.Inv

end Review

end PaymentsLab
