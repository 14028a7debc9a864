import PaymentsLab.System.Refinement

/-!
# The committed rows of the outbox

Three things happen to the committed row of an event: it is added, pending and never attempted; a
worker commits the mark it has put on it; or nothing. `Payments.Integrity.eventRows` derives it for
every step of the system; `Session.commits` is the mark a step commits.
-/

namespace PaymentsLab

open Foundation

/-- What a step that commits the mark `marked` does to the rows of the outbox. -/
structure EventRows (marked : Option (OutboxEvent × EventMark)) (w w' : World) : Prop where
  /-- the row of the marked event takes the mark -/
  mark : ∀ {event m}, marked = some (event, m) → ∃ row at',
    w.outbox.committed event.eventId = some row ∧
      w'.outbox.committed event.eventId = some (OutboxRepository.setMark at' m row)
  /-- every other row stays as it is, or is new -/
  other : ∀ k, (∀ event m, marked = some (event, m) → event.eventId ≠ k) →
    w'.outbox.committed k = w.outbox.committed k ∨
      w.outbox.committed k = none ∧
        ∃ e, w'.outbox.committed k = some e ∧ e.status = .pending ∧ e.attempts = 0

namespace EventRows

variable {marked : Option (OutboxEvent × EventMark)} {w w' : World} {k : UUID}

/-- A step that leaves the committed rows alone. -/
theorem same (h : ∀ k, w'.outbox.committed k = w.outbox.committed k) : EventRows none w w' where
  mark hm := by cases hm
  other k _ := .inl (h k)

/-- A commit with at most one new event. -/
theorem commit_singleEvent {w₀ : World} {t : Session} {added : Option OutboxEvent}
    (hcommitted : ∀ k, w.outbox.committed k = w₀.outbox.committed k)
    (hwrites : w.outbox.writes t = singleEvent added)
    (hnew : ∀ e, added = some e → w₀.outbox.committed e.eventId = none ∧ e.status = .pending ∧
      e.attempts = 0) : EventRows none w₀ (w.commit t) where
  mark hm := by cases hm
  other k _ := by
    rw [World.outbox_commit, RowStore.committed_commit, hwrites, hcommitted]
    cases hs : singleEvent added k with
    | none => exact .inl rfl
    | some e =>
      obtain ⟨he, rfl⟩ := singleEvent_eq_some hs
      obtain ⟨hnone, hstatus, hattempts⟩ := hnew e he
      exact .inr ⟨hnone, e, rfl, hstatus, hattempts⟩

/-- A committed event stays. -/
theorem kept (h : EventRows marked w w') {row : OutboxEvent}
    (hrow : w.outbox.committed k = some row) :
    w'.outbox.committed k = some row ∨
      ∃ event m at', marked = some (event, m) ∧ event.eventId = k ∧
        w'.outbox.committed k = some (OutboxRepository.setMark at' m row) := by
  by_cases hmarked : ∀ event m, marked = some (event, m) → event.eventId ≠ k
  · rcases h.other k hmarked with hsame | ⟨hnone, -⟩
    · exact .inl (hsame.trans hrow)
    · cases hnone.symm.trans hrow
  · push Not at hmarked
    obtain ⟨event, m, hm, rfl⟩ := hmarked
    obtain ⟨row', at', hrow', hset⟩ := h.mark hm
    cases hrow.symm.trans hrow'
    exact .inr ⟨event, m, at', hm, rfl, hset⟩

/-- An event that is not pending does not become pending. -/
theorem closed (h : EventRows marked w w') {row : OutboxEvent}
    (hrow : w.outbox.committed k = some row) (hclosed : row.status ≠ .pending) :
    ∃ row', w'.outbox.committed k = some row' ∧ row'.status ≠ .pending := by
  rcases h.kept hrow with hsame | ⟨event, m, at', -, -, hset⟩
  · exact ⟨row, hsame, hclosed⟩
  · refine ⟨_, hset, ?_⟩
    cases m with
    | sent | failed => simp [OutboxRepository.setMark]
    | reschedule => exact hclosed

end EventRows

/-! ## Workers -/

namespace Processor

/-- The mark a step of a worker commits. -/
def Worker.commits (cfg : Settings) (l : Worker) : WorkerAction → Option (OutboxEvent × EventMark)
  | .commit => l.pc.marked cfg
  | _ => none

theorem committed_markEvent {w w' : World} {t : Session} {event : OutboxEvent} {m : EventMark}
    {now : Instant} {draw : Int} (h : markEvent w t event m now draw = some w') (k : UUID) :
    w'.outbox.committed k = w.outbox.committed k := by
  unfold markEvent OutboxRepository.mark OutboxRepository.run at h
  split at h
  · obtain ⟨⟨s, b⟩, hu, rfl⟩ := Option.map_eq_some_iff.1 h
    rcases RowStore.update_cases hu with ⟨-, -, row, -, -, rfl⟩ | ⟨-, rfl, -⟩
    · simp
    · rfl
  · cases h

/-- The event of a finalization is a new one. -/
theorem IsEmission.new {final : Option (Payment × Finalization)} {added : Option OutboxEvent}
    (h : IsEmission final added) {e : OutboxEvent} (he : added = some e) :
    e.status = .pending ∧ e.attempts = 0 := by
  subst he
  cases final with
  | none => exact h.elim
  | some final =>
    obtain ⟨eventId, now, rfl⟩ := h
    exact ⟨rfl, rfl⟩

namespace Worker.Inv

variable {cfg : Settings} {w w' : World} {t : Session} {l l' : Worker} {a : WorkerAction}

/-- The commit of a mark. -/
theorem eventRows_commit (h : Worker.Inv cfg w t l) {event : OutboxEvent} {m : EventMark}
    (hmarked : l.pc.marked cfg = some (event, m)) :
    EventRows (some (event, m)) w (w.commit t) := by
  obtain ⟨added, hem, hnew, hev⟩ := h.events
  rw [hmarked] at hev
  obtain ⟨row, at', hrow, hwrites⟩ := hev
  refine ⟨fun hm => ?_, fun k hk => ?_⟩
  · cases hm
    exact ⟨row, at', hrow, by simp [hwrites]⟩
  · have hne : k ≠ event.eventId := (hk event m rfl).symm
    rw [World.outbox_commit, RowStore.committed_commit, hwrites, Function.update_of_ne hne]
    cases hs : singleEvent added k with
    | none => exact .inl rfl
    | some e =>
      obtain ⟨he, rfl⟩ := singleEvent_eq_some hs
      exact .inr ⟨hnew e he, e, rfl, hem.new he⟩

/-- What a step of a worker does to the rows of the outbox. -/
theorem eventRows (h : Worker.Inv cfg w t l) (hn : Next cfg t w l a w' l') :
    EventRows (l.commits cfg a) w w' := by
  cases hn with
  | fetched | found | notFound | missed | unfinalized | fetchedFanout | ended | called | published
  | locked => exact .same fun _ => rfl
  | crashed => exact .same fun _ => by simp
  | markedMissing pc mark | markedLost pc mark | marked pc mark | markedFanout pc mark =>
    exact .same (committed_markEvent mark)
  | @finalized event payment outcome eventId now w' f pc final run =>
    obtain ⟨row₀, hwrites, -⟩ := h.held payment _ (by rw [pc]; rfl) (by rw [pc]; rfl)
    have hown : w.payments.writes t payment.paymentId = some row₀ := by
      rw [hwrites, Function.update_self]
    obtain ⟨-, -, -, -, rfl⟩ := Finalization.run_eq_some hown run
    exact .same fun _ => by simp
  | committed pc =>
    have hmarked : l.pc.marked cfg = _ := congrArg (WorkerPc.marked cfg) pc
    exact (show l.commits cfg .commit = _ from hmarked) ▸ h.eventRows_commit hmarked
  | committedFanout pc =>
    have hmarked : l.pc.marked cfg = _ := congrArg (WorkerPc.marked cfg) pc
    exact (show l.commits cfg .commit = _ from hmarked) ▸ h.eventRows_commit hmarked

end Worker.Inv

end Processor

/-! ## Reviews and creations -/

namespace Review.Call.Inv

variable {w w' : World} {t : Session} {c c' : Call} {a : Action}

/-- The commit of a decision. -/
theorem eventRows_commit (h : Call.Inv w t c) {payment : Payment} {eventId : UUID} {now : Instant}
    (pc : c.pc = .updated payment) (hn : Next t w c (.commit eventId now) w' c') :
    EventRows none w w' := by
  obtain ⟨-, hclean⟩ := h.held payment pc
  cases hn with
  | rejected =>
    have hwrites : w.outbox.writes t = singleEvent none := hclean
    exact .commit_singleEvent (fun _ => rfl) hwrites (by simp)
  | @approved _ _ payment' _ _ _ hd hnew hfree =>
    have hwrites : (w.outbox.put t eventId (c.requestedEvent payment' eventId now)).writes t =
        singleEvent (some (c.requestedEvent payment' eventId now)) := by
      rw [RowStore.writes_put_self, hclean, singleEvent_some]
      rfl
    refine .commit_singleEvent (w := { w with
      outbox := w.outbox.put t eventId (c.requestedEvent payment' eventId now) })
      (fun _ => by simp) hwrites fun e he => ?_
    cases he
    exact ⟨hnew, rfl, rfl⟩

/-- What a step of a review call does to the rows of the outbox. -/
theorem eventRows (hw : w.WF) (h : Call.Inv w t c) (hn : Next t w c a w' c') :
    EventRows none w w' := by
  cases hn with
  | loaded | refused | refusedAtOnce | unmatched | recorded | updated => exact .same fun _ => rfl
  | crashed => exact .same fun _ => by simp
  | approved pc decision new free => exact h.eventRows_commit pc (.approved pc decision new free)
  | @rejected _ _ payment eventId now pc decision =>
    have hn : Next t w c (.commit eventId now) (w.commit t) { c with pc := .committed payment } :=
      .rejected pc decision
    exact h.eventRows_commit pc hn
  | decided load update commit =>
    obtain ⟨-, row, -, -, rfl, rfl, hinv⟩ := h.decided hw load update
    have hrows := hinv.eventRows_commit rfl commit
    exact ⟨hrows.mark, hrows.other⟩

end Review.Call.Inv

namespace Create.Run.Inv

variable {w w' : World} {t : Session} {r r' : Run} {a : Action}

/-- The event of a creation is a new one. -/
theorem attempts_outboxEvent {response : PaymentAcceptedResponse} {eventId : UUID} {now : Instant}
    {e : OutboxEvent} (h : r.outboxEvent response eventId now = some e) : e.attempts = 0 := by
  unfold Run.outboxEvent at h
  split at h <;> cases h <;> rfl

/-- What a step of a creation does to the rows of the outbox. -/
theorem eventRows (h : Run.Inv w t r) (hn : Next t w r a w' r') : EventRows none w w' := by
  cases hn with
  | replayed | unknown | polled | unresolved | answered | repolled | gaveUp | refused
  | controlled | conflicted | observed | crashed => exact .same fun _ => rfl
  | @acquired reply pc =>
    obtain ⟨gate, hgate⟩ := r.acquire_fst w reply
    rw [hgate]
    exact .same fun _ => rfl
  | @persisted decision response eventId now w₁ pc free rows =>
    obtain ⟨-, hwrites, -⟩ := insertRows_holds h.clean rows
    obtain ⟨-, -, hevent, rfl⟩ := insertRows_eq_some rows
    refine .commit_singleEvent (fun k => ?_) hwrites fun e he => ?_
    · cases r.outboxEvent response eventId now <;> simp
    · exact ⟨(hevent e he).1, (outboxEvent_eq_some he).1, attempts_outboxEvent he⟩

end Create.Run.Inv

/-! ## The system -/

/-- The mark a step commits. -/
def Session.commits (cfg : Processor.Settings) :
    (t : Session) → t.Local → t.Act → Option (OutboxEvent × EventMark)
  | .worker _, l, a => Processor.Worker.commits cfg l a
  | _, _, _ => none

namespace Payments

variable {cfg : Processor.Settings} {good : (payments cfg).Guard} {s s' : State cfg}

/-- What a step of the system does to the rows of the outbox. -/
theorem Integrity.eventRows (h : Integrity s) {i : Session} {a : i.Act}
    (hstep : s.step i a = some s') :
    EventRows (Session.commits cfg i (s.proc i) a) s.world s'.world := by
  have hown := System.State.step_self hstep
  have hinv := h.inv i
  cases i with
  | worker n => exact Processor.Worker.Inv.eventRows hinv (Processor.Worker.next_of_step hown)
  | review n => exact Review.Call.Inv.eventRows h.wf hinv (Review.Call.next_of_step hown)
  | create n => exact Create.Run.Inv.eventRows hinv (Create.Run.next_of_step hown)
  | environment =>
    cases a with
    | expireGate key =>
      obtain ⟨w', l', he, rfl⟩ := System.State.step_eq_some.1 hstep
      cases he
      exact .same fun _ => rfl

/-- No run makes an event pending again. -/
theorem Integrity.closed (h : Integrity s) (hrun : (payments cfg).Reaches good s s') {k : UUID}
    {row : OutboxEvent} (hrow : s.world.outbox.committed k = some row)
    (hclosed : row.status ≠ .pending) :
    ∃ row', s'.world.outbox.committed k = some row' ∧ row'.status ≠ .pending := by
  have hinv : Integrity s' ∧
      ∃ row', s'.world.outbox.committed k = some row' ∧ row'.status ≠ .pending := by
    refine hrun.invariant (I := fun s => Integrity s ∧ ∃ row',
      s.world.outbox.committed k = some row' ∧ row'.status ≠ .pending) ?_ ⟨h, row, hrow, hclosed⟩
    rintro s s' i a ⟨hi, row, hrow, hclosed⟩ - hstep
    exact ⟨(hi.next hstep).2, (hi.eventRows hstep).closed hrow hclosed⟩
  exact hinv.2

end Payments

end PaymentsLab
