import PaymentsLab.System.Retries

/-!
# Delivery of the fan-out events

A fan-out event is `SENT` only after a publication that has succeeded, whatever the workers do
(`sent_published`). That a `FAILED` event was never published needs more: the marks are guarded by
the event id only, so of two workers that hold one event the last one decides. It holds where the
last attempt of an event overlaps none of its successful publications (`PublishesApart`).
-/

namespace PaymentsLab

open Foundation

namespace Processor

/-- The event a worker has published, until its commit. -/
def WorkerPc.delivering : WorkerPc → Option OutboxEvent
  | .published event true => some event
  | .committingFanout event true => some event
  | _ => none

/-- The event a worker is about to give up: the mark `FAILED` is on its row, the commit is next. -/
def WorkerPc.givingUp (cfg : Settings) : WorkerPc → Option OutboxEvent
  | .committingFanout event false =>
    if cfg.maxEventAttempts ≤ event.attempts + 1 then some event else none
  | _ => none

/-- The event this step publishes successfully. -/
def Worker.publishes (l : Worker) (a : WorkerAction) : Option OutboxEvent :=
  match l.pc, a with
  | .fanout, .publish true => l.events.head?
  | _, _ => none

/-- The event this step marks `FAILED` after a failed publication. -/
def Worker.givesUp (cfg : Settings) (l : Worker) (a : WorkerAction) : Option OutboxEvent :=
  match l.pc, a with
  | .published event false, .markFanout _ _ =>
    if cfg.maxEventAttempts ≤ event.attempts + 1 then some event else none
  | _, _ => none

/-- What is committed at a place of the loop over the fan-out events. -/
theorem WorkerPc.marked_fansOut {cfg : Settings} {pc : WorkerPc} (hpc : pc.fansOut = true)
    {event : OutboxEvent} {m : EventMark} (h : pc.marked cfg = some (event, m)) :
    (m = .sent ∧ pc.delivering = some event) ∨
      (∃ attempts, m = .failed attempts) ∧ pc.givingUp cfg = some event ∧ pc.delivering = none ∨
      (∃ attempts, m = .reschedule attempts) ∧ pc.delivering = none := by
  unfold marked at h
  split at h
  · cases hpc
  · next success =>
    cases h
    cases success with
    | true => exact .inl ⟨rfl, rfl⟩
    | false =>
      by_cases hlast : cfg.maxEventAttempts ≤ event.attempts + 1
      · exact .inr (.inl ⟨⟨event.attempts + 1, by simp [fanoutMark, hlast]⟩,
          by simp [givingUp, hlast], rfl⟩)
      · exact .inr (.inr ⟨⟨event.attempts + 1, by simp [fanoutMark, hlast]⟩, rfl⟩)
  · cases h

section Steps

variable {cfg : Settings} {t : Session} {w w' : World} {l l' : Worker} {a : WorkerAction}
  {e : OutboxEvent}

theorem Next.published_eq (h : Next cfg t w l a w' l') :
    w'.published = w.published ++ (l.publishes a).toList.map OutboxEvent.eventId := by
  cases h with
  | @published event rest success pc events =>
    cases success <;> simp [Worker.publishes, pc, events]
  | fetched pc | found pc | notFound pc | missed pc | locked pc | called pc | unfinalized pc
  | committed pc | fetchedFanout pc | committedFanout pc =>
    simp [Worker.publishes, pc, World.commit]
  | markedMissing pc mark | markedLost pc mark | marked pc mark | markedFanout pc mark =>
    obtain ⟨outbox, rfl⟩ := markEvent_tables mark
    simp [Worker.publishes, pc]
  | finalized pc final run =>
    obtain ⟨payments, outbox, rfl⟩ := Finalization.run_tables run
    simp [Worker.publishes, pc]
  | ended pc events => rcases pc with pc | pc <;> simp [Worker.publishes, pc]
  | crashed =>
    have hnone : l.publishes .crash = none := by
      unfold Worker.publishes
      split
      · next hact => cases hact
      · rfl
    simp [hnone, World.rollback]

/-- A successful publication. -/
theorem Next.delivers (h : Next cfg t w l a w' l') (he : l.publishes a = some e) :
    e ∈ l.events ∧ l.pc = .fanout ∧ w'.outbox = w.outbox ∧ l'.pc.delivering = some e := by
  unfold Worker.publishes at he
  split at he
  · cases h with
    | published pc events =>
      rw [events] at he
      cases he
      exact ⟨by simp [events], pc, rfl, rfl⟩
  · cases he

theorem Next.delivering_after (h : Next cfg t w l a w' l') (he : l'.pc.delivering = some e) :
    l.pc.delivering = some e ∨ l.publishes a = some e := by
  cases h with
  | @published event rest success pc events =>
    cases success with
    | true =>
      cases he
      exact .inr (by simp [Worker.publishes, pc, events])
    | false => cases he
  | @markedFanout event success now draw w' pc mark =>
    rw [pc]
    cases success with
    | true => exact .inl he
    | false => cases he
  | fetched | found | notFound | missed | locked | called | unfinalized | committed | fetchedFanout
  | committedFanout | markedMissing | markedLost | marked | finalized | ended | crashed => cases he

theorem Next.delivering_before (h : Next cfg t w l a w' l') (he : l.pc.delivering = some e) :
    l'.pc.delivering = some e ∨ l.commits cfg a = some (e, .sent) ∨ a.isCrash = true := by
  cases h with
  | @markedFanout event success now draw w' pc mark =>
    rw [pc] at he
    cases success with
    | true => exact .inl he
    | false => cases he
  | @committedFanout event success pc =>
    rw [pc] at he
    cases success with
    | true =>
      cases he
      exact .inr (.inl (by simp [Worker.commits, pc, WorkerPc.marked, fanoutMark]))
    | false => cases he
  | crashed => exact .inr (.inr rfl)
  | ended pc =>
    rcases pc with pc | pc <;>
    · rw [pc] at he
      cases he
  | fetched pc | found pc | notFound pc | missed pc | locked pc | called pc | unfinalized pc
  | committed pc | fetchedFanout pc | markedMissing pc | markedLost pc | marked pc | finalized pc
  | published pc =>
    rw [pc] at he
    cases he

theorem Next.givingUp_after (h : Next cfg t w l a w' l') (he : l'.pc.givingUp cfg = some e) :
    l.givesUp cfg a = some e := by
  cases h with
  | @markedFanout event success now draw w' pc mark =>
    cases success with
    | true => cases he
    | false =>
      simp only [Worker.givesUp, pc]
      exact he
  | fetched | found | notFound | missed | locked | called | unfinalized | committed | fetchedFanout
  | committedFanout | markedMissing | markedLost | marked | finalized | ended | crashed
  | published => cases he

/-- A step that commits a mark publishes nothing. -/
theorem Worker.publishes_of_commits {m : EventMark} (h : l.commits cfg a = some (e, m)) :
    l.publishes a = none := by
  cases a <;> first | cases h | skip
  unfold publishes
  split
  · next hact => cases hact
  · rfl

theorem Worker.publishes_of_givesUp (h : l.givesUp cfg a = some e) :
    l.publishes a = none := by
  unfold givesUp at h
  split at h
  · next pc => simp [publishes, pc]
  · cases h

end Steps

end Processor

namespace Payments

variable {cfg : Processor.Settings} {s s' : State cfg}

/-- The event a step of a session publishes. -/
def publishes : (t : Session) → t.Local → t.Act → Option OutboxEvent
  | .worker _, l, a => Processor.Worker.publishes l a
  | _, _, _ => none

theorem published_step {i : Session} {a : i.Act} (hstep : s.step i a = some s') :
    s'.world.published =
      s.world.published ++ (publishes i (s.proc i) a).toList.map OutboxEvent.eventId := by
  have hown := System.State.step_self hstep
  cases i with
  | worker n => exact (Processor.Worker.next_of_step hown).published_eq
  | review n => simpa [publishes] using (Review.Call.next_of_step hown).effects.2
  | create n => simpa [publishes] using (Create.Run.next_of_step hown).effects.2
  | environment =>
    cases a with
    | expireGate key =>
      obtain ⟨w', l', he, rfl⟩ := System.State.step_eq_some.1 hstep
      cases he
      simp [publishes]

theorem mem_published_step {i : Session} {a : i.Act} (hstep : s.step i a = some s') {k : UUID} :
    k ∈ s'.world.published ↔
      k ∈ s.world.published ∨ ∃ e, publishes i (s.proc i) a = some e ∧ e.eventId = k := by
  rw [published_step hstep, List.mem_append]
  simp

/-! ## Sent events were published -/

/-- What has been published of what is marked `SENT`. -/
structure Delivered (s : State cfg) : Prop where
  integrity : Integrity s
  sent : ∀ k row, s.world.outbox.committed k = some row → row.eventType ≠ .paymentRequested →
    row.status = .sent → k ∈ s.world.published
  delivering : ∀ n e, (worker s n).pc.delivering = some e → e.eventId ∈ s.world.published

/-- The mark a step commits on a fan-out event is put there by the loop over these. -/
theorem Integrity.commits_fanout (h : Integrity s) {i : Session} {a : i.Act} {event : OutboxEvent}
    {m : EventMark} (hm : Session.commits cfg i (s.proc i) a = some (event, m)) {row : OutboxEvent}
    (hrow : s.world.outbox.committed event.eventId = some row)
    (hfan : row.eventType ≠ .paymentRequested) :
    publishes i (s.proc i) a = none ∧ ∃ n, i = .worker n ∧
      (worker s n).pc.marked cfg = some (event, m) ∧ (worker s n).pc.fansOut = true := by
  cases i with
  | review | create | environment => cases hm
  | worker n =>
    have hmarked : (worker s n).pc.marked cfg = some (event, m) := by
      cases a <;> first | exact hm | cases hm
    refine ⟨Processor.Worker.publishes_of_commits hm, n, rfl, hmarked, ?_⟩
    have hevent := Processor.WorkerPc.event_of_marked hmarked
    have hinv : Processor.Worker.Inv cfg s.world (.worker n) (worker s n) := h.inv (.worker n)
    obtain ⟨row', hrow', hident⟩ := hinv.known event (.inr hevent)
    cases hrow.symm.trans hrow'
    rw [OutboxEvent.eventType_of_identity hident] at hfan
    by_contra hnot
    exact hfan ((hinv.kind event (.inr hevent)).2 (by simpa using hnot))

namespace Delivered

theorem initial (h : Initial s) : Delivered s where
  integrity := .initial h
  sent k row hrow := by
    rw [h.world] at hrow
    cases hrow
  delivering n e he := by
    rw [show (worker s n).pc = .idle from h.worker n] at he
    cases he

theorem next (h : Delivered s) {i : Session} {a : i.Act} (hstep : s.step i a = some s') :
    Delivered s' where
  integrity := (h.integrity.next hstep).2
  sent k row' hrow' hfan hsent := by
    refine (mem_published_step hstep).2 (.inl ?_)
    have hrows := h.integrity.eventRows hstep
    by_cases hmarked : ∀ event m, Session.commits cfg i (s.proc i) a = some (event, m) →
        event.eventId ≠ k
    · rcases hrows.other k hmarked with hsame | ⟨-, e, he, hpending, -⟩
      · exact h.sent k row' (hsame ▸ hrow') hfan hsent
      · cases he.symm.trans hrow'
        cases hpending.symm.trans hsent
    · push Not at hmarked
      obtain ⟨event, m, hm, rfl⟩ := hmarked
      obtain ⟨row, at', hrow, hset⟩ := hrows.mark hm
      cases hset.symm.trans hrow'
      rw [OutboxRepository.eventType_setMark] at hfan
      obtain ⟨-, n, -, hmark, hfansOut⟩ := h.integrity.commits_fanout hm hrow hfan
      rcases Processor.WorkerPc.marked_fansOut hfansOut hmark with
        ⟨-, hdelivering⟩ | ⟨⟨attempts, rfl⟩, -⟩ | ⟨⟨attempts, rfl⟩, -⟩
      · exact h.delivering n event hdelivering
      · cases hsent
      · exact h.sent event.eventId row hrow hfan hsent
  delivering n e he := by
    refine (mem_published_step hstep).2 ?_
    by_cases hi : i = .worker n
    · subst hi
      have hn := Processor.Worker.next_of_step (System.State.step_self hstep)
      rcases hn.delivering_after he with hold | hpublishes
      · exact .inl (h.delivering n e hold)
      · exact .inr ⟨e, hpublishes, rfl⟩
    · have hsame : worker s' n = worker s n := System.State.step_proc_ne hstep (Ne.symm hi)
      rw [hsame] at he
      exact .inl (h.delivering n e he)

end Delivered

/-- In every run, a fan-out event that is `SENT` has been published. -/
theorem sent_published {good : (payments cfg).Guard} {s₀ : State cfg} (hs : Initial s₀)
    (hrun : (payments cfg).Reaches good s₀ s) : Delivered s :=
  hrun.invariant (fun h _ hstep => h.next hstep) (.initial hs)

/-! ## Failed events were not published -/

/-- A step of worker `n` that keeps the last attempt of an event, from its failed mark to its
commit, and the successful publications of it, from `publish` to their commit, apart. -/
structure Apart (s : State cfg) (n : Nat) (a : Processor.WorkerAction) : Prop where
  /-- an event is given up when it is not `SENT`, and no worker is delivering it -/
  givesUp : ∀ e, (worker s n).givesUp cfg a = some e →
    (∀ row, s.world.outbox.committed e.eventId = some row → row.status ≠ .sent) ∧
      ∀ m e', (worker s m).pc.delivering = some e' → e'.eventId ≠ e.eventId
  /-- an event is published when it is not `FAILED`, and no worker is giving it up -/
  publishes : ∀ e, (worker s n).publishes a = some e →
    (∀ row, s.world.outbox.committed e.eventId = some row → row.status ≠ .failed) ∧
      ∀ m e', (worker s m).pc.givingUp cfg = some e' → e'.eventId ≠ e.eventId
  /-- a worker that has published an event lives to commit it -/
  survives : a.isCrash = true → (worker s n).pc.delivering = none

/-- Runs in which the last attempt of an event overlaps none of its successful publications. -/
def PublishesApart : (payments cfg).Condition
  | s, .worker n, a => Apart s n a
  | _, _, _ => True

/-- What such a run keeps of the events that are published. -/
structure Agrees (s : State cfg) : Prop where
  delivered : Delivered s
  known : ∀ k ∈ s.world.published, ∃ row, s.world.outbox.committed k = some row ∧
    row.eventType ≠ .paymentRequested
  pending : ∀ k ∈ s.world.published, ∀ row, s.world.outbox.committed k = some row →
    row.status = .pending → ∃ n e, (worker s n).pc.delivering = some e ∧ e.eventId = k
  failed : ∀ k row, s.world.outbox.committed k = some row → row.eventType ≠ .paymentRequested →
    row.status = .failed → k ∉ s.world.published
  givingUp : ∀ n e, (worker s n).pc.givingUp cfg = some e → e.eventId ∉ s.world.published

namespace Agrees

theorem initial (h : Initial s) : Agrees s where
  delivered := .initial h
  known k hk := by
    rw [h.world] at hk
    cases hk
  pending k hk := by
    rw [h.world] at hk
    cases hk
  failed k row hrow := by
    rw [h.world] at hrow
    cases hrow
  givingUp n e he := by
    rw [show (worker s n).pc = .idle from h.worker n] at he
    cases he

variable {i : Session} {a : i.Act}

/-- The event a step publishes, and the worker that does. -/
theorem publishes_eq_some (hstep : s.step i a = some s') {e : OutboxEvent}
    (he : publishes i (s.proc i) a = some e) (hgood : PublishesApart s i a) :
    s'.world.outbox = s.world.outbox ∧
      (∀ row, s.world.outbox.committed e.eventId = some row → row.status ≠ .failed) ∧
      (∀ m e', (worker s m).pc.givingUp cfg = some e' → e'.eventId ≠ e.eventId) ∧
      ∃ n, i = .worker n ∧ e ∈ (worker s n).events ∧ (worker s n).pc = .fanout ∧
        (worker s' n).pc.delivering = some e := by
  cases i with
  | review | create | environment => cases he
  | worker n =>
    have hn := Processor.Worker.next_of_step (System.State.step_self hstep)
    obtain ⟨hmem, hpc, hrows, hdelivering⟩ := hn.delivers he
    exact ⟨hrows, (hgood.publishes e he).1, (hgood.publishes e he).2, n, rfl, hmem, hpc,
      hdelivering⟩

theorem known_next (h : Agrees s) (hgood : PublishesApart s i a) (hstep : s.step i a = some s')
    (k : UUID) (hk : k ∈ s'.world.published) :
    ∃ row, s'.world.outbox.committed k = some row ∧ row.eventType ≠ .paymentRequested := by
  rcases (mem_published_step hstep).1 hk with hold | ⟨e, he, rfl⟩
  · obtain ⟨row, hrow, hfan⟩ := h.known k hold
    rcases (h.delivered.integrity.eventRows hstep).kept hrow with hsame | ⟨_, m, at', -, -, hset⟩
    · exact ⟨row, hsame, hfan⟩
    · exact ⟨_, hset, by rwa [OutboxRepository.eventType_setMark]⟩
  · obtain ⟨hrows, -, -, n, -, hmem, hpc, -⟩ := publishes_eq_some hstep he hgood
    have hinv : Processor.Worker.Inv cfg s.world (.worker n) (worker s n) :=
      h.delivered.integrity.inv (.worker n)
    obtain ⟨row, hrow, hident⟩ := hinv.known e (.inl hmem)
    refine ⟨row, by rw [hrows, hrow], fun htype => ?_⟩
    rw [OutboxEvent.eventType_of_identity hident] at htype
    have hfansOut := (hinv.kind e (.inl hmem)).1 htype
    rw [hpc] at hfansOut
    cases hfansOut

/-- A worker that delivers an event goes on with it until it commits the event as `SENT`. -/
theorem delivering_next (hgood : PublishesApart s i a) (hstep : s.step i a = some s') {n : Nat}
    {e : OutboxEvent} (he : (worker s n).pc.delivering = some e) :
    (worker s' n).pc.delivering = some e ∨
      Session.commits cfg i (s.proc i) a = some (e, .sent) := by
  by_cases hi : i = .worker n
  · subst hi
    have hn := Processor.Worker.next_of_step (System.State.step_self hstep)
    rcases hn.delivering_before he with hstill | hcommits | hcrash
    · exact .inl hstill
    · exact .inr hcommits
    · cases (hgood.survives hcrash).symm.trans he
  · rw [show worker s' n = worker s n from System.State.step_proc_ne hstep (Ne.symm hi)]
    exact .inl he

theorem pending_next (h : Agrees s) (hgood : PublishesApart s i a) (hstep : s.step i a = some s')
    (k : UUID) (hk : k ∈ s'.world.published) (row' : OutboxEvent)
    (hrow' : s'.world.outbox.committed k = some row') (hpending : row'.status = .pending) :
    ∃ n e, (worker s' n).pc.delivering = some e ∧ e.eventId = k := by
  rcases (mem_published_step hstep).1 hk with hold | ⟨e, he, rfl⟩
  · obtain ⟨row, hrow, hfan⟩ := h.known k hold
    have hrows := h.delivered.integrity.eventRows hstep
    by_cases hmarked : ∀ event m, Session.commits cfg i (s.proc i) a = some (event, m) →
        event.eventId ≠ k
    · rcases hrows.other k hmarked with hsame | ⟨hnone, -⟩
      · obtain ⟨n, e, he, hid⟩ := h.pending k hold row' (hsame ▸ hrow') hpending
        rcases delivering_next hgood hstep he with hstill | hcommits
        · exact ⟨n, e, hstill, hid⟩
        · exact absurd hid (hmarked e .sent hcommits)
      · cases hnone.symm.trans hrow
    · push Not at hmarked
      obtain ⟨event, m, hm, rfl⟩ := hmarked
      obtain ⟨row₀, at', hrow₀, hset⟩ := hrows.mark hm
      cases hrow.symm.trans hrow₀
      cases hset.symm.trans hrow'
      cases m with
      | sent | failed => cases hpending
      | reschedule attempts =>
        obtain ⟨n, e, he, hid⟩ := h.pending event.eventId hold row hrow hpending
        rcases delivering_next hgood hstep he with hstill | hcommits
        · exact ⟨n, e, hstill, hid⟩
        · cases hm.symm.trans hcommits
  · obtain ⟨-, -, -, n, -, -, -, hdelivering⟩ := publishes_eq_some hstep he hgood
    exact ⟨n, e, hdelivering, rfl⟩

theorem failed_next (h : Agrees s) (hgood : PublishesApart s i a) (hstep : s.step i a = some s')
    (k : UUID) (row' : OutboxEvent) (hrow' : s'.world.outbox.committed k = some row')
    (hfan : row'.eventType ≠ .paymentRequested) (hfailed : row'.status = .failed) :
    k ∉ s'.world.published := by
  have hrows := h.delivered.integrity.eventRows hstep
  rw [mem_published_step hstep, not_or]
  by_cases hmarked : ∀ event m, Session.commits cfg i (s.proc i) a = some (event, m) →
      event.eventId ≠ k
  · rcases hrows.other k hmarked with hsame | ⟨-, e, he, hpending, -⟩
    · rw [hsame] at hrow'
      refine ⟨h.failed k row' hrow' hfan hfailed, ?_⟩
      rintro ⟨e, he, rfl⟩
      exact (publishes_eq_some hstep he hgood).2.1 row' hrow' hfailed
    · cases he.symm.trans hrow'
      cases hpending.symm.trans hfailed
  · push Not at hmarked
    obtain ⟨event, m, hm, rfl⟩ := hmarked
    obtain ⟨row, at', hrow, hset⟩ := hrows.mark hm
    cases hset.symm.trans hrow'
    rw [OutboxRepository.eventType_setMark] at hfan
    obtain ⟨hquiet, n, -, hmark, hfansOut⟩ :=
      h.delivered.integrity.commits_fanout hm hrow hfan
    refine ⟨?_, fun ⟨e, he, _⟩ => (by cases hquiet.symm.trans he)⟩
    rcases Processor.WorkerPc.marked_fansOut hfansOut hmark with
      ⟨rfl, -⟩ | ⟨-, hgivingUp, -⟩ | ⟨⟨attempts, rfl⟩, -⟩
    · cases hfailed
    · exact h.givingUp n event hgivingUp
    · exact h.failed event.eventId row hrow hfan hfailed

/-- At the failed mark of a last attempt, the event has not been published. -/
theorem not_published (h : Agrees s) {e : OutboxEvent}
    (hsent : ∀ row, s.world.outbox.committed e.eventId = some row → row.status ≠ .sent)
    (hdelivering : ∀ n e', (worker s n).pc.delivering = some e' → e'.eventId ≠ e.eventId) :
    e.eventId ∉ s.world.published := by
  intro hk
  obtain ⟨row, hrow, hfan⟩ := h.known e.eventId hk
  cases hstatus : row.status with
  | pending =>
    obtain ⟨n, e', he', hid⟩ := h.pending e.eventId hk row hrow hstatus
    exact hdelivering n e' he' hid
  | sent => exact hsent row hrow hstatus
  | failed => exact h.failed e.eventId row hrow hfan hstatus hk

theorem givingUp_next (h : Agrees s) (hgood : PublishesApart s i a)
    (hstep : s.step i a = some s') (n : Nat) (e : OutboxEvent)
    (he : (worker s' n).pc.givingUp cfg = some e) : e.eventId ∉ s'.world.published := by
  rw [mem_published_step hstep, not_or]
  by_cases hi : i = .worker n
  · subst hi
    have hn := Processor.Worker.next_of_step (System.State.step_self hstep)
    have hgivesUp := hn.givingUp_after he
    obtain ⟨hsent, hdelivering⟩ := hgood.givesUp e hgivesUp
    have hquiet := Processor.Worker.publishes_of_givesUp hgivesUp
    refine ⟨h.not_published hsent hdelivering, ?_⟩
    rintro ⟨e', he', -⟩
    cases hquiet.symm.trans he'
  · rw [show worker s' n = worker s n from System.State.step_proc_ne hstep (Ne.symm hi)] at he
    refine ⟨h.givingUp n e he, ?_⟩
    rintro ⟨e', he', hid⟩
    exact (publishes_eq_some hstep he' hgood).2.2.1 n e he hid.symm

theorem next (h : Agrees s) (hgood : PublishesApart s i a) (hstep : s.step i a = some s') :
    Agrees s' where
  delivered := h.delivered.next hstep
  known := h.known_next hgood hstep
  pending := h.pending_next hgood hstep
  failed := h.failed_next hgood hstep
  givingUp := h.givingUp_next hgood hstep

end Agrees

/-- In every run that keeps last attempts and successful publications apart, the status of a
fan-out event agrees with its delivery: a `SENT` one was published, a `FAILED` one never was. -/
theorem fanout_status_agrees {s₀ : State cfg} {history : History cfg} (hs : Initial s₀)
    (hrun : (payments cfg).Runs PublishesApart s₀ history s) (k : UUID) (row : OutboxEvent)
    (hrow : s.world.outbox.committed k = some row) (hfan : row.eventType ≠ .paymentRequested) :
    (row.status = .sent → k ∈ s.world.published) ∧
      (row.status = .failed → k ∉ s.world.published) := by
  have h : Agrees s := hrun.invariant (I := fun _ s => Agrees s)
    (fun hi hgood hstep => hi.next hgood hstep) (.initial hs)
  exact ⟨h.delivered.sent k row hrow hfan, h.failed k row hrow hfan⟩

/-! ## Events with owners -/

/-- Runs in which no worker dies, and an event is published or given up by its owner only, and not
once it has been given up or published. -/
def keepsOwners (owner : UUID → Nat) : (payments cfg).Guard
  | .worker n, w, l, a =>
    Processor.WorkerAction.isCrash a = false ∧
      (∀ e ∈ Processor.Worker.givesUp cfg l a,
        owner e.eventId = n ∧ ∀ row ∈ w.outbox.committed e.eventId, row.status ≠ .sent) ∧
      ∀ e ∈ Processor.Worker.publishes l a,
        owner e.eventId = n ∧ ∀ row ∈ w.outbox.committed e.eventId, row.status ≠ .failed
  | _, _, _, _ => True

instance (owner : UUID → Nat) : (i : Session) → (w : World) → (l : (payments cfg).Local i) →
    (a : (payments cfg).Act i) → Decidable (@keepsOwners cfg owner i w l a)
  | .worker _, _, _, _ => inferInstanceAs (Decidable (_ ∧ _))
  | .review _, _, _, _ => inferInstanceAs (Decidable True)
  | .create _, _, _, _ => inferInstanceAs (Decidable True)
  | .environment, _, _, _ => inferInstanceAs (Decidable True)

/-- What a worker delivers or gives up is its own. -/
def Owned (owner : UUID → Nat) (s : State cfg) : Prop :=
  ∀ n e, (worker s n).pc.delivering = some e ∨ (worker s n).pc.givingUp cfg = some e →
    owner e.eventId = n

section Owners

variable {owner : UUID → Nat}

theorem Owned.initial (h : Initial s) : Owned owner s := by
  intro n e he
  rw [h.worker n] at he
  rcases he with he | he <;> cases he

theorem Owned.apart (h : Owned owner s) {n : Nat} {a : Processor.WorkerAction}
    (hgood : @keepsOwners cfg owner (.worker n) s.world (worker s n) a) : Apart s n a where
  givesUp e he := by
    obtain ⟨howner, hrow⟩ := hgood.2.1 e he
    refine ⟨hrow, fun m e' he' hid => ?_⟩
    have hm := h m e' (.inl he')
    rw [hid, howner] at hm
    subst hm
    -- a worker that gives an event up is not delivering it
    unfold Processor.Worker.givesUp at he
    split at he
    · next hpc =>
      rw [hpc] at he'
      cases he'
    · cases he
  publishes e he := by
    obtain ⟨howner, hrow⟩ := hgood.2.2 e he
    refine ⟨hrow, fun m e' he' hid => ?_⟩
    have hm := h m e' (.inr he')
    rw [hid, howner] at hm
    subst hm
    unfold Processor.Worker.publishes at he
    split at he
    · next hpc =>
      rw [hpc] at he'
      cases he'
    · cases he
  survives hcrash := by
    rw [hgood.1] at hcrash
    cases hcrash

theorem Owned.next (h : Owned owner s) {i : Session} {a : i.Act}
    (hgood : @keepsOwners cfg owner i s.world (s.proc i) a) (hstep : s.step i a = some s') :
    Owned owner s' := by
  intro n e he
  by_cases hi : i = .worker n
  · subst hi
    have hn := Processor.Worker.next_of_step (System.State.step_self hstep)
    rcases he with he | he
    · rcases hn.delivering_after he with hold | hpublishes
      · exact h n e (.inl hold)
      · exact (hgood.2.2 e hpublishes).1
    · exact (hgood.2.1 e (hn.givingUp_after he)).1
  · rw [show worker s' n = worker s n from System.State.step_proc_ne hstep (Ne.symm hi)] at he
    exact h n e he

/-- Workers that keep to their own events keep last attempts and publications apart. -/
theorem runs_apart_of_owners {s₀ : State cfg} {history : History cfg} (hs : Initial s₀)
    (hrun : (payments cfg).Runs (keepsOwners owner).condition s₀ history s) :
    (payments cfg).Runs PublishesApart s₀ history s := by
  refine (hrun.strengthen (I := Owned owner) (fun {s s' i a} h hgood hstep => ⟨?_, ?_⟩)
    (.initial hs)).1
  · cases i with
    | worker n => exact h.apart hgood
    | review | create | environment => trivial
  · exact h.next hgood hstep

end Owners

/-! ## Two workers -/

/-- Runs in which no worker dies. -/
def survives : (payments cfg).Guard
  | .worker _, _, _, a => Processor.WorkerAction.isCrash a = false
  | _, _, _, _ => True

instance : (i : Session) → (w : World) → (l : (payments cfg).Local i) →
    (a : (payments cfg).Act i) → Decidable (@survives cfg i w l a)
  | .worker _, _, _, a => inferInstanceAs (Decidable (Processor.WorkerAction.isCrash a = false))
  | .review _, _, _, _ => inferInstanceAs (Decidable True)
  | .create _, _, _, _ => inferInstanceAs (Decidable True)
  | .environment, _, _, _ => inferInstanceAs (Decidable True)

/-- Settings with a publisher, and one attempt for each event. -/
def fanoutSettings : Processor.Settings where
  batchSize := 50
  maxEventAttempts := 1
  eventPublisherEnabled := true
  synchronizeSession := true

/-- Creations of one merchant, about to begin. -/
def fanoutSample : State fanoutSettings :=
  fresh fanoutSettings (fun _ => ⟨.approve, 1, "review", none, .start⟩)
    fun n => ⟨⟨"m", "c", "a", if n = 0 then "k" else "l"⟩, ⟨⟨10000, -2⟩, "BRL", .pix, none⟩,
      "trace", none, .start⟩

/-- The event of a payment in review. -/
def reviewRequired (eventId paymentId : UUID) : OutboxEvent :=
  .new eventId paymentId .paymentReviewRequired
    (.paymentReviewRequired paymentId "m" ReviewReason.riskOrAmlReview.value) 0

/-- A worker with no request to process fetches some events. -/
def fetchesFanout (n : Nat) (ordered : List OutboxEvent) :
    List (Σ i, (payments fanoutSettings).Act i) :=
  [⟨.worker n, Processor.WorkerAction.fetchPendingRequested 0 []⟩,
    ⟨.worker n, Processor.WorkerAction.fetchPendingFanout 0 ordered⟩]

/-- A worker publishes the next event. -/
def publishesFanout (n : Nat) (success : Bool) : List (Σ i, (payments fanoutSettings).Act i) :=
  [⟨.worker n, Processor.WorkerAction.publish success⟩,
    ⟨.worker n, Processor.WorkerAction.markFanout 0 0⟩, ⟨.worker n, Processor.WorkerAction.commit⟩]

set_option maxRecDepth 10000 in
/-- Two workers hold the events of two payments in review. One publishes the first event while the
other one gives the second event up. -/
theorem fanout_status_agrees_shared : ∃ history s,
    (payments fanoutSettings).Runs PublishesApart fanoutSample history s ∧
      10 ∈ s.world.published ∧ 11 ∉ s.world.published := by
  let columns (s : State fanoutSettings) (k : UUID) :=
    (s.world.outbox.committed k).map fun row => (row.status, row.eventType)
  have hrun : (System.State.run (keepsOwners fun k => if k = 10 then 0 else 1)
      (creation 0 ⟨0, .review, .allow⟩ 1 10 ++ fetchesFanout 0 [reviewRequired 10 1] ++
        creation 1 ⟨0, .review, .allow⟩ 2 11 ++
        fetchesFanout 1 [reviewRequired 11 2, reviewRequired 10 1] ++
        [⟨.worker 0, Processor.WorkerAction.publish true⟩] ++ publishesFanout 1 false ++
        [⟨.worker 0, Processor.WorkerAction.markFanout 0 0⟩,
          ⟨.worker 0, Processor.WorkerAction.commit⟩]) fanoutSample).map
        (fun s => (columns s 10, columns s 11)) =
      some (some (.sent, .paymentReviewRequired), some (.failed, .paymentReviewRequired)) := by
    decide
  obtain ⟨s, hs, heq⟩ := Option.map_eq_some_iff.1 hrun
  obtain ⟨hfirst, hsecond⟩ := Prod.mk.inj heq
  obtain ⟨row, hrow, hcolumns⟩ := Option.map_eq_some_iff.1 hfirst
  obtain ⟨row', hrow', hcolumns'⟩ := Option.map_eq_some_iff.1 hsecond
  obtain ⟨hsent, htype⟩ := Prod.mk.inj hcolumns
  obtain ⟨hfailed, htype'⟩ := Prod.mk.inj hcolumns'
  obtain ⟨history, hruns⟩ := System.Runs.exists_of_reaches (System.Reaches.of_run hs)
  have hapart := runs_apart_of_owners (fresh_initial _ _ _) hruns
  exact ⟨history, s, hapart, (fanout_status_agrees (fresh_initial _ _ _) hapart 10 row hrow
    (by simp [htype])).1 hsent, (fanout_status_agrees (fresh_initial _ _ _) hapart 11 row' hrow'
    (by simp [htype'])).2 hfailed⟩

set_option maxRecDepth 10000 in
/-- Two workers hold one event: the first publishes it and marks it `SENT`, the other one fails and
marks it `FAILED`. -/
theorem failed_though_published : ¬ ∀ (cfg : Processor.Settings) (s₀ s : State cfg),
    cfg.eventPublisherEnabled = true → Initial s₀ → (payments cfg).Reaches survives s₀ s →
      ∀ k row, s.world.outbox.committed k = some row → row.eventType ≠ .paymentRequested →
        (row.status = .sent → k ∈ s.world.published) ∧
          (row.status = .failed → k ∉ s.world.published) := by
  intro hagrees
  have hrun : (System.State.run survives (creation 0 ⟨0, .review, .allow⟩ 1 10 ++
      fetchesFanout 0 [reviewRequired 10 1] ++ fetchesFanout 1 [reviewRequired 10 1] ++
      publishesFanout 0 true ++ publishesFanout 1 false)
        fanoutSample).map
        (fun s => ((s.world.outbox.committed 10).map fun row => (row.status, row.eventType),
          s.world.published)) =
      some (some (.failed, .paymentReviewRequired), [10]) := by
    decide
  obtain ⟨s, hs, heq⟩ := Option.map_eq_some_iff.1 hrun
  obtain ⟨hcommitted, hpublished⟩ := Prod.mk.inj heq
  obtain ⟨row, hrow, hcolumns⟩ := Option.map_eq_some_iff.1 hcommitted
  obtain ⟨hfailed, htype⟩ := Prod.mk.inj hcolumns
  have h := hagrees fanoutSettings fanoutSample s rfl (fresh_initial _ _ _)
    (System.Reaches.of_run hs) 10 row hrow (by simp [htype])
  exact h.2 hfailed (by simp [hpublished])

end Payments

end PaymentsLab
