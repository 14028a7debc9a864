import PaymentsLab.System.Correspondence

/-!
# Transient failures of the provider

A provider call that fails with a transient error leaves its event pending for a later attempt, and
its payment in processing (`transient_failure_retried`), except where the error is that of an open
circuit breaker: `CircuitBreakerOpenError` is no `ProcessorError`, and the worker fails the payment.
A reschedule leaves the status of the event as it finds it; with one worker that is `PENDING`.
-/

namespace PaymentsLab

open Foundation

namespace Processor

/-- The place is in the handling of `event` after its provider call. -/
def WorkerPc.Settling (event : OutboxEvent) (payment : Payment)
    (outcome : Except CallError ProviderResponse) (pc : WorkerPc) : Prop :=
  pc = .answered event payment outcome ∨ pc = .finalized event payment outcome ∨
    pc = .committing event (.settled payment outcome)

variable {cfg : Settings} {w w' : World} {t : Session} {l l' : Worker} {event : OutboxEvent}
  {payment : Payment} {outcome : Except CallError ProviderResponse} {markedAt : Instant}
  {draw : Int}

/-- The statements between the provider call and the commit, the mark among them with this reading
of the clock and this draw. -/
def WorkerAction.Settles (markedAt : Instant) (draw : Int) : WorkerAction → Prop
  | .finalize _ _ => True
  | .markEvent now draw' => now = markedAt ∧ draw' = draw
  | _ => False

instance WorkerAction.Settles.decidable (markedAt : Instant) (draw : Int) :
    (a : WorkerAction) → Decidable (a.Settles markedAt draw)
  | .finalize _ _ => inferInstanceAs (Decidable True)
  | .markEvent now draw' => inferInstanceAs (Decidable (now = markedAt ∧ draw' = draw))
  | .fetchPendingRequested _ _ | .getById | .markMissing _ | .markProcessing | .markLost _
  | .callProvider _ _ _ | .commit | .fetchPendingFanout _ _ | .publish _ | .markFanout _ _
  | .endRun | .crash => inferInstanceAs (Decidable False)

theorem WorkerPc.Settling.next {a : WorkerAction} (h : l.pc.Settling event payment outcome)
    (hn : Next cfg t w l a w' l') (ha : a.Settles markedAt draw) :
    l'.pc.Settling event payment outcome := by
  cases hn with
  | finalized pc | unfinalized pc =>
    rcases h with h | h | h <;> cases pc.symm.trans h
    exact .inr (.inl rfl)
  | marked pc =>
    rcases h with h | h | h <;> cases pc.symm.trans h
    exact .inr (.inr rfl)
  | _ => exact ha.elim

/-- The commit is the end of the handling. -/
theorem WorkerPc.Settling.committing (h : l.pc.Settling event payment outcome)
    (hn : Next cfg t w l .commit w' l') : l.pc = .committing event (.settled payment outcome) := by
  rcases h with h | h | h
  · cases hn with
    | committed pc | committedFanout pc => cases pc.symm.trans h
  · cases hn with
    | committed pc | committedFanout pc => cases pc.symm.trans h
  · exact h

/-- Before the commit, the session of the worker holds the event with its mark. -/
def WorkerPc.Marked (cfg : Settings) (w : World) (t : Session) (event : OutboxEvent)
    (payment : Payment) (outcome : Except CallError ProviderResponse) (markedAt : Instant)
    (draw : Int) (pc : WorkerPc) : Prop :=
  pc = .committing event (.settled payment outcome) →
    let m := (settlement cfg event payment outcome).mark
    EventMark.DrawOk draw m ∧ ∃ row, w.outbox.writes t event.eventId =
      some (OutboxRepository.setMark (EventMark.nextAttemptAt markedAt draw m) m row)

/-- The mark is made by the worker. -/
theorem Worker.Inv.marked_next (h : Worker.Inv cfg w t l) {a : WorkerAction}
    (hn : Next cfg t w l a w' l') (ha : a.Settles markedAt draw) :
    l'.pc.Marked cfg w' t event payment outcome markedAt draw := by
  intro pc'
  cases hn with
  | @marked event₁ payment₁ outcome₁ now draw₁ _ pc hmark =>
    obtain ⟨rfl, rfl⟩ : now = markedAt ∧ draw₁ = draw := ha
    cases pc'
    refine ⟨?_, h.writes_mark (by rw [pc]; rfl) (by rw [pc]; rfl) hmark⟩
    unfold markEvent at hmark
    split at hmark
    · assumption
    · cases hmark
  | finalized | unfinalized => cases pc'
  | _ => exact ha.elim

/-- The marked row after the commit. -/
theorem HoldsEvents.committed_marked {added : Option OutboxEvent} {m : EventMark}
    (h : HoldsEvents w t added (some (event, m))) :
    ∃ row at', w.outbox.committed event.eventId = some row ∧
      w.outbox.writes t event.eventId = some (OutboxRepository.setMark at' m row) ∧
      (w.commit t).outbox.committed event.eventId = some (OutboxRepository.setMark at' m row) := by
  obtain ⟨row, at', hrow, hwrites⟩ := h
  refine ⟨row, at', hrow, by rw [hwrites, Function.update_self], ?_⟩
  rw [World.outbox_commit, RowStore.committed_commit, hwrites, Function.update_self]
  rfl

end Processor

/-- The event is pending. -/
def World.IsPending (w : World) (event : OutboxEvent) : Prop :=
  ∃ row, w.outbox.committed event.eventId = some row ∧ row.status = .pending

/-- Between `w` and `w'` the event has been put back for a later attempt, which is due after
`markedAt`, at `dueAt`: it is pending with one attempt more, no `PaymentFailed` event is new, and
its payment is not `FAILED`. -/
structure World.PutBack (w w' : World) (event : OutboxEvent) (markedAt dueAt : Instant) : Prop where
  pending : w'.IsPending event
  row : ∃ row, w'.outbox.committed event.eventId = some row ∧ row.attempts = event.attempts + 1 ∧
    row.nextAttemptAt = dueAt
  later : (markedAt : Int) < dueAt
  silent : ∀ k e, w'.IsEvent event.aggregateId .paymentFailed k e →
    ∃ e', w.IsEvent event.aggregateId .paymentFailed k e'
  unfailed : w'.status event.aggregateId ≠ some .failed

/-- The delay before the next attempt is positive. -/
theorem exponentialBackoff_pos {attempt draw : Int}
    (h : IsBackoffDraw attempt 500000 5000000 draw) :
    0 < exponentialBackoff attempt 500000 5000000 draw := by
  have hraw : 500000 ≤ backoffRaw attempt 500000 5000000 := by
    have hpow : (0 : Int) < 2 ^ (attempt - 1).toNat := Int.pow_pos (by decide)
    unfold backoffRaw
    omega
  unfold IsBackoffDraw at h
  unfold exponentialBackoff
  omega

namespace Processor

variable {cfg : Settings} {w w' : World} {t : Session} {l l' : Worker} {event : OutboxEvent}
  {payment : Payment} {markedAt : Instant} {draw : Int}

/-- The payment row after the commit of a settled event. -/
theorem Worker.Inv.status_settled (h : Worker.Inv cfg w t l)
    {outcome : Except CallError ProviderResponse}
    (pc : l.pc = .committing event (.settled payment outcome)) :
    (w.commit t).status event.aggregateId = some
      (((settlement cfg event payment outcome).finalization.map (·.status)).getD .processing) := by
  have hpayment := h.payment event payment (by rw [pc]; rfl) (by rw [pc]; rfl)
  have hheld := h.held payment _ (by rw [pc]; rfl) (by rw [pc]; rfl)
  rw [hheld.status_commit, hpayment, overlay, Function.update_self]

/-- A transient failure with attempts left is put back by its commit, unless a breaker was open or
the event is pending no more. -/
theorem Worker.Inv.putBack_iff (h : Worker.Inv cfg w t l) {error : CallError}
    (pc : l.pc = .committing event (.settled payment (.error error)))
    (hmarked : l.pc.Marked cfg w t event payment (.error error) markedAt draw)
    (htransient : CallProviderCommand.isTransient error = true)
    (hattempts : event.attempts + 1 < cfg.maxEventAttempts) :
    w.PutBack (w.commit t) event markedAt
        (markedAt + exponentialBackoff (event.attempts + 1) 500000 5000000 draw) ↔
      error ≠ .circuitBreakerOpen ∧ w.IsPending event := by
  have hstatus := h.status_settled pc
  by_cases hopen : error = .circuitBreakerOpen
  · -- the branch of `except Exception` fails the payment
    subst hopen
    exact iff_of_false (fun hback => hback.unfailed hstatus) fun hnot => hnot.1 rfl
  have hsettle : settlement cfg event payment (.error error) =
      ⟨none, .reschedule (event.attempts + 1)⟩ :=
    settlement_transient htransient hattempts hopen
  obtain ⟨hdraw, row₁, hrow₁⟩ := hmarked pc
  rw [hsettle] at hstatus hdraw hrow₁
  obtain ⟨added, hem, hnew, hev⟩ := h.events
  rw [pc] at hem hev
  simp only [WorkerPc.emitted, WorkerPc.marked, Branch.mark, hsettle, Option.map_none] at hem hev
  cases added with
  | some e => exact hem.elim
  | none =>
    obtain ⟨row, at', hrow, hwrites, hrow'⟩ := hev.committed_marked
    have hat : at' = markedAt + exponentialBackoff (event.attempts + 1) 500000 5000000 draw :=
      congrArg OutboxEvent.nextAttemptAt (Option.some.inj (hwrites.symm.trans hrow₁))
    constructor
    · intro hback
      obtain ⟨row', hcommitted, hpending⟩ := hback.pending
      cases hrow'.symm.trans hcommitted
      exact ⟨hopen, row, hrow, hpending⟩
    · rintro ⟨-, row', hcommitted, hpending⟩
      cases hrow.symm.trans hcommitted
      refine ⟨⟨_, hrow', hpending⟩, ⟨_, hrow', rfl, hat⟩, ?_, fun k e he => ?_, ?_⟩
      · exact Int.lt_add_of_pos_right _ (exponentialBackoff_pos hdraw.2)
      · have hkind := (hev.committed_commit (by simp) (by simp)).1
        rw [World.exists_isEvent, ← World.exists_isEvent.1 ⟨e, he⟩, hkind]
        rfl
      · rw [hstatus]
        simp

end Processor

namespace Payments

variable {cfg : Processor.Settings} {s s' : State cfg}

/-- Worker `n` does nothing but settle the event it has in hand, with this reading of the clock and
this draw; the others do what they like. -/
def settling (n : Nat) (markedAt : Instant) (draw : Int) : (payments cfg).Guard
  | .worker n', _, _, a => n' = n → Processor.WorkerAction.Settles markedAt draw a
  | _, _, _, _ => True

instance (n : Nat) (markedAt : Instant) (draw : Int) : (i : Session) → (w : World) →
    (l : (payments cfg).Local i) → (a : (payments cfg).Act i) →
    Decidable (@settling cfg n markedAt draw i w l a)
  | .worker n', _, _, a =>
    have := Processor.WorkerAction.Settles.decidable markedAt draw a
    inferInstanceAs (Decidable (n' = n → Processor.WorkerAction.Settles markedAt draw a))
  | .review _, _, _, _ => inferInstanceAs (Decidable True)
  | .create _, _, _, _ => inferInstanceAs (Decidable True)
  | .environment, _, _, _ => inferInstanceAs (Decidable True)

/-- What worker `n` has in hand while it settles its event. -/
structure Settles (s : State cfg) (n : Nat) (event : OutboxEvent) (payment : Payment)
    (outcome : Except CallError ProviderResponse) (markedAt : Instant) (draw : Int) : Prop where
  integrity : Integrity s
  settling : (worker s n).pc.Settling event payment outcome
  marked : (worker s n).pc.Marked cfg s.world (.worker n) event payment outcome markedAt draw

namespace Settles

variable {n : Nat} {event : OutboxEvent} {payment : Payment}
  {outcome : Except CallError ProviderResponse} {markedAt : Instant} {draw : Int}

theorem next (h : Settles s n event payment outcome markedAt draw) {i : Session} {a : i.Act}
    (hguard : @Payments.settling cfg n markedAt draw i s.world (s.proc i) a)
    (hstep : s.step i a = some s') : Settles s' n event payment outcome markedAt draw := by
  have hnext := h.integrity.next hstep
  by_cases hi : Session.worker n = i
  · subst hi
    have hown := Processor.Worker.next_of_step (System.State.step_self hstep)
    have hinv : Processor.Worker.Inv cfg s.world (.worker n) (worker s n) :=
      h.integrity.inv (.worker n)
    exact ⟨hnext.2, h.settling.next hown (hguard rfl), hinv.marked_next hown (hguard rfl)⟩
  · have hproc : worker s' n = worker s n := System.State.step_proc_ne hstep hi
    refine ⟨hnext.2, hproc ▸ h.settling, fun pc => ?_⟩
    rw [hproc] at pc
    rw [(hnext.1.rely h.integrity.wf hi).outbox.writes]
    exact h.marked pc

theorem of_reaches (h : Settles s n event payment outcome markedAt draw)
    (hrun : (payments cfg).Reaches (Payments.settling n markedAt draw) s s') :
    Settles s' n event payment outcome markedAt draw :=
  hrun.invariant (fun hs hguard hstep => next hs hguard hstep) h

end Settles

/-- Worker `n` calls the provider in `s` and gets a transient error while its event has attempts
left, settles the event between `s₁` and `s₂`, and commits. -/
structure TransientFailure (n : Nat) (event : OutboxEvent) (payment : Payment)
    (started ended : Instant) (http : Nat → HttpOutcome) (error : CallError) (markedAt : Instant)
    (draw : Int) (s s₁ s₂ s₃ : State cfg) : Prop where
  calling : (worker s n).pc = .processing event payment
  fails : (CallProviderCommand.execute (worker s n).breakers payment.method started ended
    http).outcome = .error error
  transient : CallProviderCommand.isTransient error = true
  attempts : event.attempts + 1 < cfg.maxEventAttempts
  call : s.step (.worker n) (Processor.WorkerAction.callProvider started ended http) = some s₁
  settles : (payments cfg).Reaches (settling n markedAt draw) s₁ s₂
  commit : s₂.step (.worker n) Processor.WorkerAction.commit = some s₃

/-- In a run with one worker the event is pending up to the commit. -/
theorem pending_of_oneProcessor {s₀ : State cfg} (h₀ : Initial s₀)
    (hrun : (payments cfg).Reaches oneProcessor s₀ s) {event : OutboxEvent} {payment : Payment}
    {outcome : Except CallError ProviderResponse}
    (pc : (worker s 0).pc = .committing event (.settled payment outcome)) :
    s.world.IsPending event := by
  have h := (OneProcessorHolds.initial h₀).of_reaches hrun
  have hpending := h.undisturbed.pending event (.inr (by rw [pc]; rfl)) (by rw [pc]; rfl)
  exact Option.map_eq_some_iff.1 hpending

/-- The event is put back, for a later attempt. -/
def PutBackBy (event : OutboxEvent) (markedAt : Instant) (draw : Int) (s s' : State cfg) : Prop :=
  s.world.PutBack s'.world event markedAt
    (markedAt + exponentialBackoff (event.attempts + 1) 500000 5000000 draw)

/-- A transient failure with attempts left puts the event back for a later attempt if and only if
the breaker of the rail admitted the call and the event is still pending: in every run, for every
batch, state of the breakers and answers of the provider, and whatever the others do between the
call and the commit. With one worker the event is still pending. -/
theorem transient_failure_retried {s₀ s₁ s₂ s₃ : State cfg} (h₀ : Initial s₀)
    (hrun : (payments cfg).Reaches (payments cfg).anyStep s₀ s) {n : Nat} {event : OutboxEvent}
    {payment : Payment} {started ended : Instant} {http : Nat → HttpOutcome} {error : CallError}
    {markedAt : Instant} {draw : Int}
    (h : TransientFailure n event payment started ended http error markedAt draw s s₁ s₂ s₃) :
    (PutBackBy event markedAt draw s₂ s₃ ↔
      ((worker s n).breakers (providerNameForMethod payment.method)).Admits started ∧
        s₂.world.IsPending event) ∧
      (n = 0 → (payments cfg).Reaches oneProcessor s₀ s₂ → s₂.world.IsPending event) := by
  -- the call
  have hanswered : (worker s₁ n).pc = .answered event payment (.error error) := by
    have hnext : Processor.Next cfg (.worker n) s.world (worker s n)
        (.callProvider started ended http) s₁.world (worker s₁ n) :=
      Processor.Worker.next_of_step (System.State.step_self h.call)
    generalize worker s₁ n = l', s₁.world = w' at hnext ⊢
    cases hnext with
    | called pc' call =>
      cases h.calling.symm.trans pc'
      rw [call, h.fails]
  -- the rest of the handling, up to the commit
  have hcalled : Settles s₁ n event payment (.error error) markedAt draw :=
    ⟨((integrity_of_reaches hrun (Integrity.initial h₀)).next h.call).2, .inl hanswered,
      fun pc => by cases hanswered.symm.trans pc⟩
  have hsettled := hcalled.of_reaches h.settles
  have hnext : Processor.Next cfg (.worker n) s₂.world (worker s₂ n) .commit s₃.world
      (worker s₃ n) := Processor.Worker.next_of_step (System.State.step_self h.commit)
  have hcommitting := hsettled.settling.committing hnext
  have hworld : s₃.world = s₂.world.commit (.worker n) := by
    generalize worker s₃ n = l', s₃.world = w' at hnext
    cases hnext with
    | committed | committedFanout => rfl
  have hinv : Processor.Worker.Inv cfg s₂.world (.worker n) (worker s₂ n) :=
    hsettled.integrity.inv (.worker n)
  -- the error is that of an open breaker where the breaker does not admit the call
  have hopen := CallProviderCommand.execute_open_iff (worker s n).breakers payment.method started
    ended http
  rw [h.fails, Except.error.injEq] at hopen
  refine ⟨?_, fun hn hone => ?_⟩
  · rw [PutBackBy, hworld, hinv.putBack_iff hcommitting hsettled.marked h.transient h.attempts,
      ne_eq, hopen, not_not]
  · subst hn
    exact pending_of_oneProcessor h₀ hone hcommitting

/-- The worker takes the event up to its provider call. -/
def takes (event : OutboxEvent) (now : Instant) : List (Σ i, (payments sampleSettings).Act i) :=
  [⟨.worker 0, Processor.WorkerAction.fetchPendingRequested now [event]⟩,
    ⟨.worker 0, Processor.WorkerAction.getById⟩, ⟨.worker 0, Processor.WorkerAction.markProcessing⟩]

/-- The settlement of the event after the call. -/
def settles (now : Instant) : List (Σ i, (payments sampleSettings).Act i) :=
  [⟨.worker 0, Processor.WorkerAction.finalize 11 now⟩,
    ⟨.worker 0, Processor.WorkerAction.markEvent now 0⟩]

/-- The provider does not answer. -/
def timesOut (now : Instant) : Processor.WorkerAction :=
  .callProvider now now fun _ => .timeout

/-- One run of the worker during an outage of the provider. -/
def outage (event : OutboxEvent) (now : Instant) : List (Σ i, (payments sampleSettings).Act i) :=
  takes event now ++ [⟨.worker 0, timesOut now⟩] ++ settles now ++
    [⟨.worker 0, Processor.WorkerAction.commit⟩, ⟨.worker 0, Processor.WorkerAction.endRun⟩]

/-- The call after the schedule, and the rest of the handling: the states of a failure. -/
def failure (before : List (Σ i, (payments sampleSettings).Act i)) (now : Instant) :
    Option (State sampleSettings × State sampleSettings × State sampleSettings ×
      State sampleSettings) :=
  (System.State.run (payments sampleSettings).anyStep before sample).bind fun s =>
    (s.step (.worker 0) (timesOut now)).bind fun s₁ =>
      (System.State.run (settling 0 now 0) (settles now) s₁).bind fun s₂ =>
        (s₂.step (.worker 0) Processor.WorkerAction.commit).map fun s₃ => (s, s₁, s₂, s₃)

theorem failure_eq_some {before : List (Σ i, (payments sampleSettings).Act i)} {now : Instant}
    {s s₁ s₂ s₃ : State sampleSettings} (h : failure before now = some (s, s₁, s₂, s₃)) :
    (payments sampleSettings).Reaches (payments sampleSettings).anyStep sample s ∧
      s.step (.worker 0) (timesOut now) = some s₁ ∧
      (payments sampleSettings).Reaches (settling 0 now 0) s₁ s₂ ∧
      s₂.step (.worker 0) Processor.WorkerAction.commit = some s₃ := by
  obtain ⟨s, hs, h⟩ := Option.bind_eq_some_iff.1 h
  obtain ⟨s₁, h₁, h⟩ := Option.bind_eq_some_iff.1 h
  obtain ⟨s₂, h₂, h⟩ := Option.bind_eq_some_iff.1 h
  obtain ⟨s₃, h₃, heq⟩ := Option.map_eq_some_iff.1 h
  cases heq
  exact ⟨System.Reaches.of_run hs, h₁, System.Reaches.of_run h₂, h₃⟩

/-- The event and the payment of a call that is next. -/
def calling (s : State cfg) (n : Nat) : Option (OutboxEvent × Payment) :=
  match (worker s n).pc with
  | .processing event payment => some (event, payment)
  | _ => none

theorem calling_eq_some {n : Nat} {event : OutboxEvent} {payment : Payment}
    (h : calling s n = some (event, payment)) : (worker s n).pc = .processing event payment := by
  unfold calling at h
  split at h
  · next pc =>
    cases h
    exact pc
  · cases h

/-- The payment row of the sample, in processing under this version. -/
def sampleProcessing (version : Int) : Payment where
  paymentId := 1
  merchantId := "m"
  customerId := "c"
  accountId := "a"
  amount := ⟨10000, -2⟩
  currency := "BRL"
  method := .pix
  destination := none
  status := .processing
  idempotencyKey := "k"
  riskScore := 0
  riskDecision := .allow
  amlDecision := .allow
  lastError := none
  createdAt := 0
  version := version

/-- The call in `s` of a failure, its outcome, and whether the breaker admits it. -/
def callOutcome (s : State sampleSettings) (now : Instant) :
    Option (OutboxEvent × Payment) × Except CallError ProviderResponse × Bool :=
  (calling s 0,
    (CallProviderCommand.execute (worker s 0).breakers .pix now now fun _ => .timeout).outcome,
    decide (((worker s 0).breakers (providerNameForMethod .pix)).Admits now))

set_option maxRecDepth 10000 in
/-- The first call times out at three seconds, and the breaker is closed. -/
theorem transient_failure_retried_timeout : ∃ s s' : State sampleSettings,
    s.world.status 1 = some .received ∧ PutBackBy sampleRequest 3000000 0 s s' := by
  have hrun : (failure (creation 0 ⟨0, .allow, .allow⟩ 1 10 ++ takes sampleRequest 0) 3000000).map
      (fun (s, _, s₂, _) => ((s₂.world.status 1,
        (s₂.world.outbox.committed 10).map (·.status)), callOutcome s 3000000)) =
      some ((some .received, some .pending), some (sampleRequest, sampleProcessing 2),
        .error (.providerTimeout "Provider timeout"), true) := by decide
  obtain ⟨⟨s, s₁, s₂, s₃⟩, hs, heq⟩ := Option.map_eq_some_iff.1 hrun
  obtain ⟨hreach, hcall, hsettles, hcommit⟩ := failure_eq_some hs
  simp only [callOutcome, Prod.mk.injEq, decide_eq_true_eq] at heq
  obtain ⟨⟨hstatus, hpending⟩, hcalling, hfails, hadmits⟩ := heq
  have hfailure : TransientFailure 0 sampleRequest (sampleProcessing 2) 3000000 3000000
      (fun _ => .timeout) (.providerTimeout "Provider timeout") 3000000 0 s s₁ s₂ s₃ :=
    ⟨calling_eq_some hcalling, hfails, rfl, by decide, hcall, hsettles, hcommit⟩
  exact ⟨s₂, s₃, hstatus, (transient_failure_retried (fresh_initial _ _ _) hreach hfailure).1.2
    ⟨hadmits, Option.map_eq_some_iff.1 hpending⟩⟩

set_option maxRecDepth 10000 in
/-- In an outage of the provider the fourth attempt for a payment finds the breaker open, which its
first three have opened, and the payment fails with an attempt left. -/
theorem transient_failure_final : ¬ ∀ (cfg : Processor.Settings) (s₀ s s₁ s₂ s₃ : State cfg)
    (n : Nat) (event : OutboxEvent) (payment : Payment) (started ended : Instant)
    (http : Nat → HttpOutcome) (error : CallError) (markedAt : Instant) (draw : Int), Initial s₀ →
    (payments cfg).Reaches (payments cfg).anyStep s₀ s →
      TransientFailure n event payment started ended http error markedAt draw s s₁ s₂ s₃ →
        PutBackBy event markedAt draw s₂ s₃ := by
  intro hback
  let event : OutboxEvent := { sampleRequest with attempts := 3, nextAttemptAt := 3500000 }
  have hrun : (failure (creation 0 ⟨0, .allow, .allow⟩ 1 10 ++ outage sampleRequest 0 ++
      outage { sampleRequest with attempts := 1, nextAttemptAt := 500000 } 500000 ++
      outage { sampleRequest with attempts := 2, nextAttemptAt := 1500000 } 1500000 ++
      takes event 3500000) 3500000).map
        (fun (s, _, _, s₃) => (s₃.world.status 1, callOutcome s 3500000)) =
      some (some .failed, some (event, sampleProcessing 5), .error .circuitBreakerOpen, false) := by
    decide
  obtain ⟨⟨s, s₁, s₂, s₃⟩, hs, heq⟩ := Option.map_eq_some_iff.1 hrun
  obtain ⟨hreach, hcall, hsettles, hcommit⟩ := failure_eq_some hs
  simp only [callOutcome, Prod.mk.injEq] at heq
  obtain ⟨hstatus, hcalling, hfails, -⟩ := heq
  have h := hback sampleSettings sample s s₁ s₂ s₃ 0 event (sampleProcessing 5) 3500000 3500000
    (fun _ => .timeout) .circuitBreakerOpen 3500000 0 (fresh_initial _ _ _) hreach
    ⟨calling_eq_some hcalling, hfails, rfl, by decide, hcall, hsettles, hcommit⟩
  exact h.unfailed hstatus

end Payments

end PaymentsLab
