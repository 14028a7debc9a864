import PaymentsLab.System.Observations
import PaymentsLab.System.OutboxWork
import PaymentsLab.System.TransientFailures

/-!
# Outcomes are backed by the provider

The calls of the provider are read off the history of a run: what a worker had in hand when it
called, and how the call ended. However the sessions interleave, a payment is `CONFIRMED` only
after a call for it that the provider has confirmed, `FAILED` only after one it has not, every
call asked for what the committed row says, and the event of an outcome reports the answer that
led to it (`outcomes_backed`).
-/

namespace PaymentsLab

open Foundation

/-- The provider has confirmed the payment in full. -/
def ProviderResponse.Confirms (response : ProviderResponse) : Prop :=
  response.confirmed = true ∧ response.partialFailure = false

instance (response : ProviderResponse) : Decidable response.Confirms :=
  inferInstanceAs (Decidable (_ ∧ _))

namespace Processor

/-- A call of the provider: the payment as the worker had it, and how the call ended. -/
abbrev ProviderCall : Type :=
  Payment × Except CallError ProviderResponse

/-- The call a step makes. -/
def Worker.calls (l : Worker) (a : WorkerAction) : Option ProviderCall :=
  match l.pc, a with
  | .processing _ payment, .callProvider started ended http =>
    some (payment,
      (CallProviderCommand.execute l.breakers payment.method started ended http).outcome)
  | _, _ => none

/-- The call whose outcome a worker is handling. -/
def WorkerPc.answer : WorkerPc → Option ProviderCall
  | .answered _ payment outcome => some (payment, outcome)
  | .finalized _ payment outcome => some (payment, outcome)
  | .committing _ (.settled payment outcome) => some (payment, outcome)
  | _ => none

@[simp] theorem Settings.identity_afterMarkProcessing (cfg : Settings) (payment : Payment) :
    (cfg.afterMarkProcessing payment).identity = payment.identity := by
  unfold Settings.afterMarkProcessing
  split <;> rfl

/-- The finalization in the session of a worker is that of the call it is handling. -/
theorem WorkerPc.answer_of_emitted {cfg : Settings} {pc : WorkerPc} {payment : Payment}
    {f : Finalization} (h : pc.emitted cfg = some (payment, f)) :
    ∃ event outcome, pc.answer = some (payment, outcome) ∧
      (settlement cfg event payment outcome).finalization = some f := by
  unfold emitted at h
  split at h
  · obtain ⟨f', hf', heq⟩ := Option.map_eq_some_iff.1 h
    cases heq
    exact ⟨_, _, rfl, hf'⟩
  · obtain ⟨f', hf', heq⟩ := Option.map_eq_some_iff.1 h
    cases heq
    exact ⟨_, _, rfl, hf'⟩
  · cases h

/-- A payment is confirmed where the provider has confirmed it, with the data of the answer. -/
theorem settlement_confirmed {cfg : Settings} {event : OutboxEvent} {payment : Payment}
    {outcome : Except CallError ProviderResponse} {f : Finalization}
    (h : (settlement cfg event payment outcome).finalization = some f)
    (hf : f.outcome = .confirmed) : ∃ response, outcome = .ok response ∧ response.Confirms ∧
      f = .confirm response.provider response.providerReference := by
  unfold settlement at h
  split at h
  · next response =>
    split at h
    · next hconfirmed =>
      cases h
      refine ⟨response, rfl, ⟨hconfirmed.1, ?_⟩, rfl⟩
      simpa using hconfirmed.2
    · cases h
      cases hf
  · split at h
    · simp only [handleProcessorError] at h
      split at h <;> cases h
      cases hf
    · cases h
      cases hf

/-- What the event of a failure says of the outcome it comes from: provider, category, reason. -/
def failureReport (method : PaymentMethod) :
    Except CallError ProviderResponse → String × String × String
  | .ok response => (response.provider, "provider_partial_failure", "Partial failure")
  | .error (.providerTimeout message) =>
    (providerNameForMethod method, "provider_timeout", message)
  | .error (.provider5xx message) => (providerNameForMethod method, "provider_5xx", message)
  | .error _ => ("unknown", "unexpected", "Unexpected processor failure")

/-- A payment is failed where the provider has not confirmed it, with the data of the outcome. -/
theorem settlement_failed {cfg : Settings} {event : OutboxEvent} {payment : Payment}
    {outcome : Except CallError ProviderResponse} {provider category reason : String}
    (h : (settlement cfg event payment outcome).finalization =
      some (.fail provider category reason)) :
    (∀ response, outcome = .ok response → ¬ response.Confirms) ∧
      (provider, category, reason) = failureReport payment.method outcome := by
  cases outcome with
  | ok response =>
    simp only [settlement] at h
    split at h
    · cases h
    · next hnot =>
      cases h
      refine ⟨fun r hr hconfirms => hnot ?_, rfl⟩
      cases hr
      exact ⟨hconfirms.1, by simp [hconfirms.2]⟩
  | error error =>
    refine ⟨fun r hr => (by cases hr), ?_⟩
    cases error with
    | providerTimeout message | provider5xx message =>
      simp only [settlement, CallError.asProcessorError, handleProcessorError] at h
      split at h <;> cases h
      rfl
    | circuitBreakerOpen | other =>
      cases h
      rfl

/-- The status and the type of the event tell a confirmation from a failure. -/
theorem Finalization.outcome_of_eventType {f : Finalization} {o : Outcome}
    (h : f.eventType = o.eventType) : f.outcome = o := by
  cases f <;> cases o <;> first | rfl | cases h

theorem Finalization.outcome_of_status {f : Finalization} {o : Outcome}
    (h : f.outcome.status = o.status) : f.outcome = o := by
  cases f <;> cases o <;> first | rfl | cases h

section Steps

variable {cfg : Settings} {t : Session} {w w' : World} {l l' : Worker} {a : WorkerAction}

/-- An outcome in hand is that of an earlier call, or of the call just made. -/
theorem Next.answer_after (h : Next cfg t w l a w' l') {call : ProviderCall}
    (hcall : l'.pc.answer = some call) : l.pc.answer = some call ∨ l.calls a = some call := by
  cases h with
  | @called event payment started ended http run pc hrun =>
    cases hcall
    exact .inr (by simp [Worker.calls, pc, hrun])
  | finalized pc | unfinalized pc | marked pc =>
    rw [pc]
    exact .inl hcall
  | fetched | found | notFound | markedMissing | locked | missed | markedLost | committed
  | fetchedFanout | published | markedFanout | committedFanout | ended | crashed => cases hcall

/-- A payment in hand is one just loaded, or the one in hand before. -/
theorem Next.payment_after (h : Next cfg t w l a w' l') {payment : Payment}
    (hpayment : l'.pc.payment = some payment) :
    (∃ before, l.pc.payment = some before ∧ before.paymentId = payment.paymentId ∧
        before.identity = payment.identity) ∨
      l.pc = .requested ∧ ∃ k, w.payments.view t k = some payment ∧ w' = w := by
  cases h with
  | found pc events row =>
    cases hpayment
    exact .inr ⟨pc, _, row, rfl⟩
  | locked pc =>
    cases hpayment
    exact .inl ⟨_, by rw [pc]; rfl, by simp, by simp⟩
  | called pc | finalized pc | unfinalized pc | marked pc =>
    cases hpayment
    exact .inl ⟨_, by rw [pc]; rfl, rfl, rfl⟩
  | fetched | notFound | markedMissing | missed | markedLost | committed | fetchedFanout
  | published | markedFanout | committedFanout | ended | crashed => cases hpayment

/-- The call a step makes is for the payment in hand. -/
theorem Worker.payment_of_calls {call : ProviderCall} (h : l.calls a = some call) :
    l.pc.payment = some call.1 := by
  unfold calls at h
  split at h
  · next pc =>
    cases h
    rw [pc]
    rfl
  · cases h

/-- A row that a step of a worker adds to the outbox is the event of the finalization in its
session. -/
theorem Worker.Inv.added_emission (h : Worker.Inv cfg w t l) (hn : Next cfg t w l a w' l')
    {k : UUID} {e : OutboxEvent} (hnone : w.outbox.committed k = none)
    (he : w'.outbox.committed k = some e) : IsEmission (l.pc.emitted cfg) (some e) := by
  have hsame (hcommitted : w'.outbox.committed k = w.outbox.committed k) : False := by
    rw [hcommitted, hnone] at he
    cases he
  have hcommit {event : OutboxEvent} {m : EventMark} (hmarked : l.pc.marked cfg = some (event, m))
      (he : (w.commit t).outbox.committed k = some e) : IsEmission (l.pc.emitted cfg) (some e) := by
    obtain ⟨added, hem, -, hev⟩ := h.events
    rw [hmarked] at hev
    obtain ⟨row, at', hrow, hwrites⟩ := hev
    have hne : k ≠ event.eventId := by
      rintro rfl
      cases hnone.symm.trans hrow
    rw [World.outbox_commit, RowStore.committed_commit, hwrites, Function.update_of_ne hne, hnone,
      Option.or_none] at he
    obtain ⟨rfl, -⟩ := singleEvent_eq_some he
    exact hem
  cases hn with
  | fetched | found | notFound | missed | unfinalized | fetchedFanout | ended | called | published
  | locked => exact (hsame rfl).elim
  | crashed => exact (hsame (by simp)).elim
  | markedMissing pc mark | markedLost pc mark | marked pc mark | markedFanout pc mark =>
    exact (hsame (committed_markEvent mark k)).elim
  | @finalized event payment outcome eventId now w' f pc final run =>
    obtain ⟨row₀, hwrites, -⟩ := h.held payment _ (by rw [pc]; rfl) (by rw [pc]; rfl)
    have hown : w.payments.writes t payment.paymentId = some row₀ := by
      rw [hwrites, Function.update_self]
    obtain ⟨-, -, -, -, rfl⟩ := Finalization.run_eq_some hown run
    exact (hsame (by simp)).elim
  | committed pc => exact hcommit (by rw [pc]; rfl) he
  | committedFanout pc => exact hcommit (by rw [pc]; rfl) he

end Steps

end Processor

namespace Payments

open Processor (ProviderCall)

variable {cfg : Processor.Settings}

/-- The provider call of a step. -/
def callOfStep : (t : Session) → t.Local → t.Act → Option ProviderCall
  | .worker _, l, a => Processor.Worker.calls l a
  | _, _, _ => none

/-- The provider calls of a run, the last one first. -/
def providerCalls (history : History cfg) : List ProviderCall :=
  history.filterMap fun x => callOfStep x.process x.before x.act

theorem mem_providerCalls_cons {x : (payments cfg).Taken} {history : History cfg}
    {call : ProviderCall} : call ∈ providerCalls (x :: history) ↔
      callOfStep x.process x.before x.act = some call ∨ call ∈ providerCalls history := by
  simp only [providerCalls, List.filterMap_cons]
  split
  · next hnone => simp [hnone]
  · next call' hsome => simp [hsome, eq_comm]

/-- What the calls of a run say about the state it ends in. -/
structure Backed (history : History cfg) (s : State cfg) : Prop where
  integrity : Integrity s
  /-- the payments the workers have in hand have the data of their rows -/
  inHand : ∀ n payment, (worker s n).pc.payment = some payment →
    ∃ row, s.world.payments.committed payment.paymentId = some row ∧
      row.identity = payment.identity
  answered : ∀ n call, (worker s n).pc.answer = some call → call ∈ providerCalls history
  requested : ∀ call ∈ providerCalls history, ∃ row,
    s.world.payments.committed call.1.paymentId = some row ∧ row.identity = call.1.identity
  finished : ∀ p (o : Outcome), s.world.status p = some o.status → ∃ event payment outcome f,
    (payment, outcome) ∈ providerCalls history ∧ payment.paymentId = p ∧
      (Processor.settlement cfg event payment outcome).finalization = some f ∧ f.outcome = o
  emitted : ∀ k row, s.world.outbox.committed k = some row → row.eventType.Terminal →
    ∃ event payment outcome f, (payment, outcome) ∈ providerCalls history ∧
      payment.paymentId = row.aggregateId ∧
      (Processor.settlement cfg event payment outcome).finalization = some f ∧
      f.eventType = row.eventType ∧ f.payload payment = row.payload

namespace Backed

variable {history : History cfg} {s s' : State cfg}

theorem initial (h : Initial s) : Backed [] s where
  integrity := .initial h
  inHand n payment hp := by
    rw [show (worker s n).pc = .idle from h.worker n] at hp
    cases hp
  answered n call hcall := by
    rw [show (worker s n).pc = .idle from h.worker n] at hcall
    cases hcall
  requested call hcall := by cases hcall
  finished p o hs := by
    rw [h.world] at hs
    cases hs
  emitted k row hrow := by
    rw [h.world] at hrow
    cases hrow

/-- The payments in hand after a step. -/
theorem inHand_next (h : Backed history s) {i : Session} {a : i.Act}
    (hstep : s.step i a = some s') (n : Nat) (payment : Payment)
    (hp : (worker s' n).pc.payment = some payment) :
    ∃ row, s'.world.payments.committed payment.paymentId = some row ∧
      row.identity = payment.identity := by
  have hkeeps := h.integrity.keeps hstep
  by_cases hi : i = .worker n
  · subst hi
    have hn := Processor.Worker.next_of_step (System.State.step_self hstep)
    rcases hn.payment_after hp with ⟨before, hbefore, hid, hident⟩ | ⟨pc, k, hview, -⟩
    · obtain ⟨row, hrow, hsame⟩ := h.inHand n before hbefore
      obtain ⟨row', hrow', hsame'⟩ := hkeeps.payment hrow
      exact ⟨row', hid ▸ hrow', hsame'.trans (hsame.trans hident)⟩
    · have hinv : Processor.Worker.Inv cfg s.world (.worker n) (worker s n) :=
        h.integrity.inv (.worker n)
      replace pc : (worker s n).pc = .requested := pc
      have hclean := hinv.clean (by rw [pc]; rfl) (by rw [pc]; rfl) (by rw [pc]; rfl)
      rw [RowStore.view_of_committed (by rw [hclean.payments])] at hview
      obtain ⟨row', hrow', hsame'⟩ := hkeeps.payment hview
      exact ⟨row', h.integrity.wf.payments.committed_key hview ▸ hrow', hsame'⟩
  · have hsame : worker s' n = worker s n := System.State.step_proc_ne hstep (Ne.symm hi)
    rw [hsame] at hp
    obtain ⟨row, hrow, hident⟩ := h.inHand n payment hp
    obtain ⟨row', hrow', hident'⟩ := hkeeps.payment hrow
    exact ⟨row', hrow', hident'.trans hident⟩

/-- The answers in hand after a step. -/
theorem answered_next (h : Backed history s) {i : Session} {a : i.Act}
    (hstep : s.step i a = some s') (n : Nat) (call : ProviderCall)
    (hcall : (worker s' n).pc.answer = some call) :
    call ∈ providerCalls (⟨i, s.world, s.proc i, a⟩ :: history) := by
  refine mem_providerCalls_cons.2 ?_
  by_cases hi : i = .worker n
  · subst hi
    have hn := Processor.Worker.next_of_step (System.State.step_self hstep)
    rcases hn.answer_after hcall with hold | hnew
    · exact .inr (h.answered n call hold)
    · exact .inl hnew
  · have hsame : worker s' n = worker s n := System.State.step_proc_ne hstep (Ne.symm hi)
    rw [hsame] at hcall
    exact .inr (h.answered n call hcall)

/-- The calls after a step. -/
theorem requested_next (h : Backed history s) {i : Session} {a : i.Act}
    (hstep : s.step i a = some s') (call : ProviderCall)
    (hcall : call ∈ providerCalls (⟨i, s.world, s.proc i, a⟩ :: history)) :
    ∃ row, s'.world.payments.committed call.1.paymentId = some row ∧
      row.identity = call.1.identity := by
  have hrow : ∃ row, s.world.payments.committed call.1.paymentId = some row ∧
      row.identity = call.1.identity := by
    rcases mem_providerCalls_cons.1 hcall with hnew | hold
    · cases i with
      | worker n => exact h.inHand n call.1 (Processor.Worker.payment_of_calls hnew)
      | review | create | environment => cases hnew
    · exact h.requested call hold
  obtain ⟨row, hrow, hident⟩ := hrow
  obtain ⟨row', hrow', hident'⟩ := (h.integrity.keeps hstep).payment hrow
  exact ⟨row', hrow', hident'.trans hident⟩

/-- The finished payments after a step. -/
theorem finished_next (h : Backed history s) {i : Session} {a : i.Act}
    (hstep : s.step i a = some s') (p : UUID) (o : Outcome)
    (hs : s'.world.status p = some o.status) : ∃ event payment outcome f,
      (payment, outcome) ∈ providerCalls history ∧ payment.paymentId = p ∧
        (Processor.settlement cfg event payment outcome).finalization = some f ∧ f.outcome = o := by
  obtain ⟨m, hm, hadm, hledger⟩ := h.integrity.moves hstep
  rw [← World.ledger_status, hledger] at hs
  rcases s.world.ledger.status_apply m p with ⟨hsame, -⟩ | ⟨s₁, hassigned, hnew⟩
  · exact h.finished p o (hsame.symm.trans hs)
  · cases hnew.symm.trans hs
    obtain ⟨k, o', d, e, rfl⟩ := Ledger.Work.assigned_terminal hadm hassigned o.terminal_status
    cases i with
    | worker n =>
      cases hm with
      | @settle event payment outcome f m d e pc settle =>
        replace pc : (worker s n).pc = .committing event (.settled payment outcome) := pc
        have hcall := h.answered n (payment, outcome) (by rw [pc]; rfl)
        have hassigned := Prod.mk.inj (Option.some.inj hassigned)
        exact ⟨event, payment, outcome, f, hcall, hassigned.1, by rw [settle],
          Processor.Finalization.outcome_of_status hassigned.2⟩
    | review n => cases hm
    | create n => cases hm
    | environment => cases hm

/-- The events of outcomes after a step. -/
theorem emitted_next (h : Backed history s) {i : Session} {a : i.Act}
    (hstep : s.step i a = some s') (k : UUID) (row' : OutboxEvent)
    (hrow' : s'.world.outbox.committed k = some row') (hterminal : row'.eventType.Terminal) :
    ∃ event payment outcome f, (payment, outcome) ∈ providerCalls history ∧
      payment.paymentId = row'.aggregateId ∧
      (Processor.settlement cfg event payment outcome).finalization = some f ∧
      f.eventType = row'.eventType ∧ f.payload payment = row'.payload := by
  cases hrow : s.world.outbox.committed k with
  | some row =>
    obtain ⟨row'', hrow'', hident, -⟩ := (h.integrity.keeps hstep).event hrow
    cases hrow''.symm.trans hrow'
    have htype := OutboxEvent.eventType_of_identity hident
    have haggregate := OutboxEvent.aggregateId_of_identity hident
    have hpayload : row'.payload = row.payload := by
      simpa [OutboxEvent.identity] using congrArg OutboxEvent.payload hident
    rw [htype] at hterminal
    rw [htype, haggregate, hpayload]
    exact h.emitted k row hrow hterminal
  | none =>
    have hkind : s'.world.ledger.kind k = some (row'.aggregateId, row'.eventType) := by
      simp [World.ledger, hrow']
    obtain ⟨m, hm, hadm, hledger⟩ := h.integrity.moves hstep
    have hadded : m.added = some (k, row'.aggregateId, row'.eventType) := by
      rw [hledger] at hkind
      rcases s.world.ledger.kind_apply m k with ⟨hsame, -⟩ | ⟨e, he, hnew⟩
      · cases (World.ledger_kind_eq_none.2 hrow).symm.trans (hsame.symm.trans hkind)
      · cases hnew.symm.trans hkind
        exact he
    cases i with
    | worker n =>
      have hinv : Processor.Worker.Inv cfg s.world (.worker n) (worker s n) :=
        h.integrity.inv (.worker n)
      have hem := hinv.added_emission
        (Processor.Worker.next_of_step (System.State.step_self hstep)) hrow hrow'
      cases hfinal : (worker s n).pc.emitted cfg with
      | none =>
        rw [hfinal] at hem
        exact hem.elim
      | some final =>
        obtain ⟨payment, f⟩ := final
        rw [hfinal] at hem
        obtain ⟨eventId, now, rfl⟩ := hem
        obtain ⟨event, outcome, hanswer, hsettle⟩ := Processor.WorkerPc.answer_of_emitted hfinal
        exact ⟨event, payment, outcome, f, h.answered n _ hanswer, rfl, hsettle, rfl, rfl⟩
    | review n =>
      cases hm with
      | skip | reject => cases hadded
      | approve =>
        simp only [Ledger.Move.added, Option.some.injEq, Prod.mk.injEq] at hadded
        rw [← hadded.2.2] at hterminal
        exact absurd hterminal (by decide)
    | create n =>
      cases hm with
      | skip | create => cases hadded
      | createWith =>
        simp only [Ledger.Move.added, Option.some.injEq, Prod.mk.injEq] at hadded
        rw [← hadded.2.2] at hterminal
        rcases hadm.2.2.2 with ⟨-, htype⟩ | ⟨-, htype⟩ <;> rw [htype] at hterminal <;>
          exact absurd hterminal (by decide)
    | environment =>
      cases hm
      cases hadded

theorem next (h : Backed history s) {i : Session} {a : i.Act} (hstep : s.step i a = some s') :
    Backed (⟨i, s.world, s.proc i, a⟩ :: history) s' where
  integrity := (h.integrity.next hstep).2
  inHand := h.inHand_next hstep
  answered := h.answered_next hstep
  requested := h.requested_next hstep
  finished p o hs := by
    obtain ⟨event, payment, outcome, f, hcall, hrest⟩ := h.finished_next hstep p o hs
    exact ⟨event, payment, outcome, f, mem_providerCalls_cons.2 (.inr hcall), hrest⟩
  emitted k row hrow hterminal := by
    obtain ⟨event, payment, outcome, f, hcall, hrest⟩ := h.emitted_next hstep k row hrow hterminal
    exact ⟨event, payment, outcome, f, mem_providerCalls_cons.2 (.inr hcall), hrest⟩

theorem of_runs {good : (payments cfg).Condition} {s₀ : State cfg} (h₀ : Initial s₀)
    (hrun : (payments cfg).Runs good s₀ history s) : Backed history s :=
  hrun.invariant (fun h _ hstep => h.next hstep) (.initial h₀)

end Backed

/-- The provider has answered for every outcome, and was asked for what the payment says. -/
structure OutcomesBacked (history : History cfg) (s : State cfg) : Prop where
  requested : ∀ payment outcome, (payment, outcome) ∈ providerCalls history → ∃ row,
    s.world.payments.committed payment.paymentId = some row ∧
      ProviderRequest.ofPayment payment = ProviderRequest.ofPayment row
  confirmed : ∀ p, s.world.status p = some .confirmed → ∃ payment response,
    (payment, .ok response) ∈ providerCalls history ∧ payment.paymentId = p ∧ response.Confirms
  failed : ∀ p, s.world.status p = some .failed → ∃ payment outcome,
    (payment, outcome) ∈ providerCalls history ∧ payment.paymentId = p ∧
      ∀ response, outcome = .ok response → ¬ response.Confirms
  announced : ∀ p k e, s.world.IsEvent p .paymentConfirmed k e → ∃ payment response row,
    (payment, .ok response) ∈ providerCalls history ∧ payment.paymentId = p ∧ response.Confirms ∧
      s.world.payments.committed p = some row ∧
      e.payload = .paymentConfirmed p row.merchantId response.provider response.providerReference
  announcedFailure : ∀ p k e, s.world.IsEvent p .paymentFailed k e → ∃ payment outcome row,
    (payment, outcome) ∈ providerCalls history ∧ payment.paymentId = p ∧
      (∀ response, outcome = .ok response → ¬ response.Confirms) ∧
      s.world.payments.committed p = some row ∧ ∃ provider category reason,
        (provider, category, reason) = Processor.failureReport row.method outcome ∧
          e.payload = .paymentFailed p row.merchantId provider category reason

theorem Backed.row (h : Backed history s) {payment : Payment}
    {outcome : Except CallError ProviderResponse}
    (hcall : (payment, outcome) ∈ providerCalls history) : ∃ row,
      s.world.payments.committed payment.paymentId = some row ∧
        ProviderRequest.ofPayment payment = ProviderRequest.ofPayment row := by
  obtain ⟨row, hrow, hident⟩ := h.requested _ hcall
  refine ⟨row, hrow, ?_⟩
  simp only [Payment.identity, Payment.mk.injEq] at hident
  simp [ProviderRequest.ofPayment, hident]

/-- In every run, whatever the sessions do and in whatever order: the outcomes of the payments and
their events are backed by answers of the provider. -/
theorem outcomes_backed {good : (payments cfg).Condition} {s₀ : State cfg} (h₀ : Initial s₀)
    (hrun : (payments cfg).Runs good s₀ history s) : OutcomesBacked history s := by
  have h := Backed.of_runs h₀ hrun
  refine ⟨fun payment outcome hcall => h.row hcall, fun p hs => ?_, fun p hs => ?_,
    fun p k e he => ?_, fun p k e he => ?_⟩
  · obtain ⟨event, payment, outcome, f, hcall, hp, hsettle, hf⟩ := h.finished p .confirmed hs
    obtain ⟨response, rfl, hconfirms, -⟩ := Processor.settlement_confirmed hsettle hf
    exact ⟨payment, response, hcall, hp, hconfirms⟩
  · obtain ⟨event, payment, outcome, f, hcall, hp, hsettle, hf⟩ := h.finished p .failed hs
    cases f with
    | confirm => cases hf
    | fail => exact ⟨payment, outcome, hcall, hp, (Processor.settlement_failed hsettle).1⟩
  · obtain ⟨hrow, rfl, htype⟩ := he
    obtain ⟨event, payment, outcome, f, hcall, hp, hsettle, hf, hpayload⟩ :=
      h.emitted k e hrow (.inl htype)
    obtain ⟨response, rfl, hconfirms, rfl⟩ := Processor.settlement_confirmed hsettle
      (Processor.Finalization.outcome_of_eventType (o := .confirmed) (hf.trans htype))
    obtain ⟨row, hpayment, hsame⟩ := h.row hcall
    refine ⟨payment, response, row, hcall, hp, hconfirms, hp ▸ hpayment, ?_⟩
    rw [← hpayload, ← hp, ← show _ = row.merchantId from congrArg ProviderRequest.merchantId hsame]
    rfl
  · obtain ⟨hrow, rfl, htype⟩ := he
    obtain ⟨event, payment, outcome, f, hcall, hp, hsettle, hf, hpayload⟩ :=
      h.emitted k e hrow (.inr htype)
    have hfailed :=
      Processor.Finalization.outcome_of_eventType (o := .failed) (hf.trans htype)
    cases f with
    | confirm => cases hfailed
    | fail provider category reason =>
      obtain ⟨row, hpayment, hsame⟩ := h.row hcall
      obtain ⟨hnot, hreport⟩ := Processor.settlement_failed hsettle
      have hmerchant : payment.merchantId = row.merchantId :=
        congrArg ProviderRequest.merchantId hsame
      have hmethod : payment.method = row.method := congrArg ProviderRequest.method hsame
      refine ⟨payment, outcome, row, hcall, hp, hnot, hp ▸ hpayment, provider, category, reason,
        hmethod ▸ hreport, ?_⟩
      rw [← hpayload, ← hp, ← hmerchant]
      rfl

set_option maxRecDepth 10000 in
/-- Two workers hold one event; the first confirms the payment, the second one loses the lock. -/
theorem outcomes_backed_raced : ∃ (history : History sampleSettings) (s : State sampleSettings),
    s.world.status 1 = some .confirmed ∧ OutcomesBacked history s := by
  have hrun : (System.State.run (System.anyStep _) (fetchedTwice ++
      [⟨.worker 1, Processor.WorkerAction.getById⟩] ++ callProvider 0 (answer false) ++
      settle 0 12 0 ++ lose 1) sample).map (·.world.status 1) = some (some .confirmed) := by decide
  obtain ⟨s, hs, hstatus⟩ := Option.map_eq_some_iff.1 hrun
  obtain ⟨history, hruns⟩ := System.Runs.exists_of_reaches (System.Reaches.of_run hs)
  exact ⟨history, s, hstatus, outcomes_backed (fresh_initial _ _ _) hruns⟩

end Payments

/-! ## One answer for a payment -/

namespace Processor

section Steps

variable {cfg : Settings} {t : Session} {w w' : World} {l l' : Worker} {a : WorkerAction}
  {call : ProviderCall}

/-- After a call its outcome is in hand. -/
theorem Next.answer_of_calls (h : Next cfg t w l a w' l') (hcall : l.calls a = some call) :
    l'.pc.answer = some call := by
  unfold Worker.calls at hcall
  split at hcall
  · next pc =>
    cases hcall
    cases h with
    | called pc' hrun =>
      cases pc.symm.trans pc'
      rw [hrun]
      rfl
  · cases hcall

/-- An outcome stays in hand up to its commit. -/
theorem Next.answer_before (h : Next cfg t w l a w' l') (hcall : l.pc.answer = some call) :
    l'.pc.answer = some call ∨ a.isCrash = true ∨
      ∃ event, l.pc = .committing event (.settled call.1 call.2) ∧ w' = w.commit t := by
  cases h with
  | finalized pc | unfinalized pc | marked pc =>
    rw [pc] at hcall
    exact .inl hcall
  | crashed => exact .inr (.inl rfl)
  | @committed event branch pc =>
    rw [pc] at hcall
    cases branch with
    | missing | lost => cases hcall
    | settled payment outcome =>
      cases hcall
      exact .inr (.inr ⟨event, pc, rfl⟩)
  | ended pc =>
    rcases pc with pc | pc <;>
    · rw [pc] at hcall
      cases hcall
  | fetched pc | found pc | notFound pc | missed pc | locked pc | called pc | fetchedFanout pc
  | markedMissing pc | markedLost pc | published pc | markedFanout pc | committedFanout pc =>
    rw [pc] at hcall
    cases hcall

end Steps

/-- No backoff is computed for an event the provider has answered. -/
theorem WorkerPc.overflowing_of_answer {cfg : Settings} {pc : WorkerPc} {payment : Payment}
    {response : ProviderResponse} (h : pc.answer = some (payment, .ok response)) :
    pc.overflowing cfg = none := by
  unfold answer at h
  split at h
  · rfl
  · cases h
    refine if_neg fun hover => ?_
    simp only [settlement] at hover
    split at hover <;> exact hover
  · rfl
  · cases h

/-- An answer of the provider ends the payment. -/
theorem settlement_answered (cfg : Settings) (event : OutboxEvent) (payment : Payment)
    (response : ProviderResponse) : ∃ f : Finalization,
      (settlement cfg event payment (.ok response)).finalization = some f := by
  unfold settlement
  split
  · next hok =>
    cases hok
    split <;> exact ⟨_, rfl⟩
  · next hok => cases hok

end Processor

namespace Payments

open Processor (ProviderCall)

variable {cfg : Processor.Settings} {history : History cfg} {s s' : State cfg}

/-- Runs with one worker whose commits succeed, and atomic reviews. -/
def oneLivingProcessor : (payments cfg).Guard :=
  fun i w l a => oneProcessor i w l a ∧ commitsSucceed 0 i w l a

instance (i : Session) (w : World) (l : (payments cfg).Local i) (a : (payments cfg).Act i) :
    Decidable (@oneLivingProcessor cfg i w l a) :=
  inferInstanceAs (Decidable (oneProcessor i w l a ∧ commitsSucceed 0 i w l a))

/-- The answer a call gives for a payment, if it ends with one. -/
def answerFor (p : UUID) (call : ProviderCall) : Option ProviderResponse :=
  if call.1.paymentId = p then call.2.toOption else none

/-- The answers of the provider for a payment, the last one first. -/
def answers (p : UUID) (history : History cfg) : List ProviderResponse :=
  (providerCalls history).filterMap (answerFor p)

theorem answers_cons (p : UUID) (x : (payments cfg).Taken) (history : History cfg) :
    answers p (x :: history) =
      ((callOfStep x.process x.before x.act).bind (answerFor p)).toList ++ answers p history := by
  unfold answers providerCalls
  rw [List.filterMap_cons]
  cases callOfStep x.process x.before x.act with
  | none => rfl
  | some call =>
    simp only [List.filterMap_cons, Option.bind_some]
    cases answerFor p call <;> rfl

/-- An answer ends the calls for the payment: none follows it. -/
def AnswerEnds (p : UUID) (history : History cfg) : Prop :=
  (providerCalls history).Pairwise fun later earlier =>
    later.1.paymentId = p → answerFor p earlier = none

theorem answerFor_eq_some {p : UUID} {call : ProviderCall} {response : ProviderResponse}
    (h : answerFor p call = some response) :
    call.1.paymentId = p ∧ call = (call.1, .ok response) := by
  obtain ⟨payment, outcome⟩ := call
  unfold answerFor at h
  split at h
  · next hp =>
    cases outcome with
    | error => cases h
    | ok =>
      cases h
      exact ⟨hp, rfl⟩
  · cases h

/-- A payment that has been answered is finished, or its answer is in the hands of the worker. -/
structure AnsweredOnce (history : History cfg) (s : State cfg) : Prop where
  holds : OneProcessorHolds s
  once : ∀ p, (answers p history).length ≤ 1
  ends : ∀ p, AnswerEnds p history
  spent : ∀ p, answers p history ≠ [] → (∃ st, s.world.status p = some st ∧ st.Terminal) ∨
    ∃ payment response, (worker s 0).pc.answer = some (payment, .ok response) ∧
      payment.paymentId = p

namespace AnsweredOnce

theorem initial (h : Initial s) : AnsweredOnce [] s where
  holds := .initial h
  once _ := Nat.zero_le 1
  ends _ := .nil
  spent _ hp := absurd rfl hp

/-- A payment the worker calls for has not been answered yet. -/
theorem unanswered (h : AnsweredOnce history s) {a : Processor.WorkerAction} {call : ProviderCall}
    (hcall : (worker s 0).calls a = some call) : answers call.1.paymentId history = [] := by
  by_contra hsome
  unfold Processor.Worker.calls at hcall
  split at hcall
  · next event payment started ended http pc =>
    cases hcall
    rcases h.spent payment.paymentId hsome with ⟨st, hst, hterminal⟩ | ⟨_, _, hanswer, -⟩
    · have hinv : Processor.Worker.Inv cfg s.world (.worker 0) (worker s 0) :=
        h.holds.landed.integrity.inv (.worker 0)
      have hevent : (worker s 0).pc.event = some event := by rw [pc]; rfl
      have hrequest := hinv.isRequest (by rw [pc]; rfl) (.inr hevent)
      have hpending := h.holds.undisturbed.pending event (.inr hevent) (by rw [pc]; rfl)
      rw [← hinv.payment event payment hevent (by rw [pc]; rfl)] at hrequest
      rcases ((h.holds.phases _).of_pending hrequest hpending).1 with hopen | hopen <;>
      · cases hst.symm.trans hopen
        exact absurd hterminal (by decide)
    · rw [pc] at hanswer
      cases hanswer
  · cases hcall

/-- A call is for a payment that has not been answered. -/
theorem ends_next (h : AnsweredOnce history s) {i : Session} {a : i.Act}
    (hguard : @oneProcessor cfg i s.world (s.proc i) a) (p : UUID) :
    AnswerEnds p (⟨i, s.world, s.proc i, a⟩ :: history) := by
  unfold AnswerEnds providerCalls
  rw [List.filterMap_cons]
  cases hcall : callOfStep i (s.proc i) a with
  | none => exact h.ends p
  | some call =>
    refine List.pairwise_cons.2 ⟨fun earlier hearlier hp => ?_, h.ends p⟩
    cases i with
    | worker n =>
      cases (hguard : n = 0)
      have hnone := h.unanswered hcall
      rw [hp] at hnone
      exact List.filterMap_eq_nil_iff.1 hnone earlier hearlier
    | review | create | environment => cases hcall

/-- A finished payment stays finished. -/
theorem terminal_next (h : OneProcessorHolds s) {i : Session} {a : i.Act}
    (hguard : @oneProcessor cfg i s.world (s.proc i) a) (hstep : s.step i a = some s') {p : UUID}
    (hp : ∃ st, s.world.status p = some st ∧ st.Terminal) :
    ∃ st, s'.world.status p = some st ∧ st.Terminal := by
  obtain ⟨st, hst, hterminal⟩ := hp
  obtain ⟨st', hst', hleads⟩ := h.leads (.step .refl hguard hstep) hst
  refine ⟨st', hst', ?_⟩
  rw [hleads.eq_of_final (hterminal.imp_right .inl)]
  exact hterminal

/-- An answer in hand is committed before the worker goes on. -/
theorem inHand_next (h : AnsweredOnce history s) {i : Session} {a : i.Act}
    (hguard : @oneLivingProcessor cfg i s.world (s.proc i) a) (hstep : s.step i a = some s')
    {payment : Payment} {response : ProviderResponse}
    (hanswer : (worker s 0).pc.answer = some (payment, .ok response)) :
    (∃ st, s'.world.status payment.paymentId = some st ∧ st.Terminal) ∨
      (worker s' 0).pc.answer = some (payment, .ok response) := by
  by_cases hi : i = .worker 0
  · subst hi
    have hn := Processor.Worker.next_of_step (System.State.step_self hstep)
    rcases hn.answer_before hanswer with hkept | hcrash | ⟨event, pc, hw⟩
    · exact .inr hkept
    · have hover := hguard.2.2 hcrash
      change (Processor.WorkerPc.overflowing cfg (worker s 0).pc).isSome = true at hover
      rw [Processor.WorkerPc.overflowing_of_answer hanswer] at hover
      cases hover
    · have hinv : Processor.Worker.Inv cfg s.world (.worker 0) (worker s 0) :=
        h.holds.landed.integrity.inv (.worker 0)
      obtain ⟨f, hf⟩ := Processor.settlement_answered cfg event payment response
      have hstatus := hinv.status_settled pc
      rw [← hinv.payment event payment (by rw [show (worker s 0).pc = _ from pc]; rfl)
        (by rw [show (worker s 0).pc = _ from pc]; rfl), hf] at hstatus
      refine .inl ⟨f.status, ?_, ?_⟩
      · rw [hw]
        exact hstatus
      · rw [Processor.Finalization.status_eq]
        exact f.outcome.terminal_status
  · have hsame : worker s' 0 = worker s 0 := System.State.step_proc_ne hstep (Ne.symm hi)
    rw [hsame]
    exact .inr hanswer

theorem next (h : AnsweredOnce history s) {i : Session} {a : i.Act}
    (hguard : @oneLivingProcessor cfg i s.world (s.proc i) a) (hstep : s.step i a = some s') :
    AnsweredOnce (⟨i, s.world, s.proc i, a⟩ :: history) s' := by
  have hspent (p : UUID) (hp : answers p history ≠ []) :
      (∃ st, s'.world.status p = some st ∧ st.Terminal) ∨ ∃ payment response,
        (worker s' 0).pc.answer = some (payment, .ok response) ∧ payment.paymentId = p := by
    rcases h.spent p hp with hterminal | ⟨payment, response, hanswer, rfl⟩
    · exact .inl (terminal_next h.holds hguard.1 hstep hterminal)
    · rcases h.inHand_next hguard hstep hanswer with hterminal | hkept
      · exact .inl hterminal
      · exact .inr ⟨payment, response, hkept, rfl⟩
  refine ⟨(h.holds.next hguard.1 hstep).1, fun p => ?_, h.ends_next hguard.1, fun p => ?_⟩
  · rw [answers_cons]
    cases hnew : (callOfStep i (s.proc i) a).bind (answerFor p) with
    | none => exact h.once p
    | some response =>
      obtain ⟨call, hcall, hanswer⟩ := Option.bind_eq_some_iff.1 hnew
      obtain ⟨rfl, -⟩ := answerFor_eq_some hanswer
      cases i with
      | worker n =>
        cases (hguard.1 : n = 0)
        simp [h.unanswered hcall]
      | review | create | environment => cases hcall
  · rw [answers_cons]
    cases hnew : (callOfStep i (s.proc i) a).bind (answerFor p) with
    | none => exact hspent p
    | some response =>
      intro _
      obtain ⟨call, hcall, hanswer⟩ := Option.bind_eq_some_iff.1 hnew
      obtain ⟨rfl, hok⟩ := answerFor_eq_some hanswer
      cases i with
      | worker n =>
        cases (hguard.1 : n = 0)
        have hn := Processor.Worker.next_of_step (System.State.step_self hstep)
        exact .inr ⟨call.1, response, hok ▸ hn.answer_of_calls hcall, rfl⟩
      | review | create | environment => cases hcall

end AnsweredOnce

/-- With one worker whose commits succeed, and atomic reviews, the provider answers at most once
for every payment, and is not called for it again. -/
theorem answered_at_most_once {s₀ : State cfg} (h₀ : Initial s₀)
    (hrun : (payments cfg).Runs oneLivingProcessor.condition s₀ history s) (p : UUID) :
    (answers p history).length ≤ 1 ∧ AnswerEnds p history := by
  have h : AnsweredOnce history s :=
    hrun.invariant (fun hi hguard hstep => hi.next hguard hstep) (.initial h₀)
  exact ⟨h.once p, h.ends p⟩

set_option maxRecDepth 10000 in
/-- The provider times out, the event is put back, and a second round confirms the payment. -/
theorem answered_at_most_once_retried : ∃ history s,
    (payments sampleSettings).Runs oneLivingProcessor.condition sample history s ∧
      s.world.status 1 = some .confirmed ∧
      (answers 1 history).length ≤ 1 ∧ AnswerEnds 1 history := by
  let delayed : OutboxEvent := { sampleRequest with attempts := 1, nextAttemptAt := 500000 }
  have hrun : (System.State.run oneLivingProcessor (creation 0 ⟨0, .allow, .allow⟩ 1 10 ++
      [⟨.worker 0, Processor.WorkerAction.fetchPendingRequested 0 [sampleRequest]⟩] ++
      callProvider 0 .timeout ++ settle 0 20 0 ++ [⟨.worker 0, Processor.WorkerAction.endRun⟩,
        ⟨.worker 0, Processor.WorkerAction.fetchPendingRequested 600000 [delayed]⟩] ++
      callProvider 0 (answer false) ++ settle 0 21 0) sample).map (·.world.status 1) =
      some (some .confirmed) := by decide
  obtain ⟨s, hs, hstatus⟩ := Option.map_eq_some_iff.1 hrun
  obtain ⟨history, hruns⟩ := System.Runs.exists_of_reaches (System.Reaches.of_run hs)
  exact ⟨history, s, hruns, hstatus, answered_at_most_once (fresh_initial _ _ _) hruns 1⟩

end Payments

end PaymentsLab
