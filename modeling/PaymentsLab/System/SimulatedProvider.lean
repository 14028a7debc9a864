import PaymentsLab.ProviderMock.Engine
import PaymentsLab.System.ProviderAnswers

/-!
# The system with the provider mock

Runs in which every post of the processor is answered by the mock or not at all. The mock has one
verdict for a payment, which it repeats whenever it is asked: so no retry and no second worker gets
another one, a payment the mock does not confirm is never `CONFIRMED`, and every confirmation names
the rail's provider and a reference that no other payment has (`verdicts_hold`).
-/

namespace PaymentsLab

open Foundation

/-- A value that the loop returns is one of the operation. -/
theorem retryLoop_returned {ε α : Type} {operation : Nat → Except ε α} {shouldRetry : ε → Bool}
    {maxAttempts remaining attempt : Nat} {last : Option ε} {value : α}
    (h : (retryLoop operation shouldRetry maxAttempts remaining attempt last).exit =
      .returned value) : ∃ n, operation n = .ok value := by
  induction remaining generalizing attempt last with
  | zero => cases last <;> simp [retryLoop] at h
  | succ remaining ih =>
    cases hop : operation attempt with
    | ok value' =>
      simp only [retryLoop, hop, RetryExit.returned.injEq] at h
      exact ⟨attempt, h ▸ hop⟩
    | error failure =>
      simp only [retryLoop, hop] at h
      split at h
      · cases h
      split at h
      · cases h
      · exact ih h

/-- A response of `execute` is the answer to one of its posts. -/
theorem CallProviderCommand.execute_ok {breakers : String → CircuitBreaker} {method : PaymentMethod}
    {started ended : Instant} {http : Nat → HttpOutcome} {response : ProviderResponse}
    (h : (execute breakers method started ended http).outcome = .ok response) :
    ∃ n, ProviderClientAdapter.confirm (http n) = .ok response := by
  unfold execute at h
  dsimp only at h
  split at h
  · cases h
  · split at h
    · next hexit =>
      cases h
      exact retryLoop_returned hexit
    · cases h
    · cases h
    · cases h
    · cases h

namespace ProviderMock

open Logging (Text uuidText)

variable {generator : Generator} {mock : FaultConfig} {payment payment' : Payment}

theorem verdict_congr (h : ProviderRequest.ofPayment payment = ProviderRequest.ofPayment payment') :
    verdict generator mock payment = verdict generator mock payment' := by
  have hmethod : payment.method = payment'.method := congrArg ProviderRequest.method h
  rw [verdict, verdict, answer, answer, h, hmethod]

/-- A response of the mock names the rail's provider and the payment. -/
theorem verdict_ok {response : ProviderResponse}
    (h : verdict generator mock payment = .ok response) :
    response.provider = providerNameForMethod payment.method ∧
      response.providerReference = reference payment := by
  obtain ⟨-, herror⟩ | ⟨-, -, herror⟩ | ⟨-, -, hok⟩ := @verdict_cases generator mock payment
  · cases herror.symm.trans h
  · cases herror.symm.trans h
  · cases hok.symm.trans h
    exact ⟨rfl, rfl⟩

/-- Different payments have different references. -/
theorem reference_inj (hp : payment.paymentId < 2 ^ 128) (hp' : payment'.paymentId < 2 ^ 128)
    (h : reference payment = reference payment') : payment.paymentId = payment'.paymentId := by
  have htext := congrArg String.toList h
  rw [reference, reference, String.toList_ofList, String.toList_ofList] at htext
  have hlength (u v : UUID) : ('-' :: uuidText u).length = ('-' :: uuidText v).length := by
    rw [List.length_cons, List.length_cons, Logging.length_uuidText, Logging.length_uuidText]
  have hsuffix := List.append_inj_right' htext (hlength _ _)
  exact Logging.uuidText_inj hp hp' (List.cons.inj hsuffix).2

end ProviderMock

namespace Payments

open ProviderMock (Generator FaultConfig verdict)

variable {cfg : Processor.Settings} {generator : Generator} {mock : FaultConfig}
  {history : History cfg} {s₀ s : State cfg}

/-- Each post is answered by the mock, or fails on its way. -/
def postsTo (generator : Generator) (mock : FaultConfig) (l : Processor.Worker)
    (a : Processor.WorkerAction) : Prop :=
  match l.pc, a with
  | .processing _ payment, .callProvider _ _ http => ∀ n,
    http n = ProviderMock.answer generator mock payment ∨ http n = .timeout ∨
      http n = .transportError
  | _, _ => True

/-- Runs with the provider mock. -/
def withMock (generator : Generator) (mock : FaultConfig) : (payments cfg).Guard
  | .worker _, _, l, a => postsTo generator mock l a
  | _, _, _, _ => True

/-- A call with the mock ends with its verdict, or with an error. -/
theorem calls_withMock {l : Processor.Worker} {a : Processor.WorkerAction}
    (hposts : postsTo generator mock l a) {payment : Payment} {response : ProviderResponse}
    (hcall : l.calls a = some (payment, .ok response)) :
    verdict generator mock payment = .ok response := by
  unfold Processor.Worker.calls at hcall
  split at hcall
  · next event payment' started ended http pc =>
    obtain ⟨rfl, hok⟩ := Prod.mk.inj (Option.some.inj hcall)
    obtain ⟨n, hn⟩ := CallProviderCommand.execute_ok hok
    simp only [postsTo, pc] at hposts
    rcases hposts n with hanswer | hlost | hlost
    · rw [hanswer] at hn
      exact hn
    · rw [hlost] at hn
      cases hn
    · rw [hlost] at hn
      cases hn
  · cases hcall

theorem postsTo_of_calls {l : Processor.Worker} {started ended : Instant} {http : Nat → HttpOutcome}
    {payment : Payment} {outcome : Except CallError ProviderResponse}
    (hcall : l.calls (.callProvider started ended http) = some (payment, outcome))
    (hhttp : ∀ n, http n = ProviderMock.answer generator mock payment ∨ http n = .timeout ∨
      http n = .transportError) : postsTo generator mock l (.callProvider started ended http) := by
  unfold Processor.Worker.calls at hcall
  split at hcall
  · next hpc _ =>
    obtain ⟨rfl, -⟩ := Prod.mk.inj (Option.some.inj hcall)
    unfold postsTo
    rw [hpc]
    exact hhttp
  · cases hcall

/-- Every response in a run with the mock is the verdict on its payment. -/
theorem verdict_of_mem_providerCalls
    (hrun : (payments cfg).Runs (withMock generator mock).condition s₀ history s)
    {payment : Payment} {response : ProviderResponse}
    (hcall : (payment, .ok response) ∈ providerCalls history) :
    verdict generator mock payment = .ok response := by
  refine hrun.invariant (I := fun history _ => ∀ payment response,
    (payment, .ok response) ∈ providerCalls history → verdict generator mock payment = .ok response)
    (fun {history s s' i a} hi hguard _ payment response hmem => ?_)
    (fun payment response hmem => by cases hmem) payment response hcall
  rcases mem_providerCalls_cons.1 hmem with hnew | hold
  · cases i with
    | worker n => exact calls_withMock hguard hnew
    | review | create | environment => cases hnew
  · exact hi payment response hold

/-- A payment that has been posted has the verdict of its row. -/
theorem verdict_row (h : Backed history s) {payment row : Payment}
    {outcome : Except CallError ProviderResponse} {p : UUID}
    (hcall : (payment, outcome) ∈ providerCalls history) (hp : payment.paymentId = p)
    (hrow : s.world.payments.committed p = some row) :
    verdict generator mock row = verdict generator mock payment := by
  obtain ⟨row', hrow', hsame⟩ := h.row hcall
  cases (hp ▸ hrow').symm.trans hrow
  exact (ProviderMock.verdict_congr hsame).symm

/-- A confirmation is announced with what the mock has answered for the payment. -/
theorem announced_verdict (h : Backed history s)
    (hrun : (payments cfg).Runs (withMock generator mock).condition s₀ history s) {p k : UUID}
    {e : OutboxEvent} (he : s.world.IsEvent p .paymentConfirmed k e) : ∃ row,
      s.world.payments.committed p = some row ∧ e.payload = .paymentConfirmed p row.merchantId
        (providerNameForMethod row.method) (ProviderMock.reference row) := by
  obtain ⟨hrow, rfl, htype⟩ := he
  obtain ⟨event, payment, outcome, f, hcall, hp, hsettle, hf, hpayload⟩ :=
    h.emitted k e hrow (.inl htype)
  obtain ⟨response, rfl, -, rfl⟩ := Processor.settlement_confirmed hsettle
    (Processor.Finalization.outcome_of_eventType (o := .confirmed) (hf.trans htype))
  obtain ⟨row, hpayment, hsame⟩ := h.row hcall
  have hmerchant : payment.merchantId = row.merchantId := congrArg ProviderRequest.merchantId hsame
  obtain ⟨hprovider, hreference⟩ := ProviderMock.verdict_ok
    ((ProviderMock.verdict_congr hsame).symm.trans (verdict_of_mem_providerCalls hrun hcall))
  refine ⟨row, hp ▸ hpayment, ?_⟩
  rw [← hpayload, ← hp, ← hmerchant, ← hprovider, ← hreference]
  rfl

/-- What the verdicts of the mock say about the payments of a run. -/
structure VerdictsHold (generator : Generator) (mock : FaultConfig) (history : History cfg)
    (s : State cfg) : Prop where
  /-- every response for a payment is the verdict on its row -/
  answers : ∀ payment response, (payment, .ok response) ∈ providerCalls history → ∃ row,
    s.world.payments.committed payment.paymentId = some row ∧
      verdict generator mock payment = verdict generator mock row ∧
      verdict generator mock row = .ok response
  confirmed : ∀ p row, s.world.payments.committed p = some row → row.status = .confirmed →
    ∃ response, verdict generator mock row = .ok response ∧ response.Confirms
  /-- a payment fails by its verdict, or by a call that got none -/
  failed : ∀ p row, s.world.payments.committed p = some row → row.status = .failed →
    (∃ response, verdict generator mock row = .ok response ∧ ¬ response.Confirms) ∨
      ∃ payment error, (payment, .error error) ∈ providerCalls history ∧ payment.paymentId = p
  announced : ∀ p k e, s.world.IsEvent p .paymentConfirmed k e → ∃ row,
    s.world.payments.committed p = some row ∧ e.payload = .paymentConfirmed p row.merchantId
      (providerNameForMethod row.method) (ProviderMock.reference row)
  unique : ∀ p p' k k' e e' merchantId merchantId' provider provider' providerReference,
    p < 2 ^ 128 → p' < 2 ^ 128 → s.world.IsEvent p .paymentConfirmed k e →
    s.world.IsEvent p' .paymentConfirmed k' e' →
    e.payload = .paymentConfirmed p merchantId provider providerReference →
    e'.payload = .paymentConfirmed p' merchantId' provider' providerReference → p = p'

/-- With the mock, whose posts may get lost: every payment has one verdict, which no retry changes
and no worker gets otherwise, and confirmations name their payment and no other. -/
theorem verdicts_hold (h₀ : Initial s₀)
    (hrun : (payments cfg).Runs (withMock generator mock).condition s₀ history s) :
    VerdictsHold generator mock history s := by
  have h := Backed.of_runs h₀ hrun
  refine ⟨fun payment response hcall => ?_, fun p row hrow hs => ?_, fun p row hrow hs => ?_,
    fun p k e => announced_verdict h hrun, ?_⟩
  · obtain ⟨row, hrow, -⟩ := h.row hcall
    have hsame : verdict generator mock row = verdict generator mock payment :=
      verdict_row h hcall rfl hrow
    exact ⟨row, hrow, hsame.symm, hsame.trans (verdict_of_mem_providerCalls hrun hcall)⟩
  · obtain ⟨event, payment, outcome, f, hcall, hp, hsettle, hf⟩ :=
      h.finished p .confirmed (by rw [World.status, hrow, Option.map_some, hs]; rfl)
    obtain ⟨response, rfl, hconfirms, -⟩ := Processor.settlement_confirmed hsettle hf
    exact ⟨response, (verdict_row h hcall hp hrow).trans (verdict_of_mem_providerCalls hrun hcall),
      hconfirms⟩
  · obtain ⟨event, payment, outcome, f, hcall, hp, hsettle, hf⟩ :=
      h.finished p .failed (by rw [World.status, hrow, Option.map_some, hs]; rfl)
    cases outcome with
    | error error => exact .inr ⟨payment, error, hcall, hp⟩
    | ok response =>
      cases f with
      | confirm => cases hf
      | fail =>
        exact .inl ⟨response,
          (verdict_row h hcall hp hrow).trans (verdict_of_mem_providerCalls hrun hcall),
          (Processor.settlement_failed hsettle).1 response rfl⟩
  · intro p p' k k' e e' _ _ _ _ providerReference hp hp' he he' hpayload hpayload'
    obtain ⟨row, hrow, hevent⟩ := announced_verdict h hrun he
    obtain ⟨row', hrow', hevent'⟩ := announced_verdict h hrun he'
    obtain ⟨-, -, -, hreference⟩ := EventPayload.paymentConfirmed.inj (hpayload.symm.trans hevent)
    obtain ⟨-, -, -, hreference'⟩ :=
      EventPayload.paymentConfirmed.inj (hpayload'.symm.trans hevent')
    have hkey := h.integrity.wf.payments.committed_key hrow
    have hkey' := h.integrity.wf.payments.committed_key hrow'
    rw [← hkey, ← hkey']
    refine ProviderMock.reference_inj ?_ ?_ (hreference.symm.trans hreference')
    · rw [hkey]
      exact hp
    · rw [hkey']
      exact hp'

/-- A mock without faults. -/
def faultless : FaultConfig where
  seed := 42
  baseLatencyMs := 120
  latencySpikeMs := 1800
  timeoutMs := 2500
  fault5xxRate := 0
  timeoutRate := 0
  latencySpikeRate := 0
  duplicateRate := 0
  partialFailureRate := 0

/-- No post. -/
def postsNothing (a : Processor.WorkerAction) : Bool :=
  match a with
  | .callProvider .. => false
  | _ => true

theorem postsTo_of_postsNothing {l : Processor.Worker} {a : Processor.WorkerAction}
    (h : postsNothing a = true) : postsTo generator mock l a := by
  unfold postsTo
  split
  · cases h
  · trivial

/-- A check of schedules without posts. -/
def withoutPosts : (i : Session) → World → (payments cfg).Local i → (payments cfg).Act i → Bool
  | .worker _, _, _, a => postsNothing a
  | _, _, _, _ => true

theorem withMock_of_withoutPosts (i : Session) (w : World) (l : (payments cfg).Local i)
    (a : (payments cfg).Act i) (h : withoutPosts i w l a = true) :
    withMock generator mock i w l a := by
  cases i with
  | worker n => exact postsTo_of_postsNothing h
  | review | create | environment => trivial

set_option maxRecDepth 10000 in
/-- The first post for payment 1 gets lost, and the second one confirms it. -/
theorem verdicts_hold_lost : ∃ (s : State sampleSettings) (history : History sampleSettings),
    s.world.status 1 = some .confirmed ∧
      VerdictsHold (fun _ _ => 0) faultless history s := by
  let response : ProviderResponse :=
    { providerReference := "pix-00000000-0000-0000-0000-000000000001"
      confirmed := true
      provider := "pix-provider"
      duplicate := false
      partialFailure := false }
  let http (n : Nat) : HttpOutcome := if n = 1 then .timeout else .response 200 (some response)
  let before : List (Σ i, (payments sampleSettings).Act i) :=
    fetchedTwice ++ [⟨.worker 0, Processor.WorkerAction.getById⟩,
      ⟨.worker 0, Processor.WorkerAction.markProcessing⟩]
  let call : (payments sampleSettings).Act (.worker 0) :=
    Processor.WorkerAction.callProvider 0 0 http
  have hrun : (System.State.trace withoutPosts before [] sample).bind (fun before =>
      (before.2.step (.worker 0) call).bind fun s =>
        (System.State.trace withoutPosts (settle 0 20 0)
            (⟨.worker 0, before.2.world, before.2.proc (.worker 0), call⟩ :: before.1) s).map
          fun after => (((worker before.2 0).calls call).map
            (fun c => ProviderMock.answer (fun _ _ => 0) faultless c.1), after.2.world.status 1)) =
      some (some (.response 200 (some response)), some .confirmed) := by
    decide
  obtain ⟨⟨h₁, s₁⟩, hbefore, hrest⟩ := Option.bind_eq_some_iff.1 hrun
  obtain ⟨s₂, hstep, hrest⟩ := Option.bind_eq_some_iff.1 hrest
  obtain ⟨⟨history, s⟩, hafter, heq⟩ := Option.map_eq_some_iff.1 hrest
  obtain ⟨hanswer, hstatus⟩ := Prod.mk.inj heq
  obtain ⟨⟨payment, outcome⟩, hcall, hanswer⟩ := Option.map_eq_some_iff.1 hanswer
  have hposts : postsTo (fun _ _ => 0) faultless (worker s₁ 0) call := by
    refine postsTo_of_calls hcall fun n => ?_
    by_cases hn : n = 1
    · exact .inr (.inl (if_pos hn))
    · exact .inl ((if_neg hn).trans hanswer.symm)
  exact ⟨s, history, hstatus, verdicts_hold (fresh_initial _ _ _) (System.Runs.of_trace
    withMock_of_withoutPosts hafter (.step (System.Runs.of_trace withMock_of_withoutPosts hbefore
      .refl) hposts hstep))⟩

end Payments

end PaymentsLab
