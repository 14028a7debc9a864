import PaymentsLab.Api.AtomicCreation
import PaymentsLab.Api.ReviewProgram
import PaymentsLab.Foundation.Faults

/-!
# What a use case reports of its transaction

Attempts of the three use cases that write payments, in which any statement of the database may
raise and any Redis command may end in a `RedisError`. After its commit, a use case has one more
statement: the count of the review queue. Where that statement is answered, the use case reports
what it has committed (`reports_commit_iff`).
-/

namespace PaymentsLab

open Foundation Program

namespace Create

/-- The statements of the database; the transaction begins with the first of them. -/
def IsStatement : ApiCommand → Prop
  | .redis _ => False
  | .now => False
  | .newUuid => False
  | .begin => False
  | _ => True

/-- The surroundings of a run: what its commands are answered, and which statements raise. -/
structure Environment where
  answers : Answers ApiCommand ApiReply
  raises : ∀ h c, answers h c = none → IsStatement c

abbrev ApiHistory : Type :=
  History ApiCommand ApiReply

/-- The transaction has been committed. -/
def Committed (h : ApiHistory) : Prop :=
  ∃ payment event record, (⟨.commit payment event record, true⟩ : Σ c, ApiReply c) ∈ h

/-- The attempt has come to its write transaction. -/
def Reached (t : Attempt ApiCommand ApiReply ApiException PaymentAcceptedResponse) : Prop :=
  (∃ x ∈ t.history, x.1.IsCommit) ∨ ∃ c, t.ending = .failed c ∧ c.IsCommit

/-- The transaction has ended in an `IntegrityError`. -/
def Conflicted (h : ApiHistory) : Prop :=
  ∃ payment event record, (⟨.commit payment event record, false⟩ : Σ c, ApiReply c) ∈ h

theorem conflicted_of_not_committed {h : ApiHistory} (hcommit : ∃ x ∈ h, x.1.IsCommit)
    (hnot : ¬ Committed h) : Conflicted h := by
  obtain ⟨⟨c, reply⟩, hmem, hc⟩ := hcommit
  cases c with
  | commit payment event record =>
    cases reply with
    | true => exact absurd ⟨payment, event, record, hmem⟩ hnot
    | false => exact ⟨payment, event, record, hmem⟩
  | _ => exact hc.elim

abbrev NoCommit (h : ApiHistory) : Prop :=
  ∀ x ∈ h, ¬ x.1.IsCommit

theorem NoCommit.not_committed {h : ApiHistory} (hh : NoCommit h) : ¬ Committed h :=
  fun ⟨_, _, _, hmem⟩ => hh _ hmem trivial

theorem NoCommit.not_conflicted {h : ApiHistory} (hh : NoCommit h) : ¬ Conflicted h :=
  fun ⟨_, _, _, hmem⟩ => hh _ hmem trivial

namespace Run

variable (cfg : ApiSettings) (r : Run)

/-- A reply with the snapshot or the payment of the run's scope. -/
inductive Finds : (Σ c, ApiReply c) → Prop
  | snapshot (record : IdempotencyRecord) :
    Finds ⟨.getSnapshot r.context.merchantId r.context.idempotencyKey, some record⟩
  | payment (payment : Payment) :
    Finds ⟨.getByMerchantAndIdempotency r.context.merchantId r.context.idempotencyKey,
      some payment⟩

/-- The run has lost to a payment of its scope: its commit has ended in an `IntegrityError`, and
then it has found the other payment. -/
def Lost (h : ApiHistory) : Prop :=
  ∃ later earlier payment event record,
    h = later ++ (⟨.commit payment event record, false⟩ : Σ c, ApiReply c) :: earlier ∧
      ∃ x ∈ later, r.Finds x

/-- A run that has come to its write transaction reports success if it has committed, and only then
or if it has lost to another payment. -/
structure Reports (t : Attempt ApiCommand ApiReply ApiException PaymentAcceptedResponse) :
    Prop where
  committed : Committed t.history → ∃ response, t.ending = .returned response
  uncommitted : Reached t → ¬ Committed t.history →
    ∀ response, t.ending = .returned response → r.Lost t.history

/-- The same of an outcome. -/
def ReportsOutcome (h : ApiHistory) (o : Except ApiException PaymentAcceptedResponse) : Prop :=
  (Committed h → ∃ response, o = .ok response) ∧
    ∀ response, o = .ok response → Conflicted h → ¬ Committed h → r.Lost h

theorem reportsOutcome_of_noCommit {h : ApiHistory} (hh : NoCommit h)
    (o : Except ApiException PaymentAcceptedResponse) : r.ReportsOutcome h o :=
  ⟨fun hc => absurd hc hh.not_committed, fun _ _ hc => absurd hc hh.not_conflicted⟩

/-- After a commit, a statement is the count of the review queue. -/
def CountsAfterCommit (h : ApiHistory) (c : ApiCommand) : Prop :=
  Committed h → IsStatement c → c = .countInReview

variable {r}

/-- What comes before the transaction. -/
theorem obeys_bind_of_noCommit {admits : (c : ApiCommand) → ApiReply c → Prop} {α : Type}
    {p : ApiProgram α} {f : α → ApiProgram PaymentAcceptedResponse} {h : ApiHistory}
    (hp : p.Issues fun c => ¬ c.IsCommit) (hh : NoCommit h)
    (hf : ∀ a h, NoCommit h → (f a).Obeys admits CountsAfterCommit r.ReportsOutcome h) :
    (p >>= f).Obeys admits CountsAfterCommit r.ReportsOutcome h := by
  have hbefore : p.Obeys admits CountsAfterCommit (fun h _ => NoCommit h) h :=
    hp.obeys_only (fun h c hh _ hc => absurd hc (NoCommit.not_committed hh)) hh
  refine obeys_bind.2 (hbefore.mono (fun _ _ => id) fun h o hh => ?_)
  cases o with
  | ok a => exact hf a h hh
  | error e => exact r.reportsOutcome_of_noCommit hh _

variable (r)

/-- After an `IntegrityError`. -/
theorem resolveReplayedAfterConflict_reports {admits : (c : ApiCommand) → ApiReply c → Prop}
    {payment : Payment} {event : Option OutboxEvent} {record : IdempotencyRecord} {h : ApiHistory}
    (hh : NoCommit h) :
    r.resolveReplayedAfterConflict.Obeys admits CountsAfterCommit r.ReportsOutcome
      ((⟨.commit payment event record, false⟩ : Σ c, ApiReply c) :: h) := by
  have hnever (later : ApiHistory) (hlater : NoCommit later) :
      ¬ Committed (later ++ (⟨.commit payment event record, false⟩ : Σ c, ApiReply c) :: h) := by
    rintro ⟨_, _, _, hmem⟩
    rcases List.mem_append.1 hmem with hmem | hmem
    · exact hlater _ hmem trivial
    · rcases List.mem_cons.1 hmem with heq | hmem
      · cases heq
      · exact hh _ hmem trivial
  have hnone : NoCommit [] := fun _ hmem => absurd hmem List.not_mem_nil
  refine obeys_bind.2 (obeys_bind.2 ⟨fun hc => absurd hc (hnever [] hnone), fun snapshot _ => ?_⟩)
  have hone := hnever [⟨.getSnapshot r.context.merchantId r.context.idempotencyKey, snapshot⟩]
    (List.forall_mem_cons.2 ⟨id, hnone⟩)
  cases snapshot with
  | some record' =>
    refine ⟨fun hc => absurd hc hone, fun _ _ _ _ => ?_⟩
    exact ⟨[_], h, payment, event, record, rfl, _, List.mem_cons_self, .snapshot record'⟩
  | none =>
    refine obeys_bind.2 (obeys_bind.2 ⟨fun hc => absurd hc hone, fun existing _ => ?_⟩)
    have htwo := hnever [⟨.getByMerchantAndIdempotency r.context.merchantId
      r.context.idempotencyKey, existing⟩,
      ⟨.getSnapshot r.context.merchantId r.context.idempotencyKey, none⟩]
      (List.forall_mem_cons.2 ⟨id, List.forall_mem_cons.2 ⟨id, hnone⟩⟩)
    cases existing with
    | some payment' =>
      refine ⟨fun hc => absurd hc htwo, fun _ _ _ _ => ?_⟩
      exact ⟨[_, _], h, payment, event, record, rfl, _, List.mem_cons_self, .payment payment'⟩
    | none => exact ⟨fun hc => absurd hc htwo, nofun⟩

/-- The transaction, and what follows it. -/
theorem persistAndObserve_reports {admits : (c : ApiCommand) → ApiReply c → Prop}
    (startedAt : Instant) (decision : ControlDecision) {h : ApiHistory} (hh : NoCommit h) :
    (r.persistAndObserve cfg startedAt decision).Obeys admits CountsAfterCommit r.ReportsOutcome
      h := by
  refine obeys_bind_of_noCommit (issues_issue (c := ApiCommand.newUuid) id) hh
    fun paymentId h hh => ?_
  refine obeys_bind_of_noCommit (issues_issue (c := ApiCommand.newUuid) id) hh
    fun eventId h hh => ?_
  refine obeys_bind_of_noCommit (issues_issue (c := ApiCommand.now) id) hh fun t h hh => ?_
  refine obeys_bind.2 ⟨fun hc => absurd hc hh.not_committed, fun committed _ => ?_⟩
  cases committed with
  | true =>
    let response := r.acceptedResponse paymentId decision
    let hit : Σ c, ApiReply c := ⟨.commit (r.paymentRow decision response startedAt)
      (r.insertedEvent response eventId startedAt t) (r.idempotencyRecord response), true⟩
    have hobserve : (r.afterCommitObservability cfg response).Obeys admits CountsAfterCommit
        (fun _ o => o = .ok ()) (hit :: h) :=
      r.afterCommitObservability_obeys cfg (fun _ _ _ hstatement => hstatement.elim)
        (fun _ _ hstatement => hstatement.elim) (fun _ _ _ => rfl) response _
    refine obeys_bind.2 ((hobserve.keep (List.mem_cons_self (a := hit))).mono (fun _ _ => id) ?_)
    rintro h _ ⟨rfl, hmem⟩
    exact ⟨fun _ => ⟨response, rfl⟩, fun _ _ _ hnot => absurd ⟨_, _, _, hmem⟩ hnot⟩
  | false => exact r.resolveReplayedAfterConflict_reports hh

/-- Whatever the replies are, the outcome says what has become of the transaction. -/
theorem execute_reports {admits : (c : ApiCommand) → ApiReply c → Prop} :
    (r.execute cfg).Obeys admits CountsAfterCommit r.ReportsOutcome [] := by
  have hnone {α : Type} {p : ApiProgram α} (hp : p.IsControl) :
      p.Issues fun c => ¬ c.IsCommit :=
    hp.mono fun _ hc => hc.not_isCommit
  have hnil : NoCommit [] := fun _ hmem => absurd hmem List.not_mem_nil
  refine obeys_bind_of_noCommit (issues_issue (c := ApiCommand.begin) id) hnil
    fun startedAt h hh => ?_
  refine obeys_bind_of_noCommit (hnone r.uses_tryReturnReplayedResponse.isControl) hh
    fun replayed h hh => ?_
  cases replayed with
  | some response => exact r.reportsOutcome_of_noCommit hh _
  | none =>
    refine obeys_bind_of_noCommit (IdempotencyService.not_isCommit_acquire cfg _ _) hh
      fun holds h hh => ?_
    cases holds with
    | true =>
      rw [if_pos rfl, createPaymentWithControls_eq]
      exact obeys_bind_of_noCommit (hnone (r.isControl_decided cfg)) hh fun decision h hh =>
        r.persistAndObserve_reports cfg startedAt decision hh
    | false =>
      have hpending : (r.resolvePending pollLimit).Obeys admits CountsAfterCommit
          (fun h _ => NoCommit h) h :=
        (hnone (r.uses_resolvePending pollLimit).isControl).obeys_only
          (fun h c hh _ hc => absurd hc (NoCommit.not_committed hh)) hh
      exact hpending.mono (fun _ _ => id) fun h o hh => r.reportsOutcome_of_noCommit hh o

/-- A run reports what has become of its transaction, unless it has committed and the count of the
review queue raises. -/
theorem execute_reports_iff (env : Environment) :
    r.Reports ((r.execute cfg).attempt env.answers []) ↔
      ∀ h, Committed h → (r.execute cfg).Asks env.answers [] h .countInReview →
        env.answers h .countInReview ≠ none := by
  have hobeys : (r.execute cfg).Obeys (fun _ _ => True) CountsAfterCommit r.ReportsOutcome [] :=
    r.execute_reports cfg
  obtain ⟨hcommitted, hlost⟩ := hobeys.attempt_returns_iff env.raises
  refine ⟨fun hreports => hcommitted.1 hreports.committed, fun hcount => ?_⟩
  refine ⟨hcommitted.2 hcount, fun hreached hnot response hresponse => ?_⟩
  refine hlost response hresponse (conflicted_of_not_committed ?_ hnot) hnot
  exact hreached.resolve_right fun ⟨_, hfailed, _⟩ => nomatch hresponse.symm.trans hfailed

end Run

end Create

/-! ## Reviews -/

namespace Review

/-- The statements of the database. -/
def IsStatement : ReviewCommand → Prop
  | .newUuid => False
  | .now => False
  | _ => True

/-- The surroundings of a review: what its commands are answered, and which statements raise. -/
structure Environment where
  answers : Answers ReviewCommand ReviewReply
  raises : ∀ h c, answers h c = none → IsStatement c

abbrev ReviewHistory : Type :=
  History ReviewCommand ReviewReply

/-- The transaction has been committed. -/
def Committed (h : ReviewHistory) : Prop :=
  ∃ event, (⟨.commit event, ()⟩ : Σ c, ReviewReply c) ∈ h

theorem not_committed_cons {h : ReviewHistory} {c : ReviewCommand} {reply : ReviewReply c}
    (hc : ∀ event, c ≠ .commit event) (hh : ¬ Committed h) : ¬ Committed (⟨c, reply⟩ :: h) := by
  rintro ⟨event, hmem⟩
  rcases List.mem_cons.1 hmem with heq | hmem
  · exact hc event (congrArg Sigma.fst heq).symm
  · exact hh ⟨event, hmem⟩

/-- A review reports success if it has committed, and only then. -/
structure Reports (t : Attempt ReviewCommand ReviewReply AppError PaymentAcceptedResponse) :
    Prop where
  committed : Committed t.history → ∃ response, t.ending = .returned response
  uncommitted : ∀ response, t.ending = .returned response → Committed t.history

/-- The same of an outcome. -/
def ReportsOutcome (h : ReviewHistory) (o : Except AppError PaymentAcceptedResponse) : Prop :=
  (Committed h → ∃ response, o = .ok response) ∧ ∀ response, o = .ok response → Committed h

/-- After a commit, a statement is the count of the review queue. -/
def CountsAfterCommit (h : ReviewHistory) (c : ReviewCommand) : Prop :=
  Committed h → IsStatement c → c = .countInReview

theorem reportsOutcome_error {h : ReviewHistory} (hh : ¬ Committed h) (e : AppError) :
    ReportsOutcome h (.error e) :=
  ⟨fun hc => absurd hc hh, nofun⟩

variable {admits : (c : ReviewCommand) → ReviewReply c → Prop} (c : Call)

theorem recordReviewQueueSize_reports (payment : Payment) {h : ReviewHistory} (hh : Committed h) :
    (c.recordReviewQueueSize payment).Obeys admits CountsAfterCommit ReportsOutcome h := by
  refine obeys_bind.2 ⟨fun _ _ => rfl, fun size _ => ⟨fun _ => ⟨_, rfl⟩, fun _ _ => ?_⟩⟩
  obtain ⟨event, hmem⟩ := hh
  exact ⟨event, List.mem_cons_of_mem _ hmem⟩

theorem commitDecision_reports (payment : Payment) {h : ReviewHistory} (hh : ¬ Committed h) :
    (c.commitDecision payment).Obeys admits CountsAfterCommit ReportsOutcome h := by
  unfold Call.commitDecision
  cases c.decision with
  | approve =>
    refine obeys_bind.2 ⟨fun hc => absurd hc hh, fun eventId _ => ?_⟩
    have huuid : ¬ Committed (⟨.newUuid, eventId⟩ :: h) := not_committed_cons nofun hh
    refine obeys_bind.2 ⟨fun hc => absurd hc huuid, fun t _ => ?_⟩
    have hnow : ¬ Committed (⟨.now, t⟩ :: ⟨.newUuid, eventId⟩ :: h) :=
      not_committed_cons nofun huuid
    refine obeys_bind.2 ⟨fun hc => absurd hc hnow, fun _ _ => ?_⟩
    exact recordReviewQueueSize_reports c payment ⟨_, List.mem_cons_self⟩
  | reject =>
    refine obeys_bind.2 ⟨fun hc => absurd hc hh, fun _ _ => ?_⟩
    exact recordReviewQueueSize_reports c payment ⟨_, List.mem_cons_self⟩

/-- Whatever the replies are, the outcome says what has become of the transaction. -/
theorem execute_reports : c.execute.Obeys admits CountsAfterCommit ReportsOutcome [] := by
  have hnil : ¬ Committed [] := fun ⟨_, hmem⟩ => absurd hmem List.not_mem_nil
  refine obeys_bind.2 ⟨fun hc => absurd hc hnil, fun payment _ => ?_⟩
  have hload : ¬ Committed [⟨.getByPaymentId c.paymentId, payment⟩] :=
    not_committed_cons nofun hnil
  cases payment with
  | none => exact reportsOutcome_error hload _
  | some payment =>
    change (if payment.status = .inReview then c.decidePayment payment
      else throw (.validation "Payment is not in review")).Obeys _ _ _ _
    by_cases hstatus : payment.status = .inReview
    · rw [if_pos hstatus]
      refine obeys_bind.2 ⟨fun hc => absurd hc hload, fun updated _ => ?_⟩
      exact commitDecision_reports c payment (not_committed_cons nofun hload)
    · rw [if_neg hstatus]
      exact reportsOutcome_error hload _

/-- A review reports what has become of its transaction, unless it has committed and the count of
the review queue raises. -/
theorem execute_reports_iff (env : Environment) :
    Reports (c.execute.attempt env.answers []) ↔
      ∀ h, Committed h → c.execute.Asks env.answers [] h .countInReview →
        env.answers h .countInReview ≠ none := by
  have hobeys : c.execute.Obeys (fun _ _ => True) CountsAfterCommit ReportsOutcome [] :=
    execute_reports c
  obtain ⟨hcommitted, hreturned⟩ := hobeys.attempt_returns_iff env.raises
  exact ⟨fun hreports => hcommitted.1 hreports.committed,
    fun hcount => ⟨hcommitted.2 hcount, hreturned⟩⟩

end Review

/-! ## The three use cases -/

/-- A use case that has come to its write transaction reports what has become of it, unless it has
committed and the count of the review queue raises. -/
theorem reports_commit_iff (cfg : ApiSettings) (r : Create.Run) (env : Create.Environment)
    (c : Review.Call) (env' : Review.Environment) :
    (r.Reports ((r.execute cfg).attempt env.answers []) ↔
        ∀ h, Create.Committed h → (r.execute cfg).Asks env.answers [] h .countInReview →
          env.answers h .countInReview ≠ none) ∧
      (Review.Reports (c.execute.attempt env'.answers []) ↔
        ∀ h, Review.Committed h → c.execute.Asks env'.answers [] h .countInReview →
          env'.answers h .countInReview ≠ none) :=
  ⟨r.execute_reports_iff cfg env, Review.execute_reports_iff c env'⟩

/-- Redis is down, and the count of the review queue raises. -/
def Create.sampleEnvironment : Create.Environment where
  answers _
    | .redis _ => some none
    | .now => some (0 : Int)
    | .newUuid => some (1 : Nat)
    | .begin => some (0 : Int)
    | .getSnapshot _ _ => some none
    | .getByMerchantAndIdempotency _ _ => some none
    | .getById _ => some (some ⟨"c", .full, .active, 0⟩)
    | .getByRail _ => some (some Create.Run.samplePolicy)
    | .sumOutgoingSince _ _ _ => some (0 : Decimal)
    | .countOutgoingSince _ _ _ => some (0 : Int)
    | .countNearThresholdSince _ _ _ _ _ => some (0 : Int)
    | .countFailuresSince _ _ => some (0 : Int)
    | .destinationSeen _ _ => some true
    | .countInReview => none
    | .commit _ _ _ => some true
  raises h c hnone := by
    cases c <;> trivial

/-- A payment in review, and the count of the review queue raises. -/
def Review.sampleEnvironment : Review.Environment where
  answers _
    | .getByPaymentId paymentId => some (some ⟨paymentId, "m", "c", "a", ⟨10000, -2⟩, "BRL", .pix,
        none, .inReview, "k", 60, .review, .allow, none, 0, 1⟩)
    | .updateStatus _ _ _ => some true
    | .newUuid => some (1 : Nat)
    | .now => some (0 : Int)
    | .commit _ => some ()
    | .countInReview => none
  raises h c hnone := by
    cases c <;> trivial

/-- Each of the use cases has committed, and ends with the error of the count. -/
theorem commit_unreported :
    (∃ h, (Create.Run.sampleRequest.execute .default).attempt Create.sampleEnvironment.answers [] =
        ⟨h, .failed .countInReview⟩ ∧ Create.Committed h) ∧
      ∀ decision, ∃ h, (Review.Call.mk decision 7 "t" none .start).execute.attempt
          Review.sampleEnvironment.answers [] = ⟨h, .failed .countInReview⟩ ∧
        Review.Committed h := by
  refine ⟨⟨_, rfl, ?_⟩, fun decision => ?_⟩
  · exact ⟨_, _, _, List.mem_cons_of_mem _ (List.mem_cons_of_mem _ List.mem_cons_self)⟩
  · cases decision with
    | approve => exact ⟨_, rfl, _, List.mem_cons_self⟩
    | reject => exact ⟨_, rfl, _, List.mem_cons_self⟩

end PaymentsLab
