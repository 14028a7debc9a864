import PaymentsLab.System.Refinement

/-!
# Creations in one idempotency scope

The scope of a payment is its merchant and idempotency key. The unique constraints on the scope
keep one payment row and one idempotency record for it, whatever the gate does, and every response
names that payment (`one_payment_per_scope`). Whether all responses are equal depends on what comes
between the two statements of a poll: an answer built from the payment row shows the current status
and the trace of the polling run (`replays_equal`).
-/

namespace PaymentsLab

open Foundation

/-- The payment row `p` is in the scope. -/
def World.HasRow (w : World) (p : UUID) (merchantId idempotencyKey : String) : Prop :=
  ∃ row, w.payments.committed p = some row ∧ row.merchantId = merchantId ∧
    row.idempotencyKey = idempotencyKey

/-- The record is in the scope. -/
def IdempotencyRecord.InScope (record : IdempotencyRecord) (merchantId idempotencyKey : String) :
    Prop :=
  record.merchantId = merchantId ∧ record.idempotencyKey = idempotencyKey

theorem IdempotencyRepository.getSnapshot_eq_some {w : World} {m k : String}
    {record : IdempotencyRecord} (h : getSnapshot w m k = some record) :
    record ∈ w.idempotency ∧ record.InScope m k := by
  refine ⟨List.mem_of_find?_eq_some h, ?_⟩
  simpa [IdempotencyRecord.InScope] using List.find?_some h

theorem IdempotencyRepository.getSnapshot_eq_none {w : World} {m k : String}
    (h : getSnapshot w m k = none) {record : IdempotencyRecord} (hr : record ∈ w.idempotency) :
    ¬ record.InScope m k := by
  simpa [IdempotencyRecord.InScope] using List.find?_eq_none.1 h record hr

theorem PaymentRepository.getByMerchantAndIdempotency_eq_some {w : World} (hw : w.WF) {m k : String}
    {row : Payment} (h : getByMerchantAndIdempotency w m k = some row) :
    w.payments.committed row.paymentId = some row ∧ row.merchantId = m ∧
      row.idempotencyKey = k := by
  obtain ⟨hscope, p, hp⟩ := RowStore.find?_rows h
  have hkey := hw.payments.committed_key hp
  simp only [Bool.decide_and, Bool.and_eq_true, decide_eq_true_eq] at hscope
  exact ⟨by rw [hkey, hp], hscope⟩

theorem PaymentRepository.getByMerchantAndIdempotency_eq_none {w : World} {m k : String}
    (h : getByMerchantAndIdempotency w m k = none) (p : UUID) : ¬ w.HasRow p m k := by
  rintro ⟨row, hrow, hm, hk⟩
  have hmem : row ∈ w.payments.rows := RowStore.mem_rows.2 ⟨p, hrow⟩
  have := List.find?_eq_none.1 h row hmem
  simp [hm, hk] at this

/-- Rows keep the columns no `UPDATE` sets, whoever moves. -/
theorem Statement.keepsRow {i : Session} {w w' : World} (h : Statement i w w') (hw : w.WF)
    {p : UUID} {row : Payment} (hrow : w.payments.committed p = some row) :
    ∃ row', w'.payments.committed p = some row' ∧ row'.identity = row.identity := by
  cases h with
  | outside | putEvent | rollback => exact ⟨row, by simpa using hrow, rfl⟩
  | putPayment => exact ⟨row, by simpa using hrow, rfl⟩
  | commit =>
    cases hwrite : w.payments.writes i p with
    | none => exact ⟨row, by simp [hwrite, hrow], rfl⟩
    | some row' => exact ⟨row', by simp [hwrite], hw.payments.writes_ident hwrite hrow⟩

theorem Statements.keepsRow {i : Session} {w w' : World} (h : Statements i w w') (hw : w.WF)
    {p : UUID} {row : Payment} (hrow : w.payments.committed p = some row) :
    ∃ row', w'.payments.committed p = some row' ∧ row'.identity = row.identity := by
  induction h with
  | nil => exact ⟨row, hrow, rfl⟩
  | cons first last ih =>
    obtain ⟨row₁, hrow₁, h₁⟩ := ih
    obtain ⟨row₂, hrow₂, h₂⟩ := last.keepsRow (first.wf hw) hrow₁
    exact ⟨row₂, hrow₂, h₂.trans h₁⟩

theorem Payment.scope_of_identity {row row' : Payment} (h : row'.identity = row.identity) :
    row'.merchantId = row.merchantId ∧ row'.idempotencyKey = row.idempotencyKey ∧
      row'.riskDecision = row.riskDecision ∧ row'.amlDecision = row.amlDecision := by
  refine ⟨?_, ?_, ?_, ?_⟩
  · simpa [identity] using congrArg Payment.merchantId h
  · simpa [identity] using congrArg Payment.idempotencyKey h
  · simpa [identity] using congrArg Payment.riskDecision h
  · simpa [identity] using congrArg Payment.amlDecision h

theorem Statements.hasRow {i : Session} {w w' : World} (h : Statements i w w') (hw : w.WF)
    {p : UUID} {m k : String} (hrow : w.HasRow p m k) : w'.HasRow p m k := by
  obtain ⟨row, hrow, rfl, rfl⟩ := hrow
  obtain ⟨row', hrow', hident⟩ := h.keepsRow hw hrow
  have hscope := Payment.scope_of_identity hident
  exact ⟨row', hrow', hscope.1, hscope.2.1⟩

/-! ## Who adds rows and records -/

theorem Processor.Next.idempotency {cfg : Settings} {t : Session} {w w' : World} {l l' : Worker}
    {a : WorkerAction} (h : Next cfg t w l a w' l') : w'.idempotency = w.idempotency := by
  cases h with
  | markedMissing pc mark | markedLost pc mark | marked pc mark | markedFanout pc mark =>
    obtain ⟨outbox, rfl⟩ := markEvent_tables mark
    rfl
  | finalized pc final run =>
    obtain ⟨payments, outbox, rfl⟩ := Finalization.run_tables run
    rfl
  | _ => rfl

theorem Review.Next.idempotency {t : Session} {w w' : World} {c c' : Call} {a : Action}
    (h : Next t w c a w' c') : w'.idempotency = w.idempotency := by
  induction h with
  | decided _ _ _ ih₁ ih₂ ih₃ => exact ih₃.trans (ih₂.trans ih₁)
  | _ => rfl

namespace Create

/-- The commit of a creation, written out. -/
structure Persists (w : World) (r : Run) (decision : ControlDecision)
    (response : PaymentAcceptedResponse) (now : Instant) (w' : World) : Prop where
  noRecord : ∀ record ∈ w.idempotency,
    ¬ record.InScope r.context.merchantId r.context.idempotencyKey
  noRow : ∀ p, ¬ w.HasRow p r.context.merchantId r.context.idempotencyKey
  idempotency : w'.idempotency = w.idempotency ++ [r.idempotencyRecord response]
  rows : ∀ p, w'.payments.committed p =
    if p = response.paymentId then some (r.paymentRow decision response now).inserted
    else w.payments.committed p

/-- A step of a creation commits its rows, or leaves records and payments alone. -/
theorem Run.Inv.persists_or {w w' : World} {t : Session} {r r' : Run} {a : Action}
    (h : Run.Inv w t r) (hn : Next t w r a w' r') :
    (∃ decision response now, r.pc = .persist decision response ∧
        r' = { r with pc := .committed response } ∧ Persists w r decision response now w') ∨
      w'.idempotency = w.idempotency ∧ w'.payments = w.payments ∧
        ∀ response, r'.pc ≠ .committed response := by
  cases hn with
  | replayed | unknown | polled | unresolved | answered | repolled | gaveUp | refused
  | controlled | conflicted | observed | crashed => exact .inr ⟨rfl, rfl, by simp⟩
  | @acquired reply pc =>
    obtain ⟨gate, hgate⟩ := r.acquire_fst w reply
    rw [hgate]
    refine .inr ⟨rfl, rfl, fun response => ?_⟩
    cases (r.acquire w reply).2 <;> simp
  | @persisted decision response eventId now w₁ pc free rows =>
    obtain ⟨-, -, -, rfl⟩ := insertRows_eq_some rows
    simp only [ScopeTaken, not_or, Option.not_isSome_iff_eq_none] at free
    refine .inl ⟨decision, response, now, pc, rfl, fun record hrecord => ?_, fun p => ?_, rfl,
      fun p => ?_⟩
    · exact IdempotencyRepository.getSnapshot_eq_none free.1 hrecord
    · exact PaymentRepository.getByMerchantAndIdempotency_eq_none free.2 p
    · by_cases hp : p = response.paymentId
      · subst hp
        simp
      · simp [h.clean.payments, hp]

/-- No creation in the run's scope has committed since the run has looked for the snapshot in vain.
-/
def Run.StillUnrecorded (r : Run) (w : World) : Prop :=
  r.snapshot w = none

instance Run.StillUnrecorded.decidable (r : Run) (w : World) : Decidable (r.StillUnrecorded w) :=
  inferInstanceAs (Decidable (r.snapshot w = none))

end Create

/-- Where any two entries exclude each other, there is one at most. -/
theorem length_le_one_of_pairwise {α : Type _} {R : α → α → Prop} {xs : List α}
    (h : xs.Pairwise R) (hR : ∀ x ∈ xs, ∀ y ∈ xs, ¬ R x y) : xs.length ≤ 1 := by
  match xs, h with
  | [], _ => exact Nat.zero_le 1
  | [_], _ => exact Nat.le_refl 1
  | x :: y :: _, h =>
    exact absurd ((List.pairwise_cons.1 h).1 y (by simp)) (hR x (by simp) y (by simp))

namespace Payments

variable {cfg : Processor.Settings} {s s' : State cfg}

/-- Records and payment rows come from creations. -/
theorem Integrity.persists_or (h : Integrity s) {i : Session} {a : i.Act}
    (hstep : s.step i a = some s') :
    (∃ n decision response now, i = .create n ∧ (create s n).pc = .persist decision response ∧
        (create s' n).pc = .committed response ∧
        Create.Persists s.world (create s n) decision response now s'.world) ∨
      s'.world.idempotency = s.world.idempotency ∧
        (∀ p, (s'.world.payments.committed p).isSome → (s.world.payments.committed p).isSome) ∧
        ∀ n response, i = .create n → (create s' n).pc ≠ .committed response := by
  have hown := System.State.step_self hstep
  have hstatus (w : World) (p : UUID) :
      (w.payments.committed p).isSome = (w.ledger.status p).isSome := by
    simp [World.status]
  have hold {m : Ledger.Move} (hadm : s.world.ledger.Admissible m)
      (hledger : s'.world.ledger = s.world.ledger.apply m)
      (hassigned : ∀ p st, m.assigned = some (p, st) → (s.world.ledger.status p).isSome) (p : UUID)
      (hp : (s'.world.payments.committed p).isSome) : (s.world.payments.committed p).isSome := by
    rw [hstatus] at hp ⊢
    rcases s.world.ledger.status_apply m p with ⟨hsame, -⟩ | ⟨st, hst, -⟩
    · rwa [hledger, hsame] at hp
    · exact hassigned p st hst
  obtain ⟨m, hm, hadm, hledger⟩ := h.moves hstep
  cases i with
  | worker n =>
    refine .inr ⟨(Processor.Worker.next_of_step hown).idempotency, hold hadm hledger ?_,
      fun _ _ hi => by cases hi⟩
    intro p st hst
    cases hm with
    | retry =>
      cases hst
      exact h.wf.status_isSome hadm
    | settle =>
      cases hst
      exact h.wf.status_isSome hadm.1
    | _ => cases hst
  | review n =>
    refine .inr ⟨(Review.Call.next_of_step hown).idempotency, hold hadm hledger ?_,
      fun _ _ hi => by cases hi⟩
    intro p st hst
    cases hm with
    | approve =>
      cases hst
      exact hadm.1
    | reject =>
      cases hst
      exact hadm
    | skip => cases hst
  | create n =>
    have hnext := Create.Run.next_of_step hown
    rcases Create.Run.Inv.persists_or (h.inv (.create n)) hnext with
      ⟨decision, response, now, pc, hr', hpersists⟩ | ⟨hi, hp, hpc⟩
    · refine .inl ⟨n, decision, response, now, rfl, pc, ?_, hpersists⟩
      exact congrArg Create.Run.pc hr'
    · refine .inr ⟨hi, fun p => by rw [hp]; exact id, fun n' response hn' => ?_⟩
      cases hn'
      exact hpc response
  | environment =>
    cases a with
    | expireGate key =>
      obtain ⟨w', l', he, rfl⟩ := System.State.step_eq_some.1 hstep
      cases he
      exact .inr ⟨rfl, fun _ => id, fun _ _ hi => by cases hi⟩

theorem same_run {i : Session} {a : i.Act} (hstep : s.step i a = some s') (n : Nat) :
    (create s' n).context = (create s n).context ∧
      (create s' n).traceId = (create s n).traceId := by
  by_cases hi : Session.create n = i
  · subst hi
    exact (Create.Run.next_of_step (System.State.step_self hstep)).same_run
  · have hproc : create s' n = create s n := System.State.step_proc_ne hstep hi
    rw [hproc]
    exact ⟨rfl, rfl⟩

end Payments

/-! ## One payment per scope -/

/-- A payment has at most one event. -/
def Ledger.OneEvent (L : Ledger) : Prop :=
  ∀ ⦃p k k' type type'⦄, L.kind k = some (p, type) → L.kind k' = some (p, type') → k = k'

/-- Creations give every payment one event. -/
theorem Ledger.OneEvent.apply {L : Ledger} {m : Move} (h : L.OneEvent) (ha : L.Admissible m)
    (hm : ∀ k p type, m.added = some (k, p, type) → ∃ s, m = .createWith p s k type) :
    (L.apply m).OneEvent := by
  intro p k k' type type' hk hk'
  rcases L.kind_apply m k with ⟨hsame, -⟩ | ⟨e, hadded, hnew⟩
  · rcases L.kind_apply m k' with ⟨hsame', -⟩ | ⟨e', hadded', hnew'⟩
    · exact h (hsame ▸ hk) (hsame' ▸ hk')
    · cases hnew'.symm.trans hk'
      obtain ⟨s, rfl⟩ := hm _ _ _ hadded'
      exact absurd (hsame ▸ hk) (ha.2.1 k type)
  · cases hnew.symm.trans hk
    rcases L.kind_apply m k' with ⟨hsame', -⟩ | ⟨e', hadded', hnew'⟩
    · obtain ⟨s, rfl⟩ := hm _ _ _ hadded
      exact absurd (hsame' ▸ hk') (ha.2.1 k' type')
    · rw [hadded'] at hadded
      exact ((Prod.mk.inj (Option.some.inj hadded)).1).symm

namespace Payments

variable {cfg : Processor.Settings} {s s' : State cfg}

/-- The payment row `p` is in the scope of creation `n`. -/
def HasRowOf (s : State cfg) (n : Nat) (p : UUID) : Prop :=
  s.world.HasRow p (create s n).context.merchantId (create s n).context.idempotencyKey

/-- What creations maintain, whatever else goes on. -/
structure Scopes (s : State cfg) : Prop where
  integrity : Integrity s
  recorded : ∀ record ∈ s.world.idempotency,
    record.responsePayload.paymentId = record.paymentId ∧
      ∃ row, s.world.payments.committed record.paymentId = some row ∧
        row.merchantId = record.merchantId ∧ row.idempotencyKey = record.idempotencyKey ∧
        row.riskDecision = record.responsePayload.riskDecision ∧
        row.amlDecision = record.responsePayload.amlDecision
  rowRecorded : ∀ p m k, s.world.HasRow p m k → ∃ record ∈ s.world.idempotency, record.InScope m k
  oneRecord : s.world.idempotency.Pairwise fun record record' =>
    ¬ record'.InScope record.merchantId record.idempotencyKey
  oneRow : ∀ p p' m k, s.world.HasRow p m k → s.world.HasRow p' m k → p = p'
  answered : ∀ n response, (create s n).pc.answer = some response →
    HasRowOf s n response.paymentId

namespace Scopes

theorem initial (h : Initial s) : Scopes s where
  integrity := .initial h
  recorded := by
    rw [h.world]
    simp [World.empty]
  rowRecorded p m k := by
    rw [h.world]
    rintro ⟨row, hrow, -⟩
    cases hrow
  oneRecord := by
    rw [h.world]
    exact .nil
  oneRow p p' m k := by
    rw [h.world]
    rintro ⟨row, hrow, -⟩
    cases hrow
  answered n response hn := by
    have hpc : (create s n).pc = .start := h.create n
    simp [hpc, Create.Pc.answer] at hn

/-- A scope has one record. -/
theorem record_unique (h : Scopes s) {record record' : IdempotencyRecord} {m k : String}
    (hrecord : record ∈ s.world.idempotency) (hrecord' : record' ∈ s.world.idempotency)
    (hscope : record.InScope m k) (hscope' : record'.InScope m k) : record = record' := by
  let R (x y : IdempotencyRecord) : Prop :=
    x.merchantId = y.merchantId → x.idempotencyKey = y.idempotencyKey → x = y
  have hR : ∀ ⦃x⦄, x ∈ s.world.idempotency → ∀ ⦃y⦄, y ∈ s.world.idempotency → R x y := by
    refine List.Pairwise.forall_of_forall_of_flip (fun _ _ _ _ => rfl) ?_ ?_
    · exact h.oneRecord.imp fun hnot hm hk => absurd ⟨hm.symm, hk.symm⟩ hnot
    · exact h.oneRecord.imp fun hnot hm hk => absurd ⟨hm, hk⟩ hnot
  exact hR hrecord hrecord' (hscope.1.trans hscope'.1.symm) (hscope.2.trans hscope'.2.symm)

/-- A row after a step was there before, unless a creation has just added it. -/
theorem hasRow_before (h : Scopes s) {i : Session} {a : i.Act} (hstep : s.step i a = some s')
    {p : UUID} (hp : (s.world.payments.committed p).isSome) {m k : String}
    (hrow : s'.world.HasRow p m k) : s.world.HasRow p m k := by
  obtain ⟨row, hrow₀⟩ := Option.isSome_iff_exists.1 hp
  obtain ⟨row', hrow', hident⟩ := (h.integrity.next hstep).1.keepsRow h.integrity.wf hrow₀
  obtain ⟨row'', hrow'', rfl, rfl⟩ := hrow
  cases hrow'.symm.trans hrow''
  have hscope := Payment.scope_of_identity hident
  exact ⟨row, hrow₀, hscope.1.symm, hscope.2.1.symm⟩

/-- Rows after the commit of a creation: its own row, and the rows from before. -/
theorem hasRow_persisted {w w' : World} {r : Create.Run} {decision : Create.ControlDecision}
    {response : PaymentAcceptedResponse} {now : Instant}
    (h : Create.Persists w r decision response now w') {p : UUID} {m k : String}
    (hrow : w'.HasRow p m k) :
    p = response.paymentId ∧ m = r.context.merchantId ∧ k = r.context.idempotencyKey ∨
      w.HasRow p m k := by
  obtain ⟨row, hrow, hm, hk⟩ := hrow
  rw [h.rows] at hrow
  split at hrow
  · next hp =>
    cases hrow
    exact .inl ⟨hp, hm.symm, hk.symm⟩
  · exact .inr ⟨row, hrow, hm, hk⟩

theorem hasRow_new {w w' : World} {r : Create.Run} {decision : Create.ControlDecision}
    {response : PaymentAcceptedResponse} {now : Instant}
    (h : Create.Persists w r decision response now w') :
    w'.HasRow response.paymentId r.context.merchantId r.context.idempotencyKey :=
  ⟨(r.paymentRow decision response now).inserted, by rw [h.rows, if_pos rfl], rfl, rfl⟩

/-- A response after a step is one from before, a snapshot, a payment row or a new payment. -/
theorem answered_next (h : Scopes s) {i : Session} {a : i.Act} (hstep : s.step i a = some s')
    {n : Nat} {response : PaymentAcceptedResponse}
    (hn : (create s' n).pc.answer = some response) : HasRowOf s' n response.paymentId := by
  have hnext := h.integrity.next hstep
  unfold HasRowOf
  rw [(same_run hstep n).1]
  by_cases hi : Session.create n = i
  · subst hi
    have hrun := Create.Run.next_of_step (System.State.step_self hstep)
    rcases hrun.answer_cases hn with hold | ⟨record, hsnapshot, rfl⟩ |
      ⟨payment, -, hpayment, rfl⟩ | hcommitted
    · exact hnext.1.hasRow h.integrity.wf (h.answered n response hold)
    · obtain ⟨hmem, hm, hk⟩ := IdempotencyRepository.getSnapshot_eq_some hsnapshot
      obtain ⟨hid, row, hrow, hrm, hrk, -⟩ := h.recorded record hmem
      refine hnext.1.hasRow h.integrity.wf ⟨row, ?_, hrm.trans hm, hrk.trans hk⟩
      rw [hid, hrow]
    · obtain ⟨hrow, hm, hk⟩ :=
        PaymentRepository.getByMerchantAndIdempotency_eq_some h.integrity.wf hpayment
      exact hnext.1.hasRow h.integrity.wf ⟨payment, hrow, hm, hk⟩
    · rcases h.integrity.persists_or hstep with
        ⟨n', decision, response', now, hn', -, hpc, hpersists⟩ | ⟨-, -, hpc⟩
      · cases hn'
        cases hcommitted.symm.trans hpc
        exact hasRow_new hpersists
      · exact absurd hcommitted (hpc n response rfl)
  · have hproc : create s' n = create s n := System.State.step_proc_ne hstep hi
    rw [hproc] at hn
    exact hnext.1.hasRow h.integrity.wf (h.answered n response hn)

theorem next (h : Scopes s) {i : Session} {a : i.Act} (hstep : s.step i a = some s') :
    Scopes s' := by
  have hnext := h.integrity.next hstep
  have hold (record : IdempotencyRecord) (hrecord : record ∈ s.world.idempotency) :
      record.responsePayload.paymentId = record.paymentId ∧
        ∃ row, s'.world.payments.committed record.paymentId = some row ∧
          row.merchantId = record.merchantId ∧ row.idempotencyKey = record.idempotencyKey ∧
          row.riskDecision = record.responsePayload.riskDecision ∧
          row.amlDecision = record.responsePayload.amlDecision := by
    obtain ⟨hid, row, hrow, hm, hk, hr, ha⟩ := h.recorded record hrecord
    obtain ⟨row', hrow', hident⟩ := hnext.1.keepsRow h.integrity.wf hrow
    obtain ⟨h₁, h₂, h₃, h₄⟩ := Payment.scope_of_identity hident
    exact ⟨hid, row', hrow', h₁.trans hm, h₂.trans hk, h₃.trans hr, h₄.trans ha⟩
  rcases h.integrity.persists_or hstep with
    ⟨n, decision, response, now, rfl, hpc, -, hpersists⟩ | ⟨hrecords, hrows, -⟩
  · obtain ⟨paymentId, hbuilt⟩ := Create.Run.Inv.built (h.integrity.inv (.create n)) _ _ hpc
    refine ⟨hnext.2, fun record hrecord => ?_, fun p m k hrow => ?_, ?_, fun p p' m k hp hp' => ?_,
      fun n' response' => h.answered_next hstep⟩
    · rw [hpersists.idempotency, List.mem_append, List.mem_singleton] at hrecord
      rcases hrecord with hrecord | rfl
      · exact hold record hrecord
      · refine ⟨rfl, ((create s n).paymentRow decision response now).inserted, ?_, rfl, rfl, ?_, ?_⟩
        · exact (hpersists.rows _).trans (if_pos rfl)
        · rw [hbuilt]
          rfl
        · rw [hbuilt]
          rfl
    · rw [hpersists.idempotency]
      rcases hasRow_persisted hpersists hrow with ⟨-, rfl, rfl⟩ | hrow
      · exact ⟨_, List.mem_append_right _ (List.mem_singleton_self _), rfl, rfl⟩
      · obtain ⟨record, hrecord, hscope⟩ := h.rowRecorded p m k hrow
        exact ⟨record, List.mem_append_left _ hrecord, hscope⟩
    · rw [hpersists.idempotency, List.pairwise_append]
      refine ⟨h.oneRecord, List.pairwise_singleton _ _, fun record hrecord record' hrecord' => ?_⟩
      rw [List.mem_singleton] at hrecord'
      subst hrecord'
      rintro ⟨hm, hk⟩
      exact hpersists.noRecord record hrecord ⟨hm.symm, hk.symm⟩
    · rcases hasRow_persisted hpersists hp with ⟨rfl, rfl, rfl⟩ | hp
      · rcases hasRow_persisted hpersists hp' with ⟨rfl, -, -⟩ | hp'
        · rfl
        · exact absurd hp' (hpersists.noRow p')
      · rcases hasRow_persisted hpersists hp' with ⟨rfl, rfl, rfl⟩ | hp'
        · exact absurd hp (hpersists.noRow p)
        · exact h.oneRow p p' m k hp hp'
  · have hback {p : UUID} {m k : String} (hrow : s'.world.HasRow p m k) : s.world.HasRow p m k := by
      refine h.hasRow_before hstep (hrows p ?_) hrow
      obtain ⟨row, hrow, -⟩ := hrow
      rw [hrow]
      rfl
    refine ⟨hnext.2, fun record hrecord => hold record (hrecords ▸ hrecord),
      fun p m k hrow => ?_, ?_, fun p p' m k hp hp' => h.oneRow p p' m k (hback hp) (hback hp'),
      fun n' response' => h.answered_next hstep⟩
    · rw [hrecords]
      exact h.rowRecorded p m k (hback hrow)
    · rw [hrecords]
      exact h.oneRecord

end Scopes

/-- Runs of creations and of the gate's expiry alone. -/
def creating : (payments cfg).Guard
  | .worker _, _, _, _ => False
  | .review _, _, _, _ => False
  | _, _, _, _ => True

instance : (i : Session) → (w : World) → (l : (payments cfg).Local i) →
    (a : (payments cfg).Act i) → Decidable (@creating cfg i w l a)
  | .worker _, _, _, _ => inferInstanceAs (Decidable False)
  | .review _, _, _, _ => inferInstanceAs (Decidable False)
  | .create _, _, _, _ => inferInstanceAs (Decidable True)
  | .environment, _, _, _ => inferInstanceAs (Decidable True)

/-- What such a run maintains. -/
structure CreationsHold (s : State cfg) : Prop where
  scopes : Scopes s
  oneEvent : s.world.ledger.OneEvent

namespace CreationsHold

theorem initial (h : Initial s) : CreationsHold s where
  scopes := .initial h
  oneEvent := by
    rw [h.world]
    intro p k k' type type' hk
    cases hk

theorem next (h : CreationsHold s) {i : Session} {a : i.Act}
    (hguard : @creating cfg i s.world (s.proc i) a) (hstep : s.step i a = some s') :
    CreationsHold s' := by
  refine ⟨h.scopes.next hstep, ?_⟩
  obtain ⟨m, hm, hadm, hledger⟩ := h.scopes.integrity.moves hstep
  rw [hledger]
  refine h.oneEvent.apply hadm fun k p type hadded => ?_
  cases i with
  | worker n => exact hguard.elim
  | review n => exact hguard.elim
  | create n =>
    cases hm with
    | skip | create => cases hadded
    | createWith =>
      cases hadded
      exact ⟨_, rfl⟩
  | environment =>
    cases hm
    cases hadded

end CreationsHold

/-- One payment in a scope: one payment row, one idempotency record, one event of the creation, and
every response names the payment. -/
structure OnePerScope (s : State cfg) (m k : String) : Prop where
  payment : ∀ p p', s.world.HasRow p m k → s.world.HasRow p' m k → p = p'
  record : (s.world.idempotency.filter fun record =>
    record.merchantId = m ∧ record.idempotencyKey = k).length ≤ 1
  event : ∀ e e' row row', s.world.outbox.committed e = some row →
    s.world.outbox.committed e' = some row' → s.world.HasRow row.aggregateId m k →
    s.world.HasRow row'.aggregateId m k → e = e'
  response : ∀ n r, (create s n).pc = .returned r → (create s n).context.merchantId = m →
    (create s n).context.idempotencyKey = k → s.world.HasRow r.paymentId m k

/-- At most one payment is created in a scope, in every run of creations from empty tables, with
any errors of the gate and any expiry of its keys; every run that returns names that payment. -/
theorem one_payment_per_scope {s₀ s : State cfg} (h₀ : Initial s₀)
    (hrun : (payments cfg).Reaches creating s₀ s) (m k : String) : OnePerScope s m k := by
  have h := hrun.invariant (fun hi hguard hstep => CreationsHold.next hi hguard hstep)
    (CreationsHold.initial h₀)
  refine ⟨fun p p' => h.scopes.oneRow p p' m k, ?_, fun e e' row row' he he' hp hp' => ?_,
    fun n r hn hm hk => ?_⟩
  · -- two records in the filtered list would be a pair of records in one scope
    have hpair := h.scopes.oneRecord.filter fun record =>
      decide (record.merchantId = m ∧ record.idempotencyKey = k)
    refine length_le_one_of_pairwise hpair fun record hrecord record' hrecord' => ?_
    simp only [List.mem_filter, decide_eq_true_eq] at hrecord hrecord'
    obtain ⟨⟨-, rfl, rfl⟩, -, hm, hk⟩ := And.intro hrecord hrecord'
    exact not_not.2 ⟨hm, hk⟩
  · have hp := h.scopes.oneRow _ _ m k hp hp'
    have hkind : s.world.ledger.kind e = some (row.aggregateId, row.eventType) := by
      simp [World.ledger, he]
    have hkind' : s.world.ledger.kind e' = some (row.aggregateId, row'.eventType) := by
      simp [World.ledger, he', hp]
    exact h.oneEvent hkind hkind'
  · subst hm hk
    exact h.scopes.answered n r (by rw [hn]; rfl)

/-- Creation 1 meets the gate of creation 0 and reads the snapshot before creation 0 commits and
the payment row afterwards. -/
def overlapped : List (Σ i, (payments sampleSettings).Act i) :=
  [⟨.create 0, Create.Action.readSnapshot⟩, ⟨.create 1, Create.Action.readSnapshot⟩,
    ⟨.create 0, Create.Action.acquire .answered⟩, ⟨.create 1, Create.Action.acquire .answered⟩,
    ⟨.create 1, Create.Action.readSnapshot⟩,
    ⟨.create 0, Create.Action.runControls (.ok ⟨0, .allow, .allow⟩) 1⟩,
    ⟨.create 0, Create.Action.persist 10 0⟩, ⟨.create 0, Create.Action.observe⟩,
    ⟨.create 1, Create.Action.readPayment⟩]

set_option maxRecDepth 10000 in
/-- The gate key expires while creation 0 has it: creation 2 takes it too, and loses the insert. -/
theorem one_payment_per_scope_contended : ∃ s : State sampleSettings,
    (∃ r, (create s 2).pc = .returned r) ∧ OnePerScope s "m" "k" := by
  have hrun : (System.State.run creating ([⟨.create 2, Create.Action.readSnapshot⟩] ++ overlapped ++
      [⟨.environment, EnvironmentAction.expireGate "m:k"⟩,
        ⟨.create 2, Create.Action.acquire (.redisError true)⟩,
        ⟨.create 2, Create.Action.runControls (.ok ⟨0, .allow, .allow⟩) 2⟩,
        ⟨.create 2, Create.Action.persist 20 0⟩, ⟨.create 2, Create.Action.readSnapshot⟩])
      sample).map (fun s => (create s 2).pc.response.isSome) = some true := by decide
  obtain ⟨s, hs, hreturned⟩ := Option.map_eq_some_iff.1 hrun
  obtain ⟨r, hr⟩ := Option.isSome_iff_exists.1 hreturned
  exact ⟨s, ⟨r, Create.Pc.response_eq_some.1 hr⟩,
    one_payment_per_scope (fresh_initial _ _ _) (System.Reaches.of_run hs) "m" "k"⟩

/-! ## Replays -/

/-- Runs in which no commit in a scope comes between the read of the snapshot and the read of the
payment row by a run in that scope. -/
def uninterrupted : (payments cfg).Guard
  | .create _, w, r, .readPayment => Create.Run.StillUnrecorded r w
  | _, _, _, _ => True

instance : (i : Session) → (w : World) → (l : (payments cfg).Local i) →
    (a : (payments cfg).Act i) → Decidable (@uninterrupted cfg i w l a)
  | .create _, w, r, .readPayment => Create.Run.StillUnrecorded.decidable r w
  | .create _, _, _, .readSnapshot | .create _, _, _, .acquire _
  | .create _, _, _, .runControls _ _ | .create _, _, _, .persist _ _
  | .create _, _, _, .observe | .create _, _, _, .crash
  | .worker _, _, _, _ | .review _, _, _, _ | .environment, _, _, _ =>
    inferInstanceAs (Decidable True)

/-- The response is the payload of a record in the scope of creation `n`. -/
def IsSnapshot (s : State cfg) (n : Nat) (response : PaymentAcceptedResponse) : Prop :=
  ∃ record ∈ s.world.idempotency,
    record.InScope (create s n).context.merchantId (create s n).context.idempotencyKey ∧
      record.responsePayload = response

/-- What those runs maintain. -/
structure ReplaysHold (s : State cfg) : Prop where
  scopes : Scopes s
  replayed : ∀ n response, (create s n).pc.answer = some response → IsSnapshot s n response

namespace ReplaysHold

theorem initial (h : Initial s) : ReplaysHold s where
  scopes := .initial h
  replayed n response hn := by
    have hpc : (create s n).pc = .start := h.create n
    simp [hpc, Create.Pc.answer] at hn

/-- Records stay. -/
theorem isSnapshot_next (h : Scopes s) {i : Session} {a : i.Act}
    (hstep : s.step i a = some s') {n : Nat} {response : PaymentAcceptedResponse}
    (hn : IsSnapshot s n response) : IsSnapshot s' n response := by
  obtain ⟨record, hrecord, hscope, hpayload⟩ := hn
  refine ⟨record, ?_, by rwa [(same_run hstep n).1], hpayload⟩
  rcases h.integrity.persists_or hstep with ⟨n', decision, response', now, -, -, -, hpersists⟩ |
    ⟨hrecords, -⟩
  · rw [hpersists.idempotency]
    exact List.mem_append_left _ hrecord
  · rwa [hrecords]

/-- The row and the snapshot of a scope are committed together. -/
theorem existingPayment_isSome_iff (h : Scopes s) (n : Nat) :
    ((create s n).existingPayment s.world).isSome ↔ ¬ (create s n).StillUnrecorded s.world := by
  constructor
  · intro hsome hnone
    obtain ⟨payment, hpayment⟩ := Option.isSome_iff_exists.1 hsome
    obtain ⟨hrow, hm, hk⟩ :=
      PaymentRepository.getByMerchantAndIdempotency_eq_some h.integrity.wf hpayment
    obtain ⟨record, hrecord, hscope⟩ := h.rowRecorded _ _ _ ⟨payment, hrow, hm, hk⟩
    exact IdempotencyRepository.getSnapshot_eq_none hnone hrecord hscope
  · intro hsnapshot
    obtain ⟨record, hrecord⟩ := Option.ne_none_iff_exists'.1 hsnapshot
    obtain ⟨hmem, hscope⟩ := IdempotencyRepository.getSnapshot_eq_some hrecord
    obtain ⟨-, row, hrow, hm, hk, -⟩ := h.recorded record hmem
    rw [← Option.ne_none_iff_isSome]
    intro hnone
    exact PaymentRepository.getByMerchantAndIdempotency_eq_none hnone record.paymentId
      ⟨row, hrow, hm.trans hscope.1, hk.trans hscope.2⟩

theorem next (h : ReplaysHold s) {i : Session} {a : i.Act}
    (hguard : @uninterrupted cfg i s.world (s.proc i) a) (hstep : s.step i a = some s') :
    ReplaysHold s' := by
  refine ⟨h.scopes.next hstep, fun n response hn => ?_⟩
  by_cases hi : Session.create n = i
  · subst hi
    have hrun := Create.Run.next_of_step (System.State.step_self hstep)
    rcases hrun.answer_cases hn with hold | ⟨record, hsnapshot, rfl⟩ |
      ⟨payment, rfl, hpayment, rfl⟩ | hcommitted
    · exact isSnapshot_next h.scopes hstep (h.replayed n response hold)
    · obtain ⟨hrecord, hscope⟩ := IdempotencyRepository.getSnapshot_eq_some hsnapshot
      exact isSnapshot_next h.scopes hstep ⟨record, hrecord, hscope, rfl⟩
    · -- where the snapshot was not there, and is not there yet, the row is not there either
      have hsome : ((create s n).existingPayment s.world).isSome :=
        Option.isSome_iff_exists.2 ⟨payment, hpayment⟩
      exact absurd hguard ((existingPayment_isSome_iff h.scopes n).1 hsome)
    · rcases h.scopes.integrity.persists_or hstep with
        ⟨n', decision, response', now, hn', -, hpc, hpersists⟩ | ⟨-, -, hpc⟩
      · cases hn'
        cases hcommitted.symm.trans hpc
        refine ⟨_, hpersists.idempotency ▸ List.mem_append_right _ (List.mem_singleton_self _),
          ?_, rfl⟩
        rw [(same_run hstep n).1]
        exact ⟨rfl, rfl⟩
      · exact absurd hcommitted (hpc n response rfl)
  · have hproc : create s' n = create s n := System.State.step_proc_ne hstep hi
    rw [hproc] at hn
    exact isSnapshot_next h.scopes hstep (h.replayed n response hn)

end ReplaysHold

/-- All responses returned in a scope are equal, and are the payload of its record. -/
structure ReplaysEqual (s : State cfg) (m k : String) : Prop where
  snapshot : ∀ n r, (create s n).pc = .returned r → (create s n).context.merchantId = m →
    (create s n).context.idempotencyKey = k →
    ∃ record ∈ s.world.idempotency, record.InScope m k ∧ record.responsePayload = r
  equal : ∀ n n' r r', (create s n).pc = .returned r → (create s n').pc = .returned r' →
    (create s n).context.merchantId = m → (create s n).context.idempotencyKey = k →
    (create s n').context.merchantId = m → (create s n').context.idempotencyKey = k → r = r'

/-- Replays return the original response, in every run from empty tables in which no commit comes
between the two statements of a poll or of a conflict, whatever workers and reviews do. -/
theorem replays_equal {s₀ s : State cfg} (h₀ : Initial s₀)
    (hrun : (payments cfg).Reaches uninterrupted s₀ s) (m k : String) : ReplaysEqual s m k := by
  have h := hrun.invariant (fun hi hguard hstep => ReplaysHold.next hi hguard hstep)
    (ReplaysHold.initial h₀)
  have hsnapshot (n : Nat) (r : PaymentAcceptedResponse) (hn : (create s n).pc = .returned r)
      (hm : (create s n).context.merchantId = m) (hk : (create s n).context.idempotencyKey = k) :
      ∃ record ∈ s.world.idempotency, record.InScope m k ∧ record.responsePayload = r := by
    subst hm hk
    exact h.replayed n r (by rw [hn]; rfl)
  refine ⟨hsnapshot, fun n n' r r' hn hn' hm hk hm' hk' => ?_⟩
  obtain ⟨record, hrecord, hscope, rfl⟩ := hsnapshot n r hn hm hk
  obtain ⟨record', hrecord', hscope', rfl⟩ := hsnapshot n' r' hn' hm' hk'
  rw [h.scopes.record_unique hrecord hrecord' hscope hscope']

/-- Creation 1 meets the gate of creation 0 and polls once in vain, before creation 0 commits; when
it polls again, a worker has confirmed the payment. -/
def polledTwice : List (Σ i, (payments sampleSettings).Act i) :=
  [⟨.create 0, Create.Action.readSnapshot⟩, ⟨.create 1, Create.Action.readSnapshot⟩,
    ⟨.create 0, Create.Action.acquire .answered⟩, ⟨.create 1, Create.Action.acquire .answered⟩,
    ⟨.create 1, Create.Action.readSnapshot⟩, ⟨.create 1, Create.Action.readPayment⟩,
    ⟨.create 0, Create.Action.runControls (.ok ⟨0, .allow, .allow⟩) 1⟩,
    ⟨.create 0, Create.Action.persist 10 0⟩, ⟨.create 0, Create.Action.observe⟩,
    ⟨.worker 0, Processor.WorkerAction.fetchPendingRequested 0 [sampleRequest]⟩] ++
  callProvider 0 (answer false) ++ settle 0 11 0 ++ [⟨.create 1, Create.Action.readSnapshot⟩]

set_option maxRecDepth 10000 in
/-- The second poll returns the snapshot. -/
theorem replays_equal_settled : ∃ s : State sampleSettings,
    s.world.status 1 = some .confirmed ∧ (∃ r, (create s 1).pc = .returned r) ∧
      ReplaysEqual s "m" "k" := by
  have hrun : (System.State.run uninterrupted polledTwice sample).map
      (fun s => (s.world.status 1, (create s 1).pc.response.isSome)) =
      some (some .confirmed, true) := by decide
  obtain ⟨s, hs, heq⟩ := Option.map_eq_some_iff.1 hrun
  simp only [Prod.mk.injEq] at heq
  obtain ⟨hstatus, hreturned⟩ := heq
  obtain ⟨r, hr⟩ := Option.isSome_iff_exists.1 hreturned
  exact ⟨s, hstatus, ⟨r, Create.Pc.response_eq_some.1 hr⟩,
    replays_equal (fresh_initial _ _ _) (System.Reaches.of_run hs) "m" "k"⟩

set_option maxRecDepth 10000 in
/-- The two creations that overlap return different traces. -/
theorem replays_differ : ¬ ∀ (cfg : Processor.Settings) (s₀ s : State cfg), Initial s₀ →
    (payments cfg).Reaches creating s₀ s → ∀ m k, ReplaysEqual s m k := by
  intro hequal
  have hrun : (System.State.run creating overlapped sample).map (fun s =>
      ((create s 0).pc.response.map (·.traceId), (create s 1).pc.response.map (·.traceId))) =
      some (some "trace0", some "trace1") := by decide
  obtain ⟨s, hs, heq⟩ := Option.map_eq_some_iff.1 hrun
  simp only [Prod.mk.injEq, Option.map_eq_some_iff] at heq
  obtain ⟨⟨r, hr, htrace⟩, r', hr', htrace'⟩ := heq
  have hreach := System.Reaches.of_run hs
  have hscope (n : Nat) : (create s n).context = (create sample n).context :=
    hreach.invariant (I := fun s => (create s n).context = (create sample n).context)
      (fun hi _ hstep => (same_run hstep n).1.trans hi) rfl
  have h := (hequal sampleSettings sample s (fresh_initial _ _ _) hreach "m" "k").equal 0 1 r r'
    (Create.Pc.response_eq_some.1 hr) (Create.Pc.response_eq_some.1 hr')
    (by rw [hscope]; rfl) (by rw [hscope]; rfl) (by rw [hscope]; rfl) (by rw [hscope]; rfl)
  rw [← h, htrace] at htrace'
  exact absurd htrace' (by decide)

end Payments

end PaymentsLab
