import PaymentsLab.Api.AmlOutage
import PaymentsLab.Api.VelocityLimit

/-!
# AML aggregation under concurrency

Any number of `CreatePaymentUseCase.execute` calls over one database and one Redis. A call adds up
what it reads of the history of its customer, long before it commits its payment and longer before
it records it. Where every payment that is committed as allowed is of a call that has read at least
what had been allowed by then, no window has more than the threshold (`aml_total_within_threshold`).
-/

namespace PaymentsLab

open Foundation AmlRuleEngine

/-! ## What a call has read -/

/-- The entries that an `LRANGE` of the key has been answered with, and the time of the reading. -/
def entriesRead? (key : String) (t : Instant) :
    (Σ c, ApiReply c) → Option (Instant × List StoredText)
  | ⟨.redis (.lrange key' _ _), some entries⟩ => if key' = key then some (t, entries) else none
  | _ => none

/-- The first reading of a history, with the reading of the clock before it. -/
def firstRead (key : String) : ApiHistory → Option (Instant × List StoredText)
  | [] => none
  | e :: h => (firstRead key h).or (entriesRead? key (lastReading h) e)

/-- The total of the recent entries of a rail. -/
def recentTotal (cfg : ApiSettings) (rail : PaymentMethod) (read : Instant × List StoredText) :
    Decimal :=
  Decimal.sum (read.2.map
    (recentAmount rail.value (wholeSeconds read.1 - cfg.amlTotalWindowSeconds)))

/-- What a call has read is, with the amount of a payment, within the threshold. -/
def ReadsWithin (cfg : ApiSettings) (customerId : String) (rail : PaymentMethod) (amount : Decimal)
    (h : ApiHistory) : Prop :=
  ∃ read, firstRead (amlHistoryKey customerId) h = some read ∧
    (recentTotal cfg rail read).toRat + amount.toRat ≤ cfg.amlTotalThresholdAmount.toRat

/-- Readings of a history are answered with entries of payments, as many as are asked for. -/
def AdmitsEntries (customerId : String) : (c : ApiCommand) → ApiReply c → Prop
  | .redis (.lrange key _ stop), reply => key = amlHistoryKey customerId → ∃ entries,
    reply = some entries ∧ (∀ text ∈ entries, IsPaymentEntry text) ∧ entries.length ≤ stop + 1
  | _, _ => True

/-- The commands a call may issue: it appends entries of payments to the history, and what it
commits as allowed is within the threshold by what it has read. -/
def AllowsEntries (cfg : ApiSettings) (customerId : String) (h : ApiHistory) : ApiCommand → Prop
  | .redis (.lpush key text) => key = amlHistoryKey customerId → IsPaymentEntry text
  | .commit payment _ _ => payment.customerId = customerId →
    (∃ m, payment.amount.IsCents m ∧ 0 < m) ∧
      (payment.amlDecision = .allow → ReadsWithin cfg customerId payment.method payment.amount h)
  | _ => True

section Histories

variable {cfg : ApiSettings} {customerId : String} {rail : PaymentMethod} {amount : Decimal}
  {h : ApiHistory} {key : String}

theorem firstRead_cons_of_some {read : Instant × List StoredText}
    (hread : firstRead key h = some read) (e : Σ c, ApiReply c) :
    firstRead key (e :: h) = some read := by
  unfold firstRead
  rw [hread]
  rfl

theorem ReadsWithin.cons (hwithin : ReadsWithin cfg customerId rail amount h)
    (e : Σ c, ApiReply c) : ReadsWithin cfg customerId rail amount (e :: h) := by
  obtain ⟨read, hread, hle⟩ := hwithin
  exact ⟨read, firstRead_cons_of_some hread e, hle⟩

/-- A command that is no reading of the history. -/
theorem firstRead_cons_of_ne {c : ApiCommand}
    (hc : ∀ start stop, c ≠ .redis (.lrange key start stop)) (r : ApiReply c)
    (hnone : firstRead key h = none) : firstRead key (⟨c, r⟩ :: h) = none := by
  unfold firstRead
  rw [hnone, Option.none_or]
  unfold entriesRead?
  split
  · next heq =>
    cases heq
    refine if_neg ?_
    rintro rfl
    exact hc _ _ rfl
  · rfl

theorem firstRead_cons_of_uses {c : ApiCommand} (hc : c.Uses (· ≠ key)) (r : ApiReply c)
    (hnone : firstRead key h = none) : firstRead key (⟨c, r⟩ :: h) = none := by
  refine firstRead_cons_of_ne (fun start stop heq => ?_) r hnone
  subst heq
  exact hc rfl

/-- A command on another key is allowed. -/
theorem allowsEntries_of_uses {c : ApiCommand} (hc : c.Uses (· ≠ amlHistoryKey customerId)) :
    AllowsEntries cfg customerId h c := by
  cases c with
  | redis command =>
    cases command with
    | lpush key text => exact fun hkey => absurd hkey hc
    | _ => trivial
  | commit => exact hc.elim
  | _ => trivial

theorem allowsEntries_of_spares {c : ApiCommand} (hc : Spares customerId c) :
    AllowsEntries cfg customerId h c := by
  rcases hc with hc | rfl
  · exact allowsEntries_of_uses hc
  · trivial

end Histories

/-- The total of recent entries of payments is one of cents. -/
theorem exists_isCents_recent (rail : String) (cutoff : Int) {entries : List StoredText}
    (hentries : ∀ text ∈ entries, IsPaymentEntry text) :
    ∃ k : Int, (Decimal.sum (entries.map (recentAmount rail cutoff))).IsCents k ∧ 0 ≤ k ∧
      k ≤ entries.length * 10 ^ 18 := by
  induction entries with
  | nil => exact ⟨0, Decimal.isCents_zero, le_rfl, le_rfl⟩
  | cons text entries ih =>
    obtain ⟨k, hk, hk₀, hk₁⟩ := ih fun text htext => hentries text (List.mem_cons_of_mem _ htext)
    obtain ⟨timestamp, rail', amount, m, rfl, hamount, hm, hm'⟩ :=
      hentries text List.mem_cons_self
    rw [List.length_cons]
    push_cast
    by_cases hrecent : cutoff ≤ timestamp ∧ rail'.value = rail
    · have hsum : (Decimal.sum ((recentAmount rail cutoff (.amlEntry timestamp rail' amount)) ::
          entries.map (recentAmount rail cutoff))).IsCents (m + k) := by
        rw [recentAmount, if_pos hrecent]
        exact hamount.scaled_add hk
      exact ⟨m + k, hsum, by omega, by omega⟩
    · have hsum : (Decimal.sum ((recentAmount rail cutoff (.amlEntry timestamp rail' amount)) ::
          entries.map (recentAmount rail cutoff))).IsCents (0 + k) := by
        rw [recentAmount, if_neg hrecent]
        exact Decimal.isCents_zero.scaled_add hk
      exact ⟨0 + k, hsum, by omega, by omega⟩

section Rules

variable (cfg : ApiSettings) {customerId : String} {rail : PaymentMethod} {h : ApiHistory}

/-- What `_total_outgoing_recent` returns is the total of what it has read. -/
theorem totalOutgoingRecent_reads (hnone : firstRead (amlHistoryKey customerId) h = none) :
    (totalOutgoingRecent cfg customerId rail).Obeys (AdmitsEntries customerId)
      (AllowsEntries cfg customerId)
      (fun h o => ∃ read total k, firstRead (amlHistoryKey customerId) h = some read ∧
        o = .ok (.finite total) ∧ total.toRat = (recentTotal cfg rail read).toRat ∧
          total.IsCents k ∧ 0 ≤ k ∧ k < 10 ^ 27) h := by
  unfold totalOutgoingRecent readHistoryEntries
  refine Program.obeys_bind.2 ⟨trivial, fun t _ => Program.obeys_bind.2 ?_⟩
  refine Program.obeys_tryCatch.2 (Program.obeys_bind.2 (ApiProgram.obeys_redis.2
    ⟨trivial, fun reply hreply => ?_⟩))
  obtain ⟨entries, rfl, hentries, hlength⟩ := hreply rfl
  have hlength' : entries.length ≤ 501 := hlength
  obtain ⟨k, hcents, hk, hk'⟩ :=
    exists_isCents_recent rail.value (wholeSeconds t - cfg.amlTotalWindowSeconds) hentries
  obtain ⟨total, hrun, htotal⟩ := sumRecentFrom_eq rail.value
    (wholeSeconds t - cfg.amlTotalWindowSeconds) hentries Decimal.isCents_zero le_rfl (by omega)
  rw [Decimal.toRat_zero, zero_add] at htotal
  change Program.Obeys _ _ _ (sumRecent entries rail.value _) _
  unfold sumRecent
  rw [hrun]
  refine ⟨(t, entries), total, k, ?_, rfl, htotal, ?_, hk, by omega⟩
  · have hbefore : firstRead (amlHistoryKey customerId) (⟨.now, t⟩ :: h) = none :=
      firstRead_cons_of_uses (c := .now) trivial t hnone
    rw [firstRead, hbefore, Option.none_or]
    exact if_pos rfl
  · exact htotal.trans hcents

/-- A payment that is allowed is within the threshold by what has been read. -/
theorem evaluate_reads {amount : Decimal} {m : Int} (hamount : amount.IsCents m) (hm : 0 < m)
    (hm' : m < 10 ^ 18) (destination : Option String) (policy : LimitsPolicy)
    (hnone : firstRead (amlHistoryKey customerId) h = none) :
    (evaluate cfg customerId rail amount destination policy).Obeys (AdmitsEntries customerId)
      (AllowsEntries cfg customerId)
      (fun h o => o = .ok .allow → ReadsWithin cfg customerId rail amount h) h := by
  unfold evaluate
  by_cases hblock : blocklisted cfg destination = true
  · rw [if_pos hblock]
    exact fun heq => by cases heq
  rw [if_neg hblock]
  refine Program.obeys_bind.2 ((totalOutgoingRecent_reads cfg hnone).mono (fun _ _ => id) ?_)
  rintro h _ ⟨read, total, k, hread, rfl, htotal, hcents, hk, hk'⟩
  have hadd : DecimalValue.add (.finite total) (.finite amount) = some (.finite (total + amount)) :=
    DecimalValue.add_cents hcents hamount (by omega)
  have hgt : DecimalValue.gt? (.finite (total + amount)) (.finite cfg.amlTotalThresholdAmount) =
      some !decide (total + amount ≤ cfg.amlTotalThresholdAmount) := rfl
  simp only [hadd, AmlRuleEngine.decimal, pure_bind, hgt]
  by_cases hle : total + amount ≤ cfg.amlTotalThresholdAmount
  · have hwithin : ReadsWithin cfg customerId rail amount h := by
      refine ⟨read, hread, ?_⟩
      have hsum := hcents.add hamount (by omega)
      rw [Decimal.le_iff_toRat, Decimal.isCents_iff.1 hsum] at hle
      rw [← htotal, Decimal.isCents_iff.1 hcents, Decimal.isCents_iff.1 hamount]
      push_cast at hle
      linarith
    simp only [decide_eq_true hle, Bool.not_true, Bool.false_eq_true, if_false]
    have hnear : (nearThresholdCount cfg customerId rail policy.maxAmount).Obeys
        (AdmitsEntries customerId) (AllowsEntries cfg customerId)
        (fun h _ => ReadsWithin cfg customerId rail amount h) h :=
      (issues_nearThresholdCount (P := Spares customerId) cfg (.inr rfl)
        (fun _ hc => .inl (hc.mono fun _ => False.elim)) rail _).obeys
        (fun _ _ hc _ => allowsEntries_of_spares hc)
        (fun _ _ _ _ hwithin => hwithin.cons _) hwithin
    refine Program.obeys_bind.2 (hnear.mono (fun _ _ => id) ?_)
    rintro h (e | count) hwithin
    · exact fun _ => hwithin
    · dsimp only
      split <;> split <;> exact fun _ => hwithin
  · rw [decide_eq_false hle]
    exact fun heq => by cases heq

/-- The gate may stand at any key, and taking it is no reading. -/
theorem acquire_reads (merchantId idempotencyKey : String)
    (hnone : firstRead (amlHistoryKey customerId) h = none) :
    (IdempotencyService.acquire cfg merchantId idempotencyKey).Obeys (AdmitsEntries customerId)
      (AllowsEntries cfg customerId) (fun h _ => firstRead (amlHistoryKey customerId) h = none)
      h := by
  unfold IdempotencyService.acquire
  refine Program.obeys_tryCatch.2 (ApiProgram.obeys_redis.2 ⟨trivial, fun reply _ => ?_⟩)
  have hgate : firstRead (amlHistoryKey customerId)
      (⟨.redis (.setNx (Create.idempotencyScopedKey merchantId idempotencyKey) (.int 1)
        cfg.idempotencyTtlSeconds), reply⟩ :: h) = none :=
    firstRead_cons_of_ne (c := .redis (.setNx _ _ _)) (fun _ _ heq => by cases heq) reply hnone
  cases reply <;> exact hgate

/-- The amounts of the customer's requests are whole cents, within a `Numeric(18, 2)` column. -/
def PaysCents (customerId : String) (r : Create.Run) : Prop :=
  r.context.customerId = customerId → ∃ m, r.request.amount.IsCents m ∧ 0 < m ∧ m < 10 ^ 18

/-- The decision on a payment of the customer, where it is to allow it. -/
def DecidesWithin (customerId : String) (r : Create.Run) (decision : Create.ControlDecision)
    (h : ApiHistory) : Prop :=
  r.context.customerId = customerId → decision.amlDecision = .allow →
    ReadsWithin cfg customerId r.request.method r.request.amount h

variable {r : Create.Run} (hpays : PaysCents customerId r)

include hpays

theorem decided_reads (hnone : firstRead (amlHistoryKey customerId) h = none) :
    (r.decided cfg).Obeys (AdmitsEntries customerId) (AllowsEntries cfg customerId)
      (fun h o => ∀ decision, o = .ok decision → DecidesWithin cfg customerId r decision h) h := by
  by_cases hcustomer : r.context.customerId = customerId
  · obtain ⟨m, hamount, hm, hm'⟩ := hpays hcustomer
    unfold Create.Run.decided
    have hchecked : (r.checked cfg).Obeys (AdmitsEntries customerId) (AllowsEntries cfg customerId)
        (fun h _ => firstRead (amlHistoryKey customerId) h = none) h :=
      (r.uses_checked_spares cfg customerId).obeys (fun _ _ hc _ => allowsEntries_of_uses hc)
        (fun _ _ reply hc => firstRead_cons_of_uses hc reply) hnone
    refine Program.obeys_bind.2 (hchecked.mono (fun _ _ => id) ?_)
    rintro h (e | ⟨customer, evaluation⟩) hnone
    · exact fun _ heq => by cases heq
    unfold Create.Run.evaluateControls
    have hrisk : (RiskScoreService.evaluate cfg customer r.request.amount evaluation.policy
        evaluation.velocityCount r.request.destination).Obeys (AdmitsEntries customerId)
        (AllowsEntries cfg customerId)
        (fun h _ => firstRead (amlHistoryKey customerId) h = none) h :=
      (RiskScoreService.uses_evaluate (K := (· ≠ amlHistoryKey customerId)) cfg _ _ _ _ _).obeys
        (fun _ _ hc _ => allowsEntries_of_uses hc)
        (fun _ _ reply hc => firstRead_cons_of_uses hc reply) hnone
    refine Program.obeys_bind.2 (hrisk.mono (fun _ _ => id) ?_)
    rintro h (e | ⟨riskScore, riskDecision⟩) hnone
    · exact fun _ heq => by cases heq
    rw [hcustomer]
    refine Program.obeys_bind.2 ((evaluate_reads cfg hamount hm hm' _ _ hnone).mono
      (fun _ _ => id) ?_)
    rintro h (e | amlDecision) hwithin
    · exact fun _ heq => by cases heq
    · rintro decision heq - hallow
      cases heq
      exact hwithin (congrArg Except.ok hallow)
  · have hdecided : (r.decided cfg).Obeys (AdmitsEntries customerId) (AllowsEntries cfg customerId)
        (fun _ _ => True) h :=
      (r.issues_decided_spares cfg customerId).obeys (fun _ _ hc _ => allowsEntries_of_spares hc)
        (fun _ _ _ _ _ => trivial) trivial
    exact hdecided.mono (fun _ _ => id) fun _ _ _ _ _ hcustomer' => absurd hcustomer' hcustomer

/-- What is recorded is the entry of a payment. -/
theorem afterCommitObservability_reads (response : PaymentAcceptedResponse) :
    (r.afterCommitObservability cfg response).Obeys (AdmitsEntries customerId)
      (AllowsEntries cfg customerId) (fun _ _ => True) h := by
  refine (r.issues_afterCommitObservability cfg response).obeys (fun h c hc _ => ?_)
    (fun _ _ _ _ _ => trivial) trivial
  cases c with
  | redis command =>
    cases command with
    | lpush key text =>
      obtain ⟨rfl, timestamp, rfl⟩ := hc
      intro hkey
      obtain ⟨m, hamount, hm, hm'⟩ := hpays (amlHistoryKey_injective hkey)
      exact ⟨timestamp, _, _, m, rfl, hamount, hm, hm'⟩
    | _ => trivial
  | commit => exact hc.elim
  | _ => trivial

/-- The commit of a payment, and what follows it. -/
theorem persistAndObserve_reads (startedAt : Instant) {decision : Create.ControlDecision}
    (hwithin : DecidesWithin cfg customerId r decision h) :
    (r.persistAndObserve cfg startedAt decision).Obeys (AdmitsEntries customerId)
      (AllowsEntries cfg customerId) (fun _ _ => True) h := by
  refine Program.obeys_bind.2 ⟨trivial, fun paymentId _ => ?_⟩
  refine Program.obeys_bind.2 ⟨trivial, fun eventId _ => ?_⟩
  refine Program.obeys_bind.2 ⟨trivial, fun t _ => ?_⟩
  refine Program.obeys_bind.2 ⟨fun hcustomer => ⟨?_, fun hallow => ?_⟩, fun committed _ => ?_⟩
  · obtain ⟨m, hamount, hm, -⟩ := hpays hcustomer
    exact ⟨m, hamount, hm⟩
  · exact (((hwithin hcustomer hallow).cons _).cons _).cons _
  cases committed with
  | true =>
    refine Program.obeys_bind.2 ((afterCommitObservability_reads cfg hpays _).mono
      (fun _ _ => id) ?_)
    rintro h (e | _) _ <;> trivial
  | false =>
    exact r.uses_resolveReplayedAfterConflict.obeys (fun _ _ hc _ => allowsEntries_of_uses hc)
      (fun _ _ _ _ _ => trivial) trivial

theorem execute_reads :
    (r.execute cfg).Obeys (AdmitsEntries customerId) (AllowsEntries cfg customerId)
      (fun _ _ => True) [] := by
  have hkeeps {α : Type} {p : ApiProgram α} {h : ApiHistory}
      (hp : p.Uses (· ≠ amlHistoryKey customerId))
      (hnone : firstRead (amlHistoryKey customerId) h = none) :
      p.Obeys (AdmitsEntries customerId) (AllowsEntries cfg customerId)
        (fun h _ => firstRead (amlHistoryKey customerId) h = none) h :=
    hp.obeys (fun _ _ hc _ => allowsEntries_of_uses hc)
      (fun _ _ reply hc => firstRead_cons_of_uses hc reply) hnone
  refine Program.obeys_bind.2 ⟨trivial, fun startedAt _ => ?_⟩
  have hnone : firstRead (amlHistoryKey customerId) [⟨.begin, startedAt⟩] = none := rfl
  refine Program.obeys_bind.2 ((hkeeps r.uses_tryReturnReplayedResponse hnone).mono
    (fun _ _ => id) ?_)
  rintro h (e | _ | response) hnone
  · trivial
  · refine Program.obeys_bind.2 ((acquire_reads cfg _ _ hnone).mono (fun _ _ => id) ?_)
    rintro h (e | _ | _) hnone
    · trivial
    · exact (r.uses_resolvePending Create.pollLimit).obeys
        (fun _ _ hc _ => allowsEntries_of_uses hc)
        (fun _ _ _ _ _ => trivial) trivial
    · dsimp only
      rw [if_pos rfl, Create.Run.createPaymentWithControls_eq]
      refine Program.obeys_bind.2 ((decided_reads cfg hpays hnone).mono (fun _ _ => id) ?_)
      rintro h (e | decision) hdecided
      · trivial
      · exact persistAndObserve_reads cfg hpays startedAt (hdecided decision rfl)
  · trivial

end Rules

/-! ## What has been allowed -/

/-- A payment of the customer on the rail that the AML rules have allowed. -/
def IsAllowed (customerId : String) (rail : PaymentMethod) (row : Payment) : Prop :=
  row.customerId = customerId ∧ row.method = rail ∧ row.amlDecision = .allow

instance (customerId : String) (rail : PaymentMethod) (row : Payment) :
    Decidable (IsAllowed customerId rail row) :=
  inferInstanceAs (Decidable (_ ∧ _ ∧ _))

/-- The total of what has been allowed since a time. -/
def Database.allowedSince (db : Database) (customerId : String) (rail : PaymentMethod)
    (since : Instant) : Decimal :=
  Decimal.sum ((db.payments.filter fun row =>
    IsAllowed customerId rail row ∧ since ≤ row.createdAt).map (·.amount))

/-- The window of the total, in microseconds. -/
def totalWindow (cfg : ApiSettings) : Int :=
  cfg.amlTotalWindowSeconds * 1000000

/-- Allowed payments that all fall within one window have no greater a total than the threshold. -/
def AllowedWithin (cfg : ApiSettings) (customerId : String) (rail : PaymentMethod) (db : Database) :
    Prop :=
  ∀ rows : List Payment, rows.Sublist db.payments → (∀ row ∈ rows, IsAllowed customerId rail row) →
    ∀ since : Instant,
      (∀ row ∈ rows, since ≤ row.createdAt ∧ row.createdAt ≤ since + totalWindow cfg) →
        Decimal.sum (rows.map (·.amount)) ≤ cfg.amlTotalThresholdAmount

/-- The amounts of the customer's payments are not negative. -/
def AmountsKept (customerId : String) (db : Database) : Prop :=
  ∀ row ∈ db.payments, row.customerId = customerId → 0 ≤ row.amount.toRat

section Allowed

variable {cfg : ApiSettings} {customerId : String} {rail : PaymentMethod} {db : Database}
  {payment : Payment} {event : Option OutboxEvent} {record : IdempotencyRecord}

theorem AmountsKept.insert (h : AmountsKept customerId db)
    (hpayment : payment.customerId = customerId → ∃ m, payment.amount.IsCents m ∧ 0 < m) :
    AmountsKept customerId (db.insert payment event record) := by
  intro row hrow hcustomer
  rcases List.mem_append.1 hrow with hrow | hrow
  · exact h row hrow hcustomer
  · cases List.mem_singleton.1 hrow
    obtain ⟨m, hamount, hm⟩ := hpayment hcustomer
    have hcast : (0 : ℚ) ≤ m := by exact_mod_cast hm.le
    rw [Decimal.isCents_iff.1 (Database.isCents_inserted hamount)]
    positivity

/-- Payments of a window that ends no earlier have been counted. -/
theorem AmountsKept.sum_le_allowedSince (h : AmountsKept customerId db) {rows : List Payment}
    (hrows : rows.Sublist db.payments) (hallowed : ∀ row ∈ rows, IsAllowed customerId rail row)
    (since : Instant) (hsince : ∀ row ∈ rows, since ≤ row.createdAt) :
    (Decimal.sum (rows.map (·.amount))).toRat ≤
      (db.allowedSince customerId rail since).toRat := by
  have hfilter : rows.filter (fun row => IsAllowed customerId rail row ∧ since ≤ row.createdAt) =
      rows :=
    List.filter_eq_self.2 fun row hrow => decide_eq_true ⟨hallowed row hrow, hsince row hrow⟩
  have hsublist := hrows.filter fun row =>
    IsAllowed customerId rail row ∧ since ≤ row.createdAt
  rw [hfilter] at hsublist
  refine Decimal.toRat_sum_le_of_sublistForall₂ (R := Eq) hsublist.sublistForall₂ ?_ ?_
  · rintro row - _ - rfl
    exact le_rfl
  · intro row hrow
    obtain ⟨hmem, hrow⟩ := List.mem_filter.1 hrow
    exact h row hmem (of_decide_eq_true hrow).1.1

/-- A payment that is allowed within the threshold, by what has been allowed before it. -/
theorem AllowedWithin.insert (h : AllowedWithin cfg customerId rail db)
    (hamounts : AmountsKept customerId db)
    (hpayment : IsAllowed customerId rail payment → (∃ m, payment.amount.IsCents m) ∧
      (db.allowedSince customerId rail (payment.createdAt - totalWindow cfg)).toRat +
        payment.amount.toRat ≤ cfg.amlTotalThresholdAmount.toRat) :
    AllowedWithin cfg customerId rail (db.insert payment event record) := by
  intro rows hrows hallowed since hwindow
  obtain ⟨before, new, rfl, hbefore, hnew⟩ := List.sublist_append_iff.1 hrows
  have hold (row : Payment) (hrow : row ∈ before) := List.mem_append_left new hrow
  rcases List.sublist_singleton.1 hnew with rfl | rfl
  · rw [List.append_nil]
    exact h before hbefore (fun row hrow => hallowed row (hold row hrow)) since
      fun row hrow => hwindow row (hold row hrow)
  · have hmem := List.mem_append_right before (List.mem_singleton_self payment.inserted)
    have hnewest := hallowed _ hmem
    have hlast := hwindow _ hmem
    obtain ⟨⟨m, hcents⟩, hle⟩ := hpayment hnewest
    have hsum := hamounts.sum_le_allowedSince hbefore
      (fun row hrow => hallowed row (hold row hrow)) (payment.createdAt - totalWindow cfg)
      fun row hrow =>
        (Int.sub_right_le_of_le_add hlast.2).trans (hwindow row (hold row hrow)).1
    have hstored : payment.inserted.amount.toRat = payment.amount.toRat := by
      rw [Decimal.isCents_iff.1 (Database.isCents_inserted hcents), Decimal.isCents_iff.1 hcents]
    rw [Decimal.le_iff_toRat, List.map_append, Decimal.toRat_sum_append, List.map_singleton,
      Decimal.toRat_sum_cons, Decimal.toRat_sum_nil, add_zero]
    rw [hstored]
    linarith

end Allowed

/-! ## The system -/

def ApiCommand.redis? : ApiCommand → Option (Redis.Command StoredText)
  | .redis command => some command
  | _ => none

/-- The payment that a commit inserts. -/
def ApiCommand.inserts? (db : Database) : ApiCommand → Option Payment
  | .commit payment event record => if db.Accepts payment event record then some payment else none
  | _ => none

/-- Calls of `execute` over one database and one Redis. -/
def creationCalls : System Nat Backend :=
  Backend.handler.system Nat ApiException PaymentAcceptedResponse

namespace AmlAggregation

/-- A state of the calls. -/
abbrev State : Type := creationCalls.State

/-- A call on its way. -/
def call (s : State) (n : Nat) : Process ApiCommand ApiReply ApiException PaymentAcceptedResponse :=
  s.proc n

/-- No call has begun, the history of the customer has entries of payments, and what has been
allowed is within the threshold. -/
structure Initial (cfg : ApiSettings) (customerId : String) (rail : PaymentMethod)
    (runs : Nat → Create.Run) (s : State) : Prop where
  call : ∀ n, call s n = ⟨[], (runs n).execute cfg⟩
  entries : ∀ text, s.world.redis.HasItem (amlHistoryKey customerId) text → IsPaymentEntry text
  amounts : AmountsKept customerId s.world.database
  within : AllowedWithin cfg customerId rail s.world.database

/-- Every Redis command is answered. -/
def answered : creationCalls.Guard := fun _ b p i =>
  ∀ command ∈ (Process.next? p).bind ApiCommand.redis?,
    (Backend.execRedis i b command).1.isSome = true

instance (n : Nat) (b : Backend) (p : creationCalls.Local n) (i : creationCalls.Act n) :
    Decidable (answered n b p i) :=
  inferInstanceAs (Decidable (∀ command ∈ (Process.next? p).bind ApiCommand.redis?,
    (Backend.execRedis i b command).1.isSome = true))

/-- The total a call has read. -/
def readTotal (cfg : ApiSettings) (customerId : String) (rail : PaymentMethod) (h : ApiHistory) :
    Decimal :=
  ((firstRead (amlHistoryKey customerId) h).map (recentTotal cfg rail)).getD 0

/-- Every Redis command is answered, and a call that commits an allowed payment of the customer on
the rail has read no less than what has been allowed since a window before it. -/
def readsAllowed (cfg : ApiSettings) (customerId : String) (rail : PaymentMethod) :
    creationCalls.Guard := fun n b p i =>
  answered n b p i ∧
    ∀ payment ∈ (Process.next? p).bind (ApiCommand.inserts? (Backend.database b)),
      IsAllowed customerId rail payment →
        Database.allowedSince (Backend.database b) customerId rail
            (payment.createdAt - totalWindow cfg) ≤
          readTotal cfg customerId rail (Process.history p)

instance (cfg : ApiSettings) (customerId : String) (rail : PaymentMethod) (n : Nat) (b : Backend)
    (p : creationCalls.Local n) (i : creationCalls.Act n) :
    Decidable (readsAllowed cfg customerId rail n b p i) :=
  inferInstanceAs (Decidable (answered n b p i ∧
    ∀ payment ∈ (Process.next? p).bind (ApiCommand.inserts? (Backend.database b)),
      IsAllowed customerId rail payment →
        Database.allowedSince (Backend.database b) customerId rail
            (payment.createdAt - totalWindow cfg) ≤
          readTotal cfg customerId rail (Process.history p)))

/-! ## Every run -/

/-- What such a run maintains. -/
structure Holds (cfg : ApiSettings) (customerId : String) (rail : PaymentMethod) (s : State) :
    Prop where
  obeys : ∀ n, (call s n).rest.Obeys (AdmitsEntries customerId) (AllowsEntries cfg customerId)
    (fun _ _ => True) (call s n).history
  entries : ∀ text, s.world.redis.HasItem (amlHistoryKey customerId) text → IsPaymentEntry text
  amounts : AmountsKept customerId s.world.database
  within : AllowedWithin cfg customerId rail s.world.database

namespace Holds

variable {cfg : ApiSettings} {customerId : String} {rail : PaymentMethod} {s s' : State}

theorem initial {runs : Nat → Create.Run} (hruns : ∀ n, PaysCents customerId (runs n))
    (h : Initial cfg customerId rail runs s) : Holds cfg customerId rail s where
  obeys n := by
    rw [h.call]
    exact execute_reads cfg (hruns n)
  entries := h.entries
  amounts := h.amounts
  within := h.within

/-- The replies are those that are admitted. -/
theorem admits (h : Holds cfg customerId rail s) {i : ApiInput} {c : ApiCommand}
    (hanswered : ∀ command ∈ c.redis?, (s.world.execRedis i command).1.isSome = true) :
    AdmitsEntries customerId c (s.world.exec i c).1 := by
  cases c with
  | redis command =>
    cases command with
    | lrange key start stop =>
      rintro rfl
      obtain ⟨entries, hentries⟩ := Option.isSome_iff_exists.1 (hanswered _ rfl)
      obtain ⟨_, hexec⟩ := Backend.execRedis_eq_some hentries
      obtain ⟨items, hlist, heq⟩ := Option.map_eq_some_iff.1 hexec
      cases heq
      refine ⟨_, hentries, fun text htext => ?_, ?_⟩
      · exact h.entries text (Redis.Store.hasItem_of_list? hlist
          (List.mem_of_mem_take (List.mem_of_mem_drop htext)))
      · rw [List.length_drop, List.length_take]
        omega
    | _ => trivial
  | _ => trivial

/-- An allowed command leaves entries of payments. -/
theorem entries_exec (h : Holds cfg customerId rail s) (i : ApiInput) {history : ApiHistory}
    {c : ApiCommand} (hallows : AllowsEntries cfg customerId history c) (text : StoredText)
    (htext : (s.world.exec i c).2.redis.HasItem (amlHistoryKey customerId) text) :
    IsPaymentEntry text := by
  cases c with
  | redis command =>
    replace htext : (s.world.execRedis i command).2.redis.HasItem (amlHistoryKey customerId) text :=
      htext
    rcases s.world.execRedis_cases i command with ⟨reply, redis, hexec, heq⟩ | heq
    · rw [heq] at htext
      by_cases hkey : amlHistoryKey customerId = command.key
      · rw [hkey] at htext
        rcases Redis.exec_item hexec htext with hold | hitem
        · exact h.entries text (hkey ▸ hold)
        · cases command with
          | lpush key text' =>
            cases show text = text' from hitem
            exact hallows hkey.symm
          | _ => exact hitem.elim
      · obtain ⟨e, items, he, hitems⟩ := htext
        exact h.entries text ⟨e, items, (Redis.exec_of_ne hexec hkey).symm.trans he, hitems⟩
    · rw [heq] at htext
      exact h.entries text htext
  | commit payment event record =>
    simp only [Backend.exec] at htext
    split at htext <;> exact h.entries text htext
  | _ => exact h.entries text htext

/-- A payment that is committed as allowed is within the threshold, with all that has been allowed
since a window before it. -/
theorem database_exec (h : Holds cfg customerId rail s) (i : ApiInput) {history : ApiHistory}
    {c : ApiCommand} (hallows : AllowsEntries cfg customerId history c)
    (hread : ∀ payment ∈ c.inserts? s.world.database, IsAllowed customerId rail payment →
      s.world.database.allowedSince customerId rail (payment.createdAt - totalWindow cfg) ≤
        readTotal cfg customerId rail history) :
    AmountsKept customerId (s.world.exec i c).2.database ∧
      AllowedWithin cfg customerId rail (s.world.exec i c).2.database := by
  cases c with
  | redis command =>
    change AmountsKept customerId (s.world.execRedis i command).2.database ∧
      AllowedWithin cfg customerId rail (s.world.execRedis i command).2.database
    rw [(s.world.execRedis_frame i command).1]
    exact ⟨h.amounts, h.within⟩
  | commit payment event record =>
    simp only [Backend.exec]
    split
    · next haccepts =>
      refine ⟨h.amounts.insert fun hcustomer => (hallows hcustomer).1,
        h.within.insert h.amounts fun hallowed => ?_⟩
      have htotal := hread payment (if_pos haccepts) hallowed
      obtain ⟨hcustomer, rfl, hallow⟩ := hallowed
      obtain ⟨⟨m, hamount, -⟩, hwithin⟩ := hallows hcustomer
      obtain ⟨read, hfirst, hle⟩ := hwithin hallow
      have hreadTotal : readTotal cfg customerId payment.method history =
          recentTotal cfg payment.method read := by
        rw [readTotal, hfirst]
        rfl
      rw [hreadTotal, Decimal.le_iff_toRat] at htotal
      exact ⟨⟨m, hamount⟩, by linarith⟩
    · exact ⟨h.amounts, h.within⟩
  | _ => exact ⟨h.amounts, h.within⟩

theorem next (h : Holds cfg customerId rail s) {n : Nat} {i : ApiInput}
    (hguard : readsAllowed cfg customerId rail n s.world (s.proc n) i)
    (hstep : s.step n i = some s') : Holds cfg customerId rail s' := by
  obtain ⟨c, hstepped, hallows, hobeys⟩ := Handler.obeys_next h.obeys hstep
  have hworld : s'.world = (s.world.exec i c).2 := hstepped.world
  obtain ⟨hanswered, hread⟩ := hguard
  unfold answered at hanswered
  rw [hstepped.next, Option.bind_some] at hanswered hread
  obtain ⟨hamounts, hwithin⟩ := h.database_exec i hallows hread
  refine ⟨hobeys (h.admits hanswered), ?_, ?_, ?_⟩
  · rw [hworld]
    exact h.entries_exec i hallows
  · rw [hworld]
    exact hamounts
  · rw [hworld]
    exact hwithin

end Holds

/-- The AML total holds in every run in which every payment that is committed as allowed is of a
call that has read no less than what has been allowed since a window before the payment. -/
theorem aml_total_within_threshold {cfg : ApiSettings} {customerId : String} {rail : PaymentMethod}
    {runs : Nat → Create.Run} {s₀ s : State} (hruns : ∀ n, PaysCents customerId (runs n))
    (h₀ : Initial cfg customerId rail runs s₀)
    (hrun : creationCalls.Reaches (readsAllowed cfg customerId rail) s₀ s) :
    AllowedWithin cfg customerId rail s.world.database :=
  (hrun.invariant (fun hi hguard hstep => Holds.next hi hguard hstep)
    (Holds.initial hruns h₀)).within

/-! ## Runs -/

/-- Calls of one customer for the same amount each, with two idempotency keys. -/
def sampleRuns (amount : Decimal) (n : Nat) : Create.Run :=
  { Create.Run.sampleRequest with
    context := ⟨"m", "c", "a", if n = 0 then "k" else "k2"⟩
    request := ⟨amount, "BRL", .pix, none⟩ }

/-- A customer without payments. -/
def sample (amount : Decimal) : State where
  world := Create.Run.openStart
  proc n := ⟨[], (sampleRuns amount n).execute .default⟩

theorem sample_initial (amount : Decimal) :
    Initial .default "c" .pix (sampleRuns amount) (sample amount) where
  call _ := rfl
  entries text htext := by
    obtain ⟨_, _, he, -⟩ := htext
    cases he
  amounts _ hrow := by cases hrow
  within rows hrows _ _ _ := by
    cases List.eq_nil_of_sublist_nil hrows
    decide

theorem sampleRuns_pay {m : Int} (hm : 0 < m) (hm' : m < 10 ^ 18) (n : Nat) :
    PaysCents "c" (sampleRuns ⟨m, -2⟩ n) :=
  fun _ => ⟨m, Decimal.isCents_mk m, hm, hm'⟩

/-- `k` commands of call `n`, with Redis available and the clock at zero. -/
def commands (n k : Nat) : List (Σ i, creationCalls.Act i) :=
  List.replicate k ⟨n, (⟨0, .answered, n⟩ : ApiInput)⟩

/-- What the AML rules make of a payment, and when. -/
abbrev Summary : Type :=
  String × PaymentMethod × AmlDecision × Instant × Decimal

def summary (row : Payment) : Summary :=
  (row.customerId, row.method, row.amlDecision, row.createdAt, row.amount)

def summaries (s : State) : List Summary :=
  s.world.database.payments.map summary

/-- A payment that is allowed at time zero. -/
def allowedAtZero (amount : Decimal) : Summary :=
  ("c", .pix, .allow, 0, amount)

/-- One call for 2000.00 after the other: the second reads what the first has recorded, and both are
allowed. -/
theorem aml_total_within_threshold_sequential : ∃ s : State,
    summaries s = [allowedAtZero ⟨200000, -2⟩, allowedAtZero ⟨200000, -2⟩] ∧
      AllowedWithin .default "c" .pix s.world.database := by
  have hrun : (System.State.run (readsAllowed .default "c" .pix) (commands 0 38 ++ commands 1 28)
      (sample ⟨200000, -2⟩)).map summaries =
        some [allowedAtZero ⟨200000, -2⟩, allowedAtZero ⟨200000, -2⟩] := by decide +kernel
  obtain ⟨s, hs, hsummaries⟩ := Option.map_eq_some_iff.1 hrun
  exact ⟨s, hsummaries, aml_total_within_threshold (sampleRuns_pay (by decide) (by decide))
    (sample_initial _) (System.Reaches.of_run hs)⟩

/-- Two payments of one amount that are allowed at the same time are together within the
threshold. -/
theorem AllowedWithin.two {cfg : ApiSettings} {s : State} {amount : Decimal}
    (h : AllowedWithin cfg "c" .pix s.world.database)
    (hsummaries : summaries s = [allowedAtZero amount, allowedAtZero amount])
    (hwindow : 0 ≤ totalWindow cfg) :
    Decimal.sum [amount, amount] ≤ cfg.amlTotalThresholdAmount := by
  have hrow (row : Payment) (hrow : row ∈ s.world.database.payments) :
      summary row = allowedAtZero amount := by
    have hmem : summary row ∈ summaries s := List.mem_map_of_mem hrow
    rw [hsummaries] at hmem
    simpa using hmem
  have hamounts : s.world.database.payments.map (·.amount) = [amount, amount] := by
    have hmap := congrArg (List.map fun x : Summary => x.2.2.2.2) hsummaries
    unfold summaries at hmap
    rw [List.map_map] at hmap
    exact hmap
  rw [← hamounts]
  refine h _ (List.Sublist.refl _) (fun row hmem => ?_) 0 fun row hmem => ?_
  · have heq := hrow row hmem
    simp only [summary, allowedAtZero, Prod.mk.injEq] at heq
    exact ⟨heq.1, heq.2.1, heq.2.2.1⟩
  · have heq := hrow row hmem
    simp only [summary, allowedAtZero, Prod.mk.injEq] at heq
    rw [heq.2.2.2.1]
    exact ⟨le_rfl, by simpa using hwindow⟩

/-- Both of two calls for 3000.00 read the history before the other records its payment, and both
are allowed by a threshold of 5000.00. -/
theorem aml_total_exceeds_threshold : ¬ ∀ (cfg : ApiSettings) (customerId : String)
    (rail : PaymentMethod) (runs : Nat → Create.Run) (s₀ s : State),
    (∀ n, PaysCents customerId (runs n)) → Initial cfg customerId rail runs s₀ →
      creationCalls.Reaches answered s₀ s →
        (s.world.database.paymentsOf customerId).length < amlHistoryMaxItems →
          AllowedWithin cfg customerId rail s.world.database := by
  intro hwithin
  have hrun : (System.State.run answered (commands 0 32 ++ commands 1 28 ++ commands 0 1)
      (sample ⟨300000, -2⟩)).map summaries =
        some [allowedAtZero ⟨300000, -2⟩, allowedAtZero ⟨300000, -2⟩] := by decide +kernel
  obtain ⟨s, hs, hsummaries⟩ := Option.map_eq_some_iff.1 hrun
  have hfew : (s.world.database.paymentsOf "c").length < amlHistoryMaxItems :=
    calc (s.world.database.paymentsOf "c").length ≤ s.world.database.payments.length :=
          List.length_filter_le _ _
      _ = (summaries s).length := (List.length_map _).symm
      _ < amlHistoryMaxItems := by
        rw [hsummaries]
        decide
  have h := hwithin .default "c" .pix (sampleRuns ⟨300000, -2⟩) (sample ⟨300000, -2⟩) s
    (sampleRuns_pay (by decide) (by decide)) (sample_initial _) (System.Reaches.of_run hs) hfew
  exact absurd (AllowedWithin.two h hsummaries (by decide)) (by decide)

end AmlAggregation

end PaymentsLab
