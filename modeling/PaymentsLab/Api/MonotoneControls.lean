import PaymentsLab.Api.TrimmedHistory
import PaymentsLab.Api.AmlHistory
import PaymentsLab.Contracts.DecimalRounding

/-!
# Controls are monotone

Two evaluations of the risk and AML controls for the same customer, policy and destination, at the
same time: if the second one has no less of an amount, of a velocity count, of failures and of a
history, its decisions are at least as severe (`controls_monotone`). The total of a history is
rounded to the precision of the context after every addition, so a history has to keep its order,
unless its amounts add exactly, as whole cents do.
-/

namespace PaymentsLab

open Foundation Program ApiProgram Decimal

/-! ## Histories -/

namespace AmlRuleEngine

/-- The entry of a positive amount. -/
def IsPositiveEntry (text : StoredText) : Prop :=
  ∃ timestamp rail amount, text = .amlEntry timestamp rail amount ∧ 0 < amount

theorem IsPositiveEntry.isEntry {text : StoredText} (h : IsPositiveEntry text) : IsEntry text := by
  obtain ⟨timestamp, rail, amount, rfl, -⟩ := h
  exact ⟨timestamp, rail, amount, rfl⟩

/-- The amount of an entry. -/
def entryAmount : StoredText → Decimal
  | .amlEntry _ _ amount => amount
  | _ => 0

/-- The second history has the entries of the first, in their order, or in any order if its amounts
add exactly. -/
def HistoryAtMost (entries₁ entries₂ : List StoredText) : Prop :=
  entries₁.Sublist entries₂ ∨
    entries₁.Subperm entries₂ ∧ Decimal.AddExactly (entries₂.map entryAmount)

/-- The amounts of payments of whole cents add exactly. -/
theorem addExactly_of_payments {entries : List StoredText}
    (hentries : ∀ text ∈ entries, IsPaymentEntry text) (hlength : entries.length ≤ 10 ^ 9) :
    Decimal.AddExactly (entries.map entryAmount) := by
  have hsum {entries : List StoredText} (hentries : ∀ text ∈ entries, IsPaymentEntry text) :
      (Decimal.sum (entries.map entryAmount)).toRat ≤ entries.length * 10 ^ 16 := by
    induction entries with
    | nil => simp
    | cons text entries ih =>
      obtain ⟨timestamp, rail, amount, m, rfl, hcents, -, hm⟩ := hentries text List.mem_cons_self
      have hrest := ih fun text htext => hentries text (List.mem_cons_of_mem _ htext)
      have hcast : (m : ℚ) ≤ 10 ^ 18 := by exact_mod_cast hm.le
      have hamount := isCents_iff.1 hcents
      rw [List.map_cons, toRat_sum_cons, entryAmount, hamount, List.length_cons]
      push_cast
      linarith
  refine addExactly_of_units (e := -2) (by decide) (fun d hd => ?_) ?_
  · obtain ⟨text, htext, rfl⟩ := List.mem_map.1 hd
    obtain ⟨timestamp, rail, amount, m, rfl, hcents, hm, -⟩ := hentries text htext
    exact ⟨m, hcents, hm.le⟩
  · have hcast : (entries.length : ℚ) ≤ 10 ^ 9 := by exact_mod_cast hlength
    exact (hsum hentries).trans_lt
      ((mul_le_mul_of_nonneg_right hcast (by positivity)).trans_lt (by norm_num))

/-- Histories of payments of whole cents compare in any order. -/
theorem HistoryAtMost.of_payments {entries₁ entries₂ : List StoredText}
    (h : entries₁.Subperm entries₂) (hentries : ∀ text ∈ entries₂, IsPaymentEntry text)
    (hlength : entries₂.length ≤ 10 ^ 9) : HistoryAtMost entries₁ entries₂ :=
  .inr ⟨h, addExactly_of_payments hentries hlength⟩

section Totals

variable {rail : String} {cutoff : Int} {entries₁ entries₂ : List StoredText}

/-- The loop of `_sum_recent` ends with a finite total, or signals. -/
theorem sumRecentFrom_cases (rail : String) (cutoff : Int) {entries : List StoredText}
    (hentries : ∀ text ∈ entries, IsPositiveEntry text) (total : Decimal) :
    (∃ sum, sumRecentFrom rail cutoff (.finite total) entries = pure (.finite sum)) ∨
      sumRecentFrom rail cutoff (.finite total) entries = throw .decimalSignal := by
  induction entries generalizing total with
  | nil => exact .inl ⟨total, rfl⟩
  | cons text entries ih =>
    have hrest := ih fun text htext => hentries text (List.mem_cons_of_mem _ htext)
    obtain ⟨timestamp, rail', amount, rfl, -⟩ := hentries text List.mem_cons_self
    simp only [sumRecentFrom, tryParseEntry]
    split
    · simp only [DecimalValue.add]
      split
      · exact .inr rfl
      · exact hrest (total + amount)
    · exact hrest total

/-- Totals of a history and of one that has more entries, in the same order. -/
theorem sumRecentFrom_mono (h : entries₁.Sublist entries₂)
    (hentries : ∀ text ∈ entries₂, IsPositiveEntry text) {total₁ total₂ sum₁ sum₂ : Decimal}
    (hle : total₁.toRat ≤ total₂.toRat) (h₁ : 0 ≤ total₁.coeff) (h₂ : 0 ≤ total₂.coeff)
    (hrounded : total₂.IsRounded)
    (hrun₁ : sumRecentFrom rail cutoff (.finite total₁) entries₁ = pure (.finite sum₁))
    (hrun₂ : sumRecentFrom rail cutoff (.finite total₂) entries₂ = pure (.finite sum₂)) :
    0 ≤ sum₁.coeff ∧ sum₁.toRat ≤ sum₂.toRat := by
  induction h generalizing total₁ total₂ with
  | slnil =>
    cases hrun₁
    cases hrun₂
    exact ⟨h₁, hle⟩
  | @cons entries₁ entries₂ text h ih =>
    have hrest := fun text htext => hentries text (List.mem_cons_of_mem _ htext)
    obtain ⟨timestamp, rail', amount, rfl, hamount⟩ := hentries text List.mem_cons_self
    have hpos := (coeff_pos hamount).le
    simp only [sumRecentFrom, tryParseEntry] at hrun₂
    split at hrun₂
    · simp only [DecimalValue.add] at hrun₂
      split at hrun₂
      · cases hrun₂
      · exact ih hrest (hle.trans (toRat_le_add hrounded h₂ hpos)) h₁ (add_coeff_nonneg h₂ hpos)
          (isRounded_add h₂ hpos) hrun₁ hrun₂
    · exact ih hrest hle h₁ h₂ hrounded hrun₁ hrun₂
  | @cons_cons entries₁ entries₂ text h ih =>
    have hrest := fun text htext => hentries text (List.mem_cons_of_mem _ htext)
    obtain ⟨timestamp, rail', amount, rfl, hamount⟩ := hentries text List.mem_cons_self
    have hpos := (coeff_pos hamount).le
    simp only [sumRecentFrom, tryParseEntry] at hrun₁ hrun₂
    by_cases hrecent : cutoff ≤ timestamp ∧ rail'.value = rail
    · rw [if_pos hrecent] at hrun₁ hrun₂
      simp only [DecimalValue.add] at hrun₁ hrun₂
      split at hrun₁
      · cases hrun₁
      · split at hrun₂
        · cases hrun₂
        · exact ih hrest (toRat_add_mono h₁ hpos h₂ hpos hle le_rfl) (add_coeff_nonneg h₁ hpos)
            (add_coeff_nonneg h₂ hpos) (isRounded_add h₂ hpos) hrun₁ hrun₂
    · rw [if_neg hrecent] at hrun₁ hrun₂
      exact ih hrest hle h₁ h₂ hrounded hrun₁ hrun₂

/-- The entry is one that `_sum_recent` counts. -/
def isRecent (rail : String) (cutoff : Int) : StoredText → Bool
  | .amlEntry timestamp rail' _ => cutoff ≤ timestamp ∧ rail'.value = rail
  | _ => false

/-- The loop of `_sum_recent` adds the amounts of the entries it counts. -/
theorem sumRecentFrom_eq_foldl {entries : List StoredText}
    (hentries : ∀ text ∈ entries, IsPositiveEntry text) {total sum : Decimal}
    (hrun : sumRecentFrom rail cutoff (.finite total) entries = pure (.finite sum)) :
    sum = ((entries.filter (isRecent rail cutoff)).map entryAmount).foldl (· + ·) total := by
  induction entries generalizing total with
  | nil =>
    cases hrun
    rfl
  | cons text entries ih =>
    have hrest := fun text htext => hentries text (List.mem_cons_of_mem _ htext)
    obtain ⟨timestamp, rail', amount, rfl, -⟩ := hentries text List.mem_cons_self
    simp only [sumRecentFrom, tryParseEntry] at hrun
    by_cases hrecent : cutoff ≤ timestamp ∧ rail'.value = rail
    · rw [if_pos hrecent] at hrun
      simp only [DecimalValue.add] at hrun
      split at hrun
      · cases hrun
      · rw [List.filter_cons_of_pos (by simpa [isRecent] using hrecent)]
        exact ih hrest hrun
    · rw [if_neg hrecent] at hrun
      rw [List.filter_cons_of_neg (by simpa [isRecent] using hrecent)]
      exact ih hrest hrun

/-- Totals of amounts that add exactly, in any order. -/
theorem sumRecent_mono_of_subperm (h : entries₁.Subperm entries₂)
    (hexact : Decimal.AddExactly (entries₂.map entryAmount))
    (hentries : ∀ text ∈ entries₂, IsPositiveEntry text) {sum₁ sum₂ : Decimal}
    (hrun₁ : sumRecent entries₁ rail cutoff = pure (.finite sum₁))
    (hrun₂ : sumRecent entries₂ rail cutoff = pure (.finite sum₂)) :
    0 ≤ sum₁.coeff ∧ sum₁.toRat ≤ sum₂.toRat := by
  have hmap {as bs : List StoredText} (h : as.Subperm bs) :
      (as.map entryAmount).Subperm (bs.map entryAmount) := by
    obtain ⟨xs, hperm, hsublist⟩ := h
    exact ⟨xs.map entryAmount, hperm.map _, hsublist.map _⟩
  have hvalue {entries : List StoredText} (hsub : entries.Subperm entries₂) {sum : Decimal}
      (hrun : sumRecent entries rail cutoff = pure (.finite sum)) :
      sum.toRat =
        (Decimal.sum ((entries.filter (isRecent rail cutoff)).map entryAmount)).toRat := by
    rw [sumRecentFrom_eq_foldl (fun text htext => hentries text (hsub.subset htext)) hrun]
    exact hexact _ (hmap (List.filter_sublist.subperm.trans hsub))
  have hpos {entries : List StoredText} (hsub : entries.Subperm entries₂) :
      ∀ d ∈ entries.map entryAmount, 0 ≤ d.toRat := by
    intro d hd
    obtain ⟨text, htext, rfl⟩ := List.mem_map.1 hd
    obtain ⟨timestamp, rail', amount, rfl, hamount⟩ := hentries text (hsub.subset htext)
    exact toRat_nonneg (coeff_pos hamount).le
  have hfiltered {entries : List StoredText} (hsub : entries.Subperm entries₂) :=
    hpos ((List.filter_sublist (p := isRecent rail cutoff) (l := entries)).subperm.trans hsub)
  rw [hvalue h hrun₁, hvalue (.refl _) hrun₂]
  refine ⟨coeff_nonneg ?_, toRat_sum_le_of_subperm (hmap (h.filter _)) (hfiltered (.refl _))⟩
  rw [hvalue h hrun₁]
  exact toRat_sum_nonneg (hfiltered h)

/-- A history that has no less has no smaller a total. -/
theorem sumRecent_mono (h : HistoryAtMost entries₁ entries₂)
    (hentries : ∀ text ∈ entries₂, IsPositiveEntry text) {sum₁ sum₂ : Decimal}
    (hrun₁ : sumRecent entries₁ rail cutoff = pure (.finite sum₁))
    (hrun₂ : sumRecent entries₂ rail cutoff = pure (.finite sum₂)) :
    0 ≤ sum₁.coeff ∧ sum₁.toRat ≤ sum₂.toRat := by
  rcases h with hsublist | ⟨hsubperm, hexact⟩
  · exact sumRecentFrom_mono hsublist hentries le_rfl le_rfl le_rfl isRounded_zero hrun₁ hrun₂
  · exact sumRecent_mono_of_subperm hsubperm hexact hentries hrun₁ hrun₂

theorem HistoryAtMost.subperm (h : HistoryAtMost entries₁ entries₂) : entries₁.Subperm entries₂ :=
  h.elim List.Sublist.subperm And.left

/-- A history that has no less has no smaller a count. -/
theorem countNear_mono (rail : String) (cutoff : Int) (h : HistoryAtMost entries₁ entries₂)
    (hentries : ∀ text ∈ entries₂, IsPositiveEntry text) (low high : Decimal) :
    ∃ count₁ count₂ : Int, countNear entries₁ rail cutoff low high = pure count₁ ∧
      countNear entries₂ rail cutoff low high = pure count₂ ∧ count₁ ≤ count₂ := by
  have hentries₁ : ∀ text ∈ entries₁, IsEntry text := fun text htext =>
    (hentries text (h.subperm.subset htext)).isEntry
  refine ⟨_, _, countNearFrom_eq rail cutoff low high 0 hentries₁,
    countNearFrom_eq rail cutoff low high 0 fun text htext => (hentries text htext).isEntry, ?_⟩
  have hcount := h.subperm.countP_le (isNear rail cutoff low high)
  omega

end Totals

end AmlRuleEngine

/-! ## Severity -/

def AmlDecision.severity : AmlDecision → Nat
  | .allow => 0
  | .review => 1
  | .block => 2

def RiskDecision.severity : RiskDecision → Nat
  | .allow => 0
  | .review => 1
  | .block => 2

/-- The order of the statuses a creation ends in. -/
def PaymentStatus.severity : PaymentStatus → Nat
  | .blocked => 2
  | .inReview => 1
  | _ => 0

theorem Create.severity_resolveStatusFromDecisions (risk : RiskDecision) (aml : AmlDecision) :
    (resolveStatusFromDecisions risk aml).severity = max risk.severity aml.severity := by
  cases risk <;> cases aml <;> rfl

namespace AmlRuleEngine

/-- The rules over a total and a count are monotone. -/
theorem evaluateFrom_mono {cfg : ApiSettings} {policy : LimitsPolicy} {destination : Option String}
    {sum₁ sum₂ amount₁ amount₂ : Decimal} {count₁ count₂ : Int} {d₁ d₂ : AmlDecision}
    (hsum₁ : 0 ≤ sum₁.coeff) (hsum : sum₁.toRat ≤ sum₂.toRat) (hamount₁ : 0 < amount₁)
    (hamount : amount₁ ≤ amount₂) (hcount : count₁ ≤ count₂)
    (hrun₁ : evaluateFrom cfg amount₁ destination policy (pure (.finite sum₁)) (pure count₁) =
      pure d₁)
    (hrun₂ : evaluateFrom cfg amount₂ destination policy (pure (.finite sum₂)) (pure count₂) =
      pure d₂) : d₁.severity ≤ d₂.severity := by
  have hpos₁ := (coeff_pos hamount₁).le
  rw [le_iff_toRat] at hamount
  have hpos₂ := coeff_nonneg ((toRat_nonneg hpos₁).trans hamount)
  have hsum₂ := coeff_nonneg ((toRat_nonneg hsum₁).trans hsum)
  have hadd : (sum₁ + amount₁).toRat ≤ (sum₂ + amount₂).toRat :=
    toRat_add_mono hsum₁ hpos₁ hsum₂ hpos₂ hsum hamount
  by_cases hblocked : blocklisted cfg destination = true
  · simp only [evaluateFrom, hblocked, if_true] at hrun₁ hrun₂
    cases hrun₁
    cases hrun₂
    exact le_rfl
  simp only [evaluateFrom, hblocked, Bool.false_eq_true, if_false, pure_bind,
    DecimalValue.add] at hrun₁ hrun₂
  split at hrun₁
  · cases hrun₁
  split at hrun₂
  · cases hrun₂
  simp only [AmlRuleEngine.decimal, pure_bind, DecimalValue.gt?, DecimalValue.le?, Option.map_some,
    Bool.not_eq_true', decide_eq_false_iff_not] at hrun₁ hrun₂
  have hnear : (if policy.maxAmount * ⟨95, -2⟩ ≤ amount₁ then count₁ + 1 else count₁) ≤
      if policy.maxAmount * ⟨95, -2⟩ ≤ amount₂ then count₂ + 1 else count₂ := by
    by_cases hlarge : policy.maxAmount * ⟨95, -2⟩ ≤ amount₁
    · have hlarge₂ : policy.maxAmount * ⟨95, -2⟩ ≤ amount₂ :=
        le_iff_toRat.2 ((le_iff_toRat.1 hlarge).trans hamount)
      rw [if_pos hlarge, if_pos hlarge₂]
      omega
    · rw [if_neg hlarge]
      split <;> omega
  generalize (if policy.maxAmount * ⟨95, -2⟩ ≤ amount₁ then count₁ + 1 else count₁) = near₁
    at hnear hrun₁
  generalize (if policy.maxAmount * ⟨95, -2⟩ ≤ amount₂ then count₂ + 1 else count₂) = near₂
    at hnear hrun₂
  by_cases hbelow₂ : sum₂ + amount₂ ≤ cfg.amlTotalThresholdAmount
  · have hbelow₁ : sum₁ + amount₁ ≤ cfg.amlTotalThresholdAmount :=
      le_iff_toRat.2 (hadd.trans (le_iff_toRat.1 hbelow₂))
    rw [if_neg (not_not.2 hbelow₁)] at hrun₁
    rw [if_neg (not_not.2 hbelow₂)] at hrun₂
    split at hrun₁
    · next hmany =>
      rw [if_pos (hmany.trans hnear)] at hrun₂
      cases hrun₁
      cases hrun₂
      exact le_rfl
    · cases hrun₁
      exact Nat.zero_le _
  · rw [if_pos hbelow₂] at hrun₂
    cases hrun₂
    split at hrun₁
    · cases hrun₁
      exact le_rfl
    · split at hrun₁ <;> cases hrun₁ <;> decide

/-- The AML decision is monotone. -/
theorem evaluate_mono {cfg : ApiSettings} {customerId : String} {rail : PaymentMethod}
    {policy : LimitsPolicy} {destination : Option String} {amount₁ amount₂ : Decimal}
    {b₁ b₂ : Backend} {is₁ is₂ : Nat → ApiInput} {entries₁ entries₂ : List StoredText}
    (h₁ : Answers Backend.handler b₁ is₁ (amlHistoryKey customerId) entries₁)
    (h₂ : Answers Backend.handler b₂ is₂ (amlHistoryKey customerId) entries₂)
    (hclock : ∀ n, (is₁ n).now = (is₂ n).now) (hhistory : HistoryAtMost entries₁ entries₂)
    (hentries : ∀ text ∈ entries₂, IsPositiveEntry text) (hamount₁ : 0 < amount₁)
    (hamount : amount₁ ≤ amount₂) {d₁ d₂ : AmlDecision}
    (hrun₁ : ((evaluate cfg customerId rail amount₁ destination policy).run Backend.handler b₁
      is₁).outcome = .ok d₁)
    (hrun₂ : ((evaluate cfg customerId rail amount₂ destination policy).run Backend.handler b₂
      is₂).outcome = .ok d₂) : d₁.severity ≤ d₂.severity := by
  have hentries₁ : ∀ text ∈ entries₁, IsPositiveEntry text := fun text htext =>
    hentries text (hhistory.subperm.subset htext)
  obtain ⟨count₁, count₂, hcount₁, hcount₂, hcount⟩ := countNear_mono rail.value
    (wholeSeconds (is₂ 2).now - cfg.amlStructuringWindowSeconds) hhistory hentries
    (policy.maxAmount * ⟨95, -2⟩) policy.maxAmount
  rw [h₁.run_evaluate, hclock 0, hclock 2, hcount₁] at hrun₁
  rw [h₂.run_evaluate, hcount₂] at hrun₂
  replace hrun₁ := Issues.eq_pure (issues_evaluateFrom cfg amount₁ destination policy
    (issues_sumRecentFrom _ _ _ _) (issues_pure count₁)) hrun₁
  replace hrun₂ := Issues.eq_pure (issues_evaluateFrom cfg amount₂ destination policy
    (issues_sumRecentFrom _ _ _ _) (issues_pure count₂)) hrun₂
  by_cases hblocked : blocklisted cfg destination = true
  · simp only [evaluateFrom, hblocked, if_true] at hrun₁ hrun₂
    cases hrun₁
    cases hrun₂
    exact le_rfl
  have hcases {entries : List StoredText} (h : ∀ text ∈ entries, IsPositiveEntry text) :=
    sumRecentFrom_cases rail.value (wholeSeconds (is₂ 0).now - cfg.amlTotalWindowSeconds) h 0
  rcases hcases hentries₁ with ⟨sum₁, hsum₁⟩ | hsignal
  · rcases hcases hentries with ⟨sum₂, hsum₂⟩ | hsignal
    · obtain ⟨hpos, hsum⟩ := sumRecent_mono hhistory hentries hsum₁ hsum₂
      rw [hsum₁] at hrun₁
      rw [hsum₂] at hrun₂
      exact evaluateFrom_mono hpos hsum hamount₁ hamount hcount hrun₁ hrun₂
    · simp only [evaluateFrom, hblocked, Bool.false_eq_true, if_false, hsignal] at hrun₂
      cases hrun₂
  · simp only [evaluateFrom, hblocked, Bool.false_eq_true, if_false, hsignal] at hrun₁
    cases hrun₁

end AmlRuleEngine

/-! ## The risk score -/

namespace RiskScoreService

/-- Two contexts that differ in the amount, the velocity count and the failures, of which the second
has no less. -/
structure Context.AtMost (c₁ c₂ : Context) : Prop where
  amount : c₁.amount ≤ c₂.amount
  policyMax : c₁.policyMax = c₂.policyMax
  velocityCount : c₁.velocityCount ≤ c₂.velocityCount
  velocityLimit : c₁.velocityLimit = c₂.velocityLimit
  repeatedFailures : c₁.repeatedFailures ≤ c₂.repeatedFailures
  isNewCustomer : c₁.isNewCustomer = c₂.isNewCustomer
  customerKyc : c₁.customerKyc = c₂.customerKyc
  destinationSeen : c₁.destinationSeen = c₂.destinationSeen

/-- The score of a context that has no less is no smaller. -/
theorem Context.AtMost.score_le {c₁ c₂ : Context} (h : c₁.AtMost c₂) : c₁.score ≤ c₂.score := by
  have hamount : c₁.amountNearMax ≤ c₂.amountNearMax := by
    unfold amountNearMax
    rw [← h.policyMax]
    by_cases hlarge : c₁.policyMax * ⟨9, -1⟩ ≤ c₁.amount
    · have hlarge₂ : c₁.policyMax * ⟨9, -1⟩ ≤ c₂.amount :=
        le_iff_toRat.2 ((le_iff_toRat.1 hlarge).trans (le_iff_toRat.1 h.amount))
      rw [if_pos hlarge, if_pos hlarge₂]
    · rw [if_neg hlarge]
      split <;> omega
  have hvelocity : c₁.velocitySpike ≤ c₂.velocitySpike := by
    have hcount := h.velocityCount
    unfold velocitySpike
    rw [← h.velocityLimit]
    split_ifs <;> omega
  have hfailures : c₁.repeatedFailuresScore ≤ c₂.repeatedFailuresScore := by
    have hcount := h.repeatedFailures
    unfold repeatedFailuresScore
    split_ifs <;> omega
  have hcustomer : c₁.newCustomerLowKyc = c₂.newCustomerLowKyc := by
    unfold newCustomerLowKyc
    rw [h.isNewCustomer, h.customerKyc]
  have hdestination : c₁.newDestination = c₂.newDestination := by
    unfold newDestination
    rw [h.destinationSeen]
  unfold score
  omega

/-- A larger score gets a decision at least as severe, in whichever order the thresholds are. -/
theorem decisionFromScore_mono (cfg : ApiSettings) {score₁ score₂ : Int} (h : score₁ ≤ score₂) :
    (decisionFromScore cfg score₁).severity ≤ (decisionFromScore cfg score₂).severity := by
  unfold decisionFromScore
  split_ifs <;> first | decide | omega

/-- Whether a destination, if there is one, has been seen. -/
def seenIn (db : Database) (customerId : String) (destination : Option String) : Bool :=
  destination.any fun destination =>
    destination ≠ "" ∧ db.destinationSeen customerId destination

/-- The context of an evaluation. -/
def contextIn (db : Database) (customer : Customer) (amount : Decimal) (policy : LimitsPolicy)
    (velocityCount : Int) (destination : Option String) (t : Instant) : Context where
  amount := amount
  policyMax := policy.maxAmount
  velocityCount := velocityCount
  velocityLimit := policy.velocityLimitCount
  repeatedFailures := db.countFailuresSince customer.customerId (t - 86400000000)
  isNewCustomer := isNewCustomer customer t
  customerKyc := customer.kycLevel
  destinationSeen := seenIn db customer.customerId destination

/-- An evaluation scores the context of its reading of the clock; how many commands it issues
depends on the destination only. -/
theorem run_evaluate (cfg : ApiSettings) (customer : Customer) (destination : Option String) :
    ∃ k, ∀ amount policy velocityCount b is,
      (evaluate cfg customer amount policy velocityCount destination).run Backend.handler b is =
        let context := contextIn b.database customer amount policy velocityCount destination
          (is 0).now
        ⟨.ok (context.score, decisionFromScore cfg context.score), b, fun n => is (n + k)⟩ := by
  cases destination with
  | none => exact ⟨2, fun _ _ _ _ _ => rfl⟩
  | some destination =>
    by_cases hempty : destination = ""
    · subst hempty
      exact ⟨2, fun _ _ _ _ _ => rfl⟩
    · refine ⟨3, fun amount policy velocityCount b is => ?_⟩
      have hissue : ApiProgram.destinationSeen customer.customerId (some destination) =
          ApiProgram.issue (.destinationSeen customer.customerId destination) := by
        unfold ApiProgram.destinationSeen
        split
        · next heq => cases heq
        · next heq => exact absurd (Option.some.inj heq) hempty
        · next heq => rw [Option.some.inj heq]
      have hseen : seenIn b.database customer.customerId (some destination) =
          b.database.destinationSeen customer.customerId destination := by
        simp [seenIn, hempty]
      simp only [evaluate, hissue, contextIn, hseen]
      rfl

end RiskScoreService

/-! ## Both controls -/

namespace MonotoneControls

open AmlRuleEngine RiskScoreService

/-- Two evaluations for the same customer, policy and destination at the same time, the second one
of which has no less of an amount, of a velocity count and of failures. -/
structure AtMost (customer : Customer) (r₁ r₂ : Create.Run) (e₁ e₂ : LimitsService.Evaluation)
    (b₁ b₂ : Backend) (is₁ is₂ : Nat → ApiInput) : Prop where
  customerId : r₁.context.customerId = r₂.context.customerId
  rail : r₁.request.method = r₂.request.method
  destination : r₁.request.destination = r₂.request.destination
  policy : e₁.policy = e₂.policy
  clock : ∀ n, (is₁ n).now = (is₂ n).now
  seen : seenIn b₁.database customer.customerId r₁.request.destination =
    seenIn b₂.database customer.customerId r₂.request.destination
  positive : 0 < r₁.request.amount
  amount : r₁.request.amount ≤ r₂.request.amount
  velocityCount : e₁.velocityCount ≤ e₂.velocityCount
  failures : b₁.database.countFailuresSince customer.customerId ((is₁ 0).now - 86400000000) ≤
    b₂.database.countFailuresSince customer.customerId ((is₂ 0).now - 86400000000)

/-- The second decision is at least as severe in every part. -/
structure NoLessSevere (d₁ d₂ : Create.ControlDecision) : Prop where
  riskScore : d₁.riskScore ≤ d₂.riskScore
  riskDecision : d₁.riskDecision.severity ≤ d₂.riskDecision.severity
  amlDecision : d₁.amlDecision.severity ≤ d₂.amlDecision.severity
  finalStatus : d₁.finalStatus.severity ≤ d₂.finalStatus.severity

theorem NoLessSevere.of_decisions {d₁ d₂ : Create.ControlDecision}
    (hscore : d₁.riskScore ≤ d₂.riskScore)
    (hrisk : d₁.riskDecision.severity ≤ d₂.riskDecision.severity)
    (haml : d₁.amlDecision.severity ≤ d₂.amlDecision.severity) : NoLessSevere d₁ d₂ := by
  refine ⟨hscore, hrisk, haml, ?_⟩
  unfold Create.ControlDecision.finalStatus
  rw [Create.severity_resolveStatusFromDecisions, Create.severity_resolveStatusFromDecisions]
  exact max_le_max hrisk haml

/-- The parts of a decision. -/
theorem run_evaluateControls (cfg : ApiSettings) (customer : Customer)
    (destination : Option String) : ∃ k, ∀ (r : Create.Run) e b is d,
      r.request.destination = destination →
        ((r.evaluateControls cfg customer e).run Backend.handler b is).outcome = .ok d →
          let context := contextIn b.database customer r.request.amount e.policy e.velocityCount
            destination (is 0).now
          d.riskScore = context.score ∧ d.riskDecision = decisionFromScore cfg context.score ∧
            ((AmlRuleEngine.evaluate cfg r.context.customerId r.request.method r.request.amount
              destination e.policy).run Backend.handler b fun n => is (n + k)).outcome =
                .ok d.amlDecision := by
  obtain ⟨k, hrisk⟩ := RiskScoreService.run_evaluate cfg customer destination
  refine ⟨k, fun r e b is d hdestination hrun => ?_⟩
  subst hdestination
  obtain ⟨x, hx, hrest⟩ := run_bind_eq_ok hrun
  rw [hrisk] at hx hrest
  cases hx
  obtain ⟨aml, haml, hlast⟩ := run_bind_eq_ok ((congrArg Ran.outcome hrest).symm.trans hrun)
  cases (congrArg Ran.outcome (hrest.trans hlast)).symm.trans hrun
  exact ⟨rfl, rfl, haml⟩

/-- The controls are monotone: an evaluation that has no less of everything has decisions at least
as severe, and so a final status at least as severe. -/
theorem controls_monotone {cfg : ApiSettings} {customer : Customer} {r₁ r₂ : Create.Run}
    {e₁ e₂ : LimitsService.Evaluation} {b₁ b₂ : Backend} {is₁ is₂ : Nat → ApiInput}
    {entries₁ entries₂ : List StoredText}
    (h : AtMost customer r₁ r₂ e₁ e₂ b₁ b₂ is₁ is₂)
    (h₁ : Answers Backend.handler b₁ is₁ (amlHistoryKey r₁.context.customerId) entries₁)
    (h₂ : Answers Backend.handler b₂ is₂ (amlHistoryKey r₂.context.customerId) entries₂)
    (hhistory : HistoryAtMost entries₁ entries₂)
    (hentries : ∀ text ∈ entries₂, IsPositiveEntry text) {d₁ d₂ : Create.ControlDecision}
    (hrun₁ : ((r₁.evaluateControls cfg customer e₁).run Backend.handler b₁ is₁).outcome = .ok d₁)
    (hrun₂ : ((r₂.evaluateControls cfg customer e₂).run Backend.handler b₂ is₂).outcome = .ok d₂) :
    NoLessSevere d₁ d₂ := by
  obtain ⟨k, hparts⟩ := run_evaluateControls cfg customer r₂.request.destination
  obtain ⟨hscore₁, hrisk₁, haml₁⟩ := hparts r₁ e₁ b₁ is₁ d₁ h.destination hrun₁
  obtain ⟨hscore₂, hrisk₂, haml₂⟩ := hparts r₂ e₂ b₂ is₂ d₂ rfl hrun₂
  have hcontext : (contextIn b₁.database customer r₁.request.amount e₁.policy e₁.velocityCount
      r₂.request.destination (is₁ 0).now).AtMost (contextIn b₂.database customer r₂.request.amount
        e₂.policy e₂.velocityCount r₂.request.destination (is₂ 0).now) := by
    refine ⟨h.amount, congrArg LimitsPolicy.maxAmount h.policy, h.velocityCount,
      congrArg LimitsPolicy.velocityLimitCount h.policy, h.failures, ?_, rfl,
      h.destination ▸ h.seen⟩
    unfold contextIn
    rw [h.clock 0]
  rw [h.customerId, h.rail, h.policy] at haml₁
  rw [h.customerId] at h₁
  refine .of_decisions ?_ ?_ ?_
  · rw [hscore₁, hscore₂]
    exact hcontext.score_le
  · rw [hrisk₁, hrisk₂]
    exact decisionFromScore_mono cfg hcontext.score_le
  · exact evaluate_mono (h₁.later k) (h₂.later k) (fun n => h.clock (n + k)) hhistory hentries
      h.positive h.amount haml₁ haml₂

/-! ## Two histories -/

/-- A customer with some entries in the history. -/
def withHistory (entries : List StoredText) : Backend :=
  ⟨⟨[], [], [], [], []⟩, Function.update (fun _ => none) (amlHistoryKey "c")
    (some ⟨.list entries, none⟩)⟩

theorem answers_withHistory {entries : List StoredText} (hne : entries ≠ [])
    (hlength : entries.length ≤ amlHistoryMaxItems + 1) :
    Answers Backend.handler (withHistory entries) TrimmedHistory.instantly (amlHistoryKey "c")
      entries := by
  have hset : (withHistory entries).redis.HoldsItems (amlHistoryKey "c")
      (entries.take (amlHistoryMaxItems + 1)) none := by
    rw [List.take_of_length_le hlength]
    unfold Redis.Store.HoldsItems
    rw [if_neg hne]
    exact Function.update_self (amlHistoryKey "c") _ fun _ => none
  have hanswers : Answers Backend.handler (withHistory entries) TrimmedHistory.instantly
      (amlHistoryKey "c") (entries.take (amlHistoryMaxItems + 1)) :=
    TrimmedHistory.answers_of_holds (fun _ _ => rfl) (fun _ _ => rfl) hset (fun _ => rfl)
      fun _ => hset.entry_of_lives fun _ t ht => by cases ht
  rw [List.take_of_length_le hlength] at hanswers
  exact hanswers

/-- A payment of an amount. -/
def payment (amount : Decimal) : Create.Run :=
  { Create.Run.sampleRequest with
    request := { Create.Run.sampleRequest.request with amount := amount } }

def evaluation : LimitsService.Evaluation :=
  ⟨Create.Run.samplePolicy, 1⟩

theorem atMost_payment (amount₁ amount₂ : Decimal) (hpos : 0 < amount₁) (hle : amount₁ ≤ amount₂)
    (entries₁ entries₂ : List StoredText) :
    AtMost ⟨"c", .basic, .active, 0⟩ (payment amount₁) (payment amount₂) evaluation evaluation
      (withHistory entries₁) (withHistory entries₂) TrimmedHistory.instantly
      TrimmedHistory.instantly :=
  ⟨rfl, rfl, rfl, rfl, fun _ => rfl, rfl, hpos, hle, Int.le_refl _, Int.le_refl _⟩

/-- The entry of a payment of some cents. -/
def centsEntry (cents : Int) : StoredText :=
  .amlEntry 0 .pix ⟨cents, -2⟩

theorem isPaymentEntry_centsEntry {cents : Int} (hpos : 0 < cents) (hlt : cents < 10 ^ 18) :
    IsPaymentEntry (centsEntry cents) :=
  ⟨0, .pix, ⟨cents, -2⟩, cents, rfl, isCents_mk cents, hpos, hlt⟩

/-- A payment near the maximum, after the same payments in another order and one more. -/
theorem controls_monotone_larger : NoLessSevere ⟨35, .allow, .allow⟩ ⟨60, .review, .review⟩ := by
  have hpayments : ∀ text ∈ [centsEntry 50000, centsEntry 500, centsEntry 990],
      IsPaymentEntry text := by
    intro text htext
    simp only [List.mem_cons, List.not_mem_nil, or_false] at htext
    rcases htext with rfl | rfl | rfl <;>
      exact isPaymentEntry_centsEntry (by decide) (by decide)
  have hentries : ∀ text ∈ [centsEntry 50000, centsEntry 500, centsEntry 990],
      IsPositiveEntry text := by
    intro text htext
    simp only [List.mem_cons, List.not_mem_nil, or_false] at htext
    rcases htext with rfl | rfl | rfl <;> exact ⟨_, _, _, rfl, by decide⟩
  have hhistory : HistoryAtMost [centsEntry 990, centsEntry 500]
      [centsEntry 50000, centsEntry 500, centsEntry 990] :=
    .of_payments ((List.Perm.swap _ _ []).subperm.trans (List.sublist_cons_self _ _).subperm)
      hpayments (by decide)
  have hrun₂ : (((payment ⟨490000, -2⟩).evaluateControls .default ⟨"c", .basic, .active, 0⟩
      evaluation).run Backend.handler (withHistory [centsEntry 50000, centsEntry 500,
        centsEntry 990]) TrimmedHistory.instantly).outcome = .ok ⟨60, .review, .review⟩ := by
    decide +kernel
  exact controls_monotone
    (atMost_payment ⟨1000, -2⟩ ⟨490000, -2⟩ (by decide) (by decide) _ _)
    (answers_withHistory (by simp) (by decide)) (answers_withHistory (by simp) (by decide)) hhistory
    hentries (by decide +kernel) hrun₂

/-- The threshold for the total is 12.5. -/
def tightSettings : ApiSettings :=
  { ApiSettings.default with
    amlTotalThresholdAmount := ⟨125, -1⟩
    amlTotalThresholdAmount_ge := by decide }

/-- The entry of a payment of 1 and four units of its 27th decimal. -/
def fineEntry : StoredText :=
  .amlEntry 0 .pix ⟨1000000000000000000000000004, -27⟩

def coarseEntry : StoredText :=
  .amlEntry 0 .pix ⟨95, -1⟩

/-- Two entries that are added to each other before they are rounded are over the threshold, and the
same entries rounded one by one are not. -/
theorem rounded_history_not_monotone : ¬ ∀ (cfg : ApiSettings) (customer : Customer)
    (r₁ r₂ : Create.Run) (e₁ e₂ : LimitsService.Evaluation) (b₁ b₂ : Backend)
    (is₁ is₂ : Nat → ApiInput) (entries₁ entries₂ : List StoredText)
    (d₁ d₂ : Create.ControlDecision),
    AtMost customer r₁ r₂ e₁ e₂ b₁ b₂ is₁ is₂ → r₂.request.amount ≤ e₂.policy.maxAmount →
      Answers Backend.handler b₁ is₁ (amlHistoryKey r₁.context.customerId) entries₁ →
        Answers Backend.handler b₂ is₂ (amlHistoryKey r₂.context.customerId) entries₂ →
          entries₁.Subperm entries₂ → (∀ text ∈ entries₂, IsPositiveEntry text) →
            ((r₁.evaluateControls cfg customer e₁).run Backend.handler b₁ is₁).outcome = .ok d₁ →
              ((r₂.evaluateControls cfg customer e₂).run Backend.handler b₂ is₂).outcome =
                .ok d₂ → NoLessSevere d₁ d₂ := by
  intro hmonotone
  have hsplit : ([fineEntry, fineEntry] ++ [coarseEntry]).Perm
      ([coarseEntry] ++ [fineEntry, fineEntry]) := List.perm_append_comm
  have hperm : [fineEntry, fineEntry, coarseEntry].Subperm [coarseEntry, fineEntry, fineEntry] :=
    hsplit.subperm
  have hentries : ∀ text ∈ [coarseEntry, fineEntry, fineEntry], IsPositiveEntry text := by
    intro text htext
    rcases List.mem_cons.1 htext with rfl | htext
    · exact ⟨_, _, _, rfl, by decide⟩
    · cases List.eq_of_mem_replicate (n := 2) htext
      exact ⟨_, _, _, rfl, by decide⟩
  have hless := hmonotone tightSettings _ _ _ _ _ _ _ _ _ _ _ ⟨35, .allow, .review⟩
    ⟨35, .allow, .allow⟩
    (atMost_payment ⟨100, -2⟩ ⟨100, -2⟩ (by decide) (by decide) _ _)
    (by decide) (answers_withHistory (by simp) (by decide))
    (answers_withHistory (by simp) (by decide)) hperm hentries (by decide +kernel)
    (by decide +kernel)
  exact absurd hless.amlDecision (by decide)

end MonotoneControls

end PaymentsLab
