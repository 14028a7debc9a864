import PaymentsLab.Api.ControlFrame

/-!
# What an AML evaluation reads

`evaluate` depends on the history through the total and the count it makes of the entries, at its
first and at its third reading of the clock (`Answers.run_evaluate`).
-/

namespace PaymentsLab

open Foundation Program ApiProgram

namespace AmlRuleEngine

/-- The handler answers the readings of the clock, and every reading of the history with
`entries`. -/
structure Answers (H : Handler ApiCommand ApiReply Backend ApiInput) (b : Backend)
    (is : Nat → ApiInput) (key : String) (entries : List StoredText) : Prop where
  now : ∀ n, H.exec (is n) b .now = ((is n).now, b)
  history : ∀ n, H.exec (is n) b (.redis (.lrange key 0 amlHistoryMaxItems)) = (some entries, b)

section Runs

variable {H H' : Handler ApiCommand ApiReply Backend ApiInput} {b b' : Backend}
  {is : Nat → ApiInput} {customerId : String} {entries entries' : List StoredText}

theorem Answers.later {key : String} (h : Answers H b is key entries) (k : Nat) :
    Answers H b (fun n => is (n + k)) key entries :=
  ⟨fun n => h.now (n + k), fun n => h.history (n + k)⟩

theorem Answers.run_now_bind {α : Type} {key : String} (h : Answers H b is key entries)
    (f : Instant → ApiProgram α) :
    (ApiProgram.now >>= f).run H b is = (f (is 0).now).run H b fun n => is (n + 1) := by
  have hrun : (ApiProgram.now >>= f).run H b is =
      (f (H.exec (is 0) b .now).1).run H (H.exec (is 0) b .now).2 fun n => is (n + 1) := rfl
  rw [hrun, h.now 0]

theorem run_redis {command : Redis.Command StoredText} {reply : Redis.Reply command}
    (h : H.exec (is 0) b (.redis command) = (some reply, b')) :
    (redis command).run H b is = ⟨.ok reply, b', fun n => is (n + 1)⟩ := by
  unfold redis
  rw [run_bind]
  refine (congrArg (fun r : Option (Redis.Reply command) × Backend => (Ran.mk (.ok r.1) r.2
    fun n => is (n + 1)).andThen _) h).trans ?_
  rfl

theorem Answers.run_readHistoryEntries {key : String} (h : Answers H b is key entries) :
    (readHistoryEntries key).run H b is = ⟨.ok (some entries), b, fun n => is (n + 1)⟩ := by
  have hredis : (redis (.lrange key 0 amlHistoryMaxItems)).run H b is =
      ⟨.ok entries, b, fun n => is (n + 1)⟩ :=
    run_redis (h.history 0)
  unfold readHistoryEntries
  rw [run_tryCatch, map_eq_pure_bind, run_bind, hredis]
  rfl

variable (cfg : ApiSettings) (rail : PaymentMethod)

theorem Answers.run_totalOutgoingRecent (h : Answers H b is (amlHistoryKey customerId) entries) :
    (totalOutgoingRecent cfg customerId rail).run H b is =
      (sumRecent entries rail.value (wholeSeconds (is 0).now - cfg.amlTotalWindowSeconds)).run H b
        fun n => is (n + 2) := by
  unfold totalOutgoingRecent
  rw [h.run_now_bind, run_bind, (h.later 1).run_readHistoryEntries]
  rfl

theorem Answers.run_nearThresholdCount (h : Answers H b is (amlHistoryKey customerId) entries)
    (maxAmount : Decimal) :
    (nearThresholdCount cfg customerId rail maxAmount).run H b is =
      (countNear entries rail.value (wholeSeconds (is 0).now - cfg.amlStructuringWindowSeconds)
        (maxAmount * ⟨95, -2⟩) maxAmount).run H b fun n => is (n + 2) := by
  unfold nearThresholdCount
  rw [h.run_now_bind, run_bind, (h.later 1).run_readHistoryEntries]
  rfl

/-- The rules, over a total and a count. -/
def evaluateFrom (amount : Decimal) (destination : Option String) (policy : LimitsPolicy)
    (total : ApiProgram DecimalValue) (nearCount : ApiProgram Int) : ApiProgram AmlDecision := do
  if blocklisted cfg destination then return .block
  let total ← total
  let total ← decimal (total.add (.finite amount))
  if ← decimal (total.gt? (.finite cfg.amlTotalThresholdAmount)) then return .review
  let nearCount ← nearCount
  let nearCount := if policy.maxAmount * ⟨95, -2⟩ ≤ amount then nearCount + 1 else nearCount
  if cfg.amlStructuringCountThreshold ≤ nearCount then return .review
  return .allow

theorem evaluate_eq (customerId : String) (amount : Decimal) (destination : Option String)
    (policy : LimitsPolicy) :
    evaluate cfg customerId rail amount destination policy =
      evaluateFrom cfg amount destination policy (totalOutgoingRecent cfg customerId rail)
        (nearThresholdCount cfg customerId rail policy.maxAmount) :=
  rfl

/-- `evaluate` decides by the history that is read. -/
theorem Answers.run_evaluate (h : Answers H b is (amlHistoryKey customerId) entries)
    (amount : Decimal) (destination : Option String) (policy : LimitsPolicy) :
    ((evaluate cfg customerId rail amount destination policy).run H b is).outcome =
      ((evaluateFrom cfg amount destination policy
        (sumRecent entries rail.value (wholeSeconds (is 0).now - cfg.amlTotalWindowSeconds))
        (countNear entries rail.value (wholeSeconds (is 2).now - cfg.amlStructuringWindowSeconds)
          (policy.maxAmount * ⟨95, -2⟩) policy.maxAmount)).run H b is).outcome := by
  rw [evaluate_eq]
  unfold evaluateFrom
  by_cases hblocked : blocklisted cfg destination = true
  · simp only [hblocked, if_true]
  simp only [hblocked, if_false, Bool.false_eq_true]
  obtain ⟨total, htotal⟩ := Issues.run_eq (issues_sumRecentFrom rail.value
    (wholeSeconds (is 0).now - cfg.amlTotalWindowSeconds) (.finite 0) entries)
  obtain ⟨count, hcounted⟩ := Issues.run_eq (issues_countNearFrom rail.value
    (wholeSeconds (is 2).now - cfg.amlStructuringWindowSeconds) (policy.maxAmount * ⟨95, -2⟩)
    policy.maxAmount 0 entries)
  rw [run_bind, run_bind, h.run_totalOutgoingRecent, sumRecent, htotal, htotal]
  cases total with
  | error e => rfl
  | ok total =>
    simp only [Ran.andThen_ok]
    cases total.add (.finite amount) with
    | none => rfl
    | some total' =>
      simp only [AmlRuleEngine.decimal, pure_bind]
      cases total'.gt? (.finite cfg.amlTotalThresholdAmount) with
      | none => rfl
      | some above =>
        cases above with
        | true => rfl
        | false =>
          simp only [pure_bind, Bool.false_eq_true, if_false]
          rw [run_bind, run_bind, (h.later 2).run_nearThresholdCount, Nat.zero_add, countNear,
            hcounted, hcounted]
          cases count with
          | error e => rfl
          | ok count =>
            rw [Ran.andThen_ok, Ran.andThen_ok]
            split <;> split <;> rfl

theorem issues_evaluateFrom {P : ApiCommand → Prop} (amount : Decimal)
    (destination : Option String) (policy : LimitsPolicy) {total : ApiProgram DecimalValue}
    {nearCount : ApiProgram Int} (htotal : total.Issues P) (hcount : nearCount.Issues P) :
    (evaluateFrom cfg amount destination policy total nearCount).Issues P := by
  unfold evaluateFrom
  split
  · exact issues_pure _
  · refine Issues.bind htotal fun total => ?_
    refine Issues.bind (issues_decimal _) fun total => ?_
    refine Issues.bind (issues_decimal _) fun above => ?_
    split
    · exact issues_pure _
    · refine Issues.bind hcount fun count => ?_
      have hends (n : Int) : (if cfg.amlStructuringCountThreshold ≤ n then pure .review
          else pure .allow : ApiProgram AmlDecision).Issues P := by
        split <;> exact issues_pure _
      split <;> exact hends _

/-- Histories with the same total and the same count give the same decision. -/
theorem Answers.run_evaluate_eq (h : Answers H b is (amlHistoryKey customerId) entries)
    (h' : Answers H' b' is (amlHistoryKey customerId) entries') (policy : LimitsPolicy)
    (hsum : sumRecent entries rail.value (wholeSeconds (is 0).now - cfg.amlTotalWindowSeconds) =
      sumRecent entries' rail.value (wholeSeconds (is 0).now - cfg.amlTotalWindowSeconds))
    (hcount : countNear entries rail.value
        (wholeSeconds (is 2).now - cfg.amlStructuringWindowSeconds) (policy.maxAmount * ⟨95, -2⟩)
        policy.maxAmount =
      countNear entries' rail.value (wholeSeconds (is 2).now - cfg.amlStructuringWindowSeconds)
        (policy.maxAmount * ⟨95, -2⟩) policy.maxAmount)
    (amount : Decimal) (destination : Option String) :
    ((evaluate cfg customerId rail amount destination policy).run H b is).outcome =
      ((evaluate cfg customerId rail amount destination policy).run H' b' is).outcome := by
  rw [h.run_evaluate, h'.run_evaluate, hsum, hcount]
  obtain ⟨outcome, hrun⟩ := Issues.run_eq (issues_evaluateFrom cfg amount destination policy
    (issues_sumRecentFrom rail.value (wholeSeconds (is 0).now - cfg.amlTotalWindowSeconds)
      (.finite 0) entries')
    (issues_countNearFrom rail.value (wholeSeconds (is 2).now - cfg.amlStructuringWindowSeconds)
      (policy.maxAmount * ⟨95, -2⟩) policy.maxAmount 0 entries'))
  rw [sumRecent, countNear, hrun, hrun]

end Runs

end AmlRuleEngine

end PaymentsLab
