import PaymentsLab.Api.AmlEvaluation
import PaymentsLab.Api.SequentialCreation

/-!
# The trimmed history

`record_outgoing` trims the history of a customer to its newest entries, whatever their rails are,
and the rules ask for the entries of one rail in a window. Where keys do not expire, `evaluate`
decides as it would on every entry that has been recorded, if the entries of the rail in its windows
are among the newest ones (`trimmed_history_decides`).
-/

namespace PaymentsLab

open Foundation Program ApiProgram Redis

namespace AmlRuleEngine

/-! ## Entries that do not count -/

/-- The entry is one of the rail at or after the cutoff. -/
def IsRecent (rail : String) (cutoff : Int) (text : StoredText) : Prop :=
  ∃ timestamp amount, tryParseEntry text = some (timestamp, rail, amount) ∧ cutoff ≤ timestamp

section Old

variable {rail : String} {cutoff : Int} {old : List StoredText}
  (hold : ∀ text ∈ old, ¬ IsRecent rail cutoff text)

include hold

/-- The loop of `_sum_recent` goes over entries that are not recent. -/
theorem sumRecentFrom_append (total : DecimalValue) (entries : List StoredText) :
    sumRecentFrom rail cutoff total (entries ++ old) =
      sumRecentFrom rail cutoff total entries := by
  induction entries generalizing total with
  | nil =>
    rw [List.nil_append]
    induction old with
    | nil => rfl
    | cons text old ih =>
      have hrest := ih fun text htext => hold text (List.mem_cons_of_mem _ htext)
      simp only [sumRecentFrom]
      split
      · exact hrest
      · next timestamp rail' amount hparse =>
        refine (if_neg fun hrecent => ?_).trans hrest
        exact hold text List.mem_cons_self ⟨timestamp, amount, hrecent.2 ▸ hparse, hrecent.1⟩
  | cons text entries ih =>
    rw [List.cons_append]
    simp only [sumRecentFrom, ih]

/-- The loop of `_count_near` goes over entries that are not recent. -/
theorem countNearFrom_append (low high : Decimal) (count : Int) (entries : List StoredText) :
    countNearFrom rail cutoff low high count (entries ++ old) =
      countNearFrom rail cutoff low high count entries := by
  induction entries generalizing count with
  | nil =>
    rw [List.nil_append]
    induction old with
    | nil => rfl
    | cons text old ih =>
      have hrest := ih fun text htext => hold text (List.mem_cons_of_mem _ htext)
      simp only [countNearFrom]
      split
      · exact hrest
      · next timestamp rail' amount hparse =>
        refine (if_pos ?_).trans hrest
        by_cases hrail : rail' = rail
        · refine .inl (Int.not_le.1 fun hle => ?_)
          exact hold text List.mem_cons_self ⟨timestamp, amount, hrail ▸ hparse, hle⟩
        · exact .inr hrail
  | cons text entries ih =>
    rw [List.cons_append]
    simp only [countNearFrom, ih]

end Old

end AmlRuleEngine

/-! ## Recorded entries -/

namespace TrimmedHistory

open AmlRuleEngine

/-- A payment that is recorded: the reading of the clock, the rail and the amount. -/
structure Record where
  recordedAt : Instant
  rail : PaymentMethod
  amount : Decimal

/-- The entry of a payment. -/
def Record.entry (r : Record) : StoredText :=
  .amlEntry (wholeSeconds r.recordedAt) r.rail r.amount

/-- Redis answers every command of a call, and the clock does not go back. -/
structure InOrder (is : Nat → ApiInput) : Prop where
  answered : ∀ n, (is n).redis = .answered
  later : ∀ n, (is n).now ≤ (is (n + 1)).now

/-- And the history does not expire while the call runs. -/
structure Timely (key : String) (b : Backend) (is : Nat → ApiInput) : Prop extends InOrder is where
  live : ∀ n, ∀ e ∈ b.redis key, e.Live (is n).now

/-- The backend, with a Redis in which keys get no time to live. -/
def unexpiring : Handler ApiCommand ApiReply Backend ApiInput where
  exec i b
    | .redis (.expire key seconds) => ((b.execRedis i (.expire key seconds)).1, b)
    | c => b.exec i c

/-- Payments recorded one after the other at times that do not decrease, the last one first, and
what they leave behind. -/
inductive Records (cfg : ApiSettings) (customerId : String) (b₀ : Backend) :
    List Record → Backend → Prop
  | nil : Records cfg customerId b₀ [] b₀
  | record {records : List Record} {b : Backend} {is : Nat → ApiInput} (rail : PaymentMethod)
    (amount : Decimal) (before : Records cfg customerId b₀ records b) (inOrder : InOrder is)
    (later : ∀ r ∈ records, r.recordedAt ≤ (is 0).now) :
    Records cfg customerId b₀ (⟨(is 0).now, rail, amount⟩ :: records)
      ((recordOutgoing cfg customerId rail amount).run unexpiring b is).world

/-- The backend, with a history that is read as the whole list of entries. -/
def completeHistory (key : String) (entries : List StoredText) :
    Handler ApiCommand ApiReply Backend ApiInput where
  exec i b
    | .redis (.lrange key' start stop) =>
      if key' = key then (some entries, b) else b.exec i (.redis (.lrange key' start stop))
    | c => b.exec i c

/-- The payment is in a window of an evaluation. -/
def InWindow (cfg : ApiSettings) (is : Nat → ApiInput) (r : Record) : Prop :=
  wholeSeconds (is 0).now - cfg.amlTotalWindowSeconds ≤ wholeSeconds r.recordedAt ∨
    wholeSeconds (is 2).now - cfg.amlStructuringWindowSeconds ≤ wholeSeconds r.recordedAt

section Records

variable {cfg : ApiSettings} {customerId : String} {b₀ b : Backend} {records : List Record}
  {is : Nat → ApiInput} {items : List StoredText} {expiresAt : Option Int}

/-- The windows of the rules, the longer one of which is the time to live of the history. -/
def historySeconds (cfg : ApiSettings) : Int :=
  max cfg.amlTotalWindowSeconds cfg.amlStructuringWindowSeconds

/-- An entry is put in front of the newest ones. -/
theorem ensures_pushEntry {H : Handler ApiCommand ApiReply Backend ApiInput}
    {good : ApiInput → Prop} {key : String} {text : StoredText} {rest : ApiProgram Unit}
    {post : Except ApiException Unit → Backend → Prop}
    (hpush : ∀ i b, H.exec i b (.redis (.lpush key text)) = b.execRedis i (.lpush key text))
    (htrim : ∀ i b, H.exec i b (.redis (.ltrim key 0 amlHistoryMaxItems)) =
      b.execRedis i (.ltrim key 0 amlHistoryMaxItems))
    (hset : b.redis.HoldsItems key items expiresAt)
    (hgood : ∀ i, good i → i.redis = .answered ∧ (items ≠ [] → Lives expiresAt i.now))
    (hrest : ∀ b', b'.redis.HoldsItems key ((text :: items).take (amlHistoryMaxItems + 1))
      (if items = [] then none else expiresAt) → rest.Ensures H (fun i _ _ => good i) post b') :
    (do
      redis (.lpush key text)
      redis (.ltrim key 0 amlHistoryMaxItems)
      rest).Ensures H (fun i _ _ => good i) post b := by
  have hlives (i : ApiInput) (hi : good i) :
      Lives (if items = [] then none else expiresAt) i.now := by
    split
    · intro t ht
      cases ht
    · next hitems => exact (hgood i hi).2 hitems
  refine ensures_bind.2 ((@ensures_redis_exec (.lpush key text) _ H _ b _).2 fun i hi => ?_)
  obtain ⟨s₁, hpushed, hset₁⟩ := hset.lpush (hset.entry_of_lives (hgood i hi).2) text
  rw [hpush, Backend.execRedis_answered (hgood i hi).1 hpushed]
  refine ensures_bind.2 ((@ensures_redis_exec (.ltrim key 0 amlHistoryMaxItems) _ H _ _ _).2
    fun i₂ hi₂ => ?_)
  obtain ⟨s₂, htrimmed, hset₂⟩ := hset₁.ltrim (hset₁.entry_of_lives fun _ => hlives i₂ hi₂) 0
    amlHistoryMaxItems
  rw [htrim, Backend.execRedis_answered (b := { b with redis := s₁ }) (hgood i₂ hi₂).1 htrimmed]
  rw [if_neg (List.cons_ne_nil _ _), List.drop_zero] at hset₂
  exact hrest _ hset₂

/-- A payment is recorded in front of the newest entries, with a time to live. -/
theorem run_recordOutgoing (rail : PaymentMethod) (amount : Decimal)
    (hset : b.redis.HoldsItems (amlHistoryKey customerId) items expiresAt)
    (htimely : Timely (amlHistoryKey customerId) b is) :
    ∃ n, ((recordOutgoing cfg customerId rail amount).run Backend.handler
        b is).world.redis.HoldsItems (amlHistoryKey customerId)
      (((Record.mk (is 0).now rail amount).entry :: items).take (amlHistoryMaxItems + 1))
      (some ((is n).now + historySeconds cfg * 1000000)) := by
  have hgood (i : ApiInput) (hi : ∃ n, i = is n) :
      i.redis = .answered ∧ (items ≠ [] → Lives expiresAt i.now) := by
    obtain ⟨n, rfl⟩ := hi
    exact ⟨htimely.answered n, fun hitems => hset.lives_of_entry hitems (htimely.live n)⟩
  refine @Ensures.run _ _ _ _ _ _ Backend.handler (fun i _ _ => ∃ n, i = is n)
    (fun _ b' => ∃ n, b'.redis.HoldsItems (amlHistoryKey customerId)
      (((Record.mk (is 0).now rail amount).entry :: items).take (amlHistoryMaxItems + 1))
      (some ((is n).now + historySeconds cfg * 1000000)))
    _ b (fun n => is (n + 1)) ?_ (.of_forall fun n => ⟨n + 1, rfl⟩)
  refine ensures_tryCatch.2 (ensures_pushEntry (fun _ _ => rfl) (fun _ _ => rfl) hset hgood
    fun b' hset' => ?_)
  refine (@ensures_redis _ _ (.expire (amlHistoryKey customerId) (historySeconds cfg)) _).2
    fun i hi => ?_
  have hlives : ∀ e ∈ b'.redis (amlHistoryKey customerId), e.Live i.now := by
    refine hset'.entry_of_lives fun _ => ?_
    split
    · intro t ht
      cases ht
    · next hitems => exact (hgood i hi).2 hitems
  obtain ⟨s, hexpire, hset''⟩ := hset'.expire hlives (by simp) (historySeconds cfg)
  rw [Backend.execRedis_answered (hgood i hi).1 hexpire]
  obtain ⟨n, rfl⟩ := hi
  exact ⟨n, hset''⟩

/-- And without one, where keys do not expire. -/
theorem run_recordOutgoing_unexpiring (rail : PaymentMethod) (amount : Decimal)
    (hset : b.redis.HoldsItems (amlHistoryKey customerId) items none) (hinOrder : InOrder is) :
    ((recordOutgoing cfg customerId rail amount).run unexpiring b is).world.redis.HoldsItems
      (amlHistoryKey customerId)
      (((Record.mk (is 0).now rail amount).entry :: items).take (amlHistoryMaxItems + 1)) none := by
  have hgood (i : ApiInput) (hi : i.redis = .answered) :
      i.redis = .answered ∧ (items ≠ [] → Lives none i.now) :=
    ⟨hi, fun _ t ht => by cases ht⟩
  refine @Ensures.run _ _ _ _ _ _ unexpiring (fun i _ _ => i.redis = .answered)
    (fun _ b' => b'.redis.HoldsItems (amlHistoryKey customerId)
      (((Record.mk (is 0).now rail amount).entry :: items).take (amlHistoryMaxItems + 1)) none)
    _ b (fun n => is (n + 1)) ?_ (.of_forall fun n => hinOrder.answered (n + 1))
  refine ensures_tryCatch.2 (ensures_pushEntry (fun _ _ => rfl) (fun _ _ => rfl) hset hgood
    fun b' hset' => ?_)
  refine (@ensures_redis_exec (.expire (amlHistoryKey customerId) _) _ unexpiring _ b' _).2
    fun i hi => ?_
  rw [ite_self] at hset'
  dsimp only
  generalize (unexpiring.exec i b' (.redis (.expire (amlHistoryKey customerId) _))).1 = reply
  cases reply <;> exact hset'

/-- The history holds the newest entries. -/
theorem Records.holds (hfresh : b₀.redis (amlHistoryKey customerId) = none)
    (h : Records cfg customerId b₀ records b) :
    b.redis.HoldsItems (amlHistoryKey customerId)
      ((records.map Record.entry).take (amlHistoryMaxItems + 1)) none := by
  induction h with
  | nil => exact .empty hfresh
  | record rail amount _ inOrder _ ih =>
    have hset := @run_recordOutgoing_unexpiring cfg _ _ _ _ rail amount ih inOrder
    rw [List.take_succ_cons, List.take_take, Nat.min_eq_left (Nat.le_succ _),
      ← List.take_succ_cons] at hset
    exact hset

theorem answers_of_holds {H : Handler ApiCommand ApiReply Backend ApiInput} {key : String}
    {entries : List StoredText} (hnow : ∀ i b, H.exec i b .now = (i.now, b))
    (hrange : ∀ i b, H.exec i b (.redis (.lrange key 0 amlHistoryMaxItems)) =
      b.execRedis i (.lrange key 0 amlHistoryMaxItems))
    (hset : b.redis.HoldsItems key (entries.take (amlHistoryMaxItems + 1)) expiresAt)
    (hanswered : ∀ n, (is n).redis = .answered)
    (hlive : ∀ n, ∀ e ∈ b.redis key, e.Live (is n).now) :
    Answers H b is key (entries.take (amlHistoryMaxItems + 1)) where
  now n := hnow (is n) b
  history n := by
    have hread := hset.lrange (hlive n) 0 amlHistoryMaxItems
    rw [List.drop_zero, List.take_take, Nat.min_self] at hread
    rw [hrange]
    exact Backend.execRedis_answered (hanswered n) hread

/-- A history that does not expire is read. -/
theorem answers_unexpiring {key : String} {entries : List StoredText}
    (hset : b.redis.HoldsItems key (entries.take (amlHistoryMaxItems + 1)) none)
    (hinOrder : InOrder is) :
    Answers unexpiring b is key (entries.take (amlHistoryMaxItems + 1)) :=
  answers_of_holds (fun _ _ => rfl) (fun _ _ => rfl) hset hinOrder.answered
    fun n => hset.entry_of_lives fun _ t ht => by cases ht

theorem answers_completeHistory (key : String) (entries : List StoredText) :
    Answers (completeHistory key entries) b is key entries where
  now _ := rfl
  history _ := if_pos rfl

theorem Record.not_isRecent {rail : PaymentMethod} {cutoff : Int} {r : Record}
    (h : r.rail = rail → wholeSeconds r.recordedAt < cutoff) :
    ¬ IsRecent rail.value cutoff r.entry := by
  rintro ⟨timestamp, amount, hparse, hle⟩
  obtain ⟨rfl, hrail, -⟩ := (by simpa [Record.entry, tryParseEntry] using hparse :
    wholeSeconds r.recordedAt = timestamp ∧ r.rail.value = rail.value ∧ .finite r.amount = amount)
  exact absurd hle (Int.not_le.2 (h (PaymentMethod.value_injective hrail)))

/-- Where keys do not expire, an evaluation decides as it would on every entry that has been
recorded, if the entries of the rail in its windows are among the newest ones. -/
theorem trimmed_history_decides {rail : PaymentMethod}
    (hfresh : b₀.redis (amlHistoryKey customerId) = none)
    (hrecords : Records cfg customerId b₀ records b) (hinOrder : InOrder is)
    (hnewest : ∀ r ∈ records.drop (amlHistoryMaxItems + 1), r.rail = rail → ¬ InWindow cfg is r)
    (amount : Decimal) (destination : Option String) (policy : LimitsPolicy) :
    ((evaluate cfg customerId rail amount destination policy).run unexpiring b is).outcome =
      ((evaluate cfg customerId rail amount destination policy).run
        (completeHistory (amlHistoryKey customerId) (records.map Record.entry)) b is).outcome := by
  have hold (cutoff : Int)
      (hcutoff : ∀ r, ¬ InWindow cfg is r → wholeSeconds r.recordedAt < cutoff) :
      ∀ text ∈ (records.map Record.entry).drop (amlHistoryMaxItems + 1),
        ¬ IsRecent rail.value cutoff text := by
    intro text htext
    rw [← List.map_drop] at htext
    obtain ⟨r, hr, rfl⟩ := List.mem_map.1 htext
    exact Record.not_isRecent fun hrail => hcutoff r (hnewest r hr hrail)
  have hsum := sumRecentFrom_append (hold _ fun r hr => Int.not_le.1 fun hle => hr (.inl hle))
    (.finite 0) ((records.map Record.entry).take (amlHistoryMaxItems + 1))
  have hcount := countNearFrom_append (hold _ fun r hr => Int.not_le.1 fun hle => hr (.inr hle))
    (policy.maxAmount * ⟨95, -2⟩) policy.maxAmount 0
    ((records.map Record.entry).take (amlHistoryMaxItems + 1))
  rw [List.take_append_drop] at hsum hcount
  exact (answers_unexpiring (hrecords.holds hfresh) hinOrder).run_evaluate_eq cfg rail
    (answers_completeHistory _ _) policy hsum.symm hcount.symm amount destination

end Records

/-! ## A history that is trimmed -/

def sample : Backend :=
  ⟨⟨[], [], [], [], []⟩, fun _ => none⟩

/-- A payment of 9.90. -/
def samplePayment (t : Instant) : Record where
  recordedAt := t
  rail := .pix
  amount := ⟨990, -2⟩

def samplePolicy : LimitsPolicy where
  rail := .pix
  minAmount := ⟨100, -2⟩
  maxAmount := ⟨10000, -2⟩
  dailyLimitAmount := ⟨1000000, -2⟩
  velocityLimitCount := 1000
  velocityWindowSeconds := 60

/-- All commands of a call run at one time. -/
def allAt (t : Instant) : Nat → ApiInput :=
  fun _ => ⟨t, .answered, 0⟩

/-- All commands of a call run at time zero. -/
abbrev instantly : Nat → ApiInput :=
  allAt 0

theorem inOrder_allAt (t : Instant) : InOrder (allAt t) :=
  ⟨fun _ => rfl, fun _ => Int.le_refl t⟩

/-- Any number of payments of 9.90 at one time, after earlier ones. -/
theorem records_replicate {b : Backend} {records : List Record} {t : Instant} (n : Nat)
    (hrecords : Records .default "c" sample records b)
    (hearlier : ∀ r ∈ records, r.recordedAt ≤ t) :
    ∃ b', Records .default "c" sample
      (List.replicate n (samplePayment t) ++ records) b' := by
  induction n with
  | zero => exact ⟨b, hrecords⟩
  | succ n ih =>
    obtain ⟨b', hrecords'⟩ := ih
    refine ⟨_, hrecords'.record .pix ⟨990, -2⟩ (inOrder_allAt t) fun r hr => ?_⟩
    rcases List.mem_append.1 hr with hr | hr
    · rw [List.eq_of_mem_replicate hr]
      exact Int.le_refl t
    · exact hearlier r hr

/-- A payment, and three hours later 501 more: the history has lost the first one. -/
theorem trimmed_history_decides_later : ∃ b,
    Records .default "c" sample
      (List.replicate 501 (samplePayment 10800000000) ++ [samplePayment 0]) b ∧
      ((evaluate .default "c" .pix ⟨4000, -2⟩ none samplePolicy).run unexpiring b
        (allAt 10800000000)).outcome =
      ((evaluate .default "c" .pix ⟨4000, -2⟩ none samplePolicy).run (completeHistory
        (amlHistoryKey "c") ((List.replicate 501 (samplePayment 10800000000) ++
          [samplePayment 0]).map Record.entry)) b (allAt 10800000000)).outcome := by
  obtain ⟨b₁, hfirst⟩ := records_replicate (t := 0) 1 .nil fun r hr => by cases hr
  obtain ⟨b, hrecords⟩ := records_replicate (t := 10800000000) 501 hfirst fun r hr => by
    rw [List.mem_singleton.1 hr]
    decide
  refine ⟨b, hrecords,
    trimmed_history_decides rfl hrecords (inOrder_allAt _) (fun r hr _ => ?_) _ _ _⟩
  rw [List.drop_left' (show (List.replicate 501 _).length = amlHistoryMaxItems + 1 from
    List.length_replicate)] at hr
  rw [List.mem_singleton.1 hr]
  unfold InWindow
  decide

/-- Of 502 payments of 9.90 the history keeps 501: with a payment of 40.00 their total is 4999.90,
and not the 5009.80 that are over the threshold. -/
theorem trimmed_history_forgets : ¬ ∀ (cfg : ApiSettings) (customerId : String)
    (rail : PaymentMethod) (amount : Decimal) (destination : Option String) (policy : LimitsPolicy)
    (b₀ b : Backend) (records : List Record) (is : Nat → ApiInput),
    b₀.redis (amlHistoryKey customerId) = none → Records cfg customerId b₀ records b →
      InOrder is → (∀ r ∈ records, r.recordedAt ≤ (is 0).now) →
        ((evaluate cfg customerId rail amount destination policy).run unexpiring b is).outcome =
          ((evaluate cfg customerId rail amount destination policy).run (completeHistory
            (amlHistoryKey customerId) (records.map Record.entry)) b is).outcome := by
  intro hdecides
  obtain ⟨b, hrecords⟩ := records_replicate (t := 0) 502 .nil fun r hr => by cases hr
  rw [List.append_nil] at hrecords
  have heq := hdecides .default "c" .pix ⟨4000, -2⟩ none samplePolicy sample b _ instantly rfl
    hrecords (inOrder_allAt 0) fun r hr => by
      rw [List.eq_of_mem_replicate hr]
      exact Int.le_refl 0
  have hread := (answers_unexpiring (hrecords.holds rfl) (inOrder_allAt 0)).run_evaluate_eq .default
    .pix (answers_completeHistory (b := sample) (amlHistoryKey "c") _) samplePolicy rfl rfl
    ⟨4000, -2⟩ none
  have hanswers : Answers
      (completeHistory (amlHistoryKey "c")
        ((List.replicate 502 (samplePayment 0)).map Record.entry))
      b instantly (amlHistoryKey "c") _ :=
    answers_completeHistory _ _
  have hcomplete := hanswers.run_evaluate_eq .default .pix
    (answers_completeHistory (b := sample) (amlHistoryKey "c") _) samplePolicy rfl rfl ⟨4000, -2⟩
    none
  rw [hread, hcomplete] at heq
  exact absurd heq (by decide +kernel)

end TrimmedHistory

end PaymentsLab
