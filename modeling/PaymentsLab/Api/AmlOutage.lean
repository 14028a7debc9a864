import PaymentsLab.Api.AmlHistory
import PaymentsLab.Foundation.Parts

/-!
# AML histories across outages

Creations one after the other, with Redis commands that may fail. A payment whose entry has not been
appended to the history of its customer is not made up for: a later reading of the history that is
answered takes the place of the rows. Where every such reading finds the entries of the payments in
its windows, the total and the count that the rules are given are no less than those of the rows
(`history_covers_rows`).
-/

namespace PaymentsLab

open Foundation Program ApiProgram AmlRuleEngine

/-- The payments of a customer. -/
def Database.paymentsOf (db : Database) (customerId : String) : List Payment :=
  db.payments.filter fun row => row.customerId = customerId

/-! ## Notes -/

/-- The latest time, the payment of the customer that was committed last, and the payments whose
entries have been appended since the history began, the last one first. -/
structure HistoryNotes where
  clock : Instant
  last : Option Payment
  recorded : List Payment

section Notes

variable (cfg : ApiSettings) (customerId : String)

/-- An entry that is appended is that of the last payment. A history that is not there begins. -/
def appended (g : HistoryNotes) (i : ApiInput) (b : Backend) : List Payment :=
  if i.redis = .redisError false then g.recorded
  else
    match g.last, b.redis.list? i.now (amlHistoryKey customerId) with
    | some row, some [] => [row]
    | some row, some _ => row :: g.recorded
    | _, _ => g.recorded

def historyNote (g : HistoryNotes) (i : ApiInput) (b : Backend) : ApiCommand → HistoryNotes
  | .redis (.lpush key _) =>
    { clock := max g.clock i.now
      last := g.last
      recorded := if key = amlHistoryKey customerId then appended customerId g i b
        else g.recorded }
  | .commit payment event record =>
    { clock := max g.clock i.now
      last := if payment.customerId = customerId ∧ b.database.Accepts payment event record then
          some payment.inserted
        else g.last
      recorded := g.recorded }
  | _ => ⟨max g.clock i.now, g.last, g.recorded⟩

/-- The longer one of the windows. -/
def historyWindow : Int :=
  max cfg.amlTotalWindowSeconds cfg.amlStructuringWindowSeconds * 1000000

/-- Every payment of the windows that is not blocked has had its entry appended, and the history is
still there. -/
def FindsRecorded (i : ApiInput) (v : Backend × HistoryNotes) : Prop :=
  ∀ row ∈ v.1.database.paymentsOf customerId, row.status ≠ .blocked →
    v.2.clock - historyWindow cfg ≤ row.createdAt →
      row ∈ v.2.recorded ∧ (v.1.redis.find i.now (amlHistoryKey customerId)).isSome = true

instance (i : ApiInput) (v : Backend × HistoryNotes) :
    Decidable (FindsRecorded cfg customerId i v) :=
  inferInstanceAs (Decidable (∀ row ∈ v.1.database.paymentsOf customerId, row.status ≠ .blocked →
    v.2.clock - historyWindow cfg ≤ row.createdAt →
      row ∈ v.2.recorded ∧ (v.1.redis.find i.now (amlHistoryKey customerId)).isSome = true))

/-- The reading of the history. -/
abbrev historyRead : Redis.Command StoredText :=
  .lrange (amlHistoryKey customerId) 0 amlHistoryMaxItems

def readsHistory : ApiCommand → Bool
  | .redis command => command = historyRead customerId
  | _ => false

/-- The clock does not go back, the customer has no more payments than the history has room for, and
what is committed fits into the `Numeric(18, 2)` column of the amounts. -/
def OutageStep (i : ApiInput) (v : Backend × HistoryNotes) (c : ApiCommand) : Prop :=
  v.2.clock ≤ i.now ∧ (v.1.database.paymentsOf customerId).length ≤ amlHistoryMaxItems ∧
    match c with
    | .commit payment _ _ => payment.amount < ⟨10 ^ 16, 0⟩
    | _ => True

instance (i : ApiInput) (v : Backend × HistoryNotes) (c : ApiCommand) :
    Decidable (OutageStep customerId i v c) := by
  unfold OutageStep
  split <;> infer_instance

/-- And a reading of the history that is answered finds the entries of its windows. -/
def RecordedStep (i : ApiInput) (v : Backend × HistoryNotes) (c : ApiCommand) : Prop :=
  OutageStep customerId i v c ∧
    (readsHistory customerId c = true → (v.1.execRedis i (historyRead customerId)).1.isSome = true →
      FindsRecorded cfg customerId i v)

instance (i : ApiInput) (v : Backend × HistoryNotes) (c : ApiCommand) :
    Decidable (RecordedStep cfg customerId i v c) :=
  inferInstanceAs (Decidable (_ ∧ (_ → _)))

/-- What the rules make of the entries is no less than what the rows give over the windows that end
at `t`. -/
structure Covers (db : Database) (t : Instant) (entries : List StoredText) : Prop where
  total : ∀ rail : PaymentMethod, ∃ total : Decimal,
    sumRecent entries rail.value (wholeSeconds t - cfg.amlTotalWindowSeconds) =
      pure (.finite total) ∧
    db.sumOutgoingSince customerId rail (t - cfg.amlTotalWindowSeconds * 1000000) ≤ total
  count : ∀ (rail : PaymentMethod) (low high : Decimal), ∃ count : Int,
    countNear entries rail.value (wholeSeconds t - cfg.amlStructuringWindowSeconds) low high =
      pure count ∧
    db.countNearThresholdSince customerId rail (t - cfg.amlStructuringWindowSeconds * 1000000) low
      high ≤ count

/-- The entries a reading of the history is answered with cover the rows, at the latest time before
it. -/
def CoveringStep (i : ApiInput) (v : Backend × HistoryNotes) (c : ApiCommand) : Prop :=
  readsHistory customerId c = true →
    ∀ entries ∈ (v.1.execRedis i (historyRead customerId)).1,
      Covers cfg customerId v.1.database v.2.clock entries

end Notes

/-! ## Windows -/

/-- The cutoff of the entries of a window is not after the second in which it begins. -/
theorem cutoff_le_wholeSeconds {t t' seconds : Int} (hseconds : 0 ≤ seconds)
    (h : t - seconds * 1000000 ≤ t') : wholeSeconds t - seconds ≤ wholeSeconds t' := by
  have hsign : Int.sign 1000000 = 1 := rfl
  unfold wholeSeconds
  rw [Int.tdiv_eq_ediv, Int.tdiv_eq_ediv, hsign]
  split <;> split <;> omega

theorem wholeSeconds_mono {t t' : Int} (h : t ≤ t') : wholeSeconds t ≤ wholeSeconds t' := by
  have hcutoff : wholeSeconds t - 0 ≤ wholeSeconds t' :=
    cutoff_le_wholeSeconds le_rfl (by rwa [Int.zero_mul, Int.sub_zero])
  rwa [Int.sub_zero] at hcutoff

/-! ## What a history has -/

/-- The entry is one that `record_outgoing` writes for the payment. -/
structure RecordsPayment (row : Payment) (text : StoredText) : Prop where
  recorded : RecordedAs row text
  entry : IsPaymentEntry text

/-- A list at the key has the entries of the payments that are noted. -/
def Follows (customerId : String) (redis : Redis.Store StoredText) (recorded : List Payment) :
    Prop :=
  ∀ items expiresAt, redis (amlHistoryKey customerId) = some ⟨.list items, expiresAt⟩ →
    List.Forall₂ RecordsPayment recorded items

section Follows

variable {customerId : String} {redis redis' : Redis.Store StoredText} {recorded : List Payment}
  {now : Int} {row : Payment} {text : StoredText} {items : List StoredText}

theorem Follows.of_eq (h : Follows customerId redis recorded)
    (heq : redis' (amlHistoryKey customerId) = redis (amlHistoryKey customerId)) :
    Follows customerId redis' recorded :=
  fun items expiresAt he => h items expiresAt (heq ▸ he)

/-- A string at the key is no history. -/
theorem Follows.of_string {e : Redis.Entry StoredText} {text : StoredText}
    (he : redis (amlHistoryKey customerId) = some e) (hvalue : e.value = .string text) :
    Follows customerId redis recorded := by
  intro items expiresAt hitems
  obtain rfl := Option.some.inj (he.symm.trans hitems)
  cases hvalue

/-- A history that is found is continued. -/
theorem Follows.push (h : Follows customerId redis recorded) (hrecords : RecordsPayment row text)
    (hlist : redis.list? now (amlHistoryKey customerId) = some items) :
    Follows customerId (redis.putItems now (amlHistoryKey customerId) (text :: items))
      (if items = [] then [row] else row :: recorded) := by
  intro items' expiresAt he
  rw [(Redis.Store.putItems_entry he).1]
  by_cases hnil : items = []
  · rw [if_pos hnil, hnil]
    exact .cons hrecords .nil
  · rw [if_neg hnil]
    rcases Redis.Store.entry_of_list? hlist with ⟨-, hempty⟩ | ⟨expiresAt', he'⟩
    · exact absurd hempty hnil
    · exact .cons hrecords (h items expiresAt' he')

/-- A history that is short enough is kept as it is. -/
theorem Follows.trim (h : Follows customerId redis recorded)
    (hlength : recorded.length ≤ amlHistoryMaxItems)
    (hlist : redis.list? now (amlHistoryKey customerId) = some items) :
    Follows customerId (redis.putItems now (amlHistoryKey customerId)
      ((items.take (amlHistoryMaxItems + 1)).drop 0)) recorded := by
  intro items' expiresAt he
  obtain ⟨rfl, hne⟩ := Redis.Store.putItems_entry he
  rcases Redis.Store.entry_of_list? hlist with ⟨-, rfl⟩ | ⟨expiresAt', he'⟩
  · exact absurd rfl hne
  · have hmatched := h items expiresAt' he'
    have hlength' := hmatched.length_eq
    rw [List.drop_zero, List.take_of_length_le (by omega)]
    exact hmatched

end Follows

/-! ## What a step keeps -/

/-- A command that is lost changes nothing. -/
theorem Backend.execRedis_lost {i : ApiInput} (hi : i.redis = .redisError false) (b : Backend)
    (command : Redis.Command StoredText) : (b.execRedis i command).2 = b := by
  unfold execRedis
  rw [hi]
  cases Redis.exec i.now b.redis command <;> rfl

/-- A command that is not lost is executed, whether it is answered or not. -/
theorem Backend.execRedis_applied {i : ApiInput} (hi : i.redis ≠ .redisError false) {b : Backend}
    {command : Redis.Command StoredText} {reply : Redis.Reply command}
    {redis : Redis.Store StoredText}
    (hexec : Redis.exec i.now b.redis command = some (reply, redis)) :
    (b.execRedis i command).2 = { b with redis := redis } := by
  unfold execRedis
  rw [hexec]
  match hredis : i.redis with
  | .answered => rfl
  | .redisError true => rfl
  | .redisError false => exact absurd hredis hi

/-- The notes are right about the history and the rows. -/
structure HistoryKept (customerId : String) (v : Backend × HistoryNotes) : Prop where
  follows : Follows customerId v.1.redis v.2.recorded
  rows : v.1.database.payments.Nodup
  recorded : v.2.recorded.Nodup
  subset : v.2.recorded ⊆ v.1.database.paymentsOf customerId

section Notes

variable {customerId : String} {g : HistoryNotes} {i : ApiInput} {b : Backend} {c : ApiCommand}

theorem historyNote_clock (customerId : String) (g : HistoryNotes) (i : ApiInput) (b : Backend)
    (c : ApiCommand) : (historyNote customerId g i b c).clock = max g.clock i.now := by
  cases c with
  | redis command => cases command <;> rfl
  | _ => rfl

/-- A command on another key is not noted. -/
theorem historyNote_of_uses (hc : c.Uses (· ≠ amlHistoryKey customerId)) :
    (historyNote customerId g i b c).last = g.last ∧
      (historyNote customerId g i b c).recorded = g.recorded := by
  cases c with
  | redis command =>
    cases command with
    | lpush key text => exact ⟨rfl, if_neg hc⟩
    | _ => exact ⟨rfl, rfl⟩
  | commit => exact hc.elim
  | _ => exact ⟨rfl, rfl⟩

end Notes

namespace HistoryKept

variable {customerId : String} {b b' : Backend} {g g' : HistoryNotes} {i : ApiInput} {row : Payment}
  {text : StoredText}

/-- The entries are no more than the payments. -/
theorem length_le (h : HistoryKept customerId (b, g))
    (hlength : (b.database.paymentsOf customerId).length ≤ amlHistoryMaxItems) :
    g.recorded.length ≤ amlHistoryMaxItems :=
  (List.subperm_of_subset h.recorded h.subset).length_le.trans hlength

/-- Only what is at the key, the rows and the payments recorded matter. -/
theorem of_eq (h : HistoryKept customerId (b, g)) (hdatabase : b'.database = b.database)
    (hrecorded : g'.recorded = g.recorded) (hfollows : Follows customerId b'.redis g.recorded) :
    HistoryKept customerId (b', g') := by
  refine ⟨?_, ?_, ?_, ?_⟩ <;> simp only [hdatabase, hrecorded]
  · exact hfollows
  · exact h.rows
  · exact h.recorded
  · exact h.subset

/-- A command on the key that leaves the entries as they are. -/
theorem execRedis (h : HistoryKept customerId (b, g)) {command : Redis.Command StoredText}
    (hrecorded : g'.recorded = g.recorded)
    (hfollows : ∀ reply redis, Redis.exec i.now b.redis command = some (reply, redis) →
      Follows customerId redis g.recorded) :
    HistoryKept customerId ((b.execRedis i command).2, g') := by
  refine h.of_eq (b.execRedis_frame i command).1 hrecorded ?_
  rcases b.execRedis_cases i command with ⟨reply, redis, hexec, heq⟩ | heq
  · rw [heq]
    exact hfollows reply redis hexec
  · rw [heq]
    exact h.follows

theorem ltrim (h : HistoryKept customerId (b, g)) (hrecorded : g'.recorded = g.recorded)
    (hlength : g.recorded.length ≤ amlHistoryMaxItems) :
    HistoryKept customerId
      ((b.execRedis i (.ltrim (amlHistoryKey customerId) 0 amlHistoryMaxItems)).2, g') := by
  refine h.execRedis hrecorded fun reply redis hexec => ?_
  obtain ⟨items, hlist, hredis⟩ := Option.map_eq_some_iff.1 hexec
  cases hredis
  exact h.follows.trim hlength hlist

theorem expire (h : HistoryKept customerId (b, g)) (hrecorded : g'.recorded = g.recorded)
    (seconds : Int) :
    HistoryKept customerId
      ((b.execRedis i (.expire (amlHistoryKey customerId) seconds)).2, g') := by
  refine h.execRedis hrecorded fun reply redis hexec => ?_
  simp only [Redis.exec] at hexec
  split at hexec
  · cases hexec
    exact h.follows
  · next e hfind =>
    cases hexec
    intro items expiresAt he
    rw [Function.update_self] at he
    obtain ⟨value, expiresAt'⟩ := e
    cases he
    exact h.follows items expiresAt' (Option.filter_eq_some_iff.1 hfind).1

/-- What a gate puts at the key is no history. -/
theorem setNx (h : HistoryKept customerId (b, g)) (hrecorded : g'.recorded = g.recorded)
    (key : String) (text : StoredText) (ex : Int) :
    HistoryKept customerId ((b.execRedis i (.setNx key text ex)).2, g') := by
  refine h.execRedis hrecorded fun reply redis hexec => ?_
  simp only [Redis.exec] at hexec
  split at hexec
  · split at hexec
    · cases hexec
      exact h.follows
    · cases hexec
      by_cases hkey : amlHistoryKey customerId = key
      · rw [← hkey]
        exact .of_string (Function.update_self ..) rfl
      · exact h.follows.of_eq (Function.update_of_ne hkey ..)
  · cases hexec

/-- The entry of a payment that has none is appended, or is not. -/
theorem lpush (h : HistoryKept customerId (b, g)) (hlast : g.last = some row)
    (hrow : row ∈ b.database.paymentsOf customerId) (hfresh : row ∉ g.recorded)
    (hrecords : RecordsPayment row text) :
    HistoryKept customerId ((b.execRedis i (.lpush (amlHistoryKey customerId) text)).2,
      historyNote customerId g i b (.redis (.lpush (amlHistoryKey customerId) text))) := by
  have hrecorded : (historyNote customerId g i b
      (.redis (.lpush (amlHistoryKey customerId) text))).recorded = appended customerId g i b :=
    if_pos rfl
  by_cases hlost : i.redis = .redisError false
  · refine h.of_eq (b.execRedis_frame i _).1 (hrecorded.trans (if_pos hlost)) ?_
    rw [Backend.execRedis_lost hlost]
    exact h.follows
  unfold appended at hrecorded
  rw [if_neg hlost, hlast] at hrecorded
  cases hlist : b.redis.list? i.now (amlHistoryKey customerId) with
  | none =>
    rw [hlist] at hrecorded
    refine h.execRedis hrecorded fun reply redis hexec => ?_
    obtain ⟨items, hitems, -⟩ := Option.map_eq_some_iff.1 hexec
    cases hlist.symm.trans hitems
  | some items =>
    have hexec : Redis.exec i.now b.redis (.lpush (amlHistoryKey customerId) text) =
        some ((), b.redis.putItems i.now (amlHistoryKey customerId) (text :: items)) := by
      simp only [Redis.exec, hlist, Option.map_some]
    have hpushed := h.follows.push hrecords hlist
    rw [Backend.execRedis_applied hlost hexec]
    rw [hlist] at hrecorded
    by_cases hnil : items = []
    · subst hnil
      rw [if_pos rfl] at hpushed
      refine ⟨hrecorded ▸ hpushed, h.rows, ?_, ?_⟩ <;> simp only [hrecorded]
      · exact List.nodup_singleton row
      · exact List.cons_subset.2 ⟨hrow, List.nil_subset _⟩
    · rw [if_neg hnil] at hpushed
      have hcons : (historyNote customerId g i b
          (.redis (.lpush (amlHistoryKey customerId) text))).recorded = row :: g.recorded := by
        cases items with
        | nil => exact absurd rfl hnil
        | cons => exact hrecorded
      refine ⟨hcons ▸ hpushed, h.rows, ?_, ?_⟩ <;> simp only [hcons]
      · exact List.nodup_cons.2 ⟨hfresh, h.recorded⟩
      · exact List.cons_subset.2 ⟨hrow, h.subset⟩

/-- A payment is committed. -/
theorem insert (h : HistoryKept customerId (b, g)) (hrecorded : g'.recorded = g.recorded)
    {payment : Payment} {event : Option OutboxEvent} {record : IdempotencyRecord}
    (haccepts : b.database.Accepts payment event record) :
    HistoryKept customerId ({ b with database := b.database.insert payment event record }, g') := by
  refine ⟨?_, ?_, ?_, ?_⟩ <;> simp only [hrecorded]
  · exact h.follows
  · refine List.nodup_append'.2 ⟨h.rows, List.nodup_singleton _, ?_⟩
    rintro row hrow hmem
    rw [List.mem_singleton.1 hmem] at hrow
    exact haccepts.2.1 _ hrow rfl
  · exact h.recorded
  · intro row hrow
    obtain ⟨hmem, hcustomer⟩ := List.mem_filter.1 (h.subset hrow)
    exact List.mem_filter.2 ⟨List.mem_append_left _ hmem, hcustomer⟩

end HistoryKept

/-! ## What a reading finds -/

section Reading

variable {cfg : ApiSettings} {customerId : String} {v : Backend × HistoryNotes} {i : ApiInput}
  {entries : List StoredText}

/-- The rows of a window are payments of the customer in it. -/
theorem Database.mem_paymentsOf_of_outgoing {db : Database} {rail : PaymentMethod} {since : Instant}
    {row : Payment} (h : row ∈ db.outgoingSince customerId rail since) :
    row ∈ db.paymentsOf customerId ∧ row.status ≠ .blocked ∧ since ≤ row.createdAt := by
  obtain ⟨hmem, hrow⟩ := List.mem_filter.1 h
  obtain ⟨hcustomer, -, hsince, hstatus⟩ := of_decide_eq_true hrow
  exact ⟨List.mem_filter.2 ⟨hmem, decide_eq_true hcustomer⟩, hstatus, hsince⟩

/-- What a reading is answered with are the entries of payments, those of the windows among them. -/
theorem HistoryKept.entries_of_read (h : HistoryKept customerId v)
    (hlength : (v.1.database.paymentsOf customerId).length ≤ amlHistoryMaxItems)
    (hfinds : FindsRecorded cfg customerId i v)
    (hentries : entries ∈ (v.1.execRedis i (historyRead customerId)).1) :
    ∃ live, List.Forall₂ RecordsPayment live entries ∧ live.length ≤ amlHistoryMaxItems ∧
      ∀ row ∈ v.1.database.paymentsOf customerId, row.status ≠ .blocked →
        v.2.clock - historyWindow cfg ≤ row.createdAt → row ∈ live := by
  obtain ⟨redis, hexec⟩ := Backend.execRedis_eq_some (Option.mem_def.1 hentries)
  obtain ⟨items, hlist, hitems⟩ := Option.map_eq_some_iff.1 hexec
  cases hitems
  rcases Redis.Store.entry_of_list? hlist with ⟨hnone, rfl⟩ | ⟨expiresAt, he⟩
  · -- no history, so no payment in the windows
    refine ⟨[], .nil, Nat.zero_le _, fun row hrow hstatus hwindow => ?_⟩
    have hsome := (hfinds row hrow hstatus hwindow).2
    rw [hnone] at hsome
    cases hsome
  · have hmatched := h.follows items expiresAt he
    have hshort := h.length_le hlength
    have heq := hmatched.length_eq
    refine ⟨v.2.recorded, ?_, hshort, fun row hrow hstatus hwindow =>
      (hfinds row hrow hstatus hwindow).1⟩
    rw [List.drop_zero, List.take_of_length_le (by omega)]
    exact hmatched

/-- A reading that finds the entries of its windows covers the rows. -/
theorem HistoryKept.covers (h : HistoryKept customerId v)
    (hlength : (v.1.database.paymentsOf customerId).length ≤ amlHistoryMaxItems)
    (hfinds : FindsRecorded cfg customerId i v)
    (hentries : entries ∈ (v.1.execRedis i (historyRead customerId)).1) :
    Covers cfg customerId v.1.database v.2.clock entries := by
  obtain ⟨live, hmatched, hshort, hlive⟩ := h.entries_of_read hlength hfinds hentries
  have hpayments : ∀ text ∈ entries, IsPaymentEntry text := by
    intro text htext
    obtain ⟨row, -, hrecords⟩ := exists_mem_of_forall₂ hmatched htext
    exact hrecords.entry
  have hrecorded : List.SublistForall₂ RecordedAs live entries :=
    List.sublistForall₂_iff.2
      ⟨entries, hmatched.imp fun _ _ hrecords => hrecords.recorded, List.Sublist.refl _⟩
  have hrows (rail : PaymentMethod) (since : Instant) :
      (v.1.database.outgoingSince customerId rail since).Nodup :=
    h.rows.filter _
  have hsubset (rail : PaymentMethod) {seconds : Int}
      (hseconds : seconds ≤ max cfg.amlTotalWindowSeconds cfg.amlStructuringWindowSeconds) :
      v.1.database.outgoingSince customerId rail (v.2.clock - seconds * 1000000) ⊆ live := by
    intro row hrow
    obtain ⟨hmem, hstatus, hsince⟩ := Database.mem_paymentsOf_of_outgoing hrow
    refine hlive row hmem hstatus (Int.le_trans ?_ hsince)
    unfold historyWindow
    omega
  have htotal := cfg.amlTotalWindowSeconds_ge
  have hstructuring := cfg.amlStructuringWindowSeconds_ge
  have hlength' := hmatched.length_eq
  refine ⟨fun rail => ?_, fun rail low high => ?_⟩
  · refine sumRecent_covers hpayments hrecorded (hrows rail _) (hsubset rail (le_max_left _ _))
      (fun _ => cutoff_le_wholeSeconds (by omega)) ?_
    have hmax : amlHistoryMaxItems = 500 := rfl
    omega
  · exact countNear_covers hpayments hrecorded (hrows rail _) (hsubset rail (le_max_right _ _))
      (fun _ => cutoff_le_wholeSeconds (by omega)) low high

end Reading

/-! ## What the rules are given -/

/-- The last reading of the clock. -/
def readingNote (t : Instant) (i : ApiInput) (_ : Backend) : ApiCommand → Instant
  | .now => i.now
  | _ => t

section Given

variable (cfg : ApiSettings) (customerId : String) (rail : PaymentMethod)

/-- The total that `_total_outgoing_recent` returns is no less than that of the rows, over the
window that ends at its last reading of the clock. -/
def TotalCovers (b : Backend) (is : Nat → ApiInput) : Prop :=
  let ran := (totalOutgoingRecent cfg customerId rail).run (Backend.noting readingNote) (b, 0) is
  ∃ total, ran.outcome = .ok (.finite total) ∧
    b.database.sumOutgoingSince customerId rail
      (ran.world.2 - cfg.amlTotalWindowSeconds * 1000000) ≤ total

/-- The count that `_near_threshold_count` returns is no less than that of the rows. -/
def CountCovers (maxAmount : Decimal) (b : Backend) (is : Nat → ApiInput) : Prop :=
  let ran := (nearThresholdCount cfg customerId rail maxAmount).run (Backend.noting readingNote)
    (b, 0) is
  ∃ count, ran.outcome = .ok count ∧
    b.database.countNearThresholdSince customerId rail
      (ran.world.2 - cfg.amlStructuringWindowSeconds * 1000000) (maxAmount * ⟨95, -2⟩) maxAmount ≤
        count

variable {cfg customerId rail} {b : Backend} {g : HistoryNotes} {is : Nat → ApiInput}

theorem run_readHistoryEntries {W : Type} (H : Handler ApiCommand ApiReply W ApiInput) (w : W)
    (key : String) :
    (readHistoryEntries key).run H w is =
      ⟨.ok (H.exec (is 0) w (.redis (.lrange key 0 amlHistoryMaxItems))).1,
        (H.exec (is 0) w (.redis (.lrange key 0 amlHistoryMaxItems))).2, fun n => is (n + 1)⟩ := by
  unfold readHistoryEntries redis
  rw [run_tryCatch, map_eq_pure_bind, run_bind, run_bind]
  simp only [ApiProgram.issue, run_issue, Ran.andThen_ok]
  cases (H.exec (is 0) w (.redis (.lrange key 0 amlHistoryMaxItems))).1 <;> rfl

/-- A reading of the clock, and of a history. -/
theorem run_read_bind {α : Type} (key : String) (t : Instant)
    (f : Instant → Option (List StoredText) → ApiProgram α) :
    (now >>= fun t => readHistoryEntries key >>= f t).run (Backend.noting readingNote) (b, t) is =
      (f (is 0).now (b.execRedis (is 1) (.lrange key 0 amlHistoryMaxItems)).1).run
        (Backend.noting readingNote)
        ((b.execRedis (is 1) (.lrange key 0 amlHistoryMaxItems)).2, (is 0).now)
        fun n => is (n + 2) := by
  rw [run_bind, show (now : ApiProgram Instant).run (Backend.noting readingNote) (b, t) is =
    ⟨.ok (is 0).now, (b, (is 0).now), fun n => is (n + 1)⟩ from rfl, Ran.andThen_ok, run_bind,
    run_readHistoryEntries, Ran.andThen_ok]
  rfl

/-- The entries that are read cover the rows at the reading of the clock before them. -/
theorem covers_of_read {t : Instant} {c : ApiCommand} (hclock : g.clock ≤ t)
    (hcovers : CoveringStep cfg customerId (is 1) (b, ⟨max g.clock t, g.last, g.recorded⟩) c)
    (hread : readsHistory customerId c = true) {entries : List StoredText}
    (hreply : (b.execRedis (is 1) (historyRead customerId)).1 = some entries) :
    Covers cfg customerId b.database t entries := by
  have h := hcovers hread entries hreply
  rw [max_eq_right hclock] at h
  exact h

/-- The total covers the rows, whether it is that of the entries or of the rows. -/
theorem totalCovers_of_meets
    (hsteps : (totalOutgoingRecent cfg customerId rail).Meets
      (Backend.noting (historyNote customerId)) (RecordedStep cfg customerId) (b, g) is)
    (hcovers : (totalOutgoingRecent cfg customerId rail).Meets
      (Backend.noting (historyNote customerId)) (CoveringStep cfg customerId) (b, g) is) :
    TotalCovers cfg customerId rail b is := by
  unfold TotalCovers totalOutgoingRecent
  rw [run_read_bind]
  cases hreply : (b.execRedis (is 1) (historyRead customerId)).1 with
  | some entries =>
    obtain ⟨total, hsum, hle⟩ := (covers_of_read hsteps.1.1.1 hcovers.2.1 (decide_eq_true rfl)
      hreply).total rail
    simp only [hsum]
    exact ⟨total, rfl, hle⟩
  | none =>
    have hdatabase := (b.execRedis_frame (is 1) (historyRead customerId)).1
    refine ⟨_, rfl, Decimal.le_iff_toRat.2 (le_of_eq ?_)⟩
    exact congrArg (fun db => (Database.sumOutgoingSince db customerId rail _).toRat) hdatabase.symm

/-- And so does the count. -/
theorem countCovers_of_meets {maxAmount : Decimal}
    (hsteps : (nearThresholdCount cfg customerId rail maxAmount).Meets
      (Backend.noting (historyNote customerId)) (RecordedStep cfg customerId) (b, g) is)
    (hcovers : (nearThresholdCount cfg customerId rail maxAmount).Meets
      (Backend.noting (historyNote customerId)) (CoveringStep cfg customerId) (b, g) is) :
    CountCovers cfg customerId rail maxAmount b is := by
  unfold CountCovers nearThresholdCount
  rw [run_read_bind]
  cases hreply : (b.execRedis (is 1) (historyRead customerId)).1 with
  | some entries =>
    obtain ⟨count, hcount, hle⟩ := (covers_of_read hsteps.1.1.1 hcovers.2.1 (decide_eq_true rfl)
      hreply).count rail (maxAmount * ⟨95, -2⟩) maxAmount
    simp only [hcount]
    exact ⟨count, rfl, hle⟩
  | none =>
    have hdatabase := (b.execRedis_frame (is 1) (historyRead customerId)).1
    refine ⟨_, rfl, ?_⟩
    exact le_of_eq (congrArg (Database.countNearThresholdSince · customerId rail _ _ _)
      hdatabase.symm)

end Given

/-! ## The steps of a creation -/

/-- A run, with the notes and whether every reading so far has covered the rows. -/
abbrev outageNote (cfg : ApiSettings) (customerId : String) :
    HistoryNotes × Prop → ApiInput → Backend → ApiCommand → HistoryNotes × Prop :=
  flagging (historyNote customerId) (CoveringStep cfg customerId)

/-- The steps of such a run. -/
abbrev OutageRun (cfg : ApiSettings) (customerId : String) (i : ApiInput)
    (v : Backend × HistoryNotes × Prop) (c : ApiCommand) : Prop :=
  RecordedStep cfg customerId i (v.1, v.2.1) c

/-- The notes are right, and every reading so far has covered the rows. -/
structure Covered (customerId : String) (v : Backend × HistoryNotes × Prop) : Prop where
  kept : HistoryKept customerId (v.1, v.2.1)
  covered : v.2.2

/-- A creation has begun at `t`. -/
structure Begun (customerId : String) (t : Instant) (v : Backend × HistoryNotes × Prop) : Prop
    extends Covered customerId v where
  started : t ≤ v.2.1.clock

/-- A payment has been committed and its entry has not been appended. -/
structure Unrecorded (customerId : String) (row : Payment) (v : Backend × HistoryNotes × Prop) :
    Prop extends Covered customerId v where
  last : v.2.1.last = some row
  mem : row ∈ v.1.database.paymentsOf customerId
  fresh : row ∉ v.2.1.recorded
  created : row.createdAt ≤ v.2.1.clock

/-- The command is on another key, or reads the history. -/
def Spares (customerId : String) (c : ApiCommand) : Prop :=
  c.Uses (· ≠ amlHistoryKey customerId) ∨ c = .redis (historyRead customerId)

section Steps

variable {cfg : ApiSettings} {customerId : String} {v : Backend × HistoryNotes × Prop}
  {i : ApiInput} {b' : Backend} {c : ApiCommand} {row : Payment} {t : Instant}

theorem not_readsHistory_of_uses (hc : c.Uses (· ≠ amlHistoryKey customerId)) :
    readsHistory customerId c = false := by
  cases c with
  | redis command =>
    refine decide_eq_false fun hread => ?_
    subst hread
    exact hc rfl
  | commit => exact hc.elim
  | _ => rfl

theorem coveringStep_of_not_reads {v : Backend × HistoryNotes}
    (hc : readsHistory customerId c = false) : CoveringStep cfg customerId i v c := by
  intro hread
  rw [hc] at hread
  cases hread

theorem le_outageNote_clock (h : t ≤ v.2.1.clock) (c : ApiCommand) :
    t ≤ (outageNote cfg customerId v.2 i v.1 c).1.clock := by
  refine h.trans ?_
  simp only [outageNote, flagging, historyNote_clock]
  exact le_max_left _ _

theorem Covered.of_uses (hc : c.Uses (· ≠ amlHistoryKey customerId))
    (hagree : v.1.AgreeOff (· ≠ amlHistoryKey customerId) b') (h : Covered customerId v) :
    Covered customerId (b', outageNote cfg customerId v.2 i v.1 c) := by
  refine ⟨h.kept.of_eq hagree.database (historyNote_of_uses hc).2 ?_, h.covered,
    coveringStep_of_not_reads (not_readsHistory_of_uses hc)⟩
  exact h.kept.follows.of_eq (hagree.redis _ (not_not_intro rfl))

theorem Begun.of_uses (hc : c.Uses (· ≠ amlHistoryKey customerId))
    (hagree : v.1.AgreeOff (· ≠ amlHistoryKey customerId) b') (h : Begun customerId t v) :
    Begun customerId t (b', outageNote cfg customerId v.2 i v.1 c) :=
  ⟨h.toCovered.of_uses hc hagree, le_outageNote_clock h.started c⟩

theorem Unrecorded.of_query (hc : c.Uses fun _ => False) (h : Unrecorded customerId row v) :
    Unrecorded customerId row (v.1, outageNote cfg customerId v.2 i v.1 c) := by
  have hspared : c.Uses (· ≠ amlHistoryKey customerId) := hc.mono fun _ => False.elim
  obtain ⟨hlast, hrecorded⟩ := historyNote_of_uses (g := v.2.1) (i := i) (b := v.1) hspared
  refine ⟨h.toCovered.of_uses hspared (.refl _), hlast.trans h.last, h.mem, ?_,
    le_outageNote_clock h.created c⟩
  intro hmem
  exact h.fresh (hrecorded ▸ hmem)

/-- A reading of the history covers the rows, and other commands do not touch it. -/
theorem Begun.of_spares (hc : Spares customerId c) (hgood : OutageRun cfg customerId i v c)
    (h : Begun customerId t v) :
    Begun customerId t ((Backend.noting (outageNote cfg customerId)).exec i v c).2 := by
  rcases hc with hc | rfl
  · exact h.of_uses hc (Backend.agreeOff_exec i hc)
  · have hframe := v.1.execRedis_frame i (historyRead customerId)
    have hread : (v.1.execRedis i (historyRead customerId)).2.redis (amlHistoryKey customerId) =
        v.1.redis (amlHistoryKey customerId) :=
      hframe.2 _ fun hwrites => by cases hwrites
    refine ⟨⟨h.kept.of_eq hframe.1 rfl (h.kept.follows.of_eq hread), h.covered, ?_⟩,
      le_outageNote_clock h.started _⟩
    intro _ entries hentries
    refine h.kept.covers hgood.1.2.1 (hgood.2 (decide_eq_true rfl) ?_) hentries
    exact Option.isSome_iff_exists.2 ⟨entries, hentries⟩

/-- A command on the key that is not a reading, of which the notes change nothing but the clock. -/
theorem Covered.of_kept {command : Redis.Command StoredText} (h : Covered customerId v)
    (hread : command ≠ historyRead customerId)
    (hkept : HistoryKept customerId ((v.1.execRedis i command).2,
      historyNote customerId v.2.1 i v.1 (.redis command))) :
    Covered customerId ((v.1.execRedis i command).2,
      outageNote cfg customerId v.2 i v.1 (.redis command)) :=
  ⟨hkept, h.covered, coveringStep_of_not_reads (decide_eq_false hread)⟩

/-- `record_outgoing` appends the entry of the payment or leaves the history as it was. -/
theorem ensures_recordOutgoing {amount : Decimal} {m : Int} (hamount : amount.IsCents m)
    (hrow : row.amount.IsCents m) (hm : 0 < m) (hm' : m < 10 ^ 18)
    (h : Unrecorded customerId row v) :
    (recordOutgoing cfg customerId row.method amount).Ensures
      (Backend.noting (outageNote cfg customerId)) (OutageRun cfg customerId)
      (fun _ => Covered customerId) v := by
  refine ensures_issue_bind.2 fun i hi => ensures_tryCatch.2 ?_
  have hrecords : RecordsPayment row (.amlEntry (wholeSeconds i.now) row.method amount) :=
    ⟨⟨_, amount, m, rfl, hamount, hrow, wholeSeconds_mono (h.created.trans hi.1.1)⟩,
      ⟨_, _, amount, m, rfl, hamount, hm, hm'⟩⟩
  have hnow : Unrecorded customerId row (v.1, outageNote cfg customerId v.2 i v.1 .now) :=
    h.of_query trivial
  have happended : (do
      redis (.lpush (amlHistoryKey customerId) (.amlEntry (wholeSeconds i.now) row.method amount))
      redis (.ltrim (amlHistoryKey customerId) 0 amlHistoryMaxItems)
      redis (.expire (amlHistoryKey customerId)
        (max cfg.amlTotalWindowSeconds cfg.amlStructuringWindowSeconds)) : ApiProgram Unit).Ensures
      (Backend.noting (outageNote cfg customerId)) (OutageRun cfg customerId)
      (fun _ => Covered customerId) (v.1, outageNote cfg customerId v.2 i v.1 .now) := by
    refine Ensures.seq (ensures_redis_noting.2 fun i _ => ?_) fun _ v h => ?_
    · exact hnow.of_kept (fun heq => by cases heq)
        (hnow.kept.lpush hnow.last hnow.mem hnow.fresh hrecords)
    refine Ensures.seq (ensures_redis_noting.2 fun i hi => ?_) fun _ v h => ?_
    · exact h.of_kept (fun heq => by cases heq)
        (h.kept.ltrim (by rfl) (h.kept.length_le hi.1.2.1))
    exact ensures_redis_noting.2 fun i _ =>
      h.of_kept (fun heq => by cases heq) (h.kept.expire (by rfl) _)
  refine happended.mono ?_
  rintro (e | _) v' h'
  · cases e <;> exact h'
  · exact h'

end Steps

/-! ## Runs -/

theorem amlHistoryKey_injective : Function.Injective amlHistoryKey :=
  fun _ _ h => (String.append_right_inj "aml:history:").1 h

namespace Create

namespace Run

variable (cfg : ApiSettings) (r : Run) {customerId : String}
  {v : Backend × HistoryNotes × Prop} {t : Instant}

/-- The checks use no key of a history. -/
theorem uses_checked_spares (customerId : String) :
    (r.checked cfg).Uses (· ≠ amlHistoryKey customerId) := by
  refine Issues.bind r.uses_loadCustomerOrRaise fun customer => ?_
  refine Issues.bind (r.uses_runPreChecks cfg ?_ ?_ ?_ ?_ customer) fun _ => issues_pure _
  · exact fun rail h => amlHistoryKey_not_policy customerId ⟨rail, h.symm⟩
  · exact fun _ _ _ => append_ne_append 0 (by decide) (by decide) (by decide)
  · exact fun _ _ => append_ne_append 0 (by decide) (by decide) (by decide)
  · exact fun _ _ _ => append_ne_append 0 (by decide) (by decide) (by decide)

/-- The controls read the history of their customer, and use no other key of a history. -/
theorem issues_decided_spares (customerId : String) :
    (r.decided cfg).Issues (Spares customerId) := by
  refine Issues.bind (Issues.mono (r.uses_checked_spares cfg customerId) fun _ hc => .inl hc)
    fun x => ?_
  refine r.issues_evaluateControls cfg ?_ (fun c hc => .inl (hc.mono fun _ => False.elim)) _ _
  by_cases hkey : amlHistoryKey r.context.customerId = amlHistoryKey customerId
  · exact .inr (congrArg (fun key => ApiCommand.redis (.lrange key 0 amlHistoryMaxItems)) hkey)
  · exact .inl hkey

/-- What follows the commit of a payment of the customer. -/
theorem ensures_afterCommit_covered {m : Int} {decision : ControlDecision} {paymentId : UUID}
    (hcustomer : r.context.customerId = customerId) (hamount : r.request.amount.IsCents m)
    (hm : 0 < m) (hm' : m < 10 ^ 18) {row : Payment} (hrow : row.amount.IsCents m)
    (hmethod : row.method = r.request.method) (h : Unrecorded customerId row v) :
    (r.afterCommitObservability cfg (r.acceptedResponse paymentId decision)).Ensures
      (Backend.noting (outageNote cfg customerId)) (OutageRun cfg customerId)
      (fun _ => Covered customerId) v := by
  have hqueue (v : Backend × HistoryNotes × Prop) (h : Covered customerId v) :
      (do let _ : Int ← issue .countInReview : ApiProgram Unit).Ensures
        (Backend.noting (outageNote cfg customerId)) (OutageRun cfg customerId)
        (fun _ => Covered customerId) v :=
    ensures_issue_bind.2 fun i _ => h.of_uses trivial (.refl _)
  unfold afterCommitObservability
  by_cases hstatus : (r.acceptedResponse paymentId decision).status ≠ .blocked
  · rw [if_pos hstatus, hcustomer, ← hmethod]
    exact Ensures.bind (ensures_recordOutgoing hamount hrow hm hm' h) (fun _ => hqueue)
      fun _ _ h => h
  · rw [if_neg hstatus]
    exact hqueue v h.toCovered

/-- A gate may have the key of the history. -/
theorem begun_gate (i : ApiInput) (h : Begun customerId t v) : Begun customerId t
    ((Backend.noting (outageNote cfg customerId)).exec i v (r.gateCommand cfg)).2 :=
  ⟨h.of_kept (fun heq => by cases heq) (h.kept.setNx (by rfl) _ _ _),
    le_outageNote_clock h.started _⟩

/-- The commit of a payment and what follows it. -/
theorem ensures_persistAndObserve_covered {m : Int} {decision : ControlDecision}
    (hamount : r.request.amount.IsCents m) (hm : 0 < m) (h : Begun customerId t v) :
    (r.persistAndObserve cfg t decision).Ensures
      (Backend.noting (outageNote cfg customerId)) (OutageRun cfg customerId)
      (fun _ => Covered customerId) v := by
  refine r.ensures_persistAndObserve cfg (J := Begun customerId t)
    (fun hc h => h.of_uses (hc.mono fun _ => False.elim) (.refl _)) h ?_ fun _ h => h.toCovered
  intro i v paymentId eventId t' response payment event record commit h hi
  refine ⟨fun haccepts => ?_, fun hno => ?_⟩
  · have hcommitted : Covered customerId
        ({ v.1 with database := v.1.database.insert payment event record },
          outageNote cfg customerId v.2 i v.1 commit) :=
      ⟨h.kept.insert (by rfl) haccepts, h.covered, coveringStep_of_not_reads rfl⟩
    by_cases hcustomer : r.context.customerId = customerId
    · have hbound : (⟨10 ^ 16, 0⟩ : Decimal).IsCents (10 ^ 18) := by
        rw [Decimal.isCents_iff]
        norm_num [Decimal.toRat]
      have hunrecorded : Unrecorded customerId payment.inserted
          ({ v.1 with database := v.1.database.insert payment event record },
            outageNote cfg customerId v.2 i v.1 commit) := by
        refine ⟨hcommitted, if_pos ⟨hcustomer, haccepts⟩, ?_, fun hmem => ?_,
          le_outageNote_clock h.started commit⟩
        · exact List.mem_filter.2 ⟨List.mem_append_right _ List.mem_cons_self,
            decide_eq_true hcustomer⟩
        · exact haccepts.2.1 _ (List.mem_filter.1 (h.kept.subset hmem)).1 rfl
      exact r.ensures_afterCommit_covered cfg hcustomer hamount hm
        ((hamount.lt_iff hbound).1 hi.1.2.2) (Database.isCents_inserted hamount) rfl hunrecorded
    · have hother : amlHistoryKey r.context.customerId ≠ amlHistoryKey customerId :=
        fun hkey => hcustomer (amlHistoryKey_injective hkey)
      exact (r.uses_afterCommitObservability cfg hother response).keeps_noting Covered.of_uses
        hcommitted
  · exact ⟨⟨h.kept.of_eq rfl (by rfl) h.kept.follows, h.covered,
      coveringStep_of_not_reads rfl⟩, le_outageNote_clock h.started commit⟩

/-- One creation. -/
theorem ensures_covered {m : Int} (hamount : r.request.amount.IsCents m) (hm : 0 < m)
    (h : Covered customerId v) :
    (r.execute cfg).Ensures (Backend.noting (outageNote cfg customerId)) (OutageRun cfg customerId)
      (fun _ => Covered customerId) v := by
  refine r.ensures_execute_from cfg (J := Begun customerId)
    (fun t _ _ _ hc h => h.of_uses (hc.mono fun _ => False.elim) (.refl _)) (fun i _ => ?_)
    (fun t i v _ h => r.begun_gate cfg i h) (fun t v h => ?_) fun _ _ h => h.toCovered
  · exact ⟨h.of_uses trivial (.refl _), le_max_right _ _⟩
  · rw [createPaymentWithControls_eq]
    have hdecided : (r.decided cfg).Ensures (Backend.noting (outageNote cfg customerId))
        (OutageRun cfg customerId) (fun _ => Begun customerId t) v :=
      Issues.ensures (r.issues_decided_spares cfg customerId)
        (fun _ _ _ hc hgood h => h.of_spares hc hgood) h
    exact hdecided.bind (fun decision v h => r.ensures_persistAndObserve_covered cfg hamount hm h)
      fun _ _ h => h.toCovered

/-- Where every reading of a history that is answered finds the entries of the payments in its
windows, what the rules make of them is no less than what the rows give. -/
theorem readings_cover_rows {runs : List Run} {b : Backend} {g : HistoryNotes}
    {is : Nat → ApiInput} (hruns : ∀ r ∈ runs, ∃ m, r.request.amount.IsCents m ∧ 0 < m)
    (hstart : HistoryKept customerId (b, g))
    (hmeets : (creations cfg runs).Meets (Backend.noting (historyNote customerId))
      (RecordedStep cfg customerId) (b, g) is) :
    (creations cfg runs).Meets (Backend.noting (historyNote customerId))
      (CoveringStep cfg customerId) (b, g) is := by
  have hcovered : (creations cfg runs).Ensures (Backend.noting (outageNote cfg customerId))
      (OutageRun cfg customerId) (fun _ => Covered customerId) (b, g, True) := by
    refine ensures_creations cfg (fun r hr v h => ?_) ⟨hstart, trivial⟩
    obtain ⟨m, hamount, hm⟩ := hruns r hr
    exact r.ensures_covered cfg hamount hm h
  exact Ensures.always (hcovered.mono fun _ _ h => h.covered) hmeets

/-- Wherever the creations come to the total of the customer's recent payments, or to the number of
those near a maximum, what is returned is no less than what the rows give. -/
structure EvaluationsCover (customerId : String) (runs : List Run) (b : Backend)
    (is : Nat → ApiInput) : Prop where
  total : ∀ rail b' is', Visits Backend.handler (creations cfg runs) b is
    (totalOutgoingRecent cfg customerId rail) b' is' → TotalCovers cfg customerId rail b' is'
  count : ∀ rail maxAmount b' is', Visits Backend.handler (creations cfg runs) b is
    (nearThresholdCount cfg customerId rail maxAmount) b' is' →
      CountCovers cfg customerId rail maxAmount b' is'

/-- The rules are given no less than the rows have, where every reading of the history that is
answered finds the entries of the payments in its windows. -/
theorem history_covers_rows {runs : List Run} {b : Backend} {g : HistoryNotes}
    {is : Nat → ApiInput} (hruns : ∀ r ∈ runs, ∃ m, r.request.amount.IsCents m ∧ 0 < m)
    (hstart : HistoryKept customerId (b, g))
    (hmeets : (creations cfg runs).Meets (Backend.noting (historyNote customerId))
      (RecordedStep cfg customerId) (b, g) is) :
    EvaluationsCover cfg customerId runs b is := by
  have hcovers := readings_cover_rows cfg hruns hstart hmeets
  refine ⟨fun rail b' is' hvisits => ?_, fun rail maxAmount b' is' hvisits => ?_⟩
  · obtain ⟨g', hnoted⟩ : ∃ g', Visits (Backend.noting (historyNote customerId)) _ (b, g) is _
        (b', g') is' := hvisits.noting g
    exact totalCovers_of_meets (hmeets.visits hnoted) (hcovers.visits hnoted)
  · obtain ⟨g', hnoted⟩ : ∃ g', Visits (Backend.noting (historyNote customerId)) _ (b, g) is _
        (b', g') is' := hvisits.noting g
    exact countCovers_of_meets (hmeets.visits hnoted) (hcovers.visits hnoted)

/-! ## A payment that is not appended -/

/-- A customer without payments. -/
def openStart : Backend where
  database := ⟨[⟨"c", .basic, .active, 0⟩], [samplePolicy], [], [], []⟩
  redis _ := none

theorem openStart_kept : HistoryKept "c" (openStart, ⟨0, none, []⟩) :=
  ⟨fun _ _ he => (by cases he), List.nodup_nil, List.nodup_nil, List.nil_subset _⟩

/-- Inputs of which one command is lost. -/
def losing (command n : Nat) : ApiInput :=
  ⟨n, if n = command then .redisError false else .answered, n⟩

/-- The history of the first payment gets no time to live, and the second one reads it. -/
theorem history_covers_rows_without_expire :
    EvaluationsCover .default "c" twoPayments openStart (losing 36) :=
  history_covers_rows .default (fun r hr => (twoPayments_pay r hr).amount) openStart_kept
    (by decide +kernel)

/-- A total of zero, where the rows have more. -/
theorem not_totalCovers {b : Backend} {is : Nat → ApiInput}
    (hzero : ((totalOutgoingRecent cfg customerId .pix).run (Backend.noting readingNote) (b, 0)
      is).outcome = .ok (.finite 0))
    (hrows : ¬ b.database.sumOutgoingSince customerId .pix
      (((totalOutgoingRecent cfg customerId .pix).run (Backend.noting readingNote) (b, 0)
        is).world.2 - cfg.amlTotalWindowSeconds * 1000000) ≤ 0) :
    ¬ TotalCovers cfg customerId .pix b is := by
  rintro ⟨total, htotal, hle⟩
  rw [hzero] at htotal
  cases htotal
  exact hrows hle

set_option maxRecDepth 10000 in
/-- Where the entry of the first payment is lost, the second one is given a total of zero, and the
rows have 100.00. -/
theorem second_total_not_covered : ∃ b' is', Visits Backend.handler
    (creations .default twoPayments) openStart (losing 34)
    (totalOutgoingRecent .default "c" .pix) b' is' ∧ ¬ TotalCovers .default "c" .pix b' is' := by
  refine ⟨?b', ?is', ?visits, ?short⟩
  case visits =>
    refine .next (a := ()) (by decide +kernel) (.first (.body (.first ?_)))
    unfold Run.execute
    refine .next rfl (.next (a := none) (by decide +kernel) ?_)
    refine .next (a := true) (by decide +kernel) ?_
    refine .next (a := ⟨"c", .basic, .active, 0⟩) (by decide +kernel) ?_
    refine .next (a := ⟨samplePolicy, 2⟩) (by decide +kernel) (.first ?_)
    refine .next (a := ⟨35, .allow⟩) (by decide +kernel) (.first (.first ?_))
    change Visits _ (totalOutgoingRecent .default "c" .pix) _ _ _ _ _
    exact .here
  case short => exact not_totalCovers _ (by decide +kernel) (by decide +kernel)

/-- The entry of the first payment is not appended: the second one is given a total that is short of
the rows. -/
theorem lost_entry_not_covered : ¬ ∀ (cfg : ApiSettings) (customerId : String) (runs : List Run)
    (b : Backend) (g : HistoryNotes) (is : Nat → ApiInput),
    (∀ r ∈ runs, ∃ m, r.request.amount.IsCents m ∧ 0 < m) → HistoryKept customerId (b, g) →
      (creations cfg runs).Meets (Backend.noting (historyNote customerId))
        (OutageStep customerId) (b, g) is →
      EvaluationsCover cfg customerId runs b is := by
  intro hcovers
  have h := hcovers .default "c" twoPayments openStart ⟨0, none, []⟩ (losing 34)
    (fun r hr => (twoPayments_pay r hr).amount) openStart_kept (by decide +kernel)
  obtain ⟨b', is', hvisits, hshort⟩ := second_total_not_covered
  exact hshort (h.total .pix b' is' hvisits)

end Run

end Create

end PaymentsLab
