import PaymentsLab.Api.Controls
import PaymentsLab.Contracts.PythonText

/-!
# The AML rules

`payments_api/services/aml_service.py`: the blocklist, the total of the recent payments of a
customer and the number of those near the maximum, both read from a bounded history in Redis or,
on a `RedisError`, from the database.
-/

namespace PaymentsLab

open Foundation

namespace AmlRuleEngine

open ApiProgram

/-- `_try_parse_entry`. No other text the services store has a `|` in it. -/
def tryParseEntry : StoredText → Option (Int × String × DecimalValue)
  | .amlEntry timestamp rail amount => some (timestamp, rail.value, .finite amount)
  | .text entry =>
    match entry.toList.splitOn '|' with
    | timestamp :: rail :: amount =>
      if amount.isEmpty then none
      else
        -- at most two splits: the third part goes on to the end
        match pythonInt? timestamp, DecimalValue.ofText? (['|'].intercalate amount) with
        | some timestamp, some amount => some (timestamp, String.ofList rail, amount)
        | _, _ => none
    | _ => none
  | _ => none

/-- A `decimal` operation that may signal. -/
def decimal {α : Type} : Option α → ApiProgram α
  | some a => pure a
  | none => throw .decimalSignal

/-- The loop of `_sum_recent`. -/
def sumRecentFrom (rail : String) (cutoff : Int) (total : DecimalValue) :
    List StoredText → ApiProgram DecimalValue
  | [] => pure total
  | entry :: entries =>
    match tryParseEntry entry with
    | none => sumRecentFrom rail cutoff total entries
    | some (timestamp, currentRail, amount) =>
      if cutoff ≤ timestamp ∧ currentRail = rail then do
        let total ← decimal (total.add amount)
        sumRecentFrom rail cutoff total entries
      else sumRecentFrom rail cutoff total entries

/-- `_sum_recent`. -/
def sumRecent (entries : List StoredText) (rail : String) (cutoff : Int) :
    ApiProgram DecimalValue :=
  sumRecentFrom rail cutoff (.finite 0) entries

/-- `low <= amount <= high`. -/
def between (low high : Decimal) (amount : DecimalValue) : ApiProgram Bool := do
  if ← decimal (DecimalValue.le? (.finite low) amount) then
    decimal (DecimalValue.le? amount (.finite high))
  else pure false

/-- The loop of `_count_near`. -/
def countNearFrom (rail : String) (cutoff : Int) (low high : Decimal) (count : Int) :
    List StoredText → ApiProgram Int
  | [] => pure count
  | entry :: entries =>
    match tryParseEntry entry with
    | none => countNearFrom rail cutoff low high count entries
    | some (timestamp, currentRail, amount) =>
      if timestamp < cutoff ∨ currentRail ≠ rail then
        countNearFrom rail cutoff low high count entries
      else do
        let near ← between low high amount
        countNearFrom rail cutoff low high (if near then count + 1 else count) entries

/-- `_count_near`. -/
def countNear (entries : List StoredText) (rail : String) (cutoff : Int) (low high : Decimal) :
    ApiProgram Int :=
  countNearFrom rail cutoff low high 0 entries

/-- `_read_history_entries`. -/
def readHistoryEntries (key : String) : ApiProgram (Option (List StoredText)) :=
  tryCatch (some <$> redis (.lrange key 0 amlHistoryMaxItems)) fun
    | .redisError => pure none
    | e => throw e

/-- `int(time.time())`. -/
def wholeSeconds (t : Instant) : Int :=
  Int.tdiv t 1000000

variable (cfg : ApiSettings)

/-- `_total_outgoing_recent`. -/
def totalOutgoingRecent (customerId : String) (rail : PaymentMethod) : ApiProgram DecimalValue := do
  let t ← now
  match ← readHistoryEntries (amlHistoryKey customerId) with
  | some entries => sumRecent entries rail.value (wholeSeconds t - cfg.amlTotalWindowSeconds)
  | none =>
    let t ← now
    let total ← sumOutgoingSince customerId rail (t - cfg.amlTotalWindowSeconds * 1000000)
    return .finite total

/-- `_near_threshold_count`. -/
def nearThresholdCount (customerId : String) (rail : PaymentMethod) (maxAmount : Decimal) :
    ApiProgram Int := do
  let t ← now
  let low := maxAmount * ⟨95, -2⟩
  match ← readHistoryEntries (amlHistoryKey customerId) with
  | some entries =>
    countNear entries rail.value (wholeSeconds t - cfg.amlStructuringWindowSeconds) low maxAmount
  | none =>
    let t ← now
    countNearThresholdSince customerId rail (t - cfg.amlStructuringWindowSeconds * 1000000) low
      maxAmount

/-- `destination and destination in self._blocklist_destinations`. -/
def blocklisted (destination : Option String) : Bool :=
  destination.any fun d => d ≠ "" ∧ d ∈ cfg.amlBlocklistDestinations

/-- `evaluate`. -/
def evaluate (customerId : String) (rail : PaymentMethod) (amount : Decimal)
    (destination : Option String) (policy : LimitsPolicy) : ApiProgram AmlDecision := do
  if blocklisted cfg destination then return .block
  let total ← totalOutgoingRecent cfg customerId rail
  let total ← decimal (total.add (.finite amount))
  if ← decimal (total.gt? (.finite cfg.amlTotalThresholdAmount)) then return .review
  let nearCount ← nearThresholdCount cfg customerId rail policy.maxAmount
  let nearCount := if policy.maxAmount * ⟨95, -2⟩ ≤ amount then nearCount + 1 else nearCount
  if cfg.amlStructuringCountThreshold ≤ nearCount then return .review
  return .allow

/-- `record_outgoing`. -/
def recordOutgoing (customerId : String) (rail : PaymentMethod) (amount : Decimal) :
    ApiProgram Unit := do
  let t ← now
  tryCatch
    (do
      redis (.lpush (amlHistoryKey customerId) (.amlEntry (wholeSeconds t) rail amount))
      redis (.ltrim (amlHistoryKey customerId) 0 amlHistoryMaxItems)
      redis (.expire (amlHistoryKey customerId)
        (max cfg.amlTotalWindowSeconds cfg.amlStructuringWindowSeconds)))
    fun
    | .redisError => pure ()
    | e => throw e

end AmlRuleEngine

end PaymentsLab
