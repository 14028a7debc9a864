import PaymentsLab.Api.AmlService
import PaymentsLab.Api.DailyTotal
import PaymentsLab.Contracts.DecimalText
import PaymentsLab.Foundation.RedisTexts
import PaymentsLab.Foundation.Relational

/-!
# What Redis really holds

The services write texts and parse what they read; `StoredText` stands for these texts. Here Redis
holds strings: `TextBackend` writes the text of every value and reads it back as the services do.
It is simulated by `Backend` (`textBackend_simulated`), because every text is read as what it was
written for.
-/

namespace PaymentsLab

open Foundation

/-! ## Texts -/

/-- Integers of 64 bits. -/
def IsInt64 (n : Int) : Prop :=
  -2 ^ 63 ≤ n ∧ n < 2 ^ 63

instance (n : Int) : Decidable (IsInt64 n) :=
  inferInstanceAs (Decidable (_ ∧ _))

/-- `str` of an integer, as a string. -/
def intString (n : Int) : String :=
  String.ofList (pythonIntText n)

/-- The integer that a string is to `INCR`: written like one, and of 64 bits. -/
def redisInt? (s : String) : Option Int :=
  (digitsValue? (splitSign s.toList).2).bind fun n =>
    let n := signed (splitSign s.toList).1 n
    if intString n = s ∧ IsInt64 n then some n else none

instance : Redis.Text String where
  ofInt := intString
  toInt := redisInt?

/-- A `decimal.Decimal` has its exponent within the limits. -/
structure Decimal.Writable (d : Decimal) : Prop where
  adjusted : DecimalValue.adjusted d ≤ DecimalValue.maxEmax
  exp : DecimalValue.minEtiny ≤ d.exp

/-- The columns of a policy are `Integer` and `Numeric(18, 2)`, and its decimals are Python's. -/
structure LimitsPolicy.Written (policy : LimitsPolicy) : Prop where
  stored : policy.Stored
  minAmount : policy.minAmount.Writable
  maxAmount : policy.maxAmount.Writable
  dailyLimitAmount : policy.dailyLimitAmount.Writable
  velocityLimitCount : IsInt64 policy.velocityLimitCount
  velocityWindowSeconds : IsInt64 policy.velocityWindowSeconds

/-- `model_dump_json` and `model_validate_json` of a policy, and `str` of a reading of the clock. -/
structure TextFormat where
  policyText : LimitsPolicy → String
  validate : String → Option LimitsPolicy
  clockText : Instant → String
  validate_policyText : ∀ policy, policy.Written → validate (policyText policy) = some policy
  /-- a number is no object -/
  validate_number : ∀ c s, c = '-' ∨ IsAsciiDigit c → validate (String.ofList (c :: s)) = none
  clockText_injective : Function.Injective clockText

namespace TextFormat

variable (fmt : TextFormat)

/-- The text of a value. -/
def render : StoredText → String
  | .int n => intString n
  | .policy policy => fmt.policyText policy
  | .velocityMember now count => fmt.clockText now ++ "-" ++ String.ofList (natText count)
  | .amlEntry timestamp rail amount =>
    String.ofList (['|'].intercalate [pythonIntText timestamp, rail.value.toList, amount.toText])
  | .text s => s

/-- A text, as the services take it. -/
def read (s : String) : StoredText :=
  match fmt.validate s with
  | some policy => .policy policy
  | none => .text s

/-- A value that has been written and is read again. -/
def reread (value : StoredText) : StoredText :=
  fmt.read (fmt.render value)

/-- A text that is no policy, and a 64-bit integer to everybody or to nobody. -/
structure Plain (s : String) : Prop where
  validate : fmt.validate s = none
  toInt : s.toInt? = redisInt? s
  pythonInt : ∀ n, pythonInt? s.toList = some n → IsInt64 n

/-- The strings, members and items that the services write, and other texts. -/
def kinds : Redis.Kinds StoredText where
  string
    | .int n => IsInt64 n
    | .policy policy => policy.Written
    | .text s => fmt.Plain s
    | _ => False
  member
    | .velocityMember _ _ => True
    | _ => False
  item
    | .amlEntry timestamp _ amount => IsInt64 timestamp ∧ amount.Writable
    | .text s => fmt.validate s = none
    | _ => False

end TextFormat

/-! ## Reading what was written -/

/-- What an integer begins with. -/
theorem exists_pythonIntText (n : Int) :
    ∃ c s, pythonIntText n = c :: s ∧ (c = '-' ∨ IsAsciiDigit c) := by
  have hne : pythonIntText n ≠ [] := by
    unfold pythonIntText
    split
    · exact List.cons_ne_nil _ _
    · exact Nat.toDigits_ne_nil
  obtain ⟨c, s, heq⟩ := List.exists_cons_of_ne_nil hne
  exact ⟨c, s, heq, mem_pythonIntText (n := n) (heq ▸ List.mem_cons_self)⟩

theorem intString_ne_empty (n : Int) : intString n ≠ "" := by
  obtain ⟨c, s, heq, -⟩ := exists_pythonIntText n
  intro hempty
  have hnil := congrArg String.toList hempty
  rw [intString, String.toList_ofList, heq] at hnil
  cases hnil

/-- An integer of 64 bits is short enough for `int`. -/
theorem length_natText_le {n : Int} (h : IsInt64 n) :
    (natText n.natAbs).length ≤ maxIntDigits := by
  have hlt : n.natAbs < 10 ^ 20 := by
    obtain ⟨hlow, hhigh⟩ := h
    omega
  have hlength : (natText n.natAbs).length ≤ 20 :=
    (Nat.length_toDigits_le_iff (by decide) (by decide)).2 hlt
  exact hlength.trans (by decide)

theorem redisInt?_intString {n : Int} (h : IsInt64 n) : redisInt? (intString n) = some n := by
  unfold redisInt? intString
  rw [String.toList_ofList, splitSign_pythonIntText, digitsValue?_natText, Option.bind_some]
  simp only [signed_natAbs]
  exact if_pos ⟨trivial, h⟩

/-- What is an integer to `INCR` is written like one. -/
theorem intString_of_redisInt? {s : String} {n : Int} (h : redisInt? s = some n) :
    intString n = s ∧ IsInt64 n := by
  obtain ⟨m, -, hm⟩ := Option.bind_eq_some_iff.1 h
  simp only at hm
  split at hm
  · next hs =>
    cases hm
    exact hs
  · cases hm

namespace TextFormat

variable {fmt : TextFormat} {value : StoredText}

theorem validate_intString (n : Int) : fmt.validate (intString n) = none := by
  obtain ⟨c, s, heq, hc⟩ := exists_pythonIntText n
  rw [intString, heq]
  exact fmt.validate_number c s hc

theorem reread_int (n : Int) : fmt.reread (.int n) = .text (intString n) := by
  unfold reread read render
  rw [validate_intString]

theorem reread_policy {policy : LimitsPolicy} (h : policy.Written) :
    fmt.reread (.policy policy) = .policy policy := by
  unfold reread read render
  rw [fmt.validate_policyText policy h]

theorem reread_text {s : String} (h : fmt.validate s = none) : fmt.reread (.text s) = .text s := by
  unfold reread read render
  rw [h]

theorem pythonInt?_intString {n : Int} (h : IsInt64 n) :
    StoredText.pythonInt? (.text (intString n)) = some n := by
  rw [StoredText.pythonInt?, intString, String.toList_ofList,
    pythonInt?_pythonIntText (length_natText_le h)]

/-- `INCR` finds the integers of the values in their texts. -/
theorem toInt_render (h : fmt.kinds.string value) :
    Redis.Text.toInt (fmt.render value) = Redis.Text.toInt value := by
  cases value with
  | int n => exact redisInt?_intString h
  | policy policy =>
    change redisInt? (fmt.policyText policy) = none
    cases hint : redisInt? (fmt.policyText policy) with
    | none => rfl
    | some n =>
      have hvalid := fmt.validate_policyText policy h
      rw [← (intString_of_redisInt? hint).1, validate_intString] at hvalid
      cases hvalid
  | text s => exact h.toInt.symm
  | velocityMember | amlEntry => exact h.elim

/-- Members have different texts. -/
theorem render_member_injective {member : StoredText} (h : fmt.kinds.member value)
    (h' : fmt.kinds.member member) (heq : fmt.render value = fmt.render member) :
    value = member := by
  cases value with
  | velocityMember now count =>
    cases member with
    | velocityMember now' count' =>
      have htexts := congrArg String.toList heq
      simp only [render, String.toList_append, String.toList_ofList, List.append_assoc] at htexts
      have hminus (n : Nat) : '-' ∉ natText n := fun hmem =>
        (isAsciiDigit_of_mem_natText hmem).ne (by decide) rfl
      obtain ⟨hclock, hcount⟩ :=
        Separated.split_at_last_separator (hminus count) (hminus count') htexts
      obtain rfl := fmt.clockText_injective (String.toList_injective hclock)
      obtain rfl := toDigits_injective hcount
      rfl
    | int | policy | amlEntry | text => exact h'.elim
  | int | policy | amlEntry | text => exact h.elim

/-- An entry of a history is parsed as what it was written for. -/
theorem tryParseEntry_reread (h : fmt.kinds.item value) :
    AmlRuleEngine.tryParseEntry (fmt.reread value) = AmlRuleEngine.tryParseEntry value := by
  cases value with
  | amlEntry timestamp rail amount =>
    have hbar (l : List Char)
        (hl : l ∈ [pythonIntText timestamp, rail.value.toList, amount.toText]) : '|' ∉ l := by
      intro hmem
      simp only [List.mem_cons, List.not_mem_nil, or_false] at hl
      rcases hl with rfl | rfl | rfl
      · rcases mem_pythonIntText hmem with heq | hdigit
        · cases heq
        · exact hdigit.ne (by decide) rfl
      · revert hmem
        cases rail <;> decide
      · rcases Decimal.mem_toText hmem with heq | heq | heq | heq | hdigit
        all_goals first | cases heq | exact hdigit.ne (by decide) rfl
    have hsplit := List.splitOn_intercalate '|' hbar (List.cons_ne_nil _ _)
    have hvalidate : fmt.validate (fmt.render (.amlEntry timestamp rail amount)) = none := by
      obtain ⟨c, rest, heq, hc⟩ := exists_pythonIntText timestamp
      rw [render, heq, List.intercalate_cons_cons, List.cons_append]
      exact fmt.validate_number c _ hc
    unfold reread read
    rw [hvalidate, render]
    simp only [AmlRuleEngine.tryParseEntry]
    rw [String.toList_ofList, hsplit]
    simp only [List.isEmpty_cons, List.intercalate_singleton,
      pythonInt?_pythonIntText (length_natText_le h.1),
      DecimalValue.ofText?_toText h.2.adjusted h.2.exp, String.ofList_toList]
    rfl
  | text s => rw [reread_text h]
  | int | policy | velocityMember => exact h.elim

end TextFormat

/-! ## The backend of texts -/

/-- The database, and Redis with its strings. -/
structure TextBackend where
  database : Database
  redis : Redis.Store String

namespace TextBackend

variable (fmt : TextFormat)

/-- A Redis command, with the texts of its values. -/
def execRedis (i : ApiInput) (b : TextBackend) (command : Redis.Command StoredText) :
    Option (Redis.Reply command) × TextBackend :=
  match Redis.exec i.now b.redis (command.map fmt.render), i.redis with
  | some (reply, redis), .answered =>
    (some (command.readReply fmt.render fmt.read reply), { b with redis := redis })
  | some (_, redis), .redisError true => (none, { b with redis := redis })
  | _, _ => (none, b)

/-- A command of the services. The database holds what it holds in `Backend`. -/
def exec (i : ApiInput) (b : TextBackend) : (c : ApiCommand) → ApiReply c × TextBackend
  | .redis command => b.execRedis fmt i command
  | c =>
    let r := Backend.exec i ⟨b.database, fun _ => none⟩ c
    (r.1, { b with database := r.2.database })

def handler : Handler ApiCommand ApiReply TextBackend ApiInput :=
  ⟨exec fmt⟩

/-- The key that a command increments. -/
def incrKey? : ApiCommand → Option String
  | .redis (.incr key) => some key
  | _ => none

/-- The clock is within 64 bits of seconds, and so is a counter that is incremented. -/
def InRange (i : ApiInput) (b : TextBackend) (c : ApiCommand) : Prop :=
  IsInt64 (AmlRuleEngine.wholeSeconds i.now) ∧ ∀ key ∈ incrKey? c,
    ∀ text ∈ (b.redis.string? i.now key).join, ∀ n ∈ redisInt? text, n + 1 < 2 ^ 63

instance (i : ApiInput) (b : TextBackend) (c : ApiCommand) : Decidable (InRange i b c) :=
  inferInstanceAs (Decidable (_ ∧ _))

/-- Redis holds the texts of what the other one holds. -/
structure Renders (b : Backend) (b' : TextBackend) : Prop where
  database : b'.database = b.database
  redis : b'.redis = b.redis.map fmt.render
  kinds : b.redis.Of fmt.kinds
  policies : ∀ policy ∈ b.database.policies, policy.Written

/-- What the services write has a text that can be read. -/
def Readable : ApiCommand → Prop
  | .redis (.set _ text _) => fmt.kinds.string text
  | .redis (.setNx _ text _) => fmt.kinds.string text
  | .redis (.zadd _ member _) => fmt.kinds.member member
  | .redis (.lpush _ text) => fmt.kinds.item text
  | _ => True

/-- A reply, and the one with the texts read again. -/
def Replies : (c : ApiCommand) → ApiReply c → ApiReply c → Prop
  | .redis command, r, r' => r' = Option.map (command.mapReply fmt.reread) r ∧
      ∀ reply, r = some reply → command.ReplyOf fmt.kinds reply
  | .now, t, t' => t = t' ∧ IsInt64 (AmlRuleEngine.wholeSeconds t)
  | .getByRail _, policy, policy' => policy = policy' ∧ ∀ p, policy = some p → p.Written
  | _, r, r' => r = r'

variable {fmt} {b : Backend} {b' : TextBackend} {i : ApiInput}

/-- The texts of a command that the services may issue are of their kinds. -/
theorem of_readable {command : Redis.Command StoredText} (h : Renders fmt b b')
    (hreadable : Readable fmt (.redis command)) (hrange : InRange i b' (.redis command)) :
    command.Of fmt.kinds b.redis i.now := by
  cases command with
  | incr key =>
    intro text htext n hn
    have hstring : b'.redis.string? i.now key = some (text.map fmt.render) := by
      rw [h.redis, Redis.Store.string?_map, htext, Option.map_some]
    cases text with
    | none =>
      cases hn
      exact show IsInt64 1 by decide
    | some value =>
      have hvalue := h.kinds.string? htext
      have hint : redisInt? (fmt.render value) = some n :=
        (TextFormat.toInt_render hvalue).trans hn
      have hlow := (intString_of_redisInt? hint).2.1
      exact ⟨by omega, hrange.2 key rfl _ (by rw [hstring]; rfl) n hint⟩
  | set | setNx | zadd | lpush => exact hreadable
  | get | expire | zremrangebyscore | zcard | ltrim | lrange => trivial

/-- The texts respect the commands. -/
theorem respected_of_readable {command : Redis.Command StoredText} (h : Renders fmt b b')
    (hreadable : Readable fmt (.redis command)) : command.Respected fmt.render b.redis i.now := by
  cases command with
  | incr key =>
    exact ⟨fun _ => rfl, fun text htext => TextFormat.toInt_render (h.kinds.string? htext)⟩
  | zadd key member score =>
    exact fun members hmembers m hm =>
      TextFormat.render_member_injective (h.kinds.sortedSet? hmembers m hm) hreadable
  | _ => trivial

theorem execRedis_simulated {command : Redis.Command StoredText} (h : Renders fmt b b')
    (hreadable : Readable fmt (.redis command)) (hrange : InRange i b' (.redis command)) :
    Replies fmt (.redis command) (b.execRedis i command).1 (b'.execRedis fmt i command).1 ∧
      Renders fmt (b.execRedis i command).2 (b'.execRedis fmt i command).2 := by
  have hmap := Redis.exec_map fmt.read (respected_of_readable (i := i) h hreadable)
  unfold Backend.execRedis TextBackend.execRedis
  rw [h.redis]
  cases hexec : Redis.exec i.now b.redis command with
  | none =>
    rw [hexec, Option.map_none, Option.map_eq_none_iff] at hmap
    rw [hmap]
    exact ⟨⟨rfl, fun reply hreply => by cases hreply⟩, h⟩
  | some r =>
    obtain ⟨reply, redis⟩ := r
    rw [hexec, Option.map_some] at hmap
    obtain ⟨⟨reply', redis'⟩, hexec', heq⟩ := Option.map_eq_some_iff.1 hmap
    obtain ⟨hreply, hredis⟩ := Prod.mk.inj heq
    obtain ⟨hkinds, hof⟩ := h.kinds.exec (of_readable h hreadable hrange) hexec
    rw [hexec']
    have hrenders : Renders fmt { b with redis := redis } { b' with redis := redis' } :=
      ⟨h.database, hredis, hkinds, h.policies⟩
    match i.redis with
    | .answered =>
      refine ⟨⟨congrArg some hreply, fun reply' hreply' => ?_⟩, hrenders⟩
      cases hreply'
      exact hof
    | .redisError true => exact ⟨⟨rfl, fun reply hreply => by cases hreply⟩, hrenders⟩
    | .redisError false => exact ⟨⟨rfl, fun reply hreply => by cases hreply⟩, h⟩

/-- Every step over texts is a step over values, with the reply that has been written. -/
theorem simulated : Handler.Simulates Backend.handler (handler fmt) (Renders fmt) (Readable fmt)
    (Replies fmt) InRange := by
  intro i b b' c h hreadable hrange
  cases c with
  | redis command => exact execRedis_simulated h hreadable hrange
  | now => exact ⟨⟨rfl, hrange.1⟩, h⟩
  | newUuid | begin => exact ⟨rfl, h⟩
  | getByRail rail =>
    refine ⟨⟨congrArg (Database.policyByRail · rail) h.database.symm, fun policy hpolicy => ?_⟩, h⟩
    exact h.policies policy (List.mem_of_find?_eq_some hpolicy)
  | commit payment event record =>
    simp only [handler, exec, Backend.handler, Backend.exec, h.database]
    split
    · exact ⟨rfl, rfl, h.redis, h.kinds, h.policies⟩
    · exact ⟨rfl, rfl, h.redis, h.kinds, h.policies⟩
  | getSnapshot | getByMerchantAndIdempotency | getById | sumOutgoingSince | countOutgoingSince
    | countNearThresholdSince | countFailuresSince | destinationSeen | countInReview =>
    refine ⟨?_, h⟩
    simp only [Replies, handler, exec, Backend.handler, Backend.exec, h.database]

end TextBackend

end PaymentsLab
