import PaymentsLab.Api.TextFormat
import PaymentsLab.Foundation.JsonText
import PaymentsLab.Logging.Identifiers

/-!
# A policy in JSON

`LimitsPolicyDTO.model_dump_json` writes a compact object, with the decimals as strings.
`jsonFormat` reads just that, and writes a reading of the clock with all six digits.
-/

namespace PaymentsLab

open Foundation JsonText

namespace PolicyJson

/-- The object that is written for a policy. -/
def document (policy : LimitsPolicy) : Document :=
  .object [("rail".toList, .str policy.rail.value.toList),
    ("min_amount".toList, .str policy.minAmount.toText),
    ("max_amount".toList, .str policy.maxAmount.toText),
    ("daily_limit_amount".toList, .str policy.dailyLimitAmount.toText),
    ("velocity_limit_count".toList, .literal (pythonIntText policy.velocityLimitCount)),
    ("velocity_window_seconds".toList, .literal (pythonIntText policy.velocityWindowSeconds))]

/-- The text of a policy. -/
def policyText (policy : LimitsPolicy) : String :=
  String.ofList (dump [] (document policy))

def readRail? : Option Document → Option PaymentMethod
  | some (.str text) =>
    [PaymentMethod.pix, .boleto, .ted, .card].find? fun rail => rail.value.toList = text
  | _ => none

def readDecimal? : Option Document → Option Decimal
  | some (.str text) =>
    match DecimalValue.ofText? text with
    | some (.finite d) => some d
    | _ => none
  | _ => none

def readInt? : Option Document → Option Int
  | some (.literal text) => pythonInt? text
  | _ => none

/-- The policy of an object. -/
def readPolicy? : Document → Option LimitsPolicy
  | .object members => do
    let rail ← readRail? (members.lookup "rail".toList)
    let minAmount ← readDecimal? (members.lookup "min_amount".toList)
    let maxAmount ← readDecimal? (members.lookup "max_amount".toList)
    let dailyLimitAmount ← readDecimal? (members.lookup "daily_limit_amount".toList)
    let velocityLimitCount ← readInt? (members.lookup "velocity_limit_count".toList)
    let velocityWindowSeconds ← readInt? (members.lookup "velocity_window_seconds".toList)
    return ⟨rail, minAmount, maxAmount, dailyLimitAmount, velocityLimitCount,
      velocityWindowSeconds⟩
  | _ => none

/-- The policy of a text. -/
def validate (s : String) : Option LimitsPolicy :=
  (loads? s.toList).bind readPolicy?

/-- A reading of the clock in seconds, with all six decimals; `str` leaves out zeros at the end, so
60.000000 here is 60.0 there. -/
def clockText (t : Instant) : String :=
  String.ofList (pythonIntText (t / 1000000) ++ '.' :: lastDigits 6 (t % 1000000).toNat)

theorem wf_document (policy : LimitsPolicy) : (document policy).WF := by
  have hint (n : Int) : (Document.literal (pythonIntText n)).WF := by
    obtain ⟨c, s, heq, -⟩ := exists_pythonIntText n
    refine ⟨heq ▸ List.cons_ne_nil c s, fun c hc => ?_⟩
    rcases mem_pythonIntText hc with rfl | hdigit
    · rfl
    · exact isLiteralChar_of_isDigit hdigit
  exact ⟨trivial, trivial, trivial, trivial, hint _, hint _, trivial⟩

theorem readRail?_value (rail : PaymentMethod) :
    readRail? (some (.str rail.value.toList)) = some rail := by
  cases rail <;> decide

theorem readDecimal?_toText {d : Decimal} (h : d.Writable) :
    readDecimal? (some (.str d.toText)) = some d := by
  rw [readDecimal?, DecimalValue.ofText?_toText h.adjusted h.exp]

theorem readInt?_pythonIntText {n : Int} (h : IsInt64 n) :
    readInt? (some (.literal (pythonIntText n))) = some n :=
  pythonInt?_pythonIntText (length_natText_le h)

/-- A policy is read as it was written. -/
theorem validate_policyText {policy : LimitsPolicy} (h : policy.Written) :
    validate (policyText policy) = some policy := by
  unfold validate policyText
  rw [String.toList_ofList, loads?_dump (wf_document policy) (by simp), Option.bind_some]
  have hread : readPolicy? (document policy) = (do
      let rail ← readRail? (some (.str policy.rail.value.toList))
      let minAmount ← readDecimal? (some (.str policy.minAmount.toText))
      let maxAmount ← readDecimal? (some (.str policy.maxAmount.toText))
      let dailyLimitAmount ← readDecimal? (some (.str policy.dailyLimitAmount.toText))
      let velocityLimitCount ←
        readInt? (some (.literal (pythonIntText policy.velocityLimitCount)))
      let velocityWindowSeconds ←
        readInt? (some (.literal (pythonIntText policy.velocityWindowSeconds)))
      return ⟨rail, minAmount, maxAmount, dailyLimitAmount, velocityLimitCount,
        velocityWindowSeconds⟩) := rfl
  rw [hread, readRail?_value, readDecimal?_toText h.minAmount, readDecimal?_toText h.maxAmount,
    readDecimal?_toText h.dailyLimitAmount, readInt?_pythonIntText h.velocityLimitCount,
    readInt?_pythonIntText h.velocityWindowSeconds]
  rfl

/-- A number is no object. -/
theorem validate_number {c : Char} {s : List Char} (hc : c = '-' ∨ IsAsciiDigit c) :
    validate (String.ofList (c :: s)) = none := by
  have hliteral : isLiteralChar c = true := by
    rcases hc with rfl | hdigit
    · rfl
    · exact isLiteralChar_of_isDigit hdigit
  have hne {c' : Char} (h : isLiteralChar c' = false) : c ≠ c' := by
    rintro rfl
    rw [hliteral] at h
    cases h
  unfold validate loads?
  rw [String.toList_ofList, skip_cons (isSpace_of_isLiteralChar hliteral), scanValue,
    if_neg (hne (by decide)), if_neg (hne (by decide)), if_neg (hne (by decide)), if_pos hliteral]
  simp only
  split
  · rfl
  · rfl

theorem lastDigits_inj {width m n : Nat} (hm : m < 10 ^ width) (hn : n < 10 ^ width)
    (h : lastDigits width m = lastDigits width n) : m = n := by
  induction width generalizing m n with
  | zero => omega
  | succ width ih =>
    obtain ⟨hfront, hlast⟩ := List.append_inj' h rfl
    have hdiv := ih (by omega) (by omega) hfront
    have hmod := Logging.digitChar_inj (by omega) (by omega) (List.singleton_inj.1 hlast)
    omega

theorem pythonIntText_injective : Function.Injective pythonIntText := by
  intro m n h
  have hsign := congrArg splitSign h
  rw [splitSign_pythonIntText, splitSign_pythonIntText] at hsign
  obtain ⟨hneg, hdigits⟩ := Prod.mk.inj hsign
  have habs := toDigits_injective hdigits
  rw [decide_eq_decide] at hneg
  omega

theorem isAsciiDigit_of_mem_lastDigits {width n : Nat} {c : Char} (h : c ∈ lastDigits width n) :
    IsAsciiDigit c := by
  induction width generalizing n with
  | zero => cases h
  | succ width ih =>
    rcases List.mem_append.1 h with hfront | hlast
    · exact ih hfront
    · have hall : ∀ d < 10, (Nat.digitChar d).isDigit = true := by decide
      rw [List.mem_singleton.1 hlast]
      exact hall _ (Nat.mod_lt n (by decide))

theorem clockText_injective : Function.Injective clockText := by
  intro t t' h
  have htexts := congrArg String.toList h
  simp only [clockText, String.toList_ofList] at htexts
  have hdot (n : Nat) : '.' ∉ lastDigits 6 n := fun hmem =>
    (isAsciiDigit_of_mem_lastDigits hmem).ne (by decide) rfl
  obtain ⟨hseconds, hmicros⟩ := Separated.split_at_last_separator (hdot _) (hdot _) htexts
  have hdiv := pythonIntText_injective hseconds
  have hmod (t : Int) : (t % 1000000).toNat < 10 ^ 6 := by
    have := Int.emod_lt_of_pos t (b := 1000000) (by decide)
    omega
  have heq := lastDigits_inj (hmod t) (hmod t') hmicros
  have hparts {a b : Int} (hdiv : a / 1000000 = b / 1000000)
      (hmod : (a % 1000000).toNat = (b % 1000000).toNat) : a = b := by omega
  exact hparts hdiv heq

end PolicyJson

/-- The texts of the services, with policies in JSON. -/
def jsonFormat : TextFormat where
  policyText := PolicyJson.policyText
  validate := PolicyJson.validate
  clockText := PolicyJson.clockText
  validate_policyText _ := PolicyJson.validate_policyText
  validate_number _ _ := PolicyJson.validate_number
  clockText_injective := PolicyJson.clockText_injective

end PaymentsLab
