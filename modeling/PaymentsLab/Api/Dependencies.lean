import PaymentsLab.Contracts.Validation

/-!
# The bearer gate

`enforce_api_auth` of `payments_api/api/dependencies.py`. `secrets.compare_digest` raises a
`TypeError` on texts beyond ASCII, so the gate answers as it should on every header but those that
make it compare such a text (`bearer_gate_exact_iff`).
-/

namespace PaymentsLab

/-! ## The gate -/

/-- `HTTPException` of the framework. -/
structure HTTPException where
  statusCode : Nat
  detail : String
  headers : Option (List (String × String))
  deriving DecidableEq

/-- What `enforce_api_auth` raises. -/
inductive AuthException
  | http (exception : HTTPException)
  | typeError
  deriving DecidableEq

/-- The settings of the gate. -/
structure AuthSettings where
  apiAuthEnabled : Bool
  apiAuthToken : Option String

/-- `str.isascii`. -/
def isAscii (s : String) : Bool :=
  s.toList.all fun c => c.toNat < 128

/-- `secrets.compare_digest` of two `str`. -/
def compareDigest (a b : String) : Except AuthException Bool :=
  if isAscii a ∧ isAscii b then .ok (a = b) else .error .typeError

def expectedPrefix : String := "Bearer "

/-- The exception of a request that does not show the token. -/
def unauthorized (detail : String) : AuthException :=
  .http ⟨401, detail, some [("WWW-Authenticate", "Bearer")]⟩

/-- `enforce_api_auth`; the application may have no settings, and the request no header. -/
def enforceApiAuth (settings : Option AuthSettings) (authorization : Option String) :
    Except AuthException Unit := do
  let some settings := settings | return
  if !settings.apiAuthEnabled then return
  let apiAuthToken := settings.apiAuthToken.getD ""
  if apiAuthToken = "" then throw (.http ⟨500, "Authentication is misconfigured", none⟩)
  let authorization := authorization.getD ""
  if authorization = "" then throw (unauthorized "Missing bearer token")
  if !expectedPrefix.toList.isPrefixOf authorization.toList then
    throw (unauthorized "Invalid authorization scheme")
  let token := stripText (.ofList (authorization.toList.drop expectedPrefix.length))
  if !(← compareDigest token apiAuthToken) then throw (unauthorized "Invalid bearer token")

example : enforceApiAuth (some ⟨true, some "t"⟩) (some "Bearer  t ") = .ok () := by decide

/-! ## What it answers -/

variable {s : AuthSettings} {token : String} {header : Option String}

/-- With a token to ask for, a header without the prefix is refused. -/
theorem enforceApiAuth_of_not_bearer (henabled : s.apiAuthEnabled = true)
    (htoken : s.apiAuthToken = some token) (hne : token ≠ "")
    (h : ∀ text, header ≠ some (expectedPrefix ++ text)) :
    ∃ detail, enforceApiAuth (some s) header = .error (unauthorized detail) := by
  have hprefix (value : String) (hvalue : header = some value) :
      expectedPrefix.toList.isPrefixOf value.toList = false := by
    rw [Bool.eq_false_iff]
    intro hp
    obtain ⟨rest, hrest⟩ := List.isPrefixOf_iff_prefix.1 hp
    refine h (.ofList rest) (hvalue.trans (congrArg some (String.toList_inj.1 ?_)))
    rw [String.toList_append, String.toList_ofList, hrest]
  unfold enforceApiAuth
  cases header with
  | none => exact ⟨"Missing bearer token", by simp [henabled, htoken, hne]; rfl⟩
  | some value =>
    by_cases hempty : value = ""
    · exact ⟨"Missing bearer token", by simp [henabled, htoken, hne, hempty]; rfl⟩
    · refine ⟨"Invalid authorization scheme", ?_⟩
      simp [henabled, htoken, hne, hempty, hprefix value rfl]
      rfl

/-- After the prefix the trimmed rest is compared with the token. -/
theorem enforceApiAuth_bearer (henabled : s.apiAuthEnabled = true)
    (htoken : s.apiAuthToken = some token) (hne : token ≠ "") (text : String) :
    enforceApiAuth (some s) (some (expectedPrefix ++ text)) =
      if isAscii (stripText text) ∧ isAscii token then
        if stripText text = token then .ok () else .error (unauthorized "Invalid bearer token")
      else .error .typeError := by
  have hempty : expectedPrefix ++ text ≠ "" := by
    intro h
    have hlength := congrArg String.length h
    rw [String.length_append] at hlength
    have hpositive : expectedPrefix.length = 7 := rfl
    have hzero : "".length = 0 := rfl
    omega
  have hlist : (expectedPrefix ++ text).toList = expectedPrefix.toList ++ text.toList :=
    String.toList_append
  have hprefix : expectedPrefix.toList.isPrefixOf (expectedPrefix ++ text).toList = true := by
    rw [List.isPrefixOf_iff_prefix, hlist]
    exact List.prefix_append _ _
  have hrest :
      String.ofList ((expectedPrefix ++ text).toList.drop expectedPrefix.length) = text := by
    rw [hlist, ← String.length_toList, List.drop_left, String.ofList_toList]
  unfold enforceApiAuth compareDigest
  simp only [henabled, htoken, Option.getD_some, hempty, hne, hprefix, hrest, Bool.not_true,
    Bool.false_eq_true, if_false]
  split <;> rename_i hascii
  · by_cases hequal : stripText text = token
    · simp [hequal]
      rfl
    · simp [hequal]
      rfl
  · simp
    rfl

/-! ## The gate is exact -/

/-- The header is the prefix followed by a text that, trimmed, is the token. -/
def ShowsToken (token : String) (header : Option String) : Prop :=
  ∃ text, header = some (expectedPrefix ++ text) ∧ stripText text = token

theorem showsToken_iff {text : String} :
    ShowsToken token (some (expectedPrefix ++ text)) ↔ stripText text = token := by
  constructor
  · rintro ⟨text', htext, hequal⟩
    rwa [(String.append_right_inj expectedPrefix).1 (Option.some.inj htext)]
  · intro hequal
    exact ⟨text, rfl, hequal⟩

/-- The gate lets exactly the headers with the token through, and answers the others with 401. -/
structure GateExact (s : AuthSettings) (token : String) (header : Option String) : Prop where
  returns_iff : enforceApiAuth (some s) header = .ok () ↔ ShowsToken token header
  refuses : ¬ ShowsToken token header →
    ∃ detail, enforceApiAuth (some s) header = .error (unauthorized detail)

/-- The gate is exact on a header if neither the text after its prefix, trimmed, nor the token it
would be compared with leaves ASCII, and on no other. -/
theorem bearer_gate_exact_iff (henabled : s.apiAuthEnabled = true)
    (htoken : s.apiAuthToken = some token) (hne : token ≠ "") :
    GateExact s token header ↔ ∀ text, header = some (expectedPrefix ++ text) →
      isAscii (stripText text) ∧ isAscii token := by
  constructor
  · rintro ⟨hreturns, hrefuses⟩ text rfl
    by_contra hascii
    have hanswer := enforceApiAuth_bearer henabled htoken hne text
    rw [if_neg hascii] at hanswer
    by_cases hshows : ShowsToken token (some (expectedPrefix ++ text))
    · cases hanswer.symm.trans (hreturns.2 hshows)
    · obtain ⟨_, h⟩ := hrefuses hshows
      cases hanswer.symm.trans h
  · intro hascii
    by_cases hbearer : ∃ text, header = some (expectedPrefix ++ text)
    · obtain ⟨text, rfl⟩ := hbearer
      have hanswer := enforceApiAuth_bearer henabled htoken hne text
      rw [if_pos (hascii text rfl)] at hanswer
      by_cases hequal : stripText text = token
      · rw [if_pos hequal] at hanswer
        have hshows := showsToken_iff.2 hequal
        exact ⟨⟨fun _ => hshows, fun _ => hanswer⟩, fun h => absurd hshows h⟩
      · rw [if_neg hequal] at hanswer
        refine ⟨⟨fun h => ?_, fun h => ?_⟩, fun _ => ⟨_, hanswer⟩⟩
        · cases hanswer.symm.trans h
        · exact absurd (showsToken_iff.1 h) hequal
    · have hother (text : String) : header ≠ some (expectedPrefix ++ text) :=
        fun h => hbearer ⟨text, h⟩
      obtain ⟨detail, hanswer⟩ := enforceApiAuth_of_not_bearer henabled htoken hne hother
      refine ⟨⟨fun h => ?_, ?_⟩, fun _ => ⟨detail, hanswer⟩⟩
      · cases hanswer.symm.trans h
      · rintro ⟨text, htext, -⟩
        exact absurd htext (hother text)

theorem gateExact_plain : GateExact ⟨true, some "t"⟩ "t" (some "Bearer  t ") := by
  refine (bearer_gate_exact_iff rfl rfl (by decide)).2 fun text h => ?_
  have htext : text = " t " :=
    (String.append_right_inj expectedPrefix).1 ((Option.some.inj h).symm.trans (by decide))
  subst htext
  decide

/-- A token beyond ASCII in the header ends in a `TypeError`. -/
theorem latin1_token_escapes : ¬ ∀ (s : AuthSettings) (token : String) (header : Option String),
    s.apiAuthEnabled = true → s.apiAuthToken = some token → token ≠ "" →
      (∀ value, header = some value → value.toList.all fun c => c.toNat < 256) →
      GateExact s token header := by
  intro h
  have hescapes : enforceApiAuth (some ⟨true, some "t"⟩) (some "Bearer é") = .error .typeError := by
    decide
  have hexact := h ⟨true, some "t"⟩ "t" (some "Bearer é") rfl rfl (by decide) fun value hvalue => by
    cases hvalue
    decide
  have hshows : ¬ ShowsToken "t" (some "Bearer é") := by
    intro h
    cases hescapes.symm.trans (hexact.returns_iff.2 h)
  obtain ⟨detail, hrefused⟩ := hexact.refuses hshows
  cases hescapes.symm.trans hrefused

end PaymentsLab
