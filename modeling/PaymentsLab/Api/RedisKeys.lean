import Mathlib.Logic.Function.Basic
import PaymentsLab.Contracts.Enums
import PaymentsLab.Foundation.Separated

/-!
# Redis keys

The functions of `shared/constants/redis_keys.py`, and which keys can be equal.
-/

namespace PaymentsLab

open Foundation Separated

/-- `limits_policy_key`. -/
def limitsPolicyKey (rail : PaymentMethod) : String :=
  "limits:policy:" ++ rail.value

/-- `limits_daily_key`. -/
def limitsDailyKey (dateKey customerId : String) (rail : PaymentMethod) : String :=
  "limits:daily:" ++ (dateKey ++ (":" ++ (customerId ++ (":" ++ rail.value))))

/-- `limits_velocity_key`. -/
def limitsVelocityKey (customerId : String) (rail : PaymentMethod) : String :=
  "limits:velocity:" ++ (customerId ++ (":" ++ rail.value))

/-- `rate_limit_key`. -/
def rateLimitKey (dimension : RateLimitDimension) (value : String) (bucket : Int) : String :=
  "rate:" ++ (dimension.value ++ (":" ++ (value ++ (":" ++ toString bucket))))

/-- `aml_history_key`. -/
def amlHistoryKey (customerId : String) : String :=
  "aml:history:" ++ customerId

/-- `AML_HISTORY_MAX_ITEMS`. -/
def amlHistoryMaxItems : Nat := 500

/-- The keys of the controls. -/
inductive IsControlKey : String → Prop
  | policy (rail : PaymentMethod) : IsControlKey (limitsPolicyKey rail)
  | daily (dateKey customerId : String) (rail : PaymentMethod) :
      IsControlKey (limitsDailyKey dateKey customerId rail)
  | velocity (customerId : String) (rail : PaymentMethod) :
      IsControlKey (limitsVelocityKey customerId rail)
  | rate (dimension : RateLimitDimension) (value : String) (bucket : Int) :
      IsControlKey (rateLimitKey dimension value bucket)
  | aml (customerId : String) : IsControlKey (amlHistoryKey customerId)

/-- A text begins as its prefix does. -/
theorem head_append {p s : String} (hp : 0 < p.toList.length) :
    (p ++ s).toList[0]? = p.toList[0]? :=
  (congrArg (·[0]?) String.toList_append).trans (List.getElem?_append_left hp)

theorem head_append_mem {p s : String} {l : List (Option Char)} (hp : 0 < p.toList.length)
    (h : p.toList[0]? ∈ l) : (p ++ s).toList[0]? ∈ l :=
  (head_append hp).symm ▸ h

/-- The keys of the controls begin with `l`, `r` or `a`. -/
theorem not_isControlKey {key : String} (h : key.toList[0]? ∉ [some 'l', some 'r', some 'a']) :
    ¬ IsControlKey key := by
  intro hkey
  refine h ?_
  cases hkey with
  | policy => exact head_append_mem (p := "limits:policy:") (by decide) (by decide)
  | daily => exact head_append_mem (p := "limits:daily:") (by decide) (by decide)
  | velocity => exact head_append_mem (p := "limits:velocity:") (by decide) (by decide)
  | rate => exact head_append_mem (p := "rate:") (by decide) (by decide)
  | aml => exact head_append_mem (p := "aml:history:") (by decide) (by decide)

/-- The key of a daily counter. -/
def IsDailyKey (key : String) : Prop :=
  ∃ dateKey customerId rail, key = limitsDailyKey dateKey customerId rail

theorem PaymentMethod.value_injective : Function.Injective PaymentMethod.value := by
  intro r r' h
  cases r <;> cases r' <;> first | rfl | exact absurd h (by decide)

/-- Texts whose prefixes differ at position `i` differ. -/
theorem append_ne_append {p p' s s' : String} (i : Nat) (hp : i < p.toList.length)
    (hp' : i < p'.toList.length) (hne : p.toList[i]? ≠ p'.toList[i]?) : p ++ s ≠ p' ++ s' := by
  intro h
  have hchar := congrArg (fun s => s.toList[i]?) h
  simp only [String.toList_append] at hchar
  rw [List.getElem?_append_left hp, List.getElem?_append_left hp'] at hchar
  exact hne hchar

theorem limitsVelocityKey_not_daily (customerId : String) (rail : PaymentMethod) :
    ¬ IsDailyKey (limitsVelocityKey customerId rail) := by
  rintro ⟨d, c, r, h⟩
  exact append_ne_append 7 (by decide) (by decide) (by decide) h

theorem limitsPolicyKey_not_daily (rail : PaymentMethod) :
    ¬ IsDailyKey (limitsPolicyKey rail) := by
  rintro ⟨d, c, r, h⟩
  exact append_ne_append 7 (by decide) (by decide) (by decide) h

theorem limitsVelocityKey_ne_policy (customerId : String) (rail rail' : PaymentMethod) :
    limitsVelocityKey customerId rail ≠ limitsPolicyKey rail' :=
  append_ne_append 7 (by decide) (by decide) (by decide)

theorem limitsPolicyKey_injective : Function.Injective limitsPolicyKey := by
  intro r r' h
  exact PaymentMethod.value_injective ((String.append_right_inj "limits:policy:").1 h)

/-! ## Parts without a colon -/

theorem PaymentMethod.colon_not_mem (rail : PaymentMethod) : ':' ∉ rail.value.toList := by
  cases rail <;> decide

theorem RateLimitDimension.colon_not_mem (dimension : RateLimitDimension) :
    ':' ∉ dimension.value.toList := by
  cases dimension <;> decide

theorem RateLimitDimension.value_injective : Function.Injective RateLimitDimension.value := by
  intro d d' h
  cases d <;> cases d' <;> first | rfl | exact absurd h (by decide)

theorem colon_not_mem_toDigits (n : Nat) : ':' ∉ Nat.toDigits 10 n := by
  intro h
  exact absurd (Nat.isDigit_of_mem_toDigits (by decide) (by decide) h) (by decide)

theorem toList_toString_ofNat (n : Nat) : (toString (Int.ofNat n)).toList = Nat.toDigits 10 n :=
  Nat.toList_repr

theorem toList_toString_negSucc (n : Nat) :
    (toString (Int.negSucc n)).toList = '-' :: Nat.toDigits 10 (n + 1) :=
  (String.toList_append (s := "-")).trans (congrArg _ Nat.toList_repr)

theorem colon_not_mem_toString (n : Int) : ':' ∉ (toString n).toList := by
  cases n with
  | ofNat n => exact toList_toString_ofNat n ▸ colon_not_mem_toDigits n
  | negSucc n =>
    rw [toList_toString_negSucc, List.mem_cons, not_or]
    exact ⟨by decide, colon_not_mem_toDigits _⟩

theorem toDigits_injective : Function.Injective (Nat.toDigits 10) := by
  intro m n h
  have hvalue := congrArg (Nat.ofDigitChars 10 · 0) h
  simpa only [Nat.ofDigitChars_ten_toDigits] using hvalue

theorem toString_injective : Function.Injective (toString : Int → String) := by
  have hminus (m n : Nat) : Nat.toDigits 10 m ≠ '-' :: Nat.toDigits 10 n := by
    intro h
    have hmem : '-' ∈ Nat.toDigits 10 m := h ▸ List.mem_cons_self
    exact absurd (Nat.isDigit_of_mem_toDigits (by decide) (by decide) hmem) (by decide)
  intro m n h
  have hlist := congrArg String.toList h
  cases m with
  | ofNat m =>
    cases n with
    | ofNat n =>
      rw [toList_toString_ofNat, toList_toString_ofNat] at hlist
      exact congrArg Int.ofNat (toDigits_injective hlist)
    | negSucc n =>
      rw [toList_toString_ofNat, toList_toString_negSucc] at hlist
      exact absurd hlist (hminus _ _)
  | negSucc m =>
    cases n with
    | ofNat n =>
      rw [toList_toString_ofNat, toList_toString_negSucc] at hlist
      exact absurd hlist.symm (hminus _ _)
    | negSucc n =>
      rw [toList_toString_negSucc, toList_toString_negSucc] at hlist
      exact congrArg Int.negSucc (Nat.succ.inj (toDigits_injective (List.cons.inj hlist).2))

/-! ## Texts with a colon between them -/

theorem toList_append_colon (s s' : String) :
    (s ++ (":" ++ s')).toList = s.toList ++ ':' :: s'.toList :=
  String.toList_append.trans (congrArg (s.toList ++ ·) String.toList_append)

/-- Taken apart at the first colon. -/
theorem split_first_colon {a a' b b' : String} (ha : ':' ∉ a.toList) (ha' : ':' ∉ a'.toList)
    (h : a ++ (":" ++ b) = a' ++ (":" ++ b')) : a = a' ∧ b = b' := by
  have hlist := congrArg String.toList h
  rw [toList_append_colon, toList_append_colon] at hlist
  obtain ⟨hfront, hback⟩ := split_at_separator ha ha' hlist
  exact ⟨String.toList_injective hfront, String.toList_injective hback⟩

/-- Taken apart at the last colon. -/
theorem split_last_colon {a a' b b' : String} (hb : ':' ∉ b.toList) (hb' : ':' ∉ b'.toList)
    (h : a ++ (":" ++ b) = a' ++ (":" ++ b')) : a = a' ∧ b = b' := by
  have hlist := congrArg String.toList h
  rw [toList_append_colon, toList_append_colon] at hlist
  obtain ⟨hfront, hback⟩ := split_at_last_separator hb hb' hlist
  exact ⟨String.toList_injective hfront, String.toList_injective hback⟩

/-- A text, and the rail after its last colon. -/
theorem text_rail_injective {c c' : String} {r r' : PaymentMethod}
    (h : c ++ (":" ++ r.value) = c' ++ (":" ++ r'.value)) : c = c' ∧ r = r' := by
  obtain ⟨htext, hrail⟩ := split_last_colon r.colon_not_mem r'.colon_not_mem h
  exact ⟨htext, PaymentMethod.value_injective hrail⟩

/-- The rail of a daily key is what follows its last colon. -/
theorem limitsDailyKey_rail {d d' c c' : String} {r r' : PaymentMethod}
    (h : limitsDailyKey d c r = limitsDailyKey d' c' r') : r = r' := by
  have hsplit (d c : String) (r : PaymentMethod) : limitsDailyKey d c r =
      ("limits:daily:" ++ (d ++ (":" ++ c))) ++ (":" ++ r.value) := by
    simp only [limitsDailyKey, String.append_assoc]
  rw [hsplit, hsplit] at h
  exact (text_rail_injective h).2

theorem limitsVelocityKey_injective {c c' : String} {r r' : PaymentMethod}
    (h : limitsVelocityKey c r = limitsVelocityKey c' r') : c = c' ∧ r = r' :=
  text_rail_injective ((String.append_right_inj "limits:velocity:").1 h)

theorem rateLimitKey_injective {d d' : RateLimitDimension} {v v' : String} {n n' : Int}
    (h : rateLimitKey d v n = rateLimitKey d' v' n') : d = d' ∧ v = v' ∧ n = n' := by
  obtain ⟨hdimension, hrest⟩ := split_first_colon d.colon_not_mem d'.colon_not_mem
    ((String.append_right_inj "rate:").1 h)
  obtain ⟨hvalue, hbucket⟩ := split_last_colon (colon_not_mem_toString n)
    (colon_not_mem_toString n') hrest
  exact ⟨RateLimitDimension.value_injective hdimension, hvalue, toString_injective hbucket⟩

end PaymentsLab
