import PaymentsLab.Contracts.Enums

/-!
# Application errors

The exceptions of `payments_api/core/errors.py`.
-/

namespace PaymentsLab

/-- `AppError` and its subclasses, told apart by their category. -/
structure AppError where
  category : ErrorCategory
  message : String
  httpStatus : Nat
  dimension : Option RateLimitDimension
  deriving DecidableEq, Repr

namespace AppError

def validation (message : String) : AppError :=
  ⟨.validationError, message, 422, none⟩

def idempotencyConflict : AppError :=
  ⟨.idempotencyConflict, "Idempotency key conflict", 409, none⟩

def kycDenied (message : String) : AppError :=
  ⟨.kycDenied, message, 403, none⟩

def limitExceeded (message : String) : AppError :=
  ⟨.limitExceeded, message, 422, none⟩

def rateLimited (message : String) (dimension : RateLimitDimension) : AppError :=
  ⟨.rateLimited, message, 429, some dimension⟩

end AppError

end PaymentsLab
