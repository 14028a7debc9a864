import PaymentsLab.Api.CreateProgram
import PaymentsLab.Contracts.Validation

/-!
# From headers to a run

`CreatePaymentUseCase._build_request_context`, which raises before anything else has happened, and
`execute` with the headers it gets. `upper` is `str.upper`, and `supported` the currencies of the
settings.
-/

namespace PaymentsLab

namespace Create

/-- `require_header`, as the use case calls it. -/
def header (headers : String → HeaderValue) (key : String) : Except ApiException String :=
  (requireHeader headers key).mapError fun _ => .valueError

/-- `_normalize_currency`. -/
def normalizeCurrency (upper : String → String) (supported : List String) (currency : String) :
    Except ApiException String :=
  (ensureSupportedCurrency upper currency supported).mapError fun message =>
    .app (.validation message)

/-- `_build_request_context`, with the request whose currency it has normalized. -/
def buildRequestContext (upper : String → String) (supported : List String)
    (headers : String → HeaderValue) (request : CreatePaymentRequest) :
    Except ApiException (RequestContext × CreatePaymentRequest) := do
  let merchantId ← header headers "X-Merchant-Id"
  let customerId ← header headers "X-Customer-Id"
  let accountId ← header headers "X-Account-Id"
  let idempotencyKey ← header headers "Idempotency-Key"
  let currency ← normalizeCurrency upper supported request.currency
  return (⟨merchantId, customerId, accountId, idempotencyKey⟩,
    { request with currency := currency })

/-- A call of `execute`: its arguments, and the trace it runs in. -/
structure Call where
  headers : String → HeaderValue
  request : CreatePaymentRequest
  traceId : String
  traceparent : Option String

namespace Call

variable (upper : String → String) (supported : List String) (call : Call)

/-- The run that a call starts, if its headers and its currency are accepted. -/
def start : Except ApiException Run := do
  let (context, request) ← buildRequestContext upper supported call.headers call.request
  return ⟨context, request, call.traceId, call.traceparent, .start⟩

/-- `execute`. -/
def execute (cfg : ApiSettings) : ApiProgram PaymentAcceptedResponse :=
  match call.start upper supported with
  | .error e => throw e
  | .ok r => r.execute cfg

end Call

end Create

end PaymentsLab
