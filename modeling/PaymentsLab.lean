import PaymentsLab.Api.AmlAggregation
import PaymentsLab.Api.AmlEvaluation
import PaymentsLab.Api.AmlHistory
import PaymentsLab.Api.AmlOutage
import PaymentsLab.Api.AmlService
import PaymentsLab.Api.AtomicCreation
import PaymentsLab.Api.Backend
import PaymentsLab.Api.BadInput
import PaymentsLab.Api.ControlFrame
import PaymentsLab.Api.Controls
import PaymentsLab.Api.CounterLifetime
import PaymentsLab.Api.CreateInvariant
import PaymentsLab.Api.CreatePayment
import PaymentsLab.Api.CreateProgram
import PaymentsLab.Api.CreateSteps
import PaymentsLab.Api.DailyBudget
import PaymentsLab.Api.DailyLimit
import PaymentsLab.Api.DailyTotal
import PaymentsLab.Api.Dependencies
import PaymentsLab.Api.Errors
import PaymentsLab.Api.Escapes
import PaymentsLab.Api.KeySpaces
import PaymentsLab.Api.LimitsService
import PaymentsLab.Api.MalformedHistory
import PaymentsLab.Api.MonotoneControls
import PaymentsLab.Api.PolicyJson
import PaymentsLab.Api.RateLimit
import PaymentsLab.Api.RedisKeys
import PaymentsLab.Api.RefusedRequests
import PaymentsLab.Api.ReportedOutcomes
import PaymentsLab.Api.RequestContext
import PaymentsLab.Api.ReviewInvariant
import PaymentsLab.Api.ReviewPayment
import PaymentsLab.Api.ReviewProgram
import PaymentsLab.Api.SequentialCreation
import PaymentsLab.Api.StoredTexts
import PaymentsLab.Api.TextFormat
import PaymentsLab.Api.TrimmedHistory
import PaymentsLab.Api.VelocityLimit
import PaymentsLab.Api.VelocityWindow
import PaymentsLab.BreakerHistory
import PaymentsLab.Contracts.Decimal
import PaymentsLab.Contracts.DecimalRounding
import PaymentsLab.Contracts.DecimalText
import PaymentsLab.Contracts.DecimalValues
import PaymentsLab.Contracts.Enums
import PaymentsLab.Contracts.PaymentRails
import PaymentsLab.Contracts.Persistence
import PaymentsLab.Contracts.PythonText
import PaymentsLab.Contracts.Schema
import PaymentsLab.Contracts.Validation
import PaymentsLab.Foundation.BoundedRuns
import PaymentsLab.Foundation.Ensures
import PaymentsLab.Foundation.Faults
import PaymentsLab.Foundation.HalfEven
import PaymentsLab.Foundation.History
import PaymentsLab.Foundation.Interleaving
import PaymentsLab.Foundation.JsonText
import PaymentsLab.Foundation.Matching
import PaymentsLab.Foundation.Notes
import PaymentsLab.Foundation.OrderedDict
import PaymentsLab.Foundation.Parts
import PaymentsLab.Foundation.Potential
import PaymentsLab.Foundation.Program
import PaymentsLab.Foundation.Redis
import PaymentsLab.Foundation.RedisTexts
import PaymentsLab.Foundation.Relational
import PaymentsLab.Foundation.RowStore
import PaymentsLab.Foundation.Separated
import PaymentsLab.Foundation.Sequential
import PaymentsLab.Logging.Identifiers
import PaymentsLab.Logging.Logger
import PaymentsLab.Logging.Redaction
import PaymentsLab.Processor.CallProvider
import PaymentsLab.Processor.KafkaPublisher
import PaymentsLab.Processor.OutboxWorker
import PaymentsLab.Processor.WorkerInvariant
import PaymentsLab.Processor.WorkerSteps
import PaymentsLab.ProviderMock.Engine
import PaymentsLab.Resilience
import PaymentsLab.RetrySpecification
import PaymentsLab.System.Amounts
import PaymentsLab.System.Answers
import PaymentsLab.System.Books
import PaymentsLab.System.Correspondence
import PaymentsLab.System.Creation
import PaymentsLab.System.Delivery
import PaymentsLab.System.Drain
import PaymentsLab.System.EventRows
import PaymentsLab.System.Integrity
import PaymentsLab.System.Landing
import PaymentsLab.System.Ledger
import PaymentsLab.System.Locks
import PaymentsLab.System.Observations
import PaymentsLab.System.OutboxWork
import PaymentsLab.System.Payments
import PaymentsLab.System.ProviderAnswers
import PaymentsLab.System.Refinement
import PaymentsLab.System.Retries
import PaymentsLab.System.Reviews
import PaymentsLab.System.RowWidths
import PaymentsLab.System.SimulatedProvider
import PaymentsLab.System.Statements
import PaymentsLab.System.TerminalOutcomes
import PaymentsLab.System.TransientFailures
import PaymentsLab.System.Versions
import PaymentsLab.System.World
