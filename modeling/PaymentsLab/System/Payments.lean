import PaymentsLab.Foundation.History
import PaymentsLab.Processor.OutboxWorker
import PaymentsLab.Api.ReviewPayment
import PaymentsLab.Api.CreatePayment

/-!
# The payments system

Any number of outbox workers, review calls and creations, interleaved statement by statement over
one database and one idempotency gate, together with an environment in which a gate key may expire
at any moment. The guards below single out the runs a result is about.
-/

namespace PaymentsLab

open Foundation

/-- The local state of a session. -/
def Session.Local : Session → Type
  | .worker _ => Processor.Worker
  | .review _ => Review.Call
  | .create _ => Create.Run
  | .environment => Unit

/-- What can happen without a session. -/
inductive EnvironmentAction
  | expireGate (key : String)

/-- The actions of a session. -/
def Session.Act : Session → Type
  | .worker _ => Processor.WorkerAction
  | .review _ => Review.Action
  | .create _ => Create.Action
  | .environment => EnvironmentAction

/-- A gate key reaches the end of its time to live. -/
def EnvironmentAction.step (w : World) : EnvironmentAction → Option (World × Unit)
  | .expireGate key => some ({ w with gate := Function.update w.gate key false }, ())

/-- The step function of every session. -/
def Session.step (cfg : Processor.Settings) :
    (t : Session) → World → t.Local → t.Act → Option (World × t.Local)
  | .worker n, w, l, a => Processor.Worker.step cfg (.worker n) w l a
  | .review n, w, l, a => Review.Call.step (.review n) w l a
  | .create n, w, l, a => Create.Run.step (.create n) w l a
  | .environment, w, _, a => EnvironmentAction.step w a

/-- The system. -/
def payments (cfg : Processor.Settings) : System Session World where
  Local := Session.Local
  Act := Session.Act
  step := Session.step cfg

namespace Payments

variable (cfg : Processor.Settings)

/-- A state of the system. -/
abbrev State : Type := (payments cfg).State

/-- What has happened, the last step first. -/
abbrev History : Type :=
  List (payments cfg).Taken

variable {cfg}

/-- The local state of a worker. -/
def worker (s : State cfg) (n : Nat) : Processor.Worker :=
  s.proc (.worker n)

/-- The local state of a review call. -/
def review (s : State cfg) (n : Nat) : Review.Call :=
  s.proc (.review n)

/-- The local state of a creation. -/
def create (s : State cfg) (n : Nat) : Create.Run :=
  s.proc (.create n)

/-- Empty tables and no session begun: idle workers, and calls of arbitrary requests. -/
structure Initial (s : State cfg) : Prop where
  world : s.world = .empty
  batch : ∀ n, (worker s n).events = []
  worker : ∀ n, (worker s n).pc = .idle
  review : ∀ n, (review s n).pc = .start
  create : ∀ n, (create s n).pc = .start

/-! ## Schedules -/

/-- The state before the first step, with these calls about to begin. -/
def fresh (cfg : Processor.Settings) (review : Nat → Review.Call) (create : Nat → Create.Run) :
    State cfg where
  world := .empty
  proc
    | .worker _ => { breakers := fun _ => .new 3 5, events := [], pc := .idle }
    | .review n => { review n with pc := .start }
    | .create n => { create n with pc := .start }
    | .environment => ()

theorem fresh_initial (cfg : Processor.Settings) (review : Nat → Review.Call)
    (create : Nat → Create.Run) : Initial (fresh cfg review create) where
  world := rfl
  batch _ := rfl
  worker _ := rfl
  review _ := rfl
  create _ := rfl

/-- An uncontended creation. -/
def creation (n : Nat) (decision : Create.ControlDecision) (paymentId eventId : UUID) :
    List (Σ i, (payments cfg).Act i) :=
  [⟨.create n, Create.Action.readSnapshot⟩, ⟨.create n, Create.Action.acquire .answered⟩,
    ⟨.create n, Create.Action.runControls (.ok decision) paymentId⟩,
    ⟨.create n, Create.Action.persist eventId 0⟩, ⟨.create n, Create.Action.observe⟩]

/-- A worker takes the next event of its batch up to the provider call. -/
def callProvider (n : Nat) (http : HttpOutcome) : List (Σ i, (payments cfg).Act i) :=
  [⟨.worker n, Processor.WorkerAction.getById⟩, ⟨.worker n, Processor.WorkerAction.markProcessing⟩,
    ⟨.worker n, Processor.WorkerAction.callProvider 0 0 fun _ => http⟩]

/-- The rest of the handling of that event. -/
def settle (n : Nat) (eventId : UUID) (draw : Int) : List (Σ i, (payments cfg).Act i) :=
  [⟨.worker n, Processor.WorkerAction.finalize eventId 0⟩,
    ⟨.worker n, Processor.WorkerAction.markEvent 0 draw⟩,
    ⟨.worker n, Processor.WorkerAction.commit⟩]

/-- A worker finds the payment of the event it has loaded changed. -/
def lose (n : Nat) : List (Σ i, (payments cfg).Act i) :=
  [⟨.worker n, Processor.WorkerAction.markProcessing⟩,
    ⟨.worker n, Processor.WorkerAction.markLost 0⟩, ⟨.worker n, Processor.WorkerAction.commit⟩]

/-- An answer of the provider. -/
def answer (partialFailure : Bool) : HttpOutcome :=
  .response 200 (some
    { providerReference := "ref"
      confirmed := !partialFailure
      provider := "pix-provider"
      duplicate := false
      partialFailure := partialFailure })

def sampleSettings : Processor.Settings where
  batchSize := 50
  maxEventAttempts := 5
  eventPublisherEnabled := false
  synchronizeSession := true

/-- Approvals of payment 1, and creations in one scope. -/
def sample : State sampleSettings :=
  fresh sampleSettings
    (fun n => ⟨if n = 0 then .approve else .reject, 1, "review", none, .start⟩)
    fun n => ⟨⟨"m", "c", "a", "k"⟩, ⟨⟨10000, -2⟩, "BRL", .pix, none⟩, s!"trace{n}", none, .start⟩

/-- The requested event of payment 1. -/
def sampleRequest : OutboxEvent :=
  .new 10 1 .paymentRequested (.paymentRequested 1 "m" "trace0" none) 0

/-- Payment 1 is created, and two workers fetch its event. -/
def fetchedTwice : List (Σ i, (payments sampleSettings).Act i) :=
  creation 0 ⟨0, .allow, .allow⟩ 1 10 ++
    [⟨.worker 0, Processor.WorkerAction.fetchPendingRequested 0 [sampleRequest]⟩,
      ⟨.worker 1, Processor.WorkerAction.fetchPendingRequested 0 [sampleRequest]⟩]

end Payments

end PaymentsLab
