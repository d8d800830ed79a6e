import Mathlib.Logic.Function.Basic
import BbMonitor.Ingestion.Conversion
import BbMonitor.Ingestion.SinkFactory

/-!
# The ingestion server

`HandleRpcs` waits for the next event of a completion queue and passes it to the
handler whose address is the tag of the event.  A handler of a unary method asks
for a call when it is constructed; when the call is there it constructs its
successor, serves the call and starts the reply; when the reply is out it deletes
itself.  The streaming handlers are not constructed and not modelled.

The state of the server is the memory with the handlers, the operations that were
started and have not come back, and the sinks.  An address is the number of the
handler in the order of construction, and is not used again.  What gRPC does is
nondeterministic: an `Outcome` is one result of `Next` that it may choose, and
`Outcome.allowed` says when.  `process_state` on a null pointer or a deleted
handler has no defined behaviour and ends the run.

The loop runs in one thread, so that a round of it is one step: an operation that
is started in `process_state` can come back in a later round only.

The last fields of the state record what happened and are read by no step.
-/

namespace BbMonitor.IngestionServer

open Ingestion Authorizer
open DdLogProxy (LogLine)

/-! ## Handlers and calls -/

inductive CallStatus where
  | start
  | reading
  | readingFailed
  | writing
  | finish
deriving DecidableEq, Repr

/-- A `put_metrics2_call_data`, `put_intake2_call_data` or `put_logs2_call_data`. -/
structure Handler where
  method : SinkKind
  status : CallStatus
  msgCount : ℕ
deriving DecidableEq, Repr

/-- What the context and the request of a handler hold once a call is there.  A
message has the list of its own type only. -/
structure Call where
  apiKey : Bytes
  apiSecret : Bytes
  metrics : List Metric
  intake : List Intake
  logline : List LogLine
deriving DecidableEq

/-- The context and the request of a handler that no call came for. -/
def Call.empty : Call := ⟨[], [], [], [], []⟩

/-- A record of one of the three kinds. -/
inductive Record where
  | metric (m : BbAvroMetric)
  | intake (ai : DdAvroIntake)
  | logline (l : BbAvroLogline)
deriving DecidableEq, Repr

/-- What the handler of a method pushes for a call, and its count. -/
def Call.sent (call : Call) : SinkKind → Sent Record
  | .metrics => (putMetrics2 call.metrics).map .metric
  | .intake => (putIntake2 call.intake).map .intake
  | .log => (putLogs2 call.logline).map .logline

inductive Reply where
  -- `Finish` with a count.
  | ok (count : ℕ)
  -- `FinishWithError` with the status `UNAUTHENTICATED`.
  | unauthenticated (message : Bytes)
deriving DecidableEq, Repr

/-- The two kinds of operations that a handler starts. -/
inductive Operation where
  | request
  | finish
deriving DecidableEq, Repr

/-- A record that was pushed to a sink for the call of a handler. -/
structure Push where
  id : ℕ
  sink : KafkaSink
  key : Bytes
  value : Record

/-- A call of `process_state`: the status of the handler, if the tag points to one,
and whether there was an event with `ok`. -/
structure Invocation where
  found : Option CallStatus
  ok : Bool
deriving DecidableEq, Repr

/-! ## The server -/

inductive Phase where
  -- At the head of `while (run)`.
  | head
  -- In `Next`.
  | waiting
  -- Behind the loop.
  | stopped
  -- Behaviour is not defined.
  | crashed
deriving DecidableEq, Repr

structure State where
  factory : SinkFactory
  -- The handlers by their addresses.
  heap : ℕ → Option Handler
  -- How many handlers have been constructed.
  constructed : ℕ
  pending : List (ℕ × Operation)
  run : Bool
  -- The server and the queue were told to shut down.
  shutdown : Bool
  phase : Phase
  -- The calls of `process_state`.
  invocations : List Invocation
  -- The handlers that a call came for.
  admitted : List ℕ
  -- The replies that were started, with the handlers.
  replies : List (ℕ × Reply)
  pushed : List Push
  -- The handlers whose reply came back.
  finished : List ℕ
  -- The handlers that were deleted.
  deleted : List ℕ

/-- A result of `cq_->Next`. -/
inductive Outcome where
  -- The operation that a handler was constructed with comes back.
  | request (id : ℕ) (ok : Bool) (call : Call)
  -- The reply of a handler comes back.
  | finish (id : ℕ) (ok : Bool)
  -- `Next` returns false; `tag` is not set, and `ok` is what it was.
  | drained (ok : Bool)

/-- The value that `Next` returns. -/
def Outcome.returned : Outcome → Bool
  | .request _ _ _ => true
  | .finish _ _ => true
  | .drained _ => false

/-- `tag` behind `Next`. -/
def Outcome.tag : Outcome → Option ℕ
  | .request id _ _ => some id
  | .finish id _ => some id
  | .drained _ => none

/-- `ok` behind `Next`. -/
def Outcome.ok : Outcome → Bool
  | .request _ ok _ => ok
  | .finish _ ok => ok
  | .drained ok => ok

/-- What is in the context and the request of the handler. -/
def Outcome.call : Outcome → Call
  | .request _ _ call => call
  | _ => Call.empty

/-- What gRPC promises.  A call that was asked for fails to come only after a
shutdown; then what is started need not come back any more. -/
def Outcome.allowed (s : State) : Outcome → Prop
  | .request id ok call =>
      (id, .request) ∈ s.pending ∧ (ok = false → s.shutdown = true ∧ call = Call.empty)
  | .finish id _ => (id, .finish) ∈ s.pending
  | .drained _ => s.shutdown = true

instance (s : State) : (outcome : Outcome) → Decidable (outcome.allowed s)
  | .request _ _ _ => inferInstanceAs (Decidable (_ ∧ _))
  | .finish _ _ => inferInstanceAs (Decidable (_ ∈ _))
  | .drained _ => inferInstanceAs (Decidable (_ = _))

namespace State

variable (s : State)

/-! ## The handlers -/

/-- `new put_…2_call_data`, which asks for a call. -/
def construct (method : SinkKind) : State :=
  { s with
    heap := Function.update s.heap s.constructed (some ⟨method, .start, 0⟩)
    constructed := s.constructed + 1
    pending := s.pending ++ [(s.constructed, .request)] }

/-- The server before the first handler is constructed. -/
def blank (labels : Labels) : State where
  factory := SinkFactory.init labels
  heap := fun _ => none
  constructed := 0
  pending := []
  run := true
  shutdown := false
  phase := .head
  invocations := []
  admitted := []
  replies := []
  pushed := []
  finished := []
  deleted := []

/-- The beginning of `HandleRpcs`. -/
def init (labels : Labels) : State :=
  (((blank labels).construct .metrics).construct .intake).construct .log

/-- Overwrite a handler. -/
def store (id : ℕ) (h : Handler) : State :=
  { s with heap := Function.update s.heap id (some h) }

/-- `responder_.Finish` and `responder_.FinishWithError`. -/
def reply (id : ℕ) (r : Reply) : State :=
  { s with replies := s.replies ++ [(id, r)], pending := s.pending ++ [(id, .finish)] }

/-- `sink->push_back` for every record. -/
def push (id : ℕ) (sink : KafkaSink) (records : List (Bytes × Record)) : State :=
  { s with pushed := s.pushed ++ records.map fun r => ⟨id, sink, r.1, r.2⟩ }

/-- The case `START` of `process_state`, behind the construction of the successor. -/
def serve (id : ℕ) (h : Handler) (call : Call) : State :=
  match SinkFactory.getSink h.method s.factory call.apiKey call.apiSecret with
  | (none, factory) =>
      ({ s with factory }.reply id
        (.unauthenticated (bytes "authentication failed for key: " ++ call.apiKey))).store id
          { h with status := .finish }
  | (some sink, factory) =>
      let sent := call.sent h.method
      (({ s with factory }.push id sink sent.pushed).store id
        { h with status := .finish, msgCount := sent.msgCount }).reply id (.ok sent.msgCount)

/-- `delete this`. -/
def delete (id : ℕ) : State :=
  { s with heap := Function.update s.heap id none, deleted := s.deleted ++ [id] }

/-- `process_state` of a handler. -/
def process (id : ℕ) (h : Handler) (call : Call) : State :=
  match h.status with
  | .start => (s.construct h.method).serve id h call
  | .readingFailed =>
      (s.store id { h with status := .finish }).reply id
        (.ok (if h.method = .metrics then 0 else h.msgCount))
  | .finish => s.delete id
  | .reading => s.delete id
  | .writing => s.delete id

/-! ## A round of the loop -/

/-- `set_error` and `set_state`, on the handler if there is one. -/
def setStatus (tag : Option ℕ) (e : CallStatus) : State :=
  match tag with
  | none => s
  | some id =>
      let h := (s.heap id).map fun h => { h with status := e }
      { s with heap := Function.update s.heap id h }

/-- The handler that the tag points to, with its address. -/
def target (tag : Option ℕ) : Option (ℕ × Handler) :=
  tag.bind fun id => (s.heap id).map (id, ·)

/-- `if ((cq_->Next(&tag, &ok)) == false)` -/
def checkReturned (returned : Bool) (tag : Option ℕ) : State :=
  if returned then s else s.setStatus tag .finish

/-- `if (!ok)` -/
def checkOk (tag : Option ℕ) (ok : Bool) : State :=
  if ok then s
  else if (s.target tag).map (·.2.status) = some .reading then s.setStatus tag .readingFailed
  else s

/-- `static_cast<call_data *>(tag)->process_state()`; `event` tells whether there
was an event with `ok`. -/
def invoke (tag : Option ℕ) (event : Bool) (call : Call) : State :=
  let found := (s.target tag).map (·.2.status)
  let s' := { s with invocations := s.invocations ++ [Invocation.mk found event] }
  match s.target tag with
  | some (id, h) => { s'.process id h call with phase := .head }
  | none => { s' with phase := .crashed }

/-- The event leaves the queue. -/
def take (outcome : Outcome) : State :=
  match outcome with
  | .request id ok _ =>
      { s with
        pending := s.pending.erase (id, .request)
        admitted := if ok then s.admitted ++ [id] else s.admitted }
  | .finish id _ =>
      { s with pending := s.pending.erase (id, .finish), finished := s.finished ++ [id] }
  | .drained _ => s

/-- What `HandleRpcs` does with a result of `Next`. -/
def dispatch (outcome : Outcome) : State :=
  (((s.take outcome).checkReturned outcome.returned outcome.tag).checkOk outcome.tag
    outcome.ok).invoke outcome.tag (outcome.returned && outcome.ok) outcome.call

end State

/-! ## Runs -/

inductive Action where
  -- The authorizer consumes a record.
  | record (r : AvroRecord)
  -- `sigterm`.
  | sigterm
  | shutdown
  -- The head of the loop.
  | loop
  | next (outcome : Outcome)

def step (s : State) : Action → Option State
  | .record r =>
      (visitor s.factory.authorizer r).map fun authorizer =>
        { s with factory := { s.factory with authorizer } }
  | .sigterm => some { s with run := false }
  | .shutdown => some { s with shutdown := true }
  | .loop =>
      if s.phase = .head then some { s with phase := if s.run then .waiting else .stopped }
      else none
  | .next outcome =>
      if s.phase = .waiting ∧ outcome.allowed s then some (s.dispatch outcome) else none

def machine (labels : Labels) : Machine State Action where
  init := State.init labels
  step := step

end BbMonitor.IngestionServer
