import BbMonitor.AvroRecords
import BbMonitor.Doubles
import BbMonitor.Lib.Machine
import BbMonitor.Prompb

/-!
# The Prometheus exporter

`prometheus_avro_metrics_sink` takes batches of events from `_queue`, turns the
records that are worth it into the series of one write request, and posts the
request until the server answers.  Then, whatever came of the request, the batch
goes to `pending_for_delete_`, which `process` empties.

The loop of `_thread` is modelled step by step, as that of the client sinks is:
`in_batch` and the request belong to the thread alone, and each step touches one
of the shared queues at most once.  Upstream enqueues, the iterations of
`process`, `close` and the destructor may come between any two steps.

Events are numbered in order of arrival, and a series carries the number of the
event it was made from.  The last fields of the state record what happened and
are read by no step.
-/

namespace BbMonitor.PrometheusSink

open Prompb (TimeSeries)

/-! ## Series -/

/-- An event: its number, and the value of its record, which may be null. -/
structure Event where
  arrival : ℕ
  value : Option BbAvroMetric
deriving DecidableEq, Repr

/-- `metrics_value`: a union that holds neither a long nor a double gives `NAN`. -/
def metricsValue : BbAvroValue → Double
  | .null => Double.nan
  | .long v => Double.ofInt64 v
  | .double v => v
  | .pos _ _ => Double.nan

/-- The value of the label `__name__`. -/
def nameValue (metrics : BbAvroMetric) : Bytes :=
  if metrics.ns.isEmpty then metrics.name else metrics.ns ++ bytes "_" ++ metrics.name

/-- The series that is added to the request for a record. -/
def timeSeries (metrics : BbAvroMetric) : TimeSeries where
  labels := ⟨Prompb.nameLabel, nameValue metrics⟩ ::
    metrics.labels.map fun i => ⟨i.key, i.value⟩
  samples := [⟨metricsValue metrics.value, metrics.timestamp⟩]

/-- What the body of the loop that fills the batch adds for an event. -/
def Event.series (e : Event) (minTs : Int64) : Option TimeSeries :=
  match e.value with
  | none => none
  | some metrics =>
      if metrics.timestamp ≤ minTs then none
      else if (metricsValue metrics.value).isFinite then some (timeSeries metrics)
      else none

/-- A write request, each series with the number of the event it was made from. -/
abbrev Request := List (ℕ × TimeSeries)

def Event.item (e : Event) (minTs : Int64) : Option (ℕ × TimeSeries) :=
  (e.series minTs).map (e.arrival, ·)

/-! ## States -/

/-- Where the thread stands in its loop. -/
inductive Phase where
  -- At the head of `while (!exit_)`.
  | top
  -- In the loop that fills the batch; older records are skipped.
  | building (minTs : Int64)
  -- At the head of the inner `while (!exit_)`.
  | retrying
  -- Waiting for the answer to the request.
  | inFlight
  -- In the loop that hands the batch over to `pending_for_delete_`.
  | handingOver
  -- Behind the loop.
  | exited
deriving DecidableEq, Repr

structure State where
  queue : List Event
  inBatch : List Event
  pendingForDelete : List Event
  prequest : Request
  phase : Phase
  exit : Bool
  startRunning : Bool
  closed : Bool
  -- All events, in order of arrival.
  enqueued : List Event
  -- The events that `process` has released.
  released : List Event
  -- The events taken from the queue, each with the `min_ts` of its batch.
  considered : List (Event × Int64)
  -- The requests that were built and had something in them.
  requests : List Request
  -- The requests that the server answered.
  answered : List Request
deriving DecidableEq, Repr

/-- `batch_size_` and, in milliseconds, `max_exported_age_`. -/
structure Config where
  batchSize : ℕ
  maxExportedAge : Int64

def State.init : State where
  queue := []
  inBatch := []
  pendingForDelete := []
  prequest := []
  phase := .top
  exit := false
  startRunning := false
  closed := false
  enqueued := []
  released := []
  considered := []
  requests := []
  answered := []

/-! ## Steps -/

/-- What `perform` returns. -/
inductive Outcome where
  | ok
  -- The server answered with an error, which is skipped.
  | httpError
  -- No answer: a transport error or a timeout.
  | transportFailure
deriving DecidableEq, Repr

/-- The steps, each named after the piece of code it is one round of. -/
inductive Action where
  -- An upstream processor appends an event.
  | enqueue (value : Option BbAvroMetric)
  -- One round of the loop in `process`.
  | process
  -- The destructor sets `exit_`.
  | setExit
  -- `close`.
  | close
  -- The end of the constructor, which runs beside the thread.
  | startRunning
  -- The head of the loop, up to the loop that fills the batch.
  | top (now : Int64)
  -- One round of the loop that fills the batch.
  | build
  -- The head of the retry loop.
  | retry
  -- `perform` returns.
  | outcome (res : Outcome)
  -- One round of the loop that hands the batch over.
  | handOver
deriving DecidableEq, Repr

namespace State

variable (s : State)

def enqueue (value : Option BbAvroMetric) : State :=
  let e : Event := ⟨s.enqueued.length, value⟩
  { s with queue := s.queue ++ [e], enqueued := s.enqueued ++ [e] }

def process : State :=
  match s.pendingForDelete with
  | [] => s
  | e :: rest => { s with pendingForDelete := rest, released := s.released ++ [e] }

def minTs (config : Config) (now : Int64) : Int64 :=
  if config.maxExportedAge > 0 then now - config.maxExportedAge else 0

def top (config : Config) (now : Int64) : State :=
  if s.exit then { s with phase := .exited }
  else if s.closed then { s with phase := .exited }
  else if !s.startRunning then s
  else if s.queue.isEmpty then s
  else { s with prequest := [], phase := .building (minTs config now) }

/-- `if (prequest.timeseries_size())`. -/
def endBuild : State :=
  if s.prequest.length > 0 then
    { s with phase := .retrying, requests := s.requests ++ [s.prequest] }
  else { s with phase := .handingOver }

def build (config : Config) (minTs : Int64) : State :=
  match s.queue with
  | msg :: rest =>
      if s.inBatch.length < config.batchSize then
        { s with queue := rest, inBatch := s.inBatch ++ [msg],
                 prequest := s.prequest ++ (msg.item minTs).toList,
                 considered := s.considered ++ [(msg, minTs)] }
      else s.endBuild
  | [] => s.endBuild

/-- `while (!exit_)` -/
def retry : State :=
  if s.exit then { s with phase := .handingOver } else { s with phase := .inFlight }

def outcome : Outcome → State
  | .transportFailure => { s with phase := .retrying }
  | .httpError => { s with phase := .handingOver, answered := s.answered ++ [s.prequest] }
  | .ok => { s with phase := .handingOver, answered := s.answered ++ [s.prequest] }

def handOver : State :=
  match s.inBatch with
  | e :: rest => { s with inBatch := rest, pendingForDelete := s.pendingForDelete ++ [e] }
  | [] => { s with phase := .top }

end State

def step (config : Config) (s : State) : Action → Option State
  | .enqueue value => some (s.enqueue value)
  | .process => some s.process
  | .setExit => some { s with exit := true }
  | .close => some { s with closed := true }
  | .startRunning => some { s with startRunning := true }
  | .top now => if s.phase = .top then some (s.top config now) else none
  | .build =>
      match s.phase with
      | .building minTs => some (s.build config minTs)
      | _ => none
  | .retry => if s.phase = .retrying then some s.retry else none
  | .outcome res => if s.phase = .inFlight then some (s.outcome res) else none
  | .handOver => if s.phase = .handingOver then some s.handOver else none

def machine (config : Config) : Machine State Action where
  init := State.init
  step := step config

end BbMonitor.PrometheusSink
