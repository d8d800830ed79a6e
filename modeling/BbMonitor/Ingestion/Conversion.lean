import BbMonitor.AvroRecords
import BbMonitor.DdLogProxy.HandleLine

/-!
# What the unary handlers push

The loops of `put_metrics2_call_data`, `put_intake2_call_data` and
`put_logs2_call_data` over the elements of a bundle.  Each converts an element to
its avro record, pushes the record to the sink under a key, and counts; the
intake handler counts once, behind its loop.
-/

namespace BbMonitor.Ingestion

open DdLogProxy (LogLine)

/-- What was pushed to the sink so far, with the keys, and `_msg_count`. -/
structure Sent (R : Type*) where
  pushed : List (Bytes × R)
  msgCount : ℕ
deriving DecidableEq, Repr

variable {R : Type*}

def Sent.empty : Sent R := ⟨[], 0⟩

/-- `sink->push_back`. -/
def Sent.pushBack (sent : Sent R) (key : Bytes) (value : R) : Sent R :=
  { sent with pushed := sent.pushed ++ [(key, value)] }

/-- `++_msg_count`. -/
def Sent.count (sent : Sent R) : Sent R :=
  { sent with msgCount := sent.msgCount + 1 }

def Sent.map {S : Type*} (f : R → S) (sent : Sent R) : Sent S :=
  ⟨sent.pushed.map fun r => (r.1, f r.2), sent.msgCount⟩

/-! ## Metrics -/

/-- The fields of a record that do not depend on the sample. -/
def avroMetric (metric : Metric) (value : BbAvroValue) : BbAvroMetric where
  ns := metric.ns
  name := metric.name
  labels := metric.labels.map fun l => ⟨l.key, l.value⟩
  value := value
  timestamp := metric.timestamp

/-- The switch over `MeasurementOneof_case`; the default pushes nothing. -/
def avroValue : Measurement → Option BbAvroValue
  | .longValue v => some (.long v)
  | .doubleValue v => some (.double v)
  | .latLonValue pbpos => some (.pos pbpos.latitude pbpos.longitude)
  | .notSet => none

def metricRound (sent : Sent BbAvroMetric) (metric : Metric) : Sent BbAvroMetric :=
  match avroValue metric.sample with
  | some value =>
      (sent.pushBack (metric.ns ++ metric.name) (avroMetric metric value)).count
  | none => sent.count

def putMetrics2 (metrics : List Metric) : Sent BbAvroMetric :=
  metrics.foldl metricRound Sent.empty

/-! ## Intake data -/

def avroIntake (intake : Intake) : DdAvroIntake where
  agent := intake.agent
  data := intake.data
  timestamp := intake.timestamp

/-- The count is incremented behind the loop. -/
def putIntake2 (intake : List Intake) : Sent DdAvroIntake :=
  (intake.foldl (fun sent item => sent.pushBack [] (avroIntake item)) Sent.empty).count

/-! ## Log lines -/

def avroLogline (ll : LogLine) : BbAvroLogline where
  id := ll.id
  agent := ll.agent
  host := ll.host
  source := ll.source
  tags := ll.labels.map fun rl => ⟨rl.key, rl.value⟩
  timestampNs := ll.timestampNs
  line := ll.line

def putLogs2 (lines : List LogLine) : Sent BbAvroLogline :=
  lines.foldl (fun sent ll => (sent.pushBack ll.id (avroLogline ll)).count) Sent.empty

/-! ## What is pushed -/

/-- The key and the record that are pushed for a metric. -/
def metricPush (metric : Metric) : Option (Bytes × BbAvroMetric) :=
  (avroValue metric.sample).map fun value => (metric.ns ++ metric.name, avroMetric metric value)

theorem foldl_metricRound (metrics : List Metric) (sent : Sent BbAvroMetric) :
    metrics.foldl metricRound sent =
      ⟨sent.pushed ++ metrics.filterMap metricPush, sent.msgCount + metrics.length⟩ := by
  induction metrics generalizing sent with
  | nil => simp
  | cons metric rest ih =>
      rw [List.foldl_cons, ih]
      cases hvalue : avroValue metric.sample with
      | none => simp [metricRound, metricPush, hvalue, Sent.count]; omega
      | some value =>
          simp [metricRound, metricPush, hvalue, Sent.count, Sent.pushBack]
          omega

/-- A record for every metric with a sample, in order; every metric is counted. -/
theorem putMetrics2_eq (metrics : List Metric) :
    putMetrics2 metrics = ⟨metrics.filterMap metricPush, metrics.length⟩ := by
  rw [putMetrics2, foldl_metricRound]
  simp [Sent.empty]

end BbMonitor.Ingestion
