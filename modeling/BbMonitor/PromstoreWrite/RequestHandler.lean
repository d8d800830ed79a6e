import BbMonitor.Messages
import BbMonitor.Prompb

/-!
# The remote-write proxy

`request_handler` of `bb-monitor-promstore-write-proxy` turns the samples of a
write request into metrics and inserts them into the stream that feeds the metric
sink.  The message `metric` lives as long as its series: a second sample of the
series adds the labels once more.

What `decompress_snappy` and `ParseFromString` make of the body is a parameter;
neither result is checked by the handler.
-/

namespace BbMonitor.PromstoreWrite

open Prompb (TimeSeries WriteRequest)

inductive Method where
  | post
  | delete
  | other
deriving DecidableEq, Repr

structure HttpRequest where
  path : Bytes
  method : Method
  -- The field `Content-Encoding`, if there is one.
  contentEncoding : Option Bytes
  body : Bytes

inductive HandlingStatus where
  | accepted
  | rejected
deriving DecidableEq, Repr

/-- `"prometheus_replica"`. -/
def replicaLabel : Bytes := bytes "prometheus_replica"

/-- One round of the loop over the labels of a series. -/
def addLabel (metric : Metric) (label : Prompb.Label) : Metric :=
  if label.name = Prompb.nameLabel then { metric with ns := [], name := label.value }
  else if label.name = replicaLabel then metric
  else { metric with labels := metric.labels ++ [⟨label.name, label.value⟩] }

/-- One round of the loop over the samples of a series, with the message and what
was inserted so far: metrics, each with the time of its event. -/
def addSample (labels : List Prompb.Label) (state : Metric × List (Metric × Int64))
    (sample : Prompb.Sample) : Metric × List (Metric × Int64) :=
  let metric := labels.foldl addLabel state.1
  let metric :=
    { metric with timestamp := sample.timestamp, sample := .doubleValue sample.value }
  if metric.name.isEmpty then (metric, state.2)
  else (metric, state.2 ++ [(metric, metric.timestamp)])

/-- What is inserted for a series. -/
def handleSeries (promTs : TimeSeries) : List (Metric × Int64) :=
  (promTs.samples.foldl (addSample promTs.labels) (Metric.empty, [])).2

/-- The status and what is inserted into the stream.  Without a field
`Content-Encoding`, `get_field` throws. -/
def requestHandler (decode : Bytes → WriteRequest) (req : HttpRequest) :
    Option (HandlingStatus × List (Metric × Int64)) :=
  if req.path = bytes "/api/v1/prom/write" then
    match req.method with
    | .post =>
        match req.contentEncoding with
        | none => none
        | some encoding =>
            if encoding = bytes "snappy" then
              some (.accepted, (decode req.body).timeseries.flatMap handleSeries)
            else some (.accepted, [])
    | .delete => some (.accepted, [])
    | .other => some (.rejected, [])
  else some (.rejected, [])

/-! ## The labels of a series -/

/-- The label becomes a label of the metric. -/
def kept (label : Prompb.Label) : Bool :=
  label.name ≠ Prompb.nameLabel ∧ label.name ≠ replicaLabel

/-- The label carries the name of the metric. -/
def namesMetric (label : Prompb.Label) : Bool :=
  label.name = Prompb.nameLabel

theorem addLabel_of_namesMetric {label : Prompb.Label} (hnames : namesMetric label = true)
    (metric : Metric) : addLabel metric label = { metric with ns := [], name := label.value } :=
  if_pos (of_decide_eq_true hnames)

theorem addLabel_of_kept {label : Prompb.Label} (hkept : kept label = true) (metric : Metric) :
    addLabel metric label =
      { metric with labels := metric.labels ++ [⟨label.name, label.value⟩] } := by
  obtain ⟨hname, hreplica⟩ := of_decide_eq_true hkept
  rw [addLabel, if_neg hname, if_neg hreplica]

/-- The only label that is neither is the one of the replica. -/
theorem addLabel_of_skipped {label : Prompb.Label} (hnames : namesMetric label = false)
    (hkept : kept label = false) (metric : Metric) : addLabel metric label = metric := by
  have hname : label.name ≠ Prompb.nameLabel := of_decide_eq_false hnames
  have hreplica : label.name = replicaLabel := by
    by_contra hne
    exact of_decide_eq_false hkept ⟨hname, hne⟩
  rw [addLabel, if_neg hname, if_pos hreplica]

theorem kept_of_namesMetric {label : Prompb.Label} (hnames : namesMetric label = true) :
    kept label = false :=
  decide_eq_false fun hkept => hkept.1 (of_decide_eq_true hnames)

theorem foldl_addLabel (labels : List Prompb.Label) (metric : Metric) (hns : metric.ns = []) :
    labels.foldl addLabel metric =
      { metric with
        name := ((labels.filter namesMetric).map Prompb.Label.value).getLastD metric.name
        labels := metric.labels ++ (labels.filter kept).map fun l => ⟨l.name, l.value⟩ } := by
  induction labels generalizing metric with
  | nil => simp
  | cons label rest ih =>
      rw [List.foldl_cons]
      cases hnames : namesMetric label with
      | true =>
          rw [addLabel_of_namesMetric hnames, ih _ rfl, List.filter_cons_of_pos hnames,
            List.filter_cons_of_neg (by simp [kept_of_namesMetric hnames]), hns, List.map_cons,
            List.getLastD_cons]
      | false =>
          rw [List.filter_cons_of_neg (by simp [hnames])]
          cases hkept : kept label with
          | true =>
              rw [addLabel_of_kept hkept, ih, List.filter_cons_of_pos hkept]
              · simp
              · exact hns
          | false =>
              rw [addLabel_of_skipped hnames hkept, ih _ hns,
                List.filter_cons_of_neg (by simp [hkept])]

/-- The metric that a sample becomes, in a series of one sample. -/
def sampleMetric (promTs : TimeSeries) (sample : Prompb.Sample) : Metric where
  ns := []
  name := ((promTs.labels.filter namesMetric).map Prompb.Label.value).getLastD []
  labels := (promTs.labels.filter kept).map fun l => ⟨l.name, l.value⟩
  sample := .doubleValue sample.value
  timestamp := sample.timestamp

/-- A series of one sample gives one metric, unless it has no name. -/
theorem handleSeries_singleton {promTs : TimeSeries} {sample : Prompb.Sample}
    (hsamples : promTs.samples = [sample])
    (hname : (sampleMetric promTs sample).name ≠ []) :
    handleSeries promTs = [(sampleMetric promTs sample, sample.timestamp)] := by
  have hlabels : promTs.labels.foldl addLabel Metric.empty =
      { sampleMetric promTs sample with sample := .notSet, timestamp := 0 } := by
    rw [foldl_addLabel _ _ rfl]
    rfl
  have hnonempty : (sampleMetric promTs sample).name.isEmpty = false :=
    List.isEmpty_eq_false_iff.mpr hname
  simp only [handleSeries, hsamples, List.foldl_cons, List.foldl_nil, addSample, hlabels,
    hnonempty]
  rfl

end BbMonitor.PromstoreWrite
