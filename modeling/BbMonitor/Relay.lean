import BbMonitor.Ingestion.Conversion
import BbMonitor.PrometheusSink.Batches
import BbMonitor.PromstoreWrite.RequestHandler

/-!
# The way of a remote-write request

A write request that Prometheus sends to the proxy comes out of the exporter on
the other side again.  In between its samples are metrics of the grpc interface
and records of kafka.  Both transports keep the order; how the metrics are
divided into bundles and the records into batches is left open.

`relay_transparent` says what comes out: the same series, the name first and
without the label of the replica.
-/

namespace BbMonitor.Relay

open Ingestion PromstoreWrite PrometheusSink
open Prompb (TimeSeries WriteRequest)

/-- A series with one sample that the exporter can pass on and one name. -/
structure Relayable (promTs : TimeSeries) : Prop where
  sample : ∃ sample, promTs.samples = [sample] ∧ sample.value.isFinite = true ∧
    0 < sample.timestamp
  name : ∃ label, promTs.labels.filter (·.name = Prompb.nameLabel) = [label] ∧ label.value ≠ []

/-- What is to come out for a series. -/
def relayed (promTs : TimeSeries) : TimeSeries where
  labels := promTs.labels.filter (·.name = Prompb.nameLabel) ++
    promTs.labels.filter fun label =>
      label.name ≠ Prompb.nameLabel ∧ label.name ≠ bytes "prometheus_replica"
  samples := promTs.samples

/-- The records that are pushed to kafka for bundles that arrive one after the
other. -/
def records (bundles : List (List Metric)) : List BbAvroMetric :=
  bundles.flatMap fun metrics => (putMetrics2 metrics).pushed.map Prod.snd

/-! ## One series -/

variable {promTs : TimeSeries} {sample : Prompb.Sample}

/-- The record of a metric, if one is pushed for it. -/
def metricRecord (metric : Metric) : Option BbAvroMetric :=
  (metricPush metric).map Prod.snd

/-- The series of a record, without an age limit. -/
def recordSeries (record : BbAvroMetric) : Option TimeSeries :=
  Event.series ⟨0, some record⟩ 0

/-- The record of a sample in a series of one sample. -/
def sampleRecord (promTs : TimeSeries) (sample : Prompb.Sample) : BbAvroMetric :=
  avroMetric (sampleMetric promTs sample) (.double sample.value)

theorem metricRecord_sampleMetric :
    metricRecord (sampleMetric promTs sample) = some (sampleRecord promTs sample) := rfl

theorem recordSeries_sampleRecord (hfinite : sample.value.isFinite = true)
    (htimestamp : 0 < sample.timestamp) :
    recordSeries (sampleRecord promTs sample) = some (timeSeries (sampleRecord promTs sample)) := by
  have hfresh : ¬ (sampleRecord promTs sample).timestamp ≤ 0 := Int64.not_le.mpr htimestamp
  have hvalue : (metricsValue (sampleRecord promTs sample).value).isFinite = true := hfinite
  simp only [recordSeries, Event.series, if_neg hfresh, hvalue, if_true]

/-- Splitting off the name and putting it back gives the series again, but for
the order and the label of the replica. -/
theorem timeSeries_sampleRecord {label : Prompb.Label} (hsamples : promTs.samples = [sample])
    (hlabel : promTs.labels.filter (·.name = Prompb.nameLabel) = [label]) :
    timeSeries (sampleRecord promTs sample) = relayed promTs := by
  have hmem : label ∈ promTs.labels.filter (·.name = Prompb.nameLabel) := by
    rw [hlabel]
    exact List.mem_singleton_self _
  have hname : label.name = Prompb.nameLabel :=
    of_decide_eq_true (List.mem_filter.mp hmem).2
  have hnameValue : nameValue (sampleRecord promTs sample) = label.value := by
    show ((promTs.labels.filter namesMetric).map Prompb.Label.value).getLastD [] = label.value
    rw [show promTs.labels.filter namesMetric = [label] from hlabel]
    rfl
  have hlabels : (sampleRecord promTs sample).labels.map
      (fun i => (⟨i.key, i.value⟩ : Prompb.Label)) = promTs.labels.filter kept := by
    simp only [sampleRecord, avroMetric, sampleMetric, List.map_map]
    exact List.map_id _
  have hsame : label = ⟨Prompb.nameLabel, label.value⟩ := by rw [← hname]
  unfold timeSeries relayed
  rw [hnameValue, hlabels, hlabel, hsamples, ← hsame]
  rfl

/-- The way of one series through the three converters. -/
theorem series_relayed (hrelayable : Relayable promTs) :
    ((handleSeries promTs).map Prod.fst).filterMap
      (fun metric => (metricRecord metric).bind recordSeries) = [relayed promTs] := by
  obtain ⟨sample, hsamples, hfinite, htimestamp⟩ := hrelayable.sample
  obtain ⟨label, hlabel, hvalue⟩ := hrelayable.name
  have hname : (sampleMetric promTs sample).name = label.value := by
    show ((promTs.labels.filter namesMetric).map Prompb.Label.value).getLastD [] = label.value
    rw [show promTs.labels.filter namesMetric = [label] from hlabel]
    rfl
  have hhandled : handleSeries promTs = [(sampleMetric promTs sample, sample.timestamp)] := by
    apply handleSeries_singleton hsamples
    rw [hname]
    exact hvalue
  have hseries : (metricRecord (sampleMetric promTs sample)).bind recordSeries =
      some (relayed promTs) := by
    rw [metricRecord_sampleMetric, Option.bind_some,
      recordSeries_sampleRecord hfinite htimestamp, timeSeries_sampleRecord hsamples hlabel]
  simp [hhandled, hseries]

/-! ## Lists of series -/

/-- However the metrics are bundled, their records are pushed one after the other. -/
theorem records_eq (bundles : List (List Metric)) :
    records bundles = bundles.flatten.filterMap metricRecord := by
  have hbundle : ∀ metrics : List Metric,
      (putMetrics2 metrics).pushed.map Prod.snd = metrics.filterMap metricRecord := by
    intro metrics
    rw [putMetrics2_eq, List.map_filterMap]
    rfl
  induction bundles with
  | nil => rfl
  | cons metrics rest ih =>
      rw [List.flatten_cons, List.filterMap_append, ← ih, ← hbundle]
      rfl

/-- The series of events depend on their records alone. -/
theorem filterMap_series {events : List Event} {given : List BbAvroMetric}
    (hgiven : events.map Event.value = given.map some) :
    events.filterMap (fun e => e.series 0) = given.filterMap recordSeries := by
  have hvalue : (fun e : Event => e.series 0) =
      (fun value => value.bind recordSeries) ∘ Event.value := by
    funext e
    simp only [Function.comp_apply, Event.series]
    cases e.value <;> rfl
  rw [hvalue, ← List.filterMap_map, hgiven, List.filterMap_map]
  rfl

theorem series_of_metrics {timeseries : List TimeSeries}
    (hrelayable : ∀ promTs ∈ timeseries, Relayable promTs) :
    ((timeseries.flatMap handleSeries).map Prod.fst).filterMap
      (fun metric => (metricRecord metric).bind recordSeries) = timeseries.map relayed := by
  induction timeseries with
  | nil => rfl
  | cons promTs rest ih =>
      rw [List.flatMap_cons, List.map_append, List.filterMap_append,
        series_relayed (hrelayable promTs (List.mem_cons_self ..)),
        ih fun promTs' hmem => hrelayable promTs' (List.mem_cons_of_mem _ hmem)]
      rfl

/-! ## The statement -/

/-- The proxy accepts a write request of such series.  Let its metrics arrive at
the ingestion server in order, in any bundles, and let the exporter be given the
records in order.  Then every run of the exporter that takes all of them builds
requests with the series that are to come out, one after the other, and unless
it is shut down in between each of them is answered; and there is such a run. -/
theorem relay_transparent (decode : Bytes → WriteRequest) (req : HttpRequest)
    (config : Config) (hpath : req.path = bytes "/api/v1/prom/write")
    (hmethod : req.method = .post) (hencoding : req.contentEncoding = some (bytes "snappy"))
    (hrelayable : ∀ promTs ∈ (decode req.body).timeseries, Relayable promTs)
    (hbatchSize : 1 ≤ config.batchSize) (hage : config.maxExportedAge = 0) :
    ∃ inserted, requestHandler decode req = some (.accepted, inserted) ∧
      ∀ bundles : List (List Metric), bundles.flatten = inserted.map Prod.fst →
        (∀ actions s, Exports config actions ((records bundles).map some) s →
          s.requests.flatten.map Prod.snd = (decode req.body).timeseries.map relayed ∧
          (Undisturbed config actions → s.answered = s.requests)) ∧
        ∃ actions s, Undisturbed config actions ∧
          Exports config actions ((records bundles).map some) s := by
  refine ⟨(decode req.body).timeseries.flatMap handleSeries, ?_, ?_⟩
  · simp [requestHandler, hpath, hmethod, hencoding]
  · intro bundles hbundles
    refine ⟨?_, exists_exports hbatchSize _⟩
    intro actions s hexports
    refine ⟨?_, fun hundisturbed =>
      answered_eq_requests hundisturbed (Machine.visits_of_exec hexports.run) hexports.settled⟩
    have hunlimited : ¬ config.maxExportedAge > 0 := by
      rw [hage]
      decide
    calc s.requests.flatten.map Prod.snd
        = s.enqueued.filterMap fun e => e.series 0 :=
          requests_flatten hunlimited ⟨actions, hexports.run⟩ hexports.taken hexports.unfilled
      _ = (records bundles).filterMap recordSeries := filterMap_series hexports.given
      _ = bundles.flatten.filterMap fun metric => (metricRecord metric).bind recordSeries := by
          rw [records_eq, List.filterMap_filterMap]
      _ = (decode req.body).timeseries.map relayed := by
          rw [hbundles]
          exact series_of_metrics hrelayable

/-- The body of a write request with one series, `up{job="x"} 1` of replica `a`,
as snappy compresses it: one literal of 66 bytes. -/
def upBody : Bytes :=
  [0x42, 0xf0, 0x41, 0x0a, 0x40] ++
    [0x0a, 0x17, 0x0a, 0x12] ++ bytes "prometheus_replica" ++ [0x12, 0x01] ++ bytes "a" ++
    [0x0a, 0x08, 0x0a, 0x03] ++ bytes "job" ++ [0x12, 0x01] ++ bytes "x" ++
    [0x0a, 0x0e, 0x0a, 0x08] ++ bytes "__name__" ++ [0x12, 0x02] ++ bytes "up" ++
    [0x12, 0x0b, 0x09, 0x00, 0x00, 0x00, 0x00, 0x00, 0x00, 0xf0, 0x3f, 0x10, 0x05]

def upSeries : TimeSeries where
  labels := [⟨bytes "prometheus_replica", bytes "a"⟩, ⟨bytes "job", bytes "x"⟩,
    ⟨bytes "__name__", bytes "up"⟩]
  samples := [⟨0x3ff0000000000000, 5⟩]

/-- A decoder that knows this body only. -/
def upDecode (body : Bytes) : WriteRequest :=
  if body = upBody then ⟨[upSeries]⟩ else ⟨[]⟩

def upRequest : HttpRequest where
  path := bytes "/api/v1/prom/write"
  method := .post
  contentEncoding := some (bytes "snappy")
  body := upBody

theorem upRequest_relay_transparent :
    ∃ inserted, requestHandler upDecode upRequest = some (.accepted, inserted) ∧
      ∀ bundles : List (List Metric), bundles.flatten = inserted.map Prod.fst →
        (∀ actions s, Exports ⟨1, 0⟩ actions ((records bundles).map some) s →
          s.requests.flatten.map Prod.snd =
            [⟨[⟨bytes "__name__", bytes "up"⟩, ⟨bytes "job", bytes "x"⟩],
              [⟨0x3ff0000000000000, 5⟩]⟩] ∧
          (Undisturbed ⟨1, 0⟩ actions → s.answered = s.requests)) ∧
        ∃ actions s, Undisturbed ⟨1, 0⟩ actions ∧
          Exports ⟨1, 0⟩ actions ((records bundles).map some) s := by
  have hdecode : (upDecode upRequest.body).timeseries = [upSeries] := by
    simp [upDecode, upRequest]
  have hrelayable : ∀ promTs ∈ (upDecode upRequest.body).timeseries, Relayable promTs := by
    rw [hdecode, List.forall_mem_singleton]
    exact ⟨⟨_, rfl, by decide, by decide⟩,
      ⟨⟨bytes "__name__", bytes "up"⟩, by decide, by decide⟩⟩
  have hrelayed : (upDecode upRequest.body).timeseries.map relayed =
      [⟨[⟨bytes "__name__", bytes "up"⟩, ⟨bytes "job", bytes "x"⟩],
        [⟨0x3ff0000000000000, 5⟩]⟩] := by
    rw [hdecode]
    decide
  have hrelay := relay_transparent upDecode upRequest ⟨1, 0⟩ rfl rfl rfl hrelayable
    (Nat.le_refl 1) rfl
  rwa [hrelayed] at hrelay

end BbMonitor.Relay
