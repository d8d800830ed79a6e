import BbMonitor.Avro.Transport
import BbMonitor.Prometheus.Entries
import BbMonitor.Prometheus.RoundTrip
import BbMonitor.Pushgateway.RequestHandler
import BbMonitor.Relay
import Mathlib.Data.List.Sort

/-!
# From a push to a write request

The body of a push comes out of the exporter as series of a write request.  In between it is
a list of metrics in the gateway, bundles of metrics on their way to the ingestion server,
records, and what avro makes of the records.

A sample comes out if its value is finite and its time stamp is positive (`dueSeries`).  The
job is in front of the name of the series; the job and the instance are also among the labels,
but only if the sample has a block of labels.  What is in a block comes out as it was meant if
it is `Legible`: the parser has to hear each label as it was written, and no two names may be
equal, as `std::sort` leaves the order of such labels open.
-/

namespace BbMonitor.Pushgateway

open Avro PrometheusSink Relay
open Prometheus (Entry Line Block body entries addLine rendered Readable front isLabelName)
open Prompb (TimeSeries)

variable (atof : Bytes → Double) (atoll : Bytes → Int64) (clock : ℕ → Int64)

/-- The record of a metric that was not set. -/
def freshMetric : BbAvroMetric := ⟨[], [], [], .null, 0⟩

/-! ## Samples -/

/-- A sample as it is meant: its name, its labels if it has a block of them, its value, and
its time if it has a time stamp. -/
structure Sample where
  name : Bytes
  labels : Option (List Label)
  value : Double
  stamp : Option Int64

/-- The labels that are put beside those of a block. -/
def added (jobId instanceId : Bytes) : List Label :=
  match instanceId with
  | [] => [⟨bytes "job", jobId⟩]
  | _ :: _ => [⟨bytes "job", jobId⟩, ⟨bytes "instance", instanceId⟩]

/-- The labels are read from their block as they were written, and all names differ. -/
structure Legible (jobId instanceId : Bytes) (labels : List Label) : Prop where
  names : ∀ label ∈ labels, isLabelName label.key = true
  readable : ∀ before label more, labels = before ++ label :: more →
    Readable (front before) label more
  distinct : ((labels ++ added jobId instanceId).map Label.key).Nodup

/-- The entry is the sample as it is written. -/
structure Writes (jobId instanceId : Bytes) (entry : Entry) (sample : Sample) : Prop where
  name : entry.name.text = sample.name
  block : entry.block.map Block.text = sample.labels.map rendered
  value : atof entry.value.text = sample.value
  stamp : (entry.stamp.map fun s => atoll s.2.text) = sample.stamp
  legible : ∀ labels ∈ sample.labels, Legible jobId instanceId labels

/-- The labels of the series, by name: without a block there are none. -/
def dueLabels (jobId instanceId : Bytes) (sample : Sample) : List Label :=
  match sample.labels with
  | none => []
  | some labels =>
      (labels ++ added jobId instanceId).insertionSort fun a b => a.key ≤ b.key

/-- The name of the series: the job is in front, if there is one. -/
def seriesName (jobId : Bytes) (sample : Sample) : Bytes :=
  match jobId with
  | [] => sample.name
  | _ :: _ => jobId ++ bytes "_" ++ sample.name

/-- The series of a sample that comes in at the time `now`, if it is to come out. -/
def dueSeries (jobId instanceId : Bytes) (now : Int64) (sample : Sample) : Option TimeSeries :=
  let time := sample.stamp.getD now
  if sample.value.isFinite = true ∧ 0 < time then
    some
      { labels :=
          ⟨bytes "__name__", seriesName jobId sample⟩ ::
          (dueLabels jobId instanceId sample).map fun label => ⟨label.key, label.value⟩
        samples := [⟨sample.value, time⟩] }
  else none

variable {atof atoll clock} {jobId instanceId : Bytes} {entry : Entry} {sample : Sample}

theorem groupingLabels_eq (jobId instanceId : Bytes) :
    Prometheus.groupingLabels jobId instanceId = added jobId instanceId := by
  cases instanceId <;> rfl

/-- The labels that are read are those that were written, in order of their names. -/
theorem Writes.labels_eq (hwrites : Writes atof atoll jobId instanceId entry sample)
    (now : Int64) :
    (entry.metric atof atoll jobId instanceId now).labels =
      dueLabels jobId instanceId sample := by
  have hblock := hwrites.block
  have hlegible := hwrites.legible
  unfold Entry.metric dueLabels
  cases hentry : entry.block with
  | none =>
      rw [hentry, Option.map_none] at hblock
      rw [Option.map_eq_none_iff.mp hblock.symm]
  | some block =>
      rw [hentry, Option.map_some] at hblock
      obtain ⟨labels, hlabels, htext⟩ := Option.map_eq_some_iff.mp hblock.symm
      obtain ⟨hnames, hreadable, hdistinct⟩ := hlegible labels hlabels
      have hbraces : ∀ label ∈ labels, rightBrace ∉ label.value := by
        intro label hmem
        obtain ⟨before, more, hsplit⟩ := List.append_of_mem hmem
        exact (hreadable before label more hsplit).noBrace
      have hread : (Prometheus.parseBbMetricsLabels jobId instanceId block.text).Perm
          (labels ++ added jobId instanceId) := by
        rw [← htext, ← Prometheus.block_eq_rendered hnames hbraces, ← groupingLabels_eq]
        exact (Prometheus.parseBbMetricsLabels_perm jobId instanceId _).trans
          (((Prometheus.read_block_perm_iff hnames).mpr hreadable).append_right _)
      rw [hlabels]
      dsimp only
      refine Prometheus.eq_of_sorted ?_ ?_ ?_ ?_
      · exact hread.trans (List.perm_insertionSort _ _).symm
      · exact Prometheus.sorted_sortByLabelName _
      · exact List.pairwise_insertionSort _ _
      · rw [((List.perm_insertionSort _ _).map Label.key).nodup_iff]
        exact hdistinct

theorem Writes.metric_eq (hwrites : Writes atof atoll jobId instanceId entry sample)
    (now : Int64) :
    entry.metric atof atoll jobId instanceId now =
      { ns := jobId
        name := sample.name
        labels := dueLabels jobId instanceId sample
        sample := .doubleValue sample.value
        timestamp := sample.stamp.getD now } := by
  have hmetric : entry.metric atof atoll jobId instanceId now =
      { ns := jobId
        name := entry.name.text
        labels := (entry.metric atof atoll jobId instanceId now).labels
        sample := .doubleValue (atof entry.value.text)
        timestamp := (entry.stamp.map fun s => atoll s.2.text).getD now } := by
    unfold Entry.metric
    cases entry.stamp <;> rfl
  rw [hmetric, hwrites.labels_eq, hwrites.name, hwrites.value, hwrites.stamp]

/-- The way of one sample through the ingestion server and the exporter. -/
theorem series_of_entry (hwrites : Writes atof atoll jobId instanceId entry sample)
    (now : Int64) :
    (metricRecord (entry.metric atof atoll jobId instanceId now)).bind recordSeries =
      dueSeries jobId instanceId now sample := by
  have hseries : (metricRecord (entry.metric atof atoll jobId instanceId now)).bind recordSeries =
      if sample.stamp.getD now ≤ 0 then none
      else if sample.value.isFinite then
        some (timeSeries ⟨jobId, sample.name,
          (dueLabels jobId instanceId sample).map fun label => ⟨label.key, label.value⟩,
          .double sample.value, sample.stamp.getD now⟩)
      else none := by
    rw [hwrites.metric_eq]
    rfl
  have hname : seriesName jobId sample =
      if jobId.isEmpty then sample.name else jobId ++ bytes "_" ++ sample.name := by
    cases jobId <;> rfl
  rw [hseries, dueSeries, hname]
  by_cases hstale : sample.stamp.getD now ≤ 0
  · rw [if_pos hstale, if_neg fun hboth => Int64.not_le.mpr hboth.2 hstale]
  · rw [if_neg hstale]
    have hfresh := Int64.not_le.mp hstale
    by_cases hfinite : sample.value.isFinite = true
    · rw [if_pos hfinite, if_pos ⟨hfinite, hfresh⟩, timeSeries, List.map_map]
      rfl
    · rw [if_neg hfinite, if_neg fun hboth => hfinite hboth.1]

theorem requestHandler_push {req : HttpRequest} {rest : Bytes} {document : List Line}
    (hpath : req.path = jobPrefix ++ rest) (hgroup : groupOf rest = some (jobId, instanceId))
    (hmethod : req.method = .post ∨ req.method = .put) (hbody : req.body = body document)
    (hsize : (body document).length < 2 ^ 31) :
    requestHandler atof atoll clock req =
      .ok ⟨.accepted, true, (entries document).mapIdx fun i entry =>
        entry.metric atof atoll jobId instanceId (clock i)⟩ := by
  have hparse : Prometheus.parsePrometheusLineFormat2BbMetrics atof atoll clock jobId instanceId
      (body document) = .ok ((entries document).mapIdx fun i entry =>
        entry.metric atof atoll jobId instanceId (clock i)) := by
    rw [Prometheus.parse_eq_foldl atof atoll jobId instanceId clock hsize,
      Prometheus.lines_body, Prometheus.foldl_addLine_text]
    simp
  rw [requestHandler_of_group atof atoll clock req hmethod hpath hgroup, hbody, hparse]
  rfl

variable (atof atoll clock) (jobId instanceId)

/-- A push with a well-formed body is accepted.  Let the metrics arrive at the ingestion
server in order, in any bundles, and let the exporter read the records from the topic.  Then
every run of the exporter that takes all of them builds requests with the series of the
samples that were written, one after the other, and unless it is shut down in between each of
them is answered; and there is such a run. -/
theorem push_relayed (avro : Avro) (orders : MetricOrders) (order : FieldOrder 5)
    (req : HttpRequest) (config : Config) (document : List Line) (samples : List Sample)
    (hwrites : List.Forall₂ (Writes atof atoll jobId instanceId) (entries document) samples)
    (hjob : slash ∉ jobId)
    (hpath : req.path = bytes "/metrics/job/" ++ (jobId ++ (bytes "/instance/" ++ instanceId)))
    (hmethod : req.method = .post ∨ req.method = .put) (hbody : req.body = body document)
    (hsize : (body document).length < 2 ^ 31) (hbatchSize : 1 ≤ config.batchSize)
    (hage : config.maxExportedAge = 0) :
    ∃ inserted, requestHandler atof atoll clock req = .ok ⟨.accepted, true, inserted⟩ ∧
      ∀ bundles : List (List Metric), bundles.flatten = inserted →
        let values := transmitted (avro.metric orders) order.order freshMetric (records bundles)
        (∀ actions s, Exports config actions values s →
          s.requests.flatten.map Prod.snd =
            (samples.mapIdx fun i sample =>
              dueSeries jobId instanceId (clock i) sample).reduceOption ∧
          (Undisturbed config actions → s.answered = s.requests)) ∧
        ∃ actions s, Undisturbed config actions ∧ Exports config actions values s := by
  have hgroup : groupOf (jobId ++ (bytes "/instance/" ++ instanceId)) =
      some (jobId, instanceId) :=
    @groupOf_of_two jobId instanceId (bytes "instance") hjob (by decide)
  refine ⟨_, requestHandler_push hpath hgroup hmethod hbody hsize, ?_⟩
  intro bundles hbundles
  refine ⟨?_, exists_exports hbatchSize _⟩
  intro actions s hexports
  refine ⟨?_, fun hundisturbed =>
    answered_eq_requests hundisturbed (Machine.visits_of_exec hexports.run) hexports.settled⟩
  have hunlimited : ¬ config.maxExportedAge > 0 := by
    rw [hage]
    decide
  have hcovers : (avro.metric orders).Covers order.order := order.covers
  have hgiven := hexports.given
  rw [transmitted_eq hcovers] at hgiven
  calc s.requests.flatten.map Prod.snd
      = s.enqueued.filterMap fun e => e.series 0 :=
        requests_flatten hunlimited ⟨actions, hexports.run⟩ hexports.taken hexports.unfilled
    _ = (records bundles).filterMap recordSeries := filterMap_series hgiven
    _ = bundles.flatten.filterMap fun metric => (metricRecord metric).bind recordSeries := by
        rw [records_eq, List.filterMap_filterMap]
    _ = ((entries document).mapIdx fun i entry =>
          (metricRecord (entry.metric atof atoll jobId instanceId (clock i))).bind
            recordSeries).reduceOption := by
        rw [hbundles, List.mapIdx_eq_zipIdx_map, List.mapIdx_eq_zipIdx_map]
        show _ = List.filterMap id _
        rw [List.filterMap_map, List.filterMap_map]
        rfl
    _ = (samples.mapIdx fun i sample =>
          dueSeries jobId instanceId (clock i) sample).reduceOption :=
        congrArg List.reduceOption
          (Numbered.mapIdx_eq_mapIdx hwrites fun i _ _ h => series_of_entry h (clock i))

/-- A comment, a sample with a label, and a sample without a block. -/
def upDocument : List Line :=
  [.comment (bytes " TYPE up gauge") (by decide),
    .sample
      { name := ⟨bytes "up", by decide, by decide, by decide, by decide⟩
        name_comment := by decide
        block := some ⟨bytes "host=\"a\"", by decide, by decide⟩
        gap := 0
        value := ⟨bytes "1", by decide, by decide, by decide, by decide⟩
        stamp := some (0, ⟨bytes "8", by decide, by decide, by decide, by decide⟩) },
    .sample
      { name := ⟨bytes "down", by decide, by decide, by decide, by decide⟩
        name_comment := by decide
        block := none
        gap := 0
        value := ⟨bytes "1", by decide, by decide, by decide, by decide⟩
        stamp := none }]

def upSamples : List Sample :=
  [⟨bytes "up", some [⟨bytes "host", bytes "a"⟩], 0x3ff0000000000000, some 8⟩,
    ⟨bytes "down", none, 0x3ff0000000000000, none⟩]

def upPush : HttpRequest where
  path := bytes "/metrics/job/x/instance/y"
  method := .put
  body := body upDocument

theorem upDocument_writes :
    List.Forall₂ (Writes (fun _ => 0x3ff0000000000000) (fun _ => 8) (bytes "x") (bytes "y"))
      (entries upDocument) upSamples := by
  refine .cons ⟨rfl, by decide +kernel, rfl, rfl, ?_⟩ (.cons ⟨rfl, rfl, rfl, rfl, ?_⟩ .nil)
  · intro labels hlabels
    cases hlabels
    refine ⟨by decide +kernel, ?_, by decide +kernel⟩
    intro before label more hsplit
    have hlabel : label = ⟨bytes "host", bytes "a"⟩ := by
      have hmem : label ∈ [(⟨bytes "host", bytes "a"⟩ : Label)] := by simp [hsplit]
      exact List.mem_singleton.mp hmem
    subst hlabel
    refine Prometheus.readable_of_plain (by decide) (by decide) ?_
    simp only [List.forall_mem_cons, List.not_mem_nil, false_implies, implies_true, and_true]
    decide
  · intro labels hlabels
    cases hlabels

theorem upPush_relayed :
    ∃ inserted, requestHandler (fun _ => 0x3ff0000000000000) (fun _ => 8) (fun _ => 5) upPush =
        .ok ⟨.accepted, true, inserted⟩ ∧
      ∀ bundles : List (List Metric), bundles.flatten = inserted →
        let values := transmitted (Avro.binary.metric ⟨FieldOrder.plain 2, FieldOrder.plain 2⟩)
          (FieldOrder.plain 5).order freshMetric (records bundles)
        (∀ actions s, Exports ⟨1, 0⟩ actions values s →
          s.requests.flatten.map Prod.snd =
            [⟨[⟨bytes "__name__", bytes "x_up"⟩, ⟨bytes "host", bytes "a"⟩,
              ⟨bytes "instance", bytes "y"⟩, ⟨bytes "job", bytes "x"⟩],
              [⟨0x3ff0000000000000, 8⟩]⟩,
            ⟨[⟨bytes "__name__", bytes "x_down"⟩], [⟨0x3ff0000000000000, 5⟩]⟩] ∧
          (Undisturbed ⟨1, 0⟩ actions → s.answered = s.requests)) ∧
        ∃ actions s, Undisturbed ⟨1, 0⟩ actions ∧ Exports ⟨1, 0⟩ actions values s := by
  have hseries : (upSamples.mapIdx fun _ sample =>
      dueSeries (bytes "x") (bytes "y") 5 sample).reduceOption =
      [⟨[⟨bytes "__name__", bytes "x_up"⟩, ⟨bytes "host", bytes "a"⟩,
        ⟨bytes "instance", bytes "y"⟩, ⟨bytes "job", bytes "x"⟩], [⟨0x3ff0000000000000, 8⟩]⟩,
      ⟨[⟨bytes "__name__", bytes "x_down"⟩], [⟨0x3ff0000000000000, 5⟩]⟩] := by
    decide +kernel
  have hrelayed := push_relayed (fun _ => 0x3ff0000000000000) (fun _ => 8) (fun _ => 5)
    (bytes "x") (bytes "y") Avro.binary ⟨FieldOrder.plain 2, FieldOrder.plain 2⟩
    (FieldOrder.plain 5) upPush ⟨1, 0⟩ upDocument upSamples upDocument_writes (by decide) rfl
    (Or.inr rfl) rfl (by decide) (Nat.le_refl 1) rfl
  rwa [hseries] at hrelayed

end BbMonitor.Pushgateway
