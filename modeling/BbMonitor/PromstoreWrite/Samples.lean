import BbMonitor.Lib.Blocks
import BbMonitor.PromstoreWrite.RequestHandler

/-!
# The samples of a write request

Each sample of a named series is to become a metric of its own (`cleanSeries`).  The
handler does insert as many metrics as there are samples, with their times and values.
But it fills one message in every round of its loop over the samples, and never clears
it, so that the metric of the `n`-th sample has the labels of the series `n` times over
(`handleSeries_eq`).
-/

namespace BbMonitor.PromstoreWrite

open Prompb (TimeSeries WriteRequest)

/-! ## What is to be inserted -/

/-- The name of a series: the value of its label `__name__`, the last if there are several. -/
def seriesName (promTs : TimeSeries) : Bytes :=
  ((promTs.labels.filter namesMetric).map Prompb.Label.value).getLastD []

/-- The labels that a metric of the series is to have. -/
def keptLabels (promTs : TimeSeries) : List Label :=
  (promTs.labels.filter kept).map fun l => ⟨l.name, l.value⟩

/-- One metric for each sample, with its time, if the series has a name. -/
def cleanSeries (promTs : TimeSeries) : List (Metric × Int64) :=
  if seriesName promTs = [] then []
  else
    promTs.samples.map fun sample =>
      ({ ns := []
         name := seriesName promTs
         labels := keptLabels promTs
         sample := .doubleValue sample.value
         timestamp := sample.timestamp }, sample.timestamp)

/-- There is only one sample, or there are no labels to pile up. -/
def Clean (promTs : TimeSeries) : Prop :=
  seriesName promTs = [] ∨ promTs.samples.length ≤ 1 ∨ keptLabels promTs = []

/-! ## What is inserted -/

/-- The message after it was filled `rounds + 1` times, the last time for this sample. -/
def piledMetric (promTs : TimeSeries) (rounds : ℕ) (sample : Prompb.Sample) : Metric where
  ns := []
  name := seriesName promTs
  labels := (List.replicate (rounds + 1) (keptLabels promTs)).flatten
  sample := .doubleValue sample.value
  timestamp := sample.timestamp

/-- The message between two rounds. -/
structure Piled (promTs : TimeSeries) (rounds : ℕ) (metric : Metric) : Prop where
  ns : metric.ns = []
  name : metric.name = [] ∨ metric.name = seriesName promTs
  labels : metric.labels = (List.replicate rounds (keptLabels promTs)).flatten

variable {promTs : TimeSeries}

theorem piled_piledMetric (promTs : TimeSeries) (rounds : ℕ) (sample : Prompb.Sample) :
    Piled promTs (rounds + 1) (piledMetric promTs rounds sample) where
  ns := rfl
  name := Or.inr rfl
  labels := rfl

theorem getLastD_name {metric : Metric}
    (hname : metric.name = [] ∨ metric.name = seriesName promTs) :
    ((promTs.labels.filter namesMetric).map Prompb.Label.value).getLastD metric.name =
      seriesName promTs := by
  rcases hname with hempty | hset
  · rw [hempty, seriesName]
  · rw [hset, seriesName]
    cases (promTs.labels.filter namesMetric).map Prompb.Label.value with
    | nil => rfl
    | cons value rest => rw [List.getLastD_cons, List.getLastD_cons]

/-- A round of the loop over the samples. -/
theorem addSample_of_piled {rounds : ℕ} {metric : Metric} (hpiled : Piled promTs rounds metric)
    (inserted : List (Metric × Int64)) (sample : Prompb.Sample) :
    addSample promTs.labels (metric, inserted) sample =
      (piledMetric promTs rounds sample,
        if seriesName promTs = [] then inserted
        else inserted ++ [(piledMetric promTs rounds sample, sample.timestamp)]) := by
  have hlabels : (List.replicate rounds (keptLabels promTs)).flatten ++ keptLabels promTs =
      (List.replicate (rounds + 1) (keptLabels promTs)).flatten := by
    rw [List.replicate_succ', List.flatten_append, List.flatten_singleton]
  have hfilled : promTs.labels.foldl addLabel metric =
      { metric with
        name := seriesName promTs
        labels := (List.replicate (rounds + 1) (keptLabels promTs)).flatten } := by
    rw [foldl_addLabel _ _ hpiled.ns, getLastD_name hpiled.name, hpiled.labels, ← hlabels]
    rfl
  unfold addSample
  simp only [hfilled, hpiled.ns, piledMetric]
  by_cases hname : seriesName promTs = []
  · rw [hname, if_pos (by simp), if_pos rfl]
  · rw [if_neg (by simp [hname]), if_neg hname]

theorem foldl_addSample (samples : List Prompb.Sample) {rounds : ℕ} {metric : Metric}
    (hpiled : Piled promTs rounds metric) (inserted : List (Metric × Int64)) :
    (samples.foldl (addSample promTs.labels) (metric, inserted)).2 =
      inserted ++ if seriesName promTs = [] then []
        else samples.mapIdx fun i sample =>
          (piledMetric promTs (rounds + i) sample, sample.timestamp) := by
  induction samples generalizing rounds metric inserted with
  | nil => simp
  | cons sample rest ih =>
      rw [List.foldl_cons, addSample_of_piled hpiled,
        ih (piled_piledMetric promTs rounds sample)]
      by_cases hname : seriesName promTs = []
      · simp [hname]
      · simp only [if_neg hname, List.mapIdx_cons, Nat.add_zero, Nat.add_assoc, Nat.add_comm 1,
          List.append_assoc, List.singleton_append]

/-- The metrics of a series: with every sample, the labels once more. -/
theorem handleSeries_eq (promTs : TimeSeries) :
    handleSeries promTs =
      if seriesName promTs = [] then []
      else promTs.samples.mapIdx fun i sample =>
        (piledMetric promTs i sample, sample.timestamp) := by
  have hpiled : Piled promTs 0 Metric.empty := ⟨rfl, Or.inl rfl, rfl⟩
  rw [handleSeries, foldl_addSample _ hpiled]
  simp

/-! ## When the metrics are clean -/

theorem length_handleSeries (promTs : TimeSeries) :
    (handleSeries promTs).length = (cleanSeries promTs).length := by
  rw [handleSeries_eq, cleanSeries]
  by_cases hname : seriesName promTs = []
  · simp [hname]
  · simp [hname]

theorem handleSeries_eq_cleanSeries_iff (promTs : TimeSeries) :
    handleSeries promTs = cleanSeries promTs ↔ Clean promTs := by
  rw [handleSeries_eq, cleanSeries, Clean]
  by_cases hname : seriesName promTs = []
  · simp [hname]
  · rw [if_neg hname, if_neg hname, or_iff_right hname]
    constructor
    · intro heq
      refine or_iff_not_imp_left.mpr fun hlong => ?_
      -- The second metric has the labels twice.
      have hsecond : 1 < promTs.samples.length := by omega
      have hlabels := congrArg (fun inserted => inserted[1]?.map fun m => m.1.labels) heq
      simp only [List.getElem?_mapIdx, List.getElem?_map, List.getElem?_eq_getElem hsecond,
        Option.map_some, Option.some.injEq, piledMetric] at hlabels
      simpa [List.replicate_succ] using hlabels
    · intro hclean
      refine List.ext_getElem (by simp) fun i hi _ => ?_
      rw [List.getElem_mapIdx, List.getElem_map]
      have hpile : (List.replicate (i + 1) (keptLabels promTs)).flatten = keptLabels promTs := by
        rcases hclean with hshort | hnone
        · have hzero : i = 0 := by
            rw [List.length_mapIdx] at hi
            omega
          simp [hzero]
        · simp [hnone]
      rw [piledMetric, hpile]

/-- A write request is turned into clean metrics exactly when each of its series is
without a name, without labels to keep, or of one sample at most. -/
theorem clean_metrics_iff (decode : Bytes → WriteRequest) (body : Bytes) :
    requestHandler decode
        { path := bytes "/api/v1/prom/write"
          method := .post
          contentEncoding := some (bytes "snappy")
          body := body } =
        some (.accepted, (decode body).timeseries.flatMap cleanSeries) ↔
      ∀ promTs ∈ (decode body).timeseries, Clean promTs := by
  rw [requestHandler, if_pos rfl]
  simp only [if_true, Option.some.injEq, Prod.mk.injEq, true_and]
  calc (decode body).timeseries.flatMap handleSeries = (decode body).timeseries.flatMap cleanSeries
      ↔ ∀ promTs ∈ (decode body).timeseries, handleSeries promTs = cleanSeries promTs :=
        Blocks.flatMap_eq_iff fun promTs _ => length_handleSeries promTs
    _ ↔ ∀ promTs ∈ (decode body).timeseries, Clean promTs :=
        forall₂_congr fun promTs _ => handleSeries_eq_cleanSeries_iff promTs

/-- Two samples of one series. -/
def twoSamples : WriteRequest where
  timeseries :=
    [⟨[⟨Prompb.nameLabel, bytes "up"⟩, ⟨bytes "job", bytes "node"⟩], [⟨1, 10⟩, ⟨0, 20⟩]⟩]

theorem twoSamples_not_clean :
    ¬ ∀ (decode : Bytes → WriteRequest) (body : Bytes),
      requestHandler decode
          { path := bytes "/api/v1/prom/write"
            method := .post
            contentEncoding := some (bytes "snappy")
            body := body } =
        some (.accepted, (decode body).timeseries.flatMap cleanSeries) := by
  intro hall
  have hmetrics := congrArg (Option.map fun handled => handled.2.map fun m => m.1.labels.length)
    (hall (fun _ => twoSamples) [])
  revert hmetrics
  decide +kernel

end BbMonitor.PromstoreWrite
