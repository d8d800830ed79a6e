import BbMonitor.Lib.Blocks
import BbMonitor.PrometheusSink.Batches

/-!
# The age limit of the exporter

An event is to be left out when its value cannot be sent, or when an age limit is set
and the event is older (`due`).  The exporter compares the time of an event with
`min_ts`, which is 0 when there is no limit.  But 0 is a time like any other, and events
from 1970 and before are left out then too (`Spared`).

`takenBy` are the events that a run takes from the queue, each with the clock as it was
read for its batch.
-/

namespace BbMonitor.PrometheusSink

open Prompb (TimeSeries)

variable {config : Config} {s t : State}

/-! ## What is to be sent -/

/-- A long or a finite double. -/
def sendable : BbAvroValue → Bool
  | .null => false
  | .long _ => true
  | .double v => v.isFinite
  | .pos _ _ => false

/-- There is an age limit, and the record has reached it. -/
def TooOld (config : Config) (now : Int64) (metrics : BbAvroMetric) : Prop :=
  0 < config.maxExportedAge.toInt ∧
    metrics.timestamp.toInt ≤ now.toInt - config.maxExportedAge.toInt

instance (config : Config) (now : Int64) (metrics : BbAvroMetric) :
    Decidable (TooOld config now metrics) :=
  inferInstanceAs (Decidable (_ ∧ _))

/-- The number to be sent for a value, if it is a long or a finite double. -/
def dueValue : BbAvroValue → Option Double
  | .null => none
  | .long v => some (Double.ofInt64 v)
  | .double v => if v.isFinite then some v else none
  | .pos _ _ => none

/-- The series to be sent for an event: `__name__` is the name, behind the namespace if
there is one; the labels follow in order, and the sample has the time of the event. -/
def due (config : Config) (now : Int64) (e : Event) : Option TimeSeries :=
  e.value.bind fun metrics =>
    if TooOld config now metrics then none
    else (dueValue metrics.value).map fun value =>
      { labels :=
          (match metrics.ns with
            | [] => ⟨bytes "__name__", metrics.name⟩
            | _ :: _ => ⟨bytes "__name__", metrics.ns ++ bytes "_" ++ metrics.name⟩) ::
          metrics.labels.map fun label => ⟨label.key, label.value⟩
        samples := [⟨value, metrics.timestamp⟩] }

/-- With a limit, no subtraction goes below the times there are, or the record is newer
than what comes out of it; without one, the record is from after 1970 began. -/
def Spared (config : Config) (now : Int64) (metrics : BbAvroMetric) : Prop :=
  if config.maxExportedAge > 0 then
    -2 ^ 63 ≤ now.toInt - config.maxExportedAge.toInt ∨
      now - config.maxExportedAge < metrics.timestamp
  else 0 < metrics.timestamp

/-! ## One event -/

theorem isFinite_metricsValue (value : BbAvroValue) :
    (metricsValue value).isFinite = sendable value := by
  cases value with
  | null => exact (by decide : Double.nan.isFinite = false)
  | long v => exact Double.isFinite_ofInt64 v
  | double v => rfl
  | pos lat lon => exact (by decide : Double.nan.isFinite = false)

theorem dueValue_eq (value : BbAvroValue) :
    dueValue value = if sendable value = true then some (metricsValue value) else none := by
  cases value <;> rfl

/-- What is to be sent is the series that the loop makes of the record. -/
theorem due_some (arrival : ℕ) (now : Int64) (metrics : BbAvroMetric) :
    due config now ⟨arrival, some metrics⟩ =
      if sendable metrics.value = true ∧ ¬ TooOld config now metrics then some (timeSeries metrics)
      else none := by
  have hname : (match metrics.ns with
      | [] => (⟨bytes "__name__", metrics.name⟩ : Prompb.Label)
      | _ :: _ => ⟨bytes "__name__", metrics.ns ++ bytes "_" ++ metrics.name⟩) =
      ⟨Prompb.nameLabel, nameValue metrics⟩ := by
    unfold nameValue
    cases metrics.ns <;> rfl
  rw [due, Option.bind_some, dueValue_eq, hname]
  by_cases hold : TooOld config now metrics
  · rw [if_pos hold, if_neg fun hboth => hboth.2 hold]
  · by_cases hsendable : sendable metrics.value = true
    · rw [if_neg hold, if_pos hsendable, if_pos ⟨hsendable, hold⟩]
      rfl
    · rw [if_neg hold, if_neg hsendable, if_neg fun hboth => hsendable hboth.1]
      rfl

theorem series_some (arrival : ℕ) (metrics : BbAvroMetric) (minTs : Int64) :
    Event.series ⟨arrival, some metrics⟩ minTs =
      if sendable metrics.value = true ∧ minTs < metrics.timestamp then some (timeSeries metrics)
      else none := by
  unfold Event.series
  simp only [isFinite_metricsValue]
  by_cases hold : metrics.timestamp ≤ minTs
  · rw [if_pos hold, if_neg fun hand => Int64.not_le.mpr hand.2 hold]
  · have hnew : minTs < metrics.timestamp := Int64.not_le.mp hold
    simp only [if_neg hold, hnew, and_true]

/-- The difference comes out as it is, or above all differences there are. -/
theorem lt_of_sub_lt {now age ts : Int64} (hpos : 0 < age.toInt) (hlt : now - age < ts) :
    now.toInt - age.toInt < ts.toInt := by
  rw [Int64.lt_iff_toInt_lt, Int64.toInt_sub, Int.bmod_def] at hlt
  have hlow := Int64.le_toInt ts
  have hnow := Int64.toInt_lt now
  have hnow' := Int64.le_toInt now
  have hage := Int64.toInt_lt age
  split at hlt <;> omega

theorem sub_lt_of_lt {now age ts : Int64}
    (hrange : -2 ^ 63 ≤ now.toInt - age.toInt) (hlt : now.toInt - age.toInt < ts.toInt) :
    now - age < ts := by
  have hhigh := Int64.toInt_lt ts
  rw [Int64.lt_iff_toInt_lt, Int64.toInt_sub, Int.bmod_def]
  split <;> omega

theorem pos_iff (age : Int64) : age > 0 ↔ 0 < age.toInt :=
  Int64.lt_iff_toInt_lt

/-- What passes `min_ts` is not too old. -/
theorem not_tooOld_of_lt {now : Int64} {metrics : BbAvroMetric}
    (hlt : State.minTs config now < metrics.timestamp) : ¬ TooOld config now metrics := by
  rintro ⟨hpos, hle⟩
  rw [State.minTs, if_pos ((pos_iff _).mpr hpos)] at hlt
  have hnew := lt_of_sub_lt hpos hlt
  omega

/-- What is not too old passes `min_ts` if it is spared. -/
theorem minTs_lt_iff {now : Int64} {metrics : BbAvroMetric}
    (hfresh : ¬ TooOld config now metrics) :
    State.minTs config now < metrics.timestamp ↔ Spared config now metrics := by
  unfold State.minTs Spared
  by_cases hage : config.maxExportedAge > 0
  · have hpos : 0 < config.maxExportedAge.toInt := (pos_iff _).mp hage
    rw [if_pos hage, if_pos hage]
    refine ⟨Or.inr, ?_⟩
    rintro (hrange | hlt)
    · refine sub_lt_of_lt hrange (Int.not_le.mp fun hle => hfresh ⟨hpos, hle⟩)
    · exact hlt
  · rw [if_neg hage, if_neg hage]

theorem due_of_series {now : Int64} {e : Event} :
    (e.series (State.minTs config now)).isSome → (due config now e).isSome := by
  obtain ⟨arrival, value⟩ := e
  cases value with
  | none => exact id
  | some metrics =>
      rw [series_some, due_some]
      split
      · rename_i hsent
        rw [if_pos ⟨hsent.1, not_tooOld_of_lt hsent.2⟩]
        exact id
      · intro hnone
        cases hnone

theorem series_eq_due_iff {now : Int64} {e : Event} :
    e.series (State.minTs config now) = due config now e ↔
      ∀ metrics ∈ e.value, sendable metrics.value = true → ¬ TooOld config now metrics →
        Spared config now metrics := by
  obtain ⟨arrival, value⟩ := e
  cases value with
  | none => simp [Event.series, due]
  | some metrics =>
      rw [series_some, due_some]
      simp only [Option.mem_def, Option.some.injEq, forall_eq']
      by_cases hdue : sendable metrics.value = true ∧ ¬ TooOld config now metrics
      · rw [if_pos hdue]
        simp only [hdue.1, true_and, forall_const, ← minTs_lt_iff hdue.2, hdue.2, not_false_eq_true]
        simp
      · rw [if_neg hdue, if_neg fun hsent => hdue ⟨hsent.1, not_tooOld_of_lt hsent.2⟩]
        simp only [true_iff]
        intro hsendable hfresh
        exact absurd ⟨hsendable, hfresh⟩ hdue

/-! ## The clock of a batch -/

/-- The reading of the clock at the head of the loop. -/
def Action.reading : Action → Option Int64
  | .top now => some now
  | _ => none

/-- The events that these steps take from the queue, each with the last reading of the
clock. -/
def takenFrom (config : Config) : State → Int64 → List Action → List (Event × Int64)
  | _, _, [] => []
  | s, now, a :: rest =>
      match step config s a with
      | none => []
      | some t =>
          let now := a.reading.getD now
          (t.considered.drop s.considered.length).map (fun x => (x.1, now)) ++
            takenFrom config t now rest

def takenBy (config : Config) (actions : List Action) : List (Event × Int64) :=
  takenFrom config State.init 0 actions

/-- The batch that is being filled goes by this reading of the clock. -/
def Batched (config : Config) (now : Int64) (s : State) : Prop :=
  ∀ minTs, s.phase = .building minTs → minTs = State.minTs config now

/-- What a step takes it takes by the last reading. -/
theorem considered_step {a : Action} {now : Int64} (hbatched : Batched config now s)
    (hstep : Step config s a t) :
    Batched config (a.reading.getD now) t ∧
      t.considered = s.considered ++
        ((t.considered.drop s.considered.length).map fun x =>
          (x.1, State.minTs config (a.reading.getD now))) := by
  cases hstep with
  | enqueue | processNothing | processOne | setExit | close | startRunning =>
      refine ⟨hbatched, ?_⟩
      simp [State.enqueue]
  | idle hphase =>
      refine ⟨fun minTs hbuilding => ?_, by simp⟩
      rw [hphase] at hbuilding
      cases hbuilding
  | beginBatch hphase hqueue =>
      refine ⟨fun minTs hbuilding => ?_, by simp⟩
      cases hbuilding
      rfl
  | @take minTs msg rest hphase hqueue hsize =>
      refine ⟨hbatched, ?_⟩
      rw [List.drop_left, hbatched minTs hphase]
      rfl
  | handOverOne hphase =>
      exact ⟨hbatched, by simp⟩
  | _ =>
      refine ⟨fun minTs hbuilding => ?_, by simp⟩
      cases hbuilding

theorem considered_exec (actions : List Action) {now : Int64} (hbatched : Batched config now s)
    (hexec : (machine config).exec s actions = some t) :
    t.considered = s.considered ++
      (takenFrom config s now actions).map fun x => (x.1, State.minTs config x.2) := by
  induction actions generalizing s now with
  | nil =>
      cases hexec
      simp [takenFrom]
  | cons a rest ih =>
      obtain ⟨u, hstep, hrest⟩ := Option.bind_eq_some_iff.mp hexec
      have hu : step config s a = some u := hstep
      obtain ⟨hbatched', hconsidered⟩ := considered_step hbatched (step_branches hu)
      calc t.considered
          = u.considered ++ (takenFrom config u (a.reading.getD now) rest).map
              (fun x => (x.1, State.minTs config x.2)) := ih hbatched' hrest
        _ = s.considered ++ (takenFrom config s now (a :: rest)).map
              (fun x => (x.1, State.minTs config x.2)) := by
            conv_lhs => rw [hconsidered]
            simp only [takenFrom, hu, List.map_append, List.map_map, List.append_assoc]
            rfl

theorem considered_eq_takenBy {actions : List Action}
    (hexec : (machine config).exec State.init actions = some s) :
    s.considered = (takenBy config actions).map fun x => (x.1, State.minTs config x.2) := by
  have hbatched : Batched config 0 State.init := fun minTs hbuilding => by cases hbuilding
  exact considered_exec actions hbatched hexec

/-! ## The statement -/

section

variable {actions : List Action} {values : List (Option BbAvroMetric)}

/-- The events are taken in the order of the queue. -/
theorem Exports.taken_eq (hexports : Exports config actions values s) :
    (takenBy config actions).map (fun x => x.1.value) = values := by
  have htaken := (ordered_of_reachable ⟨actions, hexports.run⟩).taken
  rw [hexports.taken, List.append_nil, considered_eq_takenBy hexports.run, List.map_map] at htaken
  rw [← hexports.given, ← htaken, List.map_map]
  rfl

/-- The requests hold what passes `min_ts`. -/
theorem Exports.requests_eq (hexports : Exports config actions values s) :
    s.requests.flatten.map Prod.snd = (takenBy config actions).filterMap
      fun x => x.1.series (State.minTs config x.2) := by
  have hsent := (ordered_of_reachable ⟨actions, hexports.run⟩).sent
  have hunfinished : s.unfinished = [] := by
    rcases hexports.finished with hphase | hphase <;> simp [State.unfinished, hphase]
  rw [hunfinished, List.append_nil, considered_eq_takenBy hexports.run, List.filterMap_map] at hsent
  rw [hsent, List.map_filterMap]
  refine List.filterMap_congr fun x _ => ?_
  simp only [Function.comp_apply, Event.item, Option.map_map]
  exact Option.map_id'

theorem Exports.requests_due_iff (hexports : Exports config actions values s) :
    s.requests.flatten.map Prod.snd = (takenBy config actions).filterMap
        (fun x => due config x.2 x.1) ↔
      ∀ x ∈ takenBy config actions, ∀ metrics ∈ x.1.value,
        sendable metrics.value = true → ¬ TooOld config x.2 metrics →
          Spared config x.2 metrics := by
  rw [hexports.requests_eq, Blocks.filterMap_eq_iff fun x _ => due_of_series]
  exact forall_congr' fun x => forall_congr' fun _ => series_eq_due_iff

end

/-- However the exporter is run until it has taken the events and finished its batches,
it takes them in the order of the queue; and its requests hold the series that are due,
in this order, exactly when every event with a value that can be sent is spared or too
old. -/
theorem exported_iff (config : Config) (hbatchSize : 1 ≤ config.batchSize)
    (values : List (Option BbAvroMetric)) :
    (∃ actions s, Exports config actions values s) ∧
      ∀ actions s, Exports config actions values s →
        (takenBy config actions).map (fun x => x.1.value) = values ∧
          (s.requests.flatten.map Prod.snd =
              (takenBy config actions).filterMap (fun x => due config x.2 x.1) ↔
            ∀ x ∈ takenBy config actions, ∀ metrics ∈ x.1.value,
              sendable metrics.value = true → ¬ TooOld config x.2 metrics →
                Spared config x.2 metrics) := by
  refine ⟨?_, fun actions s hexports => ⟨hexports.taken_eq, hexports.requests_due_iff⟩⟩
  obtain ⟨actions, s, -, hexports⟩ := exists_exports hbatchSize values
  exact ⟨actions, s, hexports⟩

/-- A metric from before the epoch. -/
def weirdMetric : BbAvroMetric where
  ns := []
  name := bytes "something_weird"
  labels := []
  value := .long 1
  timestamp := -3982045

/-- Without an age limit, one event in a batch. -/
def unlimited : Config where
  batchSize := 1
  maxExportedAge := 0

theorem weirdMetric_exported_iff :
    (∃ actions s, Exports unlimited actions [some weirdMetric] s) ∧
      ∀ actions s, Exports unlimited actions [some weirdMetric] s →
        (takenBy unlimited actions).map (fun x => x.1.value) = [some weirdMetric] ∧
          (s.requests.flatten.map Prod.snd =
              (takenBy unlimited actions).filterMap (fun x => due unlimited x.2 x.1) ↔
            ∀ x ∈ takenBy unlimited actions, ∀ metrics ∈ x.1.value,
              sendable metrics.value = true → ¬ TooOld unlimited x.2 metrics →
                Spared unlimited x.2 metrics) :=
  exported_iff unlimited (by decide) [some weirdMetric]

/-- It is dropped for its time. -/
theorem weirdMetric_not_exported :
    ¬ ∀ (config : Config) (values : List (Option BbAvroMetric)) (actions : List Action) (s : State),
      1 ≤ config.batchSize → 0 ≤ config.maxExportedAge → Exports config actions values s →
        s.requests.flatten.map Prod.snd =
          (takenBy config actions).filterMap fun x => due config x.2 x.1 := by
  intro hall
  obtain ⟨actions, s, -, hexports⟩ :=
    @exists_exports unlimited (by decide) [some weirdMetric]
  have hspared := hexports.requests_due_iff.mp
    (hall unlimited _ actions s (by decide) (by decide) hexports)
  have hmem : some weirdMetric ∈ (takenBy unlimited actions).map (fun x => x.1.value) := by
    rw [hexports.taken_eq]
    exact List.mem_singleton_self _
  obtain ⟨x, hx, hvalue⟩ := List.mem_map.mp hmem
  have hfresh : ¬ TooOld unlimited x.2 weirdMetric := fun hold => absurd hold.1 (by decide)
  have hlate := hspared x hx weirdMetric hvalue (by decide) hfresh
  rw [Spared, if_neg (by decide)] at hlate
  exact absurd hlate (by decide)

end BbMonitor.PrometheusSink
