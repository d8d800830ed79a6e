import BbMonitor.ClientUtils.JsonParsing

/-!
# The series of an agent, for kafka

`parse_datadog_series2avro` is a copy of `parse_datadog_series2pb` that fills a record
instead of a message, member by member.  The two are in step: the message says what the
record says in front of the loop over the points (`asMetric_seriesRecord`) and behind
every point (`addPoint_asMetrics`), so that they return the same metrics.
-/

namespace BbMonitor.Datadog

open Json

/-! ## The parser -/

/-- The namespace and the name: the dots of the name are replaced behind both branches. -/
def setRecordName (m : BbAvroMetric) (rawName : Bytes) : BbAvroMetric :=
  let m :=
    match findFirstOf rawName [dot] 0 with
    | some separatorPos =>
        { m with ns := rawName.take separatorPos, name := rawName.drop (separatorPos + 1) }
    | none => { m with ns := bytes "undef", name := rawName }
  { m with name := replaceAll dot m.name }

/-- `m.labels.push_back(label)`. -/
def pushLabel (m : BbAvroMetric) (label : Label) : BbAvroMetric :=
  { m with labels := m.labels ++ [label] }

/-- A round of the loop over `tags`. -/
def addRecordTag (m : BbAvroMetric) (t : Value) : BbAvroMetric :=
  match t.string? with
  | none => m
  | some s =>
      let s := cString s
      match findFirstOf s [colon] 0 with
      | none => m
      | some separatorPos =>
          pushLabel m
            { key := replaceAll space (s.take separatorPos)
              value := replaceAll space (s.drop (separatorPos + 1)) }

def addRecordTags (m : BbAvroMetric) (members : Members) : BbAvroMetric :=
  match findArray members "tags" with
  | none => m
  | some tags => tags.foldl addRecordTag m

def addRecordString (m : BbAvroMetric) (members : Members) (name key : String) : BbAvroMetric :=
  match findString members name with
  | none => m
  | some s => pushLabel m ⟨bytes key, cString s⟩

def addRecordInterval (m : BbAvroMetric) (members : Members) : BbAvroMetric :=
  match findInt members "interval" with
  | none => m
  | some interval => pushLabel m ⟨bytes "dd_interval", bytes (toString interval)⟩

/-- The record `m` in front of the loop over the points. -/
def seriesRecord (members : Members) (rawName : Bytes) : BbAvroMetric :=
  let m := setRecordName ⟨[], [], [], .null, 0⟩ rawName
  let m := addRecordTags m members
  let m := addRecordString m members "host" "dd_host"
  let m := addRecordString m members "type" "dd_type"
  let m := addRecordInterval m members
  addRecordString m members "device" "dd_device"

/-- What the second element of a point sets in a record, if it sets anything. -/
def recorded (v : Value) : Option BbAvroValue :=
  match v with
  | .double x => some (.double x)
  | v =>
      match v.int? with
      | some n => some (.long (Int64.ofInt n))
      | none => v.int64?.map fun n => .long (Int64.ofInt n)

/-- What a point of two elements does to the record. -/
def setRecordPoint (m : BbAvroMetric) (time value : Value) : BbAvroMetric :=
  let m :=
    match time.int? with
    | some seconds => { m with timestamp := Int64.ofInt (seconds * 1000) }
    | none => m
  match recorded value with
  | some value => { m with value }
  | none => m

/-- A round of the loop over the points: the record and the result. -/
def addRecordPoint (state : BbAvroMetric × List BbAvroMetric) (pa : Value) :
    BbAvroMetric × List BbAvroMetric :=
  match pa with
  | .array [time, value] =>
      let m := setRecordPoint state.1 time value
      (m, state.2 ++ [m])
  | _ => state

/-- What is added for an element of `series`. -/
def seriesRecords (s : Value) : List BbAvroMetric :=
  match s.object? with
  | none => []
  | some members =>
      match findString members "metric" with
      | none => []
      | some rawName =>
          match findArray members "points" with
          | none => []
          | some points =>
              (points.foldl addRecordPoint (seriesRecord members (cString rawName), [])).2

/-- `parse_datadog_series2avro`. -/
def parseDatadogSeries2avro (parse : Bytes → Option Value) (buffer : Bytes) :
    Option (List BbAvroMetric) :=
  match parse (cString buffer) with
  | none => some []
  | some d =>
      d.object?.map fun members =>
        match findArray members "series" with
        | none => []
        | some serie => serie.flatMap seriesRecords

/-! ## The two parsers in step -/

/-- The measurement that has the value of a record. -/
def asMeasurement : BbAvroValue → Measurement
  | .null => .notSet
  | .long v => .longValue v
  | .double v => .doubleValue v
  | .pos lat lon => .latLonValue ⟨lat, lon⟩

/-- The message that says what the record says. -/
def asMetric (m : BbAvroMetric) : Metric where
  ns := m.ns
  name := m.name
  labels := m.labels
  sample := asMeasurement m.value
  timestamp := m.timestamp

/-! ### In front of the points -/

theorem setRecordName_eq (m : BbAvroMetric) (rawName : Bytes) :
    setRecordName m rawName =
      { m with ns := (splitName rawName).1, name := (splitName rawName).2 } := by
  unfold setRecordName splitName
  cases findFirstOf rawName [dot] 0 with
  | none => rfl
  | some separatorPos => rfl

theorem addRecordTag_eq (m : BbAvroMetric) (t : Value) :
    addRecordTag m t =
      { m with labels :=
          m.labels ++ (t.string?.bind fun s => tagLabel (cString s)).toList } := by
  unfold addRecordTag tagLabel
  cases t.string? with
  | none => simp
  | some s =>
      cases hcolon : findFirstOf (cString s) [colon] 0 with
      | none => simp [hcolon]
      | some separatorPos => simp [hcolon, pushLabel]

/-- The loop over `tags` puts the labels of the tags behind those that are there. -/
theorem foldl_addRecordTag (tags : List Value) (m : BbAvroMetric) :
    tags.foldl addRecordTag m =
      { m with labels :=
          m.labels ++ tags.filterMap fun t => t.string?.bind fun s => tagLabel (cString s) } := by
  induction tags generalizing m with
  | nil => simp
  | cons t rest ih =>
      rw [List.foldl_cons, ih, addRecordTag_eq, List.filterMap_cons]
      cases t.string?.bind fun s => tagLabel (cString s) with
      | none => simp
      | some label => simp

theorem addRecordTags_eq (m : BbAvroMetric) (members : Members) :
    addRecordTags m members = { m with labels := m.labels ++ tagLabels members } := by
  unfold addRecordTags tagLabels
  cases findArray members "tags" with
  | none => simp
  | some tags => exact foldl_addRecordTag tags m

theorem addRecordString_eq (m : BbAvroMetric) (members : Members) (name key : String) :
    addRecordString m members name key =
      { m with labels := m.labels ++ stringLabel members name key } := by
  unfold addRecordString stringLabel
  cases findString members name with
  | none => simp
  | some s => rfl

theorem addRecordInterval_eq (m : BbAvroMetric) (members : Members) :
    addRecordInterval m members = { m with labels := m.labels ++ intervalLabel members } := by
  unfold addRecordInterval intervalLabel
  cases findInt members "interval" with
  | none => simp
  | some interval => rfl

/-- In front of the loops over the points, the message says what the record says. -/
theorem asMetric_seriesRecord (members : Members) (rawName : Bytes) :
    asMetric (seriesRecord members rawName) = seriesMetric members rawName := by
  simp only [seriesRecord, setRecordName_eq, addRecordTags_eq, addRecordString_eq,
    addRecordInterval_eq, List.nil_append]
  rfl

/-! ### Point by point -/

theorem measured_eq (v : Value) : measured v = (recorded v).map asMeasurement := by
  cases v with
  | integer n =>
      simp only [measured, recorded]
      cases (Value.integer n).int? with
      | none =>
          rw [Option.map_map]
          rfl
      | some _ => rfl
  | _ => rfl

theorem setPoint_asMetric (m : BbAvroMetric) (time value : Value) :
    setPoint (asMetric m) time value = asMetric (setRecordPoint m time value) := by
  unfold setPoint setRecordPoint
  rw [measured_eq]
  cases time.int? with
  | none => cases recorded value <;> rfl
  | some seconds => cases recorded value <;> rfl

/-- What the two loops have come to. -/
def asMetrics (state : BbAvroMetric × List BbAvroMetric) : Metric × List Metric :=
  (asMetric state.1, state.2.map asMetric)

/-- A round of the loops keeps them in step. -/
theorem addPoint_asMetrics (state : BbAvroMetric × List BbAvroMetric) (pa : Value) :
    addPoint (asMetrics state) pa = asMetrics (addRecordPoint state pa) := by
  cases pa with
  | array elements =>
      match elements with
      | [time, value] =>
          simp only [addPoint, addRecordPoint, asMetrics, setPoint_asMetric, List.map_append,
            List.map_singleton]
      | [] => rfl
      | [_] => rfl
      | _ :: _ :: _ :: _ => rfl
  | _ => rfl

theorem foldl_addPoint_asMetrics (points : List Value)
    (state : BbAvroMetric × List BbAvroMetric) :
    points.foldl addPoint (asMetrics state) = asMetrics (points.foldl addRecordPoint state) := by
  induction points generalizing state with
  | nil => rfl
  | cons pa rest ih => rw [List.foldl_cons, List.foldl_cons, addPoint_asMetrics, ih]

theorem seriesMetrics_eq_map (s : Value) : seriesMetrics s = (seriesRecords s).map asMetric := by
  unfold seriesMetrics seriesRecords
  cases s.object? with
  | none => rfl
  | some members =>
      cases hmetric : findString members "metric" with
      | none => simp only [hmetric, List.map_nil]
      | some rawName =>
          cases hpoints : findArray members "points" with
          | none => simp only [hmetric, hpoints, List.map_nil]
          | some points =>
              simp only [hmetric, hpoints]
              have hloops := foldl_addPoint_asMetrics points
                (seriesRecord members (cString rawName), [])
              rw [asMetrics, asMetric_seriesRecord, List.map_nil] at hloops
              exact congrArg Prod.snd hloops

/-- The parsers return the same metrics, as messages and as records. -/
theorem series_parsers_agree (parse : Bytes → Option Value) (buffer : Bytes) :
    parseDatadogSeries2pb parse buffer =
      (parseDatadogSeries2avro parse buffer).map fun records => records.map asMetric := by
  unfold parseDatadogSeries2pb parseDatadogSeries2avro
  cases parse (cString buffer) with
  | none => rfl
  | some d =>
      simp only [Option.map_map]
      refine congrArg (fun f => d.object?.map f) (funext fun members => ?_)
      rw [Function.comp_apply]
      cases findArray members "series" with
      | none => rfl
      | some serie => simp only [List.map_flatMap, ← seriesMetrics_eq_map]

end BbMonitor.Datadog
