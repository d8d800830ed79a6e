import BbMonitor.AvroRecords
import BbMonitor.Json

/-!
# The documents of a datadog agent

`parse_datadog_series2pb` makes metrics of the points of the series in a document, and
`parse_datadog_check_run2pb` of the checks in one; `parse_datadog_check_run2avro` is to
make the same of the checks for kafka.  Whatever has not the expected type is passed by.

One message serves all points of a series.  Its time and its sample are overwritten only
if the elements of a point are of the right type, and are otherwise those of the point
before.

What rapidjson makes of a text is a parameter.
-/

namespace BbMonitor.Datadog

open Json

/-- `'.'`. -/
def dot : UInt8 := 0x2e

/-- `':'`. -/
def colon : UInt8 := 0x3a

/-- `'_'`. -/
def underscore : UInt8 := 0x5f

/-- `std::replace` over a whole string, with an underscore. -/
def replaceAll (c : UInt8) (s : Bytes) : Bytes :=
  s.map fun x => if x = c then underscore else x

/-! ## Tags -/

/-- The label of a tag that was read from the document. -/
def tagLabel (s : Bytes) : Option Label :=
  match findFirstOf s [colon] 0 with
  | none => none
  | some separatorPos =>
      some
        { key := replaceAll space (s.take separatorPos)
          value := replaceAll space (s.drop (separatorPos + 1)) }

/-- The loop over `tags`. -/
def tagLabels (members : Members) : List Label :=
  match findArray members "tags" with
  | none => []
  | some tags => tags.filterMap fun t => t.string?.bind fun s => tagLabel (cString s)

/-- A label with a string of the document. -/
def stringLabel (members : Members) (name key : String) : List Label :=
  match findString members name with
  | none => []
  | some s => [⟨bytes key, cString s⟩]

/-! ## Series -/

/-- The namespace and the name of a metric. -/
def splitName (rawName : Bytes) : Bytes × Bytes :=
  match findFirstOf rawName [dot] 0 with
  | some separatorPos =>
      (rawName.take separatorPos, replaceAll dot (rawName.drop (separatorPos + 1)))
  | none => (bytes "undef", replaceAll dot rawName)

def intervalLabel (members : Members) : List Label :=
  match findInt members "interval" with
  | none => []
  | some interval => [⟨bytes "dd_interval", bytes (toString interval)⟩]

/-- The labels of all metrics of a series. -/
def seriesLabels (members : Members) : List Label :=
  tagLabels members ++ stringLabel members "host" "dd_host" ++
    stringLabel members "type" "dd_type" ++ intervalLabel members ++
    stringLabel members "device" "dd_device"

/-- The message `m` in front of the loop over the points. -/
def seriesMetric (members : Members) (rawName : Bytes) : Metric :=
  { Metric.empty with
    ns := (splitName rawName).1
    name := (splitName rawName).2
    labels := seriesLabels members }

/-- What the second element of a point sets, if it sets anything. -/
def measured (v : Value) : Option Measurement :=
  match v with
  | .double x => some (.doubleValue x)
  | v =>
      match v.int? with
      | some n => some (.longValue (Int64.ofInt n))
      | none => v.int64?.map fun n => .longValue (Int64.ofInt n)

/-- What a point of two elements does to the message. -/
def setPoint (m : Metric) (time value : Value) : Metric :=
  let m :=
    match time.int? with
    | some seconds => { m with timestamp := Int64.ofInt (seconds * 1000) }
    | none => m
  match measured value with
  | some sample => { m with sample }
  | none => m

/-- A round of the loop over the points: the message and the result. -/
def addPoint (state : Metric × List Metric) (pa : Value) : Metric × List Metric :=
  match pa with
  | .array [time, value] =>
      let m := setPoint state.1 time value
      (m, state.2 ++ [m])
  | _ => state

/-- What is added for an element of `series`. -/
def seriesMetrics (s : Value) : List Metric :=
  match s.object? with
  | none => []
  | some members =>
      match findString members "metric" with
      | none => []
      | some rawName =>
          match findArray members "points" with
          | none => []
          | some points =>
              (points.foldl addPoint (seriesMetric members (cString rawName), [])).2

section

variable (parse : Bytes → Option Value)

/-- `parse_datadog_series2pb`.  `HasMember` is defined for objects only. -/
def parseDatadogSeries2pb (buffer : Bytes) : Option (List Metric) :=
  match parse (cString buffer) with
  | none => some []
  | some d =>
      d.object?.map fun members =>
        match findArray members "series" with
        | none => []
        | some serie => serie.flatMap seriesMetrics

end

/-! ## Check runs -/

/-- The labels of a check. -/
def checkLabels (members : Members) : List Label :=
  stringLabel members "host_name" "dd_host_name" ++ tagLabels members

/-- `IsInt()`, as a number. -/
def isInt (v : Value) : Int64 := if v.int?.isSome then 1 else 0

/-- The message for a check, by its name; `now` is the clock. -/
def checkMetric (now : Int64) (members : Members) (check : Bytes) : Metric where
  ns := []
  name := cString check
  labels := checkLabels members
  sample :=
    match findInt members "status" with
    | some status => .longValue (Int64.ofInt status)
    | none => .notSet
  timestamp :=
    match (findMember members "timestamp").filter fun v => v.int?.isSome with
    | some v => isInt v * 1000
    | none => now

/-- The check of an element, with its name. -/
def check? (c : Value) : Option (Members × Bytes) :=
  c.object?.bind fun members => (findString members "check").map fun check => (members, check)

/-- A round of the loop over the checks. -/
def addCheck (clock : ℕ → Int64) (result : List Metric) (c : Value) : List Metric :=
  match check? c with
  | none => result
  | some (members, check) => result ++ [checkMetric (clock result.length) members check]

/-- The record for a check. -/
def checkRecord (members : Members) (check : Bytes) : BbAvroMetric where
  ns := []
  name := cString check
  labels := checkLabels members
  value :=
    match (findMember members "status").filter fun v => v.int?.isSome with
    | some v => .long (isInt v)
    | none => .null
  timestamp :=
    match (findMember members "timestamp").filter fun v => v.int?.isSome with
    | some v => isInt v
    | none => 0

/-- A round of the loop over the checks for kafka: the record is not put into the
result. -/
def addCheckRecord (result : List BbAvroMetric) (c : Value) : List BbAvroMetric :=
  match check? c with
  | none => result
  | some (members, check) =>
      let _m := checkRecord members check
      result

section

variable (parse : Bytes → Option Value)

/-- `parse_datadog_check_run2pb`, with the readings of the clock. -/
def parseDatadogCheckRun2pb (clock : ℕ → Int64) (buffer : Bytes) : List Metric :=
  match (parse (cString buffer)).bind Value.array? with
  | none => []
  | some checks => checks.foldl (addCheck clock) []

/-- `parse_datadog_check_run2avro`. -/
def parseDatadogCheckRun2avro (buffer : Bytes) : List BbAvroMetric :=
  match (parse (cString buffer)).bind Value.array? with
  | none => []
  | some checks => checks.foldl addCheckRecord []

end

end BbMonitor.Datadog
