import BbMonitor.Strings

/-!
# Messages

The messages of `bb_monitor_sink.proto` that metrics and intake data travel in.  A
field that was not set has its default value.
-/

namespace BbMonitor

/-- A `double`, by its bits in the format of IEEE 754. -/
abbrev Double := UInt64

structure Label where
  key : Bytes
  value : Bytes
deriving DecidableEq, Repr

structure LatLon where
  latitude : Double
  longitude : Double
deriving DecidableEq, Repr

/-- The `oneof` of a measurement. -/
inductive Measurement where
  | notSet
  | longValue (value : Int64)
  | doubleValue (value : Double)
  | latLonValue (value : LatLon)
deriving DecidableEq, Repr

structure Metric where
  ns : Bytes
  name : Bytes
  labels : List Label
  sample : Measurement
  timestamp : Int64
deriving DecidableEq, Repr

/-- A message of which no field was set. -/
def Metric.empty : Metric where
  ns := []
  name := []
  labels := []
  sample := .notSet
  timestamp := 0

/-- An item of an intake bundle. -/
structure Intake where
  agent : Bytes
  data : Bytes
  timestamp : Int64
deriving DecidableEq, Repr

end BbMonitor
