import BbMonitor.Messages

/-!
# The remote-write messages of Prometheus

The part of `remote.proto` and `types.proto` that a write request consists of.
-/

namespace BbMonitor.Prompb

structure Label where
  name : Bytes
  value : Bytes
deriving DecidableEq, Repr

structure Sample where
  value : Double
  timestamp : Int64
deriving DecidableEq, Repr

structure TimeSeries where
  labels : List Label
  samples : List Sample
deriving DecidableEq, Repr

structure WriteRequest where
  timeseries : List TimeSeries
deriving DecidableEq, Repr

/-- `"__name__"`, the label that carries the name of the metric. -/
def nameLabel : Bytes := bytes "__name__"

end BbMonitor.Prompb
