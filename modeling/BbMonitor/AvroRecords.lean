import BbMonitor.Messages

/-!
# Avro records

The records that travel through kafka: `bb_avro_metric_t`, `bb_avro_logline` and
`dd_avro_intake_t`.
-/

namespace BbMonitor

/-- The union of `bb_avro_metric_t`; a new one holds null. -/
inductive BbAvroValue where
  | null
  | long (v : Int64)
  | double (v : Double)
  | pos (lat lon : Double)
deriving DecidableEq, Repr

structure BbAvroMetric where
  ns : Bytes
  name : Bytes
  labels : List Label
  value : BbAvroValue
  timestamp : Int64
deriving DecidableEq, Repr

structure BbAvroLogline where
  id : Bytes
  agent : Bytes
  host : Bytes
  source : Bytes
  tags : List Label
  timestampNs : Int64
  line : Bytes
deriving DecidableEq, Repr

structure DdAvroIntake where
  agent : Bytes
  data : Bytes
  timestamp : Int64
deriving DecidableEq, Repr

end BbMonitor
