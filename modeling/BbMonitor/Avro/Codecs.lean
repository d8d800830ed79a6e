import BbMonitor.Avro.Wire

/-!
# The generated codecs

`codec_traits` of the records in `bb_avro_metrics.h`, `bb_avro_logline.h` and
`dd_avro_intake.h`: what they write and read, and that they read what they write, from a
writer with another order of the fields as well.
-/

namespace BbMonitor.Avro

variable (avro : Avro)

/-! ## The records -/

/-- `bb_avro_metric_label_t`, and `bb_avro_logline_label_t`. -/
def label : RecordCodec AvroException Label where
  fields := [
    ⟨Label.key, fun key v => { v with key }, avro.string⟩,
    ⟨Label.value, fun value v => { v with value }, avro.string⟩]
  get_copy := by simp [Field.copy]
  independent := by simp [Field.copy]
  ext := by
    rintro ⟨⟩ ⟨⟩ heq
    simpa using heq

/-- `bb_avro_metric_pos_t`. -/
structure Pos where
  lat : Double
  lon : Double

def pos : RecordCodec AvroException Pos where
  fields := [
    ⟨Pos.lat, fun lat v => { v with lat }, avro.double⟩,
    ⟨Pos.lon, fun lon v => { v with lon }, avro.double⟩]
  get_copy := by simp [Field.copy]
  independent := by simp [Field.copy]
  ext := by
    rintro ⟨⟩ ⟨⟩ heq
    simpa using heq

/-- The codec of a label in a vector. -/
def labelCodec (order : FieldOrder 2) : Codec AvroException Label :=
  avro.label.codec order.order order.covers ⟨[], []⟩

def posCodec (order : FieldOrder 2) : Codec AvroException Pos :=
  avro.pos.codec order.order order.covers ⟨0, 0⟩

/-! ## The union -/

/-- `idx`. -/
def idx : BbAvroValue → UInt64
  | .null => 0
  | .long _ => 1
  | .double _ => 2
  | .pos _ _ => 3

/-- What is written behind the index. -/
def encodeBranch (order : FieldOrder 2) : BbAvroValue → Bytes
  | .null => avro.null.encode ()
  | .long v => avro.long.encode v
  | .double v => avro.double.encode v
  | .pos lat lon => (avro.posCodec order).encode ⟨lat, lon⟩

def encodeValue (order : FieldOrder 2) (v : BbAvroValue) : Bytes :=
  avro.unionIndex.encode (idx v) ++ avro.encodeBranch order v

/-- The branches of the `switch`. -/
def decodeBranch (order : FieldOrder 2) : ℕ → Decoder AvroException BbAvroValue
  | 0 => (fun _ => .null) <$> avro.null.decode
  | 1 => .long <$> avro.long.decode
  | 2 => .double <$> avro.double.decode
  | _ => (fun vv => .pos vv.lat vv.lon) <$> (avro.posCodec order).decode

def decodeValue (order : FieldOrder 2) : Decoder AvroException BbAvroValue := do
  let n ← avro.unionIndex.decode
  if n ≥ 4 then throw "Union index too big"
  else avro.decodeBranch order n.toNat

theorem reads_decodeBranch (order : FieldOrder 2) (v : BbAvroValue) :
    Reads (avro.decodeBranch order (idx v).toNat) (avro.encodeBranch order v) v := by
  cases v with
  | null => exact (avro.null.reads ()).map _
  | long v => exact (avro.long.reads v).map _
  | double v => exact (avro.double.reads v).map _
  | pos lat lon => exact ((avro.posCodec order).reads ⟨lat, lon⟩).map _

theorem idx_lt (v : BbAvroValue) : ¬ idx v ≥ 4 := by
  cases v with
  | null => exact (by decide : ¬ (0 : UInt64) ≥ 4)
  | long => exact (by decide : ¬ (1 : UInt64) ≥ 4)
  | double => exact (by decide : ¬ (2 : UInt64) ≥ 4)
  | pos => exact (by decide : ¬ (3 : UInt64) ≥ 4)

theorem reads_decodeValue (order : FieldOrder 2) (v : BbAvroValue) :
    Reads (avro.decodeValue order) (avro.encodeValue order v) v := by
  refine (avro.unionIndex.reads (idx v)).bind ?_
  rw [if_neg (idx_lt v)]
  exact avro.reads_decodeBranch order v

/-- Another index than those of the four types is not accepted. -/
theorem decodeValue_of_ge (order : FieldOrder 2) {n : UInt64} (hn : n ≥ 4) (rest : Bytes) :
    (avro.decodeValue order).run (avro.unionIndex.encode n ++ rest) =
      .error "Union index too big" := by
  rw [decodeValue, StateT.run_bind, avro.unionIndex.reads n rest]
  show ((if n ≥ 4 then throw _ else _ : Decoder AvroException BbAvroValue)).run rest = _
  rw [if_pos hn]
  rfl

def valueCodec (order : FieldOrder 2) : Codec AvroException BbAvroValue where
  encode := avro.encodeValue order
  decode := avro.decodeValue order
  reads := avro.reads_decodeValue order

/-! ## The messages -/

/-- What a decoder tells about the records in a metric. -/
structure MetricOrders where
  label : FieldOrder 2
  pos : FieldOrder 2

/-- `bb_avro_metric_t`. -/
def metric (orders : MetricOrders) : RecordCodec AvroException BbAvroMetric where
  fields := [
    ⟨BbAvroMetric.ns, fun ns v => { v with ns }, avro.string⟩,
    ⟨BbAvroMetric.name, fun name v => { v with name }, avro.string⟩,
    ⟨BbAvroMetric.labels, fun labels v => { v with labels },
      avro.vector (avro.labelCodec orders.label)⟩,
    ⟨BbAvroMetric.value, fun value v => { v with value }, avro.valueCodec orders.pos⟩,
    ⟨BbAvroMetric.timestamp, fun timestamp v => { v with timestamp }, avro.long⟩]
  get_copy := by simp [Field.copy]
  independent := by simp [Field.copy]
  ext := by
    rintro ⟨⟩ ⟨⟩ heq
    simpa using heq

/-- `bb_avro_logline`. -/
def logline (tag : FieldOrder 2) : RecordCodec AvroException BbAvroLogline where
  fields := [
    ⟨BbAvroLogline.id, fun id v => { v with id }, avro.string⟩,
    ⟨BbAvroLogline.agent, fun agent v => { v with agent }, avro.string⟩,
    ⟨BbAvroLogline.host, fun host v => { v with host }, avro.string⟩,
    ⟨BbAvroLogline.source, fun source v => { v with source }, avro.string⟩,
    ⟨BbAvroLogline.timestampNs, fun timestampNs v => { v with timestampNs }, avro.long⟩,
    ⟨BbAvroLogline.tags, fun tags v => { v with tags }, avro.vector (avro.labelCodec tag)⟩,
    ⟨BbAvroLogline.line, fun line v => { v with line }, avro.string⟩]
  get_copy := by simp [Field.copy]
  independent := by simp [Field.copy]
  ext := by
    rintro ⟨⟩ ⟨⟩ heq
    simp at heq ⊢
    tauto

/-- `dd_avro_intake_t`. -/
def intake : RecordCodec AvroException DdAvroIntake where
  fields := [
    ⟨DdAvroIntake.agent, fun agent v => { v with agent }, avro.string⟩,
    ⟨DdAvroIntake.data, fun data v => { v with data }, avro.string⟩,
    ⟨DdAvroIntake.timestamp, fun timestamp v => { v with timestamp }, avro.long⟩]
  get_copy := by simp [Field.copy]
  independent := by simp [Field.copy]
  ext := by
    rintro ⟨⟩ ⟨⟩ heq
    simpa using heq

/-! ## The statements -/

/-- What a writer writes is what a reader reads, whatever is in the record before and
whatever comes behind, and in whatever order the writer has the fields. -/
theorem decode_encode (orders : MetricOrders) (tag : FieldOrder 2) (metricOrder : FieldOrder 5)
    (loglineOrder : FieldOrder 7) (intakeOrder : FieldOrder 3) :
    (∀ v w rest, ((avro.metric orders).decode metricOrder.order v).run
        ((avro.metric orders).encodeInOrder metricOrder.order w ++ rest) = .ok (w, rest)) ∧
      (∀ v w rest, ((avro.logline tag).decode loglineOrder.order v).run
        ((avro.logline tag).encodeInOrder loglineOrder.order w ++ rest) = .ok (w, rest)) ∧
      ∀ v w rest, (avro.intake.decode intakeOrder.order v).run
        (avro.intake.encodeInOrder intakeOrder.order w ++ rest) = .ok (w, rest) := by
  refine ⟨fun v w => ?_, fun v w => ?_, fun v w => ?_⟩
  · exact (avro.metric orders).reads_of_covers metricOrder.covers w v
  · exact (avro.logline tag).reads_of_covers loglineOrder.covers w v
  · exact avro.intake.reads_of_covers intakeOrder.covers w v

/-- The fields that a writer does not have stay as they were. -/
theorem decode_fields (orders : MetricOrders) (tag : FieldOrder 2) (fo : List ℕ) :
    (∀ v w rest, ((avro.metric orders).decode (some fo) v).run
        ((avro.metric orders).encodeInOrder (some fo) w ++ rest) =
      .ok (⟨if 0 ∈ fo then w.ns else v.ns, if 1 ∈ fo then w.name else v.name,
        if 2 ∈ fo then w.labels else v.labels, if 3 ∈ fo then w.value else v.value,
        if 4 ∈ fo then w.timestamp else v.timestamp⟩, rest)) ∧
      (∀ v w rest, ((avro.logline tag).decode (some fo) v).run
        ((avro.logline tag).encodeInOrder (some fo) w ++ rest) =
      .ok (⟨if 0 ∈ fo then w.id else v.id, if 1 ∈ fo then w.agent else v.agent,
        if 2 ∈ fo then w.host else v.host, if 3 ∈ fo then w.source else v.source,
        if 5 ∈ fo then w.tags else v.tags, if 4 ∈ fo then w.timestampNs else v.timestampNs,
        if 6 ∈ fo then w.line else v.line⟩, rest)) ∧
      ∀ v w rest, (avro.intake.decode (some fo) v).run
        (avro.intake.encodeInOrder (some fo) w ++ rest) =
      .ok (⟨if 0 ∈ fo then w.agent else v.agent, if 1 ∈ fo then w.data else v.data,
        if 2 ∈ fo then w.timestamp else v.timestamp⟩, rest) := by
  refine ⟨fun v w rest => ?_, fun v w rest => ?_, fun v w rest => ?_⟩
  · obtain ⟨t, hreads, hfields⟩ := (avro.metric orders).reads_decode fo w v
    rw [hreads rest, ← hfields 0 _ rfl, ← hfields 1 _ rfl, ← hfields 2 _ rfl, ← hfields 3 _ rfl,
      ← hfields 4 _ rfl]
  · obtain ⟨t, hreads, hfields⟩ := (avro.logline tag).reads_decode fo w v
    rw [hreads rest, ← hfields 0 _ rfl, ← hfields 1 _ rfl, ← hfields 2 _ rfl, ← hfields 3 _ rfl,
      ← hfields 4 _ rfl, ← hfields 5 _ rfl, ← hfields 6 _ rfl]
  · obtain ⟨t, hreads, hfields⟩ := avro.intake.reads_decode fo w v
    rw [hreads rest, ← hfields 0 _ rfl, ← hfields 1 _ rfl, ← hfields 2 _ rfl]

end BbMonitor.Avro
