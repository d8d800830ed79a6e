import BbMonitor.Lib.BinaryCodecs
import BbMonitor.AvroRecords

/-!
# The encoders and decoders of avro

The generated code calls the encoders and decoders of the avro library for everything that is
not a record.  They are a parameter: all that the results need is that each decoder reads what
its encoder writes.  `Avro.binary` is the binary format, as it is documented.

A decoder that resolves the schema of a writer tells in which order the fields of a record
come.  There is one order for each record that has a name; a plain decoder has none.
-/

namespace BbMonitor

/-- What `avro::Exception` says. -/
abbrev AvroException := String

structure Avro where
  string : Codec AvroException Bytes
  long : Codec AvroException Int64
  double : Codec AvroException Double
  null : Codec AvroException Unit
  -- `encodeUnionIndex` and `decodeUnionIndex`
  unionIndex : Codec AvroException UInt64
  -- `codec_traits<std::vector<T>>`, by the codec of `T`
  vector : {α : Type} → Codec AvroException α → Codec AvroException (List α)

namespace Avro

/-- The binary format. -/
def binary : Avro where
  string := Codec.text "EOF reached"
  long := Codec.int64 "EOF reached"
  double := Codec.bits64 "EOF reached"
  null := Codec.nothing
  unionIndex := (Codec.int64 "EOF reached").via UInt64.toInt64 Int64.toUInt64 fun _ => rfl
  vector := Codec.list "EOF reached"

end Avro

/-- The order in which the fields of a record with `n` fields come: all of them do. -/
structure FieldOrder (n : ℕ) where
  order : Option (List ℕ)
  covers : ∀ fo, order = some fo → ∀ i < n, i ∈ fo

/-- The order of a plain decoder. -/
def FieldOrder.plain (n : ℕ) : FieldOrder n where
  order := none
  covers := nofun

end BbMonitor
