import BbMonitor.Avro.Codecs

/-!
# Records on their way through kafka

The ingestion server encodes a record and an exporter decodes it into a fresh one.  The topic
keeps the order, so the exporter is given the records as they were pushed.
-/

namespace BbMonitor.Avro

variable {σ : Type}

/-- What an exporter makes of a payload: a record, or nothing. -/
def received (record : RecordCodec AvroException σ) (order : Option (List ℕ)) (fresh : σ)
    (payload : Bytes) : Option σ :=
  match (record.decode order fresh).run payload with
  | .ok (value, _) => some value
  | .error _ => none

/-- The records as they come out of the topic. -/
def transmitted (record : RecordCodec AvroException σ) (order : Option (List ℕ)) (fresh : σ)
    (values : List σ) : List (Option σ) :=
  values.map fun value => received record order fresh (record.encodeInOrder order value)

theorem transmitted_eq {record : RecordCodec AvroException σ} {order : Option (List ℕ)}
    (hcovers : record.Covers order) (fresh : σ) (values : List σ) :
    transmitted record order fresh values = values.map some := by
  refine List.map_congr_left fun value _ => ?_
  have hreads := record.reads_of_covers hcovers value fresh []
  rw [List.append_nil] at hreads
  rw [received, hreads]

end BbMonitor.Avro
