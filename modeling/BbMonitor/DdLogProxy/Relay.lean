import BbMonitor.Avro.Transport
import BbMonitor.ClientUtils.ElasticsearchDocuments
import BbMonitor.DdLogProxy.AgentLines
import BbMonitor.DdLogProxy.Session
import BbMonitor.IngestionServer.ReplyCounts
import Mathlib.Data.List.ReduceOption

/-!
# From an agent to Elasticsearch

What an agent writes to a session comes out of the exporter as documents.  In between it is
bytes in reads of any size, log lines in the proxy, bundles of log lines on their way to the
ingestion server, records, and what avro makes of the records.

A document that is read again has the parts of its line as its members.  Only the time is that
of the proxy.
-/

namespace BbMonitor.DdLogProxy

open Avro Elasticsearch
open Ingestion (avroLogline putLogs2)

variable {md5Uuid : Bytes → Bytes} {s t : Session} {buffer : Buffer} {reads : List Read}

/-! ## What a session inserts -/

/-- The tags of the record: the source, the category, and the pairs of the line. -/
def AgentLine.labels (l : AgentLine) : List BbMonitor.Label :=
  [⟨bytes "ddsource", l.ddsource⟩, ⟨bytes "ddsourcecategory", l.ddsourceCategory⟩] ++
    l.tags.pairs.map fun t => ⟨t.key, t.val⟩

/-- The members of the document for a line that was handled at the time `now`. -/
def AgentLine.members (dateFromNanos : Int64 → Bytes) (now : Int64) (l : AgentLine) :
    List (Bytes × Bytes) :=
  let k8s := k8sOf l.labels
  [(bytes "timestamp", dateFromNanos now), (bytes "agent", bytes "datadog"),
    (bytes "host", l.host), (bytes "source", l.source), (bytes "line", l.logged)] ++
    (if k8s.1.length > 0 then [(bytes "k8s_ns", k8s.1)] else []) ++
    (if k8s.2.length > 0 then [(bytes "k8s_name", k8s.2)] else []) ++
    l.labels.map fun i => (i.key, i.value)

/-- The records that are pushed to kafka for bundles that arrive one after the other. -/
def records (bundles : List (List LogLine)) : List BbAvroLogline :=
  bundles.flatMap fun lines => (putLogs2 lines).pushed.map Prod.snd

theorem records_eq (bundles : List (List LogLine)) :
    records bundles = bundles.flatten.map avroLogline := by
  rw [records, List.map_flatten, List.flatMap_def]
  refine congrArg List.flatten (List.map_congr_left fun lines _ => ?_)
  rw [IngestionServer.putLogs2_eq, List.map_map]
  rfl

end BbMonitor.DdLogProxy
