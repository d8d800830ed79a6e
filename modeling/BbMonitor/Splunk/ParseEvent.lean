import BbMonitor.DdLogProxy.HandleLine
import BbMonitor.Json

/-!
# The events of a Splunk batch

`parse_splunk_event` reads one document after the other until there is none.  Each that
has an event becomes a log line.

A `time` that is a string goes through `std::stod`, which throws if it is no number, and
then the clock takes its place.  The id of a line is a digest of its fields, written one
behind the other.

What rapidjson reads of a stream is a parameter, and so are the conversions of numbers.
-/

namespace BbMonitor.Splunk

open Json
open DdLogProxy (LogLine)

/-- Why the parser does not return. -/
inductive Failure where
  -- `std::stod` throws.
  | stod
  -- The loop goes on forever.
  | endless
deriving DecidableEq, Repr

structure Conversions where
  -- `std::stod`; it throws for what is no number, and for one that is out of range.
  stod : Bytes → Option Double
  -- `ts_d * 1000000` as an `int64_t`.
  microseconds : Double → Int64

/-- The members of a document, and those of its event. -/
abbrev Event := Members × Members

def event? (d : Value) : Option Event :=
  d.object?.bind fun members => (findObject members "event").map fun ev => (members, ev)

/-- A message of which no field was set. -/
def emptyLine : LogLine where
  id := []
  agent := []
  host := []
  source := []
  labels := []
  timestampNs := 0
  line := []

/-- A string member, or what was there before. -/
def textOr (members : Members) (name : String) (before : Bytes) : Bytes :=
  match findString members name with
  | some s => cString s
  | none => before

def tagLabel (ev : Members) : List DdLogProxy.Label :=
  match findString ev "tag" with
  | some s => [⟨bytes "tag", cString s⟩]
  | none => []

/-- The loop over `attrs`. -/
def attrLabels (ev : Members) : List DdLogProxy.Label :=
  match findObject ev "attrs" with
  | none => []
  | some dict => dict.filterMap fun i => i.2.string?.map fun s => ⟨cString i.1, cString s⟩

/-- The fields that come from the event. -/
def setEvent (ev : Members) (ll : LogLine) : LogLine :=
  let ll := { ll with line := textOr ev "line" ll.line }
  let ll := { ll with source := textOr ev "source" ll.source }
  let ll := { ll with labels := ll.labels ++ tagLabel ev }
  { ll with labels := ll.labels ++ attrLabels ev }

/-- The time; nothing if `stod` throws. -/
def setTime (conversions : Conversions) (now : Int64) (members : Members) (ll : LogLine) :
    Option LogLine :=
  match findMember members "time" with
  | none => some ll
  | some time =>
      let converted :=
        match time.string? with
        | some s =>
            (conversions.stod (cString s)).map fun tsD =>
              { ll with timestampNs := conversions.microseconds tsD * 1000 }
        | none => some { ll with timestampNs := now }
      converted.map fun ll => { ll with timestampNs := now }

/-- What the digest of a log line is computed from. -/
def digested (ll : LogLine) : Bytes :=
  ll.source ++ ll.host ++ ll.line ++ (ll.labels.flatMap fun label => label.key ++ label.value) ++
    littleEndian 8 ll.timestampNs.toUInt64.toNat

section

-- The text of the uuid that consists of the MD5 digest.
variable (md5Uuid : Bytes → Bytes) (conversions : Conversions)

/-- The fields behind the time. -/
def setRest (members : Members) (ll : LogLine) : LogLine :=
  let ll := { ll with host := textOr members "host" ll.host }
  let ll := { ll with agent := bytes "splunk" }
  { ll with id := md5Uuid (digested ll) }

/-- The log line of an event. -/
def logLine (now : Int64) (e : Event) : Option LogLine :=
  (setTime conversions now e.1 (setEvent e.2 emptyLine)).map (setRest md5Uuid e.1)

-- What `ParseStream` reads of a stream, and what is left of it.
variable (parse : Bytes → Option (Value × Bytes))
-- The clock when the line with this number is made.
variable (clock : ℕ → Int64)

/-- The round of the loop for a document with an event. -/
def addEvent (result : List LogLine) (e : Event) : Except Failure (List LogLine) :=
  match logLine md5Uuid conversions (clock result.length) e with
  | none => .error .stod
  | some ll => .ok (result ++ [ll])

/-- The loop of `parse_splunk_event`. -/
def documentsLoop : ℕ → Bytes → List LogLine → Except Failure (List LogLine)
  | 0, _, _ => .error .endless
  | rounds + 1, s, result =>
      match parse s with
      | none => .ok result
      | some (d, rest) =>
          match event? d with
          | none => documentsLoop rounds rest result
          | some e => do
              let result ← addEvent md5Uuid conversions clock result e
              documentsLoop rounds rest result

/-- `parse_splunk_event`. -/
def parseSplunkEvent (buffer : Bytes) : Except Failure (List LogLine) :=
  documentsLoop md5Uuid conversions parse clock ((cString buffer).length + 1) (cString buffer) []

end

/-! ## The documents of a stream -/

/-- The stream consists of these documents, and of what cannot be read. -/
inductive Documents (parse : Bytes → Option (Value × Bytes)) : Bytes → List Value → Prop
  | ended {s : Bytes} (hparse : parse s = none) : Documents parse s []
  | read {s rest : Bytes} {d : Value} {docs : List Value} (hparse : parse s = some (d, rest))
      (hmore : Documents parse rest docs) : Documents parse s (d :: docs)

/-- A document that is read is taken from the stream. -/
def Consumes (parse : Bytes → Option (Value × Bytes)) : Prop :=
  ∀ s d rest, parse s = some (d, rest) → rest.length < s.length

theorem exists_documents {parse : Bytes → Option (Value × Bytes)} (hconsumes : Consumes parse)
    (s : Bytes) : ∃ docs, Documents parse s docs := by
  induction hlength : s.length using Nat.strong_induction_on generalizing s with
  | _ length ih =>
      cases hparse : parse s with
      | none => exact ⟨[], .ended hparse⟩
      | some found =>
          obtain ⟨d, rest⟩ := found
          have hshorter : rest.length < length := hlength ▸ hconsumes s d rest hparse
          obtain ⟨docs, hdocs⟩ := ih rest.length hshorter rest rfl
          exact ⟨d :: docs, .read hparse hdocs⟩

/-- The events of the documents. -/
def events (docs : List Value) : List Event :=
  docs.filterMap event?

section

variable {md5Uuid : Bytes → Bytes} {conversions : Conversions}
  {parse : Bytes → Option (Value × Bytes)} {clock : ℕ → Int64}

/-- The loop ends, and has gone through the events. -/
theorem documentsLoop_eq (hconsumes : Consumes parse) {s : Bytes} {docs : List Value}
    (hdocs : Documents parse s docs) {rounds : ℕ} (hrounds : s.length < rounds)
    (result : List LogLine) :
    documentsLoop md5Uuid conversions parse clock rounds s result =
      (events docs).foldlM (addEvent md5Uuid conversions clock) result := by
  induction hdocs generalizing rounds result with
  | ended hparse =>
      obtain ⟨rounds, rfl⟩ := Nat.exists_eq_add_of_lt hrounds
      simp only [documentsLoop, hparse]
      rfl
  | @read s rest d docs hparse hmore ih =>
      obtain ⟨left, rfl⟩ := Nat.exists_eq_add_of_lt hrounds
      have hshorter : rest.length < s.length + left := by
        have hlt := hconsumes _ _ _ hparse
        omega
      simp only [documentsLoop, hparse]
      cases hevent : event? d with
      | none =>
          have hevents : events (d :: docs) = events docs := List.filterMap_cons_none hevent
          rw [hevents]
          exact ih hshorter result
      | some e =>
          have hevents : events (d :: docs) = e :: events docs := List.filterMap_cons_some hevent
          rw [hevents, List.foldlM_cons]
          refine bind_congr fun more => ?_
          exact ih hshorter more

end

end BbMonitor.Splunk
