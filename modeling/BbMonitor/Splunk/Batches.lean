import BbMonitor.Lib.Numbered
import BbMonitor.Splunk.ParseEvent

/-!
# Batches, event by event

`eventLine` is what becomes of one event: nothing if its time is a string that is no
number, and otherwise a line with the fields of the event, and with the clock as its time
if it has one.  The lines of a batch are these lines, one after the other; but an event
that gives nothing ends the batch, and all its lines are lost (`parse_of_readable`,
`parse_of_not_readable`).
-/

namespace BbMonitor.Splunk

open Json
open DdLogProxy (LogLine)

/-! ## One event -/

/-- `std::stod` returns, if it is called. -/
def Readable (conversions : Conversions) (e : Event) : Prop :=
  ∀ t, findString e.1 "time" = some t → (conversions.stod (cString t)).isSome

/-- The labels of a line: the tag first. -/
def eventLabels (ev : Members) : List DdLogProxy.Label :=
  tagLabel ev ++ attrLabels ev

/-- The line of an event whose time is readable. -/
def eventLine (md5Uuid : Bytes → Bytes) (now : Int64) (e : Event) : LogLine :=
  let ll : LogLine :=
    { id := []
      agent := bytes "splunk"
      host := textOr e.1 "host" []
      source := textOr e.2 "source" []
      labels := eventLabels e.2
      timestampNs := if (findMember e.1 "time").isSome then now else 0
      line := textOr e.2 "line" [] }
  { ll with id := md5Uuid (digested ll) }

variable {md5Uuid : Bytes → Bytes} {conversions : Conversions}

theorem setTime_of_readable {members ev : Members} (hreadable : Readable conversions (members, ev))
    (now : Int64) {ll : LogLine} (hts : ll.timestampNs = 0) :
    setTime conversions now members ll =
      some { ll with
        timestampNs := if (findMember members "time").isSome then now else 0 } := by
  unfold Readable findString at hreadable
  unfold setTime
  cases htime : findMember members "time" with
  | none => simp [← hts]
  | some time =>
      cases hstring : time.string? with
      | none => simp [hstring]
      | some t =>
          have hsome := hreadable t (by simp [htime, hstring])
          obtain ⟨tsD, hstod⟩ := Option.isSome_iff_exists.mp hsome
          simp [hstring, hstod]

theorem setTime_of_not_readable {members ev : Members}
    (hnot : ¬ Readable conversions (members, ev)) (now : Int64) (ll : LogLine) :
    setTime conversions now members ll = none := by
  obtain ⟨t, hnot⟩ := not_forall.mp hnot
  obtain ⟨hfound, hstod⟩ := Classical.not_imp.mp hnot
  obtain ⟨time, htime, hstring⟩ := Option.bind_eq_some_iff.mp hfound
  rw [Option.not_isSome_iff_eq_none] at hstod
  simp [setTime, htime, hstring, hstod]

theorem logLine_of_readable {e : Event} (hreadable : Readable conversions e) (now : Int64) :
    logLine md5Uuid conversions now e = some (eventLine md5Uuid now e) := by
  rw [logLine, setTime_of_readable hreadable now rfl]
  rfl

theorem logLine_of_not_readable {e : Event} (hnot : ¬ Readable conversions e) (now : Int64) :
    logLine md5Uuid conversions now e = none := by
  rw [logLine, setTime_of_not_readable hnot now, Option.map_none]

/-! ## All events -/

theorem foldlM_addEvent {clock : ℕ → Int64} {evs : List Event}
    (hreadable : ∀ e ∈ evs, Readable conversions e) (result : List LogLine) :
    evs.foldlM (addEvent md5Uuid conversions clock) result =
      .ok (result ++ evs.mapIdx fun i e => eventLine md5Uuid (clock (result.length + i)) e) := by
  have hadd : ∀ e ∈ evs, ∀ result, addEvent md5Uuid conversions clock result e =
      pure (result ++ ((some e).map (eventLine md5Uuid (clock result.length))).toList) := by
    intro e he result
    rw [addEvent, logLine_of_readable (hreadable e he)]
    rfl
  have hfold :=
    Numbered.foldlM_eq_mapIdx some (fun i e => eventLine md5Uuid (clock i) e) hadd result
  rw [List.filterMap_some] at hfold
  exact hfold

theorem foldlM_addEvent_of_not_readable {clock : ℕ → Int64} {evs : List Event}
    (hnot : ¬ ∀ e ∈ evs, Readable conversions e) (result : List LogLine) :
    evs.foldlM (addEvent md5Uuid conversions clock) result = .error .stod := by
  induction evs generalizing result with
  | nil => simp at hnot
  | cons e rest ih =>
      rw [List.foldlM_cons, addEvent]
      by_cases he : Readable conversions e
      · rw [logLine_of_readable he]
        refine ih (fun hrest => hnot ?_) _
        exact List.forall_mem_cons.mpr ⟨he, hrest⟩
      · rw [logLine_of_not_readable he]
        rfl

section

variable {parse : Bytes → Option (Value × Bytes)} {clock : ℕ → Int64} {body : Bytes}
  {docs : List Value}

theorem parse_of_readable (hconsumes : Consumes parse) (hdocs : Documents parse (cString body) docs)
    (hreadable : ∀ e ∈ events docs, Readable conversions e) :
    parseSplunkEvent md5Uuid conversions parse clock body =
      .ok ((events docs).mapIdx fun i e => eventLine md5Uuid (clock i) e) := by
  calc parseSplunkEvent md5Uuid conversions parse clock body
      = (events docs).foldlM (addEvent md5Uuid conversions clock) [] :=
        documentsLoop_eq hconsumes hdocs (Nat.lt_succ_self _) []
    _ = .ok ([] ++ (events docs).mapIdx fun i e => eventLine md5Uuid (clock (0 + i)) e) :=
        foldlM_addEvent hreadable []
    _ = .ok ((events docs).mapIdx fun i e => eventLine md5Uuid (clock i) e) := by
        simp only [List.nil_append, Nat.zero_add]

theorem parse_of_not_readable (hconsumes : Consumes parse)
    (hdocs : Documents parse (cString body) docs)
    (hnot : ¬ ∀ e ∈ events docs, Readable conversions e) :
    parseSplunkEvent md5Uuid conversions parse clock body = .error .stod := by
  calc parseSplunkEvent md5Uuid conversions parse clock body
      = (events docs).foldlM (addEvent md5Uuid conversions clock) [] :=
        documentsLoop_eq hconsumes hdocs (Nat.lt_succ_self _) []
    _ = .error .stod := foldlM_addEvent_of_not_readable hnot []

/-- Whatever the body, the loop comes to an end. -/
theorem parse_ne_endless (hconsumes : Consumes parse) (body : Bytes) :
    parseSplunkEvent md5Uuid conversions parse clock body ≠ .error .endless := by
  obtain ⟨docs, hdocs⟩ := exists_documents hconsumes (cString body)
  by_cases hreadable : ∀ e ∈ events docs, Readable conversions e
  · rw [parse_of_readable hconsumes hdocs hreadable]
    simp
  · rw [parse_of_not_readable hconsumes hdocs hreadable]
    simp

end

/-! ## What is due -/

/-- A string member as it is in the document. -/
def dueText (members : Members) (name : String) : Bytes :=
  (findString members name).getD []

/-- The string tag first, then the attributes that are strings. -/
def dueLabels (ev : Members) : List DdLogProxy.Label :=
  ((findString ev "tag").map fun s => ⟨bytes "tag", s⟩).toList ++
    ((findObject ev "attrs").getD []).filterMap fun i => i.2.string?.map fun s => ⟨i.1, s⟩

/-- The line has the fields of the event. -/
structure LineOf (e : Event) (ll : LogLine) : Prop where
  line : ll.line = dueText e.2 "line"
  source : ll.source = dueText e.2 "source"
  host : ll.host = dueText e.1 "host"
  labels : ll.labels = dueLabels e.2

/-- No string of the event is cut off. -/
structure NulFree (e : Event) : Prop where
  line : 0 ∉ dueText e.2 "line"
  source : 0 ∉ dueText e.2 "source"
  host : 0 ∉ dueText e.1 "host"
  labels : ∀ label ∈ dueLabels e.2, 0 ∉ label.key ∧ 0 ∉ label.value

theorem textOr_eq (members : Members) (name : String) :
    textOr members name [] = cString (dueText members name) := by
  unfold textOr dueText
  cases findString members name <;> rfl

theorem textOr_eq_dueText_iff (members : Members) (name : String) :
    textOr members name [] = dueText members name ↔ 0 ∉ dueText members name := by
  rw [textOr_eq, cString_eq_self_iff]

theorem eventLabels_eq (ev : Members) :
    eventLabels ev =
      (dueLabels ev).map fun label => ⟨cString label.key, cString label.value⟩ := by
  have hkey : cString (bytes "tag") = bytes "tag" := cString_eq_self (by decide)
  have htag : tagLabel ev =
      (((findString ev "tag").map fun s => (⟨bytes "tag", s⟩ : DdLogProxy.Label)).toList).map
        fun label => ⟨cString label.key, cString label.value⟩ := by
    unfold tagLabel
    cases findString ev "tag" with
    | none => rfl
    | some s => simp [hkey]
  have hattrs : attrLabels ev =
      (((findObject ev "attrs").getD []).filterMap fun i =>
        i.2.string?.map fun s => (⟨i.1, s⟩ : DdLogProxy.Label)).map
          fun label => ⟨cString label.key, cString label.value⟩ := by
    unfold attrLabels
    cases findObject ev "attrs" with
    | none => rfl
    | some dict =>
        rw [Option.getD_some, List.map_filterMap]
        refine List.filterMap_congr fun i _ => ?_
        rw [Option.map_map]
        rfl
  rw [eventLabels, dueLabels, List.map_append, htag, hattrs]

theorem eventLabels_eq_dueLabels_iff (ev : Members) :
    eventLabels ev = dueLabels ev ↔ ∀ label ∈ dueLabels ev, 0 ∉ label.key ∧ 0 ∉ label.value := by
  have hid : (dueLabels ev).map id = dueLabels ev := List.map_id _
  rw [eventLabels_eq]
  conv_lhs => rhs; rw [← hid]
  rw [List.map_inj_left]
  refine forall_congr' fun label => forall_congr' fun _ => ?_
  rw [← cString_eq_self_iff, ← cString_eq_self_iff]
  obtain ⟨key, value⟩ := label
  simp

theorem lineOf_eventLine_iff (now : Int64) (e : Event) :
    LineOf e (eventLine md5Uuid now e) ↔ NulFree e := by
  constructor
  · intro hline
    exact
      { line := (textOr_eq_dueText_iff _ _).mp hline.line
        source := (textOr_eq_dueText_iff _ _).mp hline.source
        host := (textOr_eq_dueText_iff _ _).mp hline.host
        labels := (eventLabels_eq_dueLabels_iff _).mp hline.labels }
  · intro hfree
    exact
      { line := (textOr_eq_dueText_iff _ _).mpr hfree.line
        source := (textOr_eq_dueText_iff _ _).mpr hfree.source
        host := (textOr_eq_dueText_iff _ _).mpr hfree.host
        labels := (eventLabels_eq_dueLabels_iff _).mpr hfree.labels }

/-- A batch gives a line for each of its events, in order and with the fields of the
event alone, exactly when every time is readable and no string is cut off. -/
theorem event_by_event_iff (md5Uuid : Bytes → Bytes) (conversions : Conversions)
    (parse : Bytes → Option (Value × Bytes)) (clock : ℕ → Int64) (hconsumes : Consumes parse)
    (body : Bytes) (docs : List Value) (hdocs : Documents parse (cString body) docs) :
    (∃ result, parseSplunkEvent md5Uuid conversions parse clock body = .ok result ∧
        List.Forall₂ LineOf (events docs) result) ↔
      ∀ e ∈ events docs, Readable conversions e ∧ NulFree e := by
  constructor
  · rintro ⟨result, hresult, hlines⟩
    by_cases hreadable : ∀ e ∈ events docs, Readable conversions e
    · rw [parse_of_readable hconsumes hdocs hreadable, Except.ok.injEq] at hresult
      rw [← hresult, Numbered.forall₂_mapIdx_iff] at hlines
      rw [List.forall_mem_iff_forall_getElem] at hreadable ⊢
      intro i hi
      exact ⟨hreadable i hi, (lineOf_eventLine_iff _ _).mp (hlines i hi)⟩
    · rw [parse_of_not_readable hconsumes hdocs hreadable] at hresult
      cases hresult
  · intro hgood
    refine ⟨_, parse_of_readable hconsumes hdocs fun e he => (hgood e he).1, ?_⟩
    rw [Numbered.forall₂_mapIdx_iff]
    intro i hi
    exact (lineOf_eventLine_iff _ _).mpr (hgood _ (List.getElem_mem hi)).2

/-- A log line with a time, as docker sends it. -/
def timedText : Bytes :=
  bytes "\x7b\"event\":\x7b\"line\":\"another log\"\x7d,\"time\":\"1569223641\"\x7d"

def timedEvent : Event :=
  ([(bytes "event", .object [(bytes "line", .string (bytes "another log"))]),
      (bytes "time", .string (bytes "1569223641"))],
    [(bytes "line", .string (bytes "another log"))])

/-- Its time is no number. -/
def oddText : Bytes :=
  bytes "\x7b\"event\":\x7b\"line\":\"a log\"\x7d,\"time\":\"yesterday\"\x7d"

def oddEvent : Event :=
  ([(bytes "event", .object [(bytes "line", .string (bytes "a log"))]),
      (bytes "time", .string (bytes "yesterday"))],
    [(bytes "line", .string (bytes "a log"))])

/-- The one number that comes up here, and its microseconds. -/
def fewConversions : Conversions where
  stod := fun s => if s = bytes "1569223641" then some 4744368608988102656 else none
  microseconds := fun x => if x = 4744368608988102656 then 1569223641000000 else 0

/-- What is read of these streams; nothing is of others. -/
def parseTable (table : List (Bytes × Value × Bytes)) (s : Bytes) : Option (Value × Bytes) :=
  table.lookup s

theorem parseTable_eq_some {s rest : Bytes} {d : Value}
    (before : List (Bytes × Value × Bytes)) {after : List (Bytes × Value × Bytes)}
    (hbefore : ∀ row ∈ before, s != row.1) :
    parseTable (before ++ (s, d, rest) :: after) s = some (d, rest) :=
  List.lookup_eq_some_iff.mpr ⟨before, after, rfl, hbefore⟩

theorem parseTable_consumes {table : List (Bytes × Value × Bytes)}
    (hshorter : ∀ row ∈ table, row.2.2.length < row.1.length) : Consumes (parseTable table) := by
  intro s d rest hparse
  obtain ⟨before, after, rfl, -⟩ := List.lookup_eq_some_iff.mp hparse
  exact hshorter (s, d, rest) (List.mem_append_right _ (List.mem_cons_self ..))

/-- What rapidjson reads of these texts. -/
def parseFew : Bytes → Option (Value × Bytes) :=
  parseTable [(timedText ++ oddText, .object timedEvent.1, oddText),
    (timedText, .object timedEvent.1, []), (oddText, .object oddEvent.1, [])]

theorem parseFew_consumes : Consumes parseFew := by
  apply parseTable_consumes
  simp only [List.forall_mem_cons]
  decide

theorem parseFew_nil : parseFew [] = none := by
  apply List.lookup_eq_none_iff.mpr
  simp only [List.forall_mem_cons]
  decide

theorem documents_timed :
    Documents parseFew (cString timedText) [.object timedEvent.1] := by
  have hnul : cString timedText = timedText := cString_eq_self (by decide)
  have hread : parseFew timedText = some (.object timedEvent.1, []) := by
    apply parseTable_eq_some [_]
    rw [List.forall_mem_singleton]
    rfl
  rw [hnul]
  exact .read hread (.ended parseFew_nil)

theorem documents_timed_odd :
    Documents parseFew (cString (timedText ++ oddText))
      [.object timedEvent.1, .object oddEvent.1] := by
  have hnul : cString (timedText ++ oddText) = timedText ++ oddText :=
    cString_eq_self (by decide)
  have hread : parseFew (timedText ++ oddText) = some (.object timedEvent.1, oddText) :=
    parseTable_eq_some [] (List.forall_mem_nil _)
  have hreadOdd : parseFew oddText = some (.object oddEvent.1, []) := by
    apply parseTable_eq_some [_, _]
    simp only [List.forall_mem_cons]
    decide
  rw [hnul]
  exact .read hread (.read hreadOdd (.ended parseFew_nil))

theorem timed_odd_event_by_event_iff :
    (∃ result, parseSplunkEvent DdLogProxy.uuidOfMd5 fewConversions parseFew (fun _ => 1)
          (timedText ++ oddText) = .ok result ∧
        List.Forall₂ LineOf (events [.object timedEvent.1, .object oddEvent.1]) result) ↔
      ∀ e ∈ events [.object timedEvent.1, .object oddEvent.1],
        Readable fewConversions e ∧ NulFree e :=
  event_by_event_iff DdLogProxy.uuidOfMd5 fewConversions parseFew (fun _ => 1) parseFew_consumes
    _ _ documents_timed_odd

theorem events_timed_odd :
    events [.object timedEvent.1, .object oddEvent.1] = [timedEvent, oddEvent] := by
  simp [events, event?, timedEvent, oddEvent, Value.object?, findObject, findMember]

theorem not_readable_oddEvent : ¬ Readable fewConversions oddEvent := by
  intro hreadable
  have hfound : findString oddEvent.1 "time" = some (bytes "yesterday") := rfl
  have hsome := hreadable _ hfound
  revert hsome
  decide

/-- The line before the odd event is lost with it. -/
theorem timed_odd_not_parsed :
    ¬ ∀ (md5Uuid : Bytes → Bytes) (conversions : Conversions)
      (parse : Bytes → Option (Value × Bytes)) (clock : ℕ → Int64), Consumes parse →
        ∀ (body : Bytes) (docs : List Value), Documents parse (cString body) docs →
          ∃ result, parseSplunkEvent md5Uuid conversions parse clock body = .ok result ∧
            List.Forall₂ LineOf (events docs) result := by
  intro hall
  obtain ⟨result, hresult, -⟩ := hall DdLogProxy.uuidOfMd5 fewConversions parseFew (fun _ => 1)
    parseFew_consumes _ _ documents_timed_odd
  rw [parse_of_not_readable parseFew_consumes documents_timed_odd] at hresult
  · cases hresult
  · rw [events_timed_odd]
    intro hreadable
    exact not_readable_oddEvent (hreadable _ (by simp))

end BbMonitor.Splunk
