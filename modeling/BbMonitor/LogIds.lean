import BbMonitor.Lib.Blocks
import BbMonitor.Splunk.Batches

/-!
# What the id of a log line says

The id is a digest of fields that are written one behind the other, without anything
between them.  If the digest has no collision, equal ids mean equal texts; but fields
that are cut at other places give the same text (`Blocks.Shifted`), and then the lines
are different ones under the same id.
-/

namespace BbMonitor

/-- The digest tells these two texts from each other. -/
def NoCollision (md5Uuid : Bytes → Bytes) (text text' : Bytes) : Prop :=
  md5Uuid text = md5Uuid text' → text = text'

namespace Splunk

open DdLogProxy (LogLine)

/-! ## Lines of Splunk events -/

/-- A line that some run of the parser returns. -/
def Produced (md5Uuid : Bytes → Bytes) (ll : LogLine) : Prop :=
  ∃ conversions parse clock buffer result,
    parseSplunkEvent md5Uuid conversions parse clock buffer = .ok result ∧ ll ∈ result

/-- The fields of variable length that the digest is computed from. -/
def texts (ll : LogLine) : List Bytes :=
  [ll.source, ll.host, ll.line] ++ ll.labels.flatMap fun label => [label.key, label.value]

structure SameContent (ll ll' : LogLine) : Prop where
  source : ll.source = ll'.source
  host : ll.host = ll'.host
  line : ll.line = ll'.line
  labels : ll.labels = ll'.labels
  timestampNs : ll.timestampNs = ll'.timestampNs

section

variable {ll ll' : LogLine}

theorem digested_eq (ll : LogLine) :
    digested ll = (texts ll).flatten ++ littleEndian 8 ll.timestampNs.toUInt64.toNat := by
  simp [digested, texts, List.flatten_eq_flatMap, List.flatMap_assoc]

/-- The time takes eight bytes, always. -/
theorem digested_eq_digested_iff :
    digested ll = digested ll' ↔
      (texts ll).flatten = (texts ll').flatten ∧ ll.timestampNs = ll'.timestampNs := by
  rw [digested_eq, digested_eq]
  constructor
  · intro heq
    have hlength : (littleEndian 8 ll.timestampNs.toUInt64.toNat).length =
        (littleEndian 8 ll'.timestampNs.toUInt64.toNat).length := by
      rw [length_littleEndian, length_littleEndian]
    obtain ⟨htexts, htime⟩ := List.append_inj' heq hlength
    have htoNat := littleEndian_inj (UInt64.toNat_lt _) (UInt64.toNat_lt _) htime
    exact ⟨htexts, congrArg UInt64.toInt64 (UInt64.toNat_inj.mp htoNat)⟩
  · rintro ⟨htexts, htime⟩
    rw [htexts, htime]

theorem labelTexts_inj {labels labels' : List DdLogProxy.Label}
    (heq : (labels.flatMap fun label => [label.key, label.value]) =
      labels'.flatMap fun label => [label.key, label.value]) : labels = labels' := by
  induction labels generalizing labels' with
  | nil =>
      cases labels' with
      | nil => rfl
      | cons label' rest' => simp at heq
  | cons label rest ih =>
      cases labels' with
      | nil => simp at heq
      | cons label' rest' =>
          simp only [List.flatMap_cons, List.cons_append, List.nil_append, List.cons.injEq] at heq
          obtain ⟨hkey, hvalue, hrest⟩ := heq
          obtain rfl : label = label' := by
            cases label
            cases label'
            rw [DdLogProxy.Label.mk.injEq]
            exact ⟨hkey, hvalue⟩
          rw [ih hrest]

theorem sameContent_iff :
    SameContent ll ll' ↔ texts ll = texts ll' ∧ ll.timestampNs = ll'.timestampNs := by
  constructor
  · intro hsame
    refine ⟨?_, hsame.timestampNs⟩
    rw [texts, texts, hsame.source, hsame.host, hsame.line, hsame.labels]
  · rintro ⟨htexts, htime⟩
    simp only [texts, List.cons_append, List.nil_append, List.cons.injEq] at htexts
    obtain ⟨hsource, hhost, hline, hlabels⟩ := htexts
    exact ⟨hsource, hhost, hline, labelTexts_inj hlabels, htime⟩

end

section

variable {md5Uuid : Bytes → Bytes} {conversions : Conversions}

theorem id_of_logLine {now : Int64} {e : Event} {ll : LogLine}
    (hline : logLine md5Uuid conversions now e = some ll) : ll.id = md5Uuid (digested ll) := by
  obtain ⟨timed, -, rfl⟩ := Option.map_eq_some_iff.mp hline
  rfl

/-- A round of the loop keeps the ids in order. -/
theorem ids_addEvent {clock : ℕ → Int64} {e : Event} {result more : List LogLine}
    (hids : ∀ ll ∈ result, ll.id = md5Uuid (digested ll))
    (hadd : addEvent md5Uuid conversions clock result e = .ok more) :
    ∀ ll ∈ more, ll.id = md5Uuid (digested ll) := by
  unfold addEvent at hadd
  split at hadd
  · cases hadd
  · rename_i ll hline
    cases hadd
    rw [List.forall_mem_append, List.forall_mem_singleton]
    exact ⟨hids, id_of_logLine hline⟩

theorem ids_documentsLoop {parse : Bytes → Option (Json.Value × Bytes)} {clock : ℕ → Int64}
    (rounds : ℕ) {s : Bytes} {result final : List LogLine}
    (hids : ∀ ll ∈ result, ll.id = md5Uuid (digested ll))
    (hloop : documentsLoop md5Uuid conversions parse clock rounds s result = .ok final) :
    ∀ ll ∈ final, ll.id = md5Uuid (digested ll) := by
  induction rounds generalizing s result with
  | zero => cases hloop
  | succ rounds ih =>
      unfold documentsLoop at hloop
      split at hloop
      · cases hloop
        exact hids
      · split at hloop
        · exact ih hids hloop
        · rename_i e _
          cases hadd : addEvent md5Uuid conversions clock result e with
          | error failure =>
              rw [hadd] at hloop
              cases hloop
          | ok more =>
              rw [hadd] at hloop
              exact ih (ids_addEvent hids hadd) hloop

theorem id_of_produced {ll : LogLine} (hll : Produced md5Uuid ll) :
    ll.id = md5Uuid (digested ll) := by
  obtain ⟨conversions, parse, clock, buffer, result, hresult, hmem⟩ := hll
  exact ids_documentsLoop _ (List.forall_mem_nil _) hresult ll hmem

theorem same_content_iff {ll ll' : LogLine} (hll : Produced md5Uuid ll)
    (hll' : Produced md5Uuid ll') (hmd5 : NoCollision md5Uuid (digested ll) (digested ll')) :
    (ll.id = ll'.id → SameContent ll ll') ↔
      (ll.timestampNs = ll'.timestampNs → ¬ Blocks.Shifted (texts ll) (texts ll')) := by
  have hid : ll.id = ll'.id ↔
      (texts ll).flatten = (texts ll').flatten ∧ ll.timestampNs = ll'.timestampNs :=
    calc ll.id = ll'.id ↔ md5Uuid (digested ll) = md5Uuid (digested ll') := by
          rw [id_of_produced hll, id_of_produced hll']
      _ ↔ digested ll = digested ll' := ⟨hmd5, congrArg md5Uuid⟩
      _ ↔ _ := digested_eq_digested_iff
  rw [hid, sameContent_iff, Blocks.not_shifted_iff]
  constructor
  · intro hsame htime hflatten
    exact (hsame ⟨hflatten, htime⟩).1
  · rintro hsame ⟨hflatten, htime⟩
    exact ⟨hsame htime hflatten, htime⟩

end

end Splunk

namespace DdLogProxy

/-! ## Lines of a datadog agent -/

/-- A line that `handle_line` inserts, for some line that it is given. -/
def Produced (md5Uuid : Bytes → Bytes) (ll : LogLine) : Prop :=
  ∃ now text, handleLine md5Uuid now text = .ok (some ll)

/-- The value of a label. -/
def LogLine.labelValue (ll : LogLine) (key : String) : Bytes :=
  ((ll.labels.find? fun label => label.key = bytes key).map Label.value).getD []

/-- The fields that the digest is computed from. -/
def texts (ll : LogLine) : List Bytes :=
  [ll.labelValue "ddsource", ll.labelValue "ddsourcecategory", ll.line]

structure SameContent (ll ll' : LogLine) : Prop where
  ddsource : ll.labelValue "ddsource" = ll'.labelValue "ddsource"
  ddsourceCategory : ll.labelValue "ddsourcecategory" = ll'.labelValue "ddsourcecategory"
  line : ll.line = ll'.line

variable {md5Uuid : Bytes → Bytes} {ll ll' : LogLine}

theorem sameContent_iff : SameContent ll ll' ↔ texts ll = texts ll' := by
  simp only [texts, List.cons.injEq, and_true]
  constructor
  · exact fun hsame => ⟨hsame.ddsource, hsame.ddsourceCategory, hsame.line⟩
  · rintro ⟨hddsource, hddsourceCategory, hline⟩
    exact ⟨hddsource, hddsourceCategory, hline⟩

theorem texts_value (p : Parts) (now : Int64) :
    texts (p.value md5Uuid now) = [p.ddsource, p.ddsourceCategory, p.line] := by
  have hkeys : bytes "ddsource" ≠ bytes "ddsourcecategory" := by decide
  simp [texts, LogLine.labelValue, Parts.value, hkeys]

theorem id_of_produced (hll : Produced md5Uuid ll) : ll.id = md5Uuid (texts ll).flatten := by
  obtain ⟨now, text, hhandle⟩ := hll
  unfold handleLine at hhandle
  cases hparts : (parts text).run with
  | error failure =>
      rw [hparts] at hhandle
      cases hhandle
  | ok found =>
      rw [hparts] at hhandle
      obtain ⟨p, -, rfl⟩ := Option.map_eq_some_iff.mp (Except.ok.inj hhandle)
      have hid : (p.value md5Uuid now).id = md5Uuid p.digested := rfl
      rw [texts_value, hid, Parts.digested]
      simp

theorem same_content_iff (hll : Produced md5Uuid ll) (hll' : Produced md5Uuid ll')
    (hmd5 : NoCollision md5Uuid (texts ll).flatten (texts ll').flatten) :
    (ll.id = ll'.id → SameContent ll ll') ↔ ¬ Blocks.Shifted (texts ll) (texts ll') := by
  have hid : ll.id = ll'.id ↔ (texts ll).flatten = (texts ll').flatten := by
    rw [id_of_produced hll, id_of_produced hll']
    exact ⟨hmd5, congrArg md5Uuid⟩
  rw [hid, sameContent_iff, Blocks.not_shifted_iff]

end DdLogProxy

/-- The ids of two lines identify their content exactly when the fields are not the same
bytes cut at other places. -/
theorem id_identifies_iff (md5Uuid : Bytes → Bytes) :
    (∀ ll ll', Splunk.Produced md5Uuid ll → Splunk.Produced md5Uuid ll' →
        NoCollision md5Uuid (Splunk.digested ll) (Splunk.digested ll') →
          ((ll.id = ll'.id → Splunk.SameContent ll ll') ↔
            (ll.timestampNs = ll'.timestampNs →
              ¬ Blocks.Shifted (Splunk.texts ll) (Splunk.texts ll')))) ∧
      ∀ ll ll', DdLogProxy.Produced md5Uuid ll → DdLogProxy.Produced md5Uuid ll' →
        NoCollision md5Uuid (DdLogProxy.texts ll).flatten (DdLogProxy.texts ll').flatten →
          ((ll.id = ll'.id → DdLogProxy.SameContent ll ll') ↔
            ¬ Blocks.Shifted (DdLogProxy.texts ll) (DdLogProxy.texts ll')) := by
  constructor
  · exact fun ll ll' hll hll' hmd5 => Splunk.same_content_iff hll hll' hmd5
  · exact fun ll ll' hll hll' hmd5 => DdLogProxy.same_content_iff hll hll' hmd5

/-! ## Two pairs of lines -/

namespace Splunk

open Json
open DdLogProxy (LogLine uuidOfMd5)

/-- An event becomes a line with an id. -/
theorem produced_eventLine {md5Uuid : Bytes → Bytes} {conversions : Conversions}
    {parse : Bytes → Option (Value × Bytes)} {body : Bytes} {docs : List Value}
    (hconsumes : Consumes parse) (hdocs : Documents parse (cString body) docs)
    (hreadable : ∀ e ∈ events docs, Readable conversions e) (now : Int64) {e : Event}
    (he : e ∈ events docs) : Produced md5Uuid (eventLine md5Uuid now e) := by
  refine ⟨conversions, parse, fun _ => now, body, _,
    parse_of_readable hconsumes hdocs hreadable, ?_⟩
  obtain ⟨i, hi, rfl⟩ := List.getElem_of_mem he
  exact List.mem_mapIdx.mpr ⟨i, hi, rfl⟩

def plainText (source line : String) : Bytes :=
  bytes "\x7b\"event\":\x7b\"source\":\"" ++ bytes source ++ bytes "\",\"line\":\"" ++
    bytes line ++ bytes "\"\x7d\x7d"

/-- An event without a time. -/
def plainEvent (source line : String) : Event :=
  ([(bytes "event",
      .object [(bytes "source", .string (bytes source)), (bytes "line", .string (bytes line))])],
    [(bytes "source", .string (bytes source)), (bytes "line", .string (bytes line))])

def plainLine (source line : String) : LogLine :=
  eventLine uuidOfMd5 1 (plainEvent source line)

/-- What rapidjson reads of two such events. -/
def parseCut : Bytes → Option (Value × Bytes) :=
  parseTable [(plainText "a" "bc" ++ plainText "ab" "c", .object (plainEvent "a" "bc").1,
      plainText "ab" "c"),
    (plainText "ab" "c", .object (plainEvent "ab" "c").1, [])]

theorem parseCut_consumes : Consumes parseCut := by
  apply parseTable_consumes
  simp only [List.forall_mem_cons]
  decide

theorem documents_cut :
    Documents parseCut (cString (plainText "a" "bc" ++ plainText "ab" "c"))
      [.object (plainEvent "a" "bc").1, .object (plainEvent "ab" "c").1] := by
  have hnul : cString (plainText "a" "bc" ++ plainText "ab" "c") =
      plainText "a" "bc" ++ plainText "ab" "c" := cString_eq_self (by decide)
  have hfirst : parseCut (plainText "a" "bc" ++ plainText "ab" "c") =
      some (.object (plainEvent "a" "bc").1, plainText "ab" "c") :=
    parseTable_eq_some [] (List.forall_mem_nil _)
  have hsecond : parseCut (plainText "ab" "c") = some (.object (plainEvent "ab" "c").1, []) := by
    apply parseTable_eq_some [_]
    rw [List.forall_mem_singleton]
    rfl
  have hend : parseCut [] = none := by
    apply List.lookup_eq_none_iff.mpr
    simp only [List.forall_mem_cons]
    decide
  rw [hnul]
  exact .read hfirst (.read hsecond (.ended hend))

theorem events_cut :
    events [.object (plainEvent "a" "bc").1, .object (plainEvent "ab" "c").1] =
      [plainEvent "a" "bc", plainEvent "ab" "c"] := by
  simp [events, event?, plainEvent, Value.object?, findObject, findMember]

theorem readable_plainEvent (source line : String) :
    Readable fewConversions (plainEvent source line) := by
  have hnone : findMember (plainEvent source line).1 "time" = none := by
    apply List.lookup_eq_none_iff.mpr
    rw [plainEvent, List.forall_mem_singleton]
    show (bytes "time" != bytes "event") = true
    rfl
  intro t hfound
  rw [findString, hnone] at hfound
  cases hfound

theorem produced_cut :
    Produced uuidOfMd5 (plainLine "a" "bc") ∧ Produced uuidOfMd5 (plainLine "ab" "c") := by
  have hreadable : ∀ e ∈ [plainEvent "a" "bc", plainEvent "ab" "c"],
      Readable fewConversions e := by
    rw [List.forall_mem_cons, List.forall_mem_singleton]
    exact ⟨readable_plainEvent _ _, readable_plainEvent _ _⟩
  rw [← events_cut] at hreadable
  have hproduced : ∀ e ∈ [plainEvent "a" "bc", plainEvent "ab" "c"],
      Produced uuidOfMd5 (eventLine uuidOfMd5 1 e) := by
    rw [← events_cut]
    exact fun e he => produced_eventLine parseCut_consumes documents_cut hreadable 1 he
  rw [List.forall_mem_cons, List.forall_mem_singleton] at hproduced
  exact hproduced

theorem digested_cut :
    digested (plainLine "a" "bc") = digested (plainLine "ab" "c") := by
  rfl

theorem not_sameContent_cut :
    ¬ SameContent (plainLine "a" "bc") (plainLine "ab" "c") := by
  intro hsame
  have hsource := hsame.source
  revert hsource
  decide

end Splunk

namespace DdLogProxy

/-- A line of an agent. -/
def agentText (ddsource ddsourceCategory : String) : Bytes :=
  bytes "key <46>0 2018-07-31T09:27:41Z host syslog - - [dd ddsource=\"" ++ bytes ddsource ++
    bytes "\"][dd ddsourcecategory=\"" ++ bytes ddsourceCategory ++
    bytes "\"][dd ddtags=\"filename:syslog\"] done"

/-- What is read from it. -/
def agentParts (ddsource ddsourceCategory : String) : Parts where
  host := bytes "host"
  source := bytes "syslog"
  ddsource := bytes ddsource
  ddsourceCategory := bytes ddsourceCategory
  tags := [⟨bytes "filename", bytes "syslog"⟩]
  line := bytes " done"

def agentLine (ddsource ddsourceCategory : String) : LogLine :=
  (agentParts ddsource ddsourceCategory).value uuidOfMd5 1

theorem parts_cut :
    (parts (agentText "a" "bc")).run = .ok (some (agentParts "a" "bc")) ∧
      (parts (agentText "ab" "c")).run = .ok (some (agentParts "ab" "c")) := by
  constructor
  · decide +kernel
  · decide +kernel

theorem produced_cut :
    Produced uuidOfMd5 (agentLine "a" "bc") ∧ Produced uuidOfMd5 (agentLine "ab" "c") := by
  obtain ⟨hfirst, hsecond⟩ := parts_cut
  refine ⟨⟨1, agentText "a" "bc", ?_⟩, ⟨1, agentText "ab" "c", ?_⟩⟩
  · rw [handleLine, hfirst]
    rfl
  · rw [handleLine, hsecond]
    rfl

theorem texts_flatten_cut :
    (texts (agentLine "a" "bc")).flatten = (texts (agentLine "ab" "c")).flatten := by
  rw [agentLine, agentLine, texts_value, texts_value]
  rfl

theorem not_sameContent_cut :
    ¬ SameContent (agentLine "a" "bc") (agentLine "ab" "c") := by
  rw [sameContent_iff, agentLine, agentLine, texts_value, texts_value]
  decide

end DdLogProxy

open DdLogProxy (uuidOfMd5)

theorem cut_id_identifies_iff :
    (((Splunk.plainLine "a" "bc").id = (Splunk.plainLine "ab" "c").id →
        Splunk.SameContent (Splunk.plainLine "a" "bc") (Splunk.plainLine "ab" "c")) ↔
      ((Splunk.plainLine "a" "bc").timestampNs = (Splunk.plainLine "ab" "c").timestampNs →
        ¬ Blocks.Shifted (Splunk.texts (Splunk.plainLine "a" "bc"))
          (Splunk.texts (Splunk.plainLine "ab" "c")))) ∧
    (((DdLogProxy.agentLine "a" "bc").id = (DdLogProxy.agentLine "ab" "c").id →
        DdLogProxy.SameContent (DdLogProxy.agentLine "a" "bc") (DdLogProxy.agentLine "ab" "c")) ↔
      ¬ Blocks.Shifted (DdLogProxy.texts (DdLogProxy.agentLine "a" "bc"))
        (DdLogProxy.texts (DdLogProxy.agentLine "ab" "c"))) :=
  ⟨(id_identifies_iff uuidOfMd5).1 _ _ Splunk.produced_cut.1 Splunk.produced_cut.2
      fun _ => Splunk.digested_cut,
    (id_identifies_iff uuidOfMd5).2 _ _ DdLogProxy.produced_cut.1 DdLogProxy.produced_cut.2
      fun _ => DdLogProxy.texts_flatten_cut⟩

/-- In both proxies, `a` and `bc` give the id of `ab` and `c`. -/
theorem cut_not_identified :
    (¬ ∀ ll ll', Splunk.Produced uuidOfMd5 ll → Splunk.Produced uuidOfMd5 ll' →
        NoCollision uuidOfMd5 (Splunk.digested ll) (Splunk.digested ll') →
          ll.id = ll'.id → Splunk.SameContent ll ll') ∧
      ¬ ∀ ll ll', DdLogProxy.Produced uuidOfMd5 ll → DdLogProxy.Produced uuidOfMd5 ll' →
        NoCollision uuidOfMd5 (DdLogProxy.texts ll).flatten (DdLogProxy.texts ll').flatten →
          ll.id = ll'.id → DdLogProxy.SameContent ll ll' := by
  constructor
  · intro hall
    obtain ⟨hfirst, hsecond⟩ := Splunk.produced_cut
    have hid : (Splunk.plainLine "a" "bc").id = (Splunk.plainLine "ab" "c").id :=
      calc (Splunk.plainLine "a" "bc").id
          = uuidOfMd5 (Splunk.digested (Splunk.plainLine "a" "bc")) :=
            Splunk.id_of_produced hfirst
        _ = uuidOfMd5 (Splunk.digested (Splunk.plainLine "ab" "c")) :=
            congrArg uuidOfMd5 Splunk.digested_cut
        _ = (Splunk.plainLine "ab" "c").id := (Splunk.id_of_produced hsecond).symm
    exact Splunk.not_sameContent_cut
      (hall _ _ hfirst hsecond (fun _ => Splunk.digested_cut) hid)
  · intro hall
    obtain ⟨hfirst, hsecond⟩ := DdLogProxy.produced_cut
    have hid : (DdLogProxy.agentLine "a" "bc").id = (DdLogProxy.agentLine "ab" "c").id :=
      calc (DdLogProxy.agentLine "a" "bc").id
          = uuidOfMd5 (DdLogProxy.texts (DdLogProxy.agentLine "a" "bc")).flatten :=
            DdLogProxy.id_of_produced hfirst
        _ = uuidOfMd5 (DdLogProxy.texts (DdLogProxy.agentLine "ab" "c")).flatten :=
            congrArg uuidOfMd5 DdLogProxy.texts_flatten_cut
        _ = (DdLogProxy.agentLine "ab" "c").id := (DdLogProxy.id_of_produced hsecond).symm
    exact DdLogProxy.not_sameContent_cut
      (hall _ _ hfirst hsecond (fun _ => DdLogProxy.texts_flatten_cut) hid)

end BbMonitor
