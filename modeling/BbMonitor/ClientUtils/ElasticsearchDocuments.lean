import Mathlib.Data.List.Nodup
import BbMonitor.Lib.JsonText
import BbMonitor.ClientUtils.SplunkTags
import BbMonitor.AvroRecords

/-!
# Documents for Elasticsearch

The value formatter writes a line of a log as a JSON object: five members of the record,
the namespace and the name of the container if the line has a tag that tells them, and then
one member for each tag, under the name that the client gave it.

`kspp::escape_json` and `date_from_nanos` are parameters.  Of the first it is assumed that
what it writes for a string denotes that string, of the second that its dates consist of
digits and of the separators of its format.

The object is always read back with these members.  But no name is compared with another, so
that a tag can have the name of another tag or of one of the members that come first.
-/

namespace BbMonitor.Elasticsearch

open JsonText (Denotes Member Plain objectText readObject)

variable (escapeJson : Bytes → Bytes) (dateFromNanos : Int64 → Bytes)

/-! ## The source -/

/-- `k8s_ns` and `k8s_name`, from the last tag that is a splunk tag. -/
def k8sOf (tags : List Label) : Bytes × Bytes :=
  tags.foldl (fun k8s i => if i.key = bytes "tag" then (splitSplunkTag i.value).2 else k8s)
    ([], [])

/-- A member behind another, as every line of the formatter writes it. -/
def member (name value : Bytes) : Bytes :=
  bytes ", \"" ++ name ++ bytes "\": \"" ++ value ++ bytes "\""

/-- The value formatter. -/
def document (value : BbAvroLogline) : Bytes :=
  let k8s := k8sOf value.tags
  bytes "\x7b" ++
    (bytes "\"timestamp\": \"" ++ dateFromNanos value.timestampNs ++ bytes "\"") ++
    member (bytes "agent") (escapeJson value.agent) ++
    member (bytes "host") (escapeJson value.host) ++
    member (bytes "source") (escapeJson value.source) ++
    member (bytes "line") (escapeJson value.line) ++
    (if k8s.1.length > 0 then member (bytes "k8s_ns") (escapeJson k8s.1) else []) ++
    (if k8s.2.length > 0 then member (bytes "k8s_name") (escapeJson k8s.2) else []) ++
    (value.tags.flatMap fun i => member (escapeJson i.key) (escapeJson i.value)) ++
    bytes "\x7d"

/-! ## The members -/

/-- The members behind the timestamp that have the values of the record. -/
def recordPairs (value : BbAvroLogline) : List (Bytes × Bytes) :=
  [(bytes "agent", value.agent), (bytes "host", value.host), (bytes "source", value.source),
    (bytes "line", value.line)]

def timestampPair (value : BbAvroLogline) : Bytes × Bytes :=
  (bytes "timestamp", dateFromNanos value.timestampNs)

/-- The members from a container tag. -/
def k8sPairs (value : BbAvroLogline) : List (Bytes × Bytes) :=
  let k8s := k8sOf value.tags
  (if k8s.1.length > 0 then [(bytes "k8s_ns", k8s.1)] else []) ++
    (if k8s.2.length > 0 then [(bytes "k8s_name", k8s.2)] else [])

/-- The members that the formatter itself names. -/
def ownPairs (value : BbAvroLogline) : List (Bytes × Bytes) :=
  recordPairs value ++ k8sPairs value

def tagPairs (value : BbAvroLogline) : List (Bytes × Bytes) :=
  value.tags.map fun i => (i.key, i.value)

/-- The names that the formatter itself gives. -/
def reservedNames (value : BbAvroLogline) : List Bytes :=
  bytes "timestamp" :: (ownPairs value).map Prod.fst

/-- The text is a JSON object with different names and with the values of the record. -/
def IsDocument (value : BbAvroLogline) (text : Bytes) : Prop :=
  ∃ members, readObject text = some members ∧ (members.map Prod.fst).Nodup ∧
    ∀ p ∈ timestampPair dateFromNanos value :: recordPairs value, p ∈ members

/-- What dates are made of. -/
def dateCharacters : Bytes := bytes "0123456789-:.TZ"

variable {escapeJson dateFromNanos}

theorem member_eq (m : Member) :
    member m.writtenName m.writtenValue = JsonText.comma :: JsonText.blank :: m.text := by
  have hopening : bytes ", \"" = [JsonText.comma, JsonText.blank, JsonText.quotation] := rfl
  have hmiddle : bytes "\": \"" = [JsonText.quotation, JsonText.colon, JsonText.blank,
      JsonText.quotation] := rfl
  have hclosing : bytes "\"" = [JsonText.quotation] := rfl
  rw [member, hopening, hmiddle, hclosing, Member.text]
  simp

/-- Members behind another, whose names are written by `written`. -/
theorem exists_members (hescape : ∀ s, Denotes (escapeJson s) s) (written : Bytes → Bytes)
    {l : List (Bytes × Bytes)} (hnames : ∀ p ∈ l, Denotes (written p.1) p.1) :
    ∃ ms : List Member, ms.map Member.pair = l ∧
      (l.flatMap fun p => member (written p.1) (escapeJson p.2)) =
        ms.flatMap fun m => JsonText.comma :: JsonText.blank :: m.text := by
  induction l with
  | nil => exact ⟨[], rfl, rfl⟩
  | cons p l ih =>
      obtain ⟨hp, hnames⟩ := List.forall_mem_cons.mp hnames
      obtain ⟨ms, hpairs, htext⟩ := ih hnames
      let m : Member := ⟨p.1, p.2, written p.1, escapeJson p.2, hp, hescape p.2⟩
      refine ⟨m :: ms, ?_, ?_⟩
      · rw [List.map_cons, hpairs]
        rfl
      · rw [List.flatMap_cons, List.flatMap_cons, htext, ← member_eq m]

/-- The names of the formatter behind the timestamp. -/
def ownNames : List Bytes :=
  [bytes "agent", bytes "host", bytes "source", bytes "line"] ++
    ([bytes "k8s_ns"] ++ [bytes "k8s_name"])

theorem ownPairs_sublist (value : BbAvroLogline) :
    List.Sublist ((ownPairs value).map Prod.fst) ownNames := by
  rw [ownPairs, k8sPairs, List.map_append, List.map_append]
  apply List.Sublist.append (List.Sublist.refl _)
  apply List.Sublist.append
  · split
    · exact List.Sublist.refl _
    · exact List.nil_sublist _
  · split
    · exact List.Sublist.refl _
    · exact List.nil_sublist _

theorem plain_of_mem_ownPairs {value : BbAvroLogline} {p : Bytes × Bytes}
    (hp : p ∈ ownPairs value) : ∀ c ∈ p.1, Plain c := by
  have hnames : ∀ name ∈ ownNames, ∀ c ∈ name, Plain c := by decide +kernel
  exact hnames p.1 ((ownPairs_sublist value).subset (List.mem_map_of_mem hp))

theorem reservedNames_nodup (value : BbAvroLogline) : (reservedNames value).Nodup := by
  have hnames : (bytes "timestamp" :: ownNames).Nodup := by decide
  exact hnames.sublist ((ownPairs_sublist value).cons_cons _)

theorem document_eq (value : BbAvroLogline) :
    document escapeJson dateFromNanos value = bytes "\x7b" ++
      ((bytes "\"timestamp\": \"" ++ dateFromNanos value.timestampNs ++ bytes "\"") ++
        ((ownPairs value).flatMap fun p => member p.1 (escapeJson p.2)) ++
        ((tagPairs value).flatMap fun p => member (escapeJson p.1) (escapeJson p.2))) ++
      bytes "\x7d" := by
  rw [document, ownPairs, recordPairs, k8sPairs, tagPairs, List.flatMap_map]
  dsimp only
  split <;> split <;> simp

theorem plain_of_mem_dateCharacters {c : UInt8} (hc : c ∈ dateCharacters) : Plain c := by
  have hall : ∀ c ∈ dateCharacters, Plain c := by decide +kernel
  exact hall c hc

/-- The document is the object with these members. -/
theorem document_eq_objectText (hescape : ∀ s, Denotes (escapeJson s) s)
    (hdate : ∀ t, ∀ c ∈ dateFromNanos t, c ∈ dateCharacters) (value : BbAvroLogline) :
    ∃ ms : List Member, ms ≠ [] ∧ document escapeJson dateFromNanos value = objectText ms ∧
      ms.map Member.pair =
        timestampPair dateFromNanos value :: (ownPairs value ++ tagPairs value) := by
  let timestamp : Member :=
    { name := bytes "timestamp"
      value := dateFromNanos value.timestampNs
      writtenName := bytes "timestamp"
      writtenValue := dateFromNanos value.timestampNs
      name_denotes := JsonText.denotes_of_plain (by decide +kernel)
      value_denotes := JsonText.denotes_of_plain fun c hc =>
        plain_of_mem_dateCharacters (hdate _ c hc) }
  have hown : ∀ p ∈ ownPairs value, Denotes (id p.1) p.1 := fun p hp =>
    JsonText.denotes_of_plain (plain_of_mem_ownPairs hp)
  obtain ⟨own, hownPairs, hownText⟩ := exists_members hescape id hown
  obtain ⟨tags, htagPairs, htagText⟩ :=
    exists_members hescape escapeJson (l := tagPairs value) fun p _ => hescape p.1
  have htimestamp : bytes "\"timestamp\": \"" ++ dateFromNanos value.timestampNs ++ bytes "\"" =
      timestamp.text := by
    have hopening : bytes "\"timestamp\": \"" = JsonText.quotation :: (bytes "timestamp" ++
        [JsonText.quotation, JsonText.colon, JsonText.blank, JsonText.quotation]) := rfl
    have hclosing : bytes "\"" = [JsonText.quotation] := rfl
    rw [hopening, hclosing, Member.text]
    simp [timestamp]
  have hleft : bytes "\x7b" = [JsonText.leftBrace] := rfl
  have hright : bytes "\x7d" = [JsonText.rightBrace] := rfl
  refine ⟨timestamp :: (own ++ tags), List.cons_ne_nil _ _, ?_, ?_⟩
  · rw [document_eq, htimestamp, htagText, objectText, JsonText.membersText, List.flatMap_append,
      ← hownText, hleft, hright]
    simp
  · rw [List.map_cons, List.map_append, hownPairs, htagPairs]
    rfl

/-- The document is read back with these members. -/
theorem readObject_document (hescape : ∀ s, Denotes (escapeJson s) s)
    (hdate : ∀ t, ∀ c ∈ dateFromNanos t, c ∈ dateCharacters) (value : BbAvroLogline) :
    readObject (document escapeJson dateFromNanos value) =
      some (timestampPair dateFromNanos value :: (ownPairs value ++ tagPairs value)) := by
  obtain ⟨ms, hne, htext, hpairs⟩ := document_eq_objectText hescape hdate value
  rw [htext, JsonText.readObject_objectText hne, hpairs]

/-! ## Which lines come out well -/

variable (dateFromNanos) in
theorem names_nodup_iff (value : BbAvroLogline) :
    ((timestampPair dateFromNanos value :: (ownPairs value ++ tagPairs value)).map
        Prod.fst).Nodup ↔
      (value.tags.map Label.key).Nodup ∧ ∀ i ∈ value.tags, i.key ∉ reservedNames value := by
  have htags : (tagPairs value).map Prod.fst = value.tags.map Label.key := by
    rw [tagPairs, List.map_map]
    rfl
  have hnames : (timestampPair dateFromNanos value :: (ownPairs value ++ tagPairs value)).map
      Prod.fst = reservedNames value ++ value.tags.map Label.key := by
    rw [List.map_cons, List.map_append, htags, reservedNames, List.cons_append]
    rfl
  rw [hnames, List.nodup_append_comm, List.nodup_append]
  constructor
  · intro hnodup
    refine ⟨hnodup.1, fun i hi hmem => ?_⟩
    exact hnodup.2.2 i.key (List.mem_map_of_mem hi) i.key hmem rfl
  · intro htag
    refine ⟨htag.1, reservedNames_nodup value, fun name hname other hother heq => ?_⟩
    obtain ⟨i, hi, rfl⟩ := List.mem_map.mp hname
    exact htag.2 i hi (heq ▸ hother)

/-- The document is one, just when no two tags have the same key and no tag has a name that the
formatter gives. -/
theorem document_iff (hescape : ∀ s, Denotes (escapeJson s) s)
    (hdate : ∀ t, ∀ c ∈ dateFromNanos t, c ∈ dateCharacters) (value : BbAvroLogline) :
    IsDocument dateFromNanos value (document escapeJson dateFromNanos value) ↔
      (value.tags.map Label.key).Nodup ∧ ∀ i ∈ value.tags, i.key ∉ reservedNames value := by
  rw [IsDocument, readObject_document hescape hdate, ← names_nodup_iff dateFromNanos]
  constructor
  · intro hdocument
    obtain ⟨members, hmembers, hnodup, -⟩ := hdocument
    rwa [Option.some.inj hmembers]
  · intro hnodup
    refine ⟨_, rfl, hnodup, ?_⟩
    intro p hp
    rcases List.mem_cons.mp hp with rfl | hp
    · exact List.mem_cons_self
    · apply List.mem_cons_of_mem
      rw [ownPairs, List.append_assoc]
      exact List.mem_append_left _ hp

/-- A line from a container of kubernetes with a tag of the client. -/
theorem document_of_k8s :
    let date : Int64 → Bytes := fun _ => bytes "2019-09-23T07:27:21.959321000Z"
    let value : BbAvroLogline :=
      { id := [], agent := bytes "a\"b", host := bytes "linux", source := bytes "stdout",
        tags := [⟨bytes "tag", bytes "rancher/k8s_name_pod_namespace_uid_0/e6e5"⟩,
          ⟨bytes "location", bytes "west"⟩],
        timestampNs := 1569223641959321000, line := bytes "first\nsecond" }
    IsDocument date value (document JsonText.escapeString date value) := by
  intro date value
  have hdate : ∀ t, ∀ c ∈ date t, c ∈ dateCharacters := by
    intro t
    exact (by decide +kernel : ∀ c ∈ bytes "2019-09-23T07:27:21.959321000Z", c ∈ dateCharacters)
  exact (document_iff JsonText.denotes_escapeString hdate value).mpr (by decide +kernel)

/-- A tag of the client with the name `host`. -/
theorem document_host_twice :
    ¬∀ (escapeJson : Bytes → Bytes) (dateFromNanos : Int64 → Bytes),
      (∀ s, Denotes (escapeJson s) s) → (∀ t, ∀ c ∈ dateFromNanos t, c ∈ dateCharacters) →
        ∀ value, IsDocument dateFromNanos value (document escapeJson dateFromNanos value) := by
  intro hall
  let value : BbAvroLogline :=
    { id := [], agent := [], host := bytes "linux", source := [],
      tags := [⟨bytes "host", bytes "west"⟩], timestampNs := 0, line := [] }
  let date : Int64 → Bytes := fun _ => bytes "1970-01-01T00:00:00.000000000Z"
  have hdate : ∀ t, ∀ c ∈ date t, c ∈ dateCharacters := by
    intro t
    exact (by decide +kernel : ∀ c ∈ bytes "1970-01-01T00:00:00.000000000Z", c ∈ dateCharacters)
  obtain ⟨members, hread, hnodup, -⟩ :=
    hall JsonText.escapeString date JsonText.denotes_escapeString hdate value
  rw [readObject_document JsonText.denotes_escapeString hdate, Option.some.injEq] at hread
  rw [← hread, names_nodup_iff] at hnodup
  exact absurd hnodup (by decide)

end BbMonitor.Elasticsearch
