import BbMonitor.Lib.Numbered
import BbMonitor.ClientUtils.DatadogSeries

/-!
# The checks of an agent

A check is to become a metric with the time and the status that the element gives
(`Kept`).  There are two parsers.  The one for the grpc interface asks for the time with
`IsInt` where `GetInt` was meant, so that every check that has one is from the second 1.
The one for kafka makes the same slip with the status, and then forgets to put the
record into the result.
-/

namespace BbMonitor.Datadog

open Json

/-! ## What is to be kept -/

/-- The fields that the two kinds of records have in common. -/
structure CheckView where
  labels : List Label
  timestamp : Int64
  value : Option Int64

def metricView (m : Metric) : CheckView where
  labels := m.labels
  timestamp := m.timestamp
  value :=
    match m.sample with
    | .longValue v => some v
    | _ => none

def recordView (m : BbAvroMetric) : CheckView where
  labels := m.labels
  timestamp := m.timestamp
  value :=
    match m.value with
    | .long v => some v
    | _ => none

/-- The label of a tag: the parts in front of and behind the first colon. -/
def dueTag (s : Bytes) : Option Label :=
  (cut colon s).map fun tag => ⟨replaceAll space tag.1, replaceAll space tag.2⟩

def dueHost (members : Members) : List Label :=
  match findString members "host_name" with
  | none => []
  | some s => [⟨bytes "dd_host_name", s⟩]

def dueTags (members : Members) : List Label :=
  match findArray members "tags" with
  | none => []
  | some tags => tags.filterMap fun t => t.string?.bind dueTag

/-- The record has the time, the status and the labels of the element. -/
structure Kept (members : Members) (view : CheckView) : Prop where
  timestamp : ∀ n, findInteger members "timestamp" = some n → view.timestamp.toInt = n * 1000
  value : ∀ n, findInteger members "status" = some n → view.value.map Int64.toInt = some n
  labels : view.labels = dueHost members ++ dueTags members

/-- The elements that are checks. -/
def checks (elements : List Value) : List (Members × Bytes) :=
  elements.filterMap check?

/-- The time can only be the second 1, the status needs 32 bits, and the host and the
tags that become labels have no NUL. -/
structure ReadRight (members : Members) : Prop where
  timestamp : ∀ n, findInteger members "timestamp" = some n → n = 1
  status : ∀ n, findInteger members "status" = some n → -2 ^ 31 ≤ n ∧ n < 2 ^ 31
  host : ∀ s, findString members "host_name" = some s → 0 ∉ s
  tags : ∀ tags, findArray members "tags" = some tags → ∀ t ∈ tags, ∀ s, t.string? = some s →
    colon ∈ s → 0 ∉ s

/-! ## Labels -/

theorem tagLabel_eq_dueTag (s : Bytes) : tagLabel s = dueTag s := by
  rw [tagLabel, dueTag, cut_eq_findFirstOf]
  cases findFirstOf s [colon] 0 with
  | none => rfl
  | some separatorPos => rfl

theorem dueTag_isSome_iff (s : Bytes) : (dueTag s).isSome ↔ colon ∈ s := by
  rw [dueTag, Option.isSome_map]
  rcases notMem_or_exists_line colon s with hcolon | ⟨key, value, rfl, hkey⟩
  · simp [cut_of_notMem hcolon, hcolon]
  · simp [cut_append_cons hkey]

theorem dueTag_cString_isSome {s : Bytes} (hsome : (dueTag (cString s)).isSome) :
    (dueTag s).isSome := by
  rw [dueTag_isSome_iff] at hsome ⊢
  exact (List.takeWhile_sublist _).subset hsome

/-- A tag with a NUL loses the end of its value, or its colon. -/
theorem dueTag_cString_iff (s : Bytes) : dueTag (cString s) = dueTag s ↔ (colon ∈ s → 0 ∉ s) := by
  constructor
  · intro heq hcolon hmem
    obtain ⟨rest, hsplit⟩ := exists_eq_cString_append hmem
    have hsome := (dueTag_isSome_iff s).mpr hcolon
    rw [← heq, dueTag_isSome_iff] at hsome
    obtain ⟨key, value, hcut, hkey⟩ := List.eq_append_cons_of_mem hsome
    have hwhole : s = key ++ colon :: (value ++ 0 :: rest) := by
      rw [hsplit, hcut]
      simp
    rw [dueTag, dueTag, hcut, hwhole, cut_append_cons hkey, cut_append_cons hkey] at heq
    simp only [Option.map_some, Option.some.injEq, Label.mk.injEq, true_and] at heq
    have hlength := congrArg List.length heq
    rw [length_replaceAll, length_replaceAll, List.length_append, List.length_cons] at hlength
    omega
  · intro hnul
    by_cases hcolon : colon ∈ s
    · rw [cString_eq_self (hnul hcolon)]
    · have hnone : dueTag s = none := by
        rw [← Option.not_isSome_iff_eq_none, dueTag_isSome_iff]
        exact hcolon
      rw [hnone, ← Option.not_isSome_iff_eq_none]
      intro hsome
      rw [← Option.not_isSome_iff_eq_none] at hnone
      exact hnone (dueTag_cString_isSome hsome)

variable {members : Members}

theorem stringLabel_eq_dueHost_iff :
    stringLabel members "host_name" "dd_host_name" = dueHost members ↔
      ∀ s, findString members "host_name" = some s → 0 ∉ s := by
  unfold stringLabel dueHost
  cases findString members "host_name" with
  | none => simp
  | some s => simp [cString_eq_self_iff]

theorem length_stringLabel :
    (stringLabel members "host_name" "dd_host_name").length = (dueHost members).length := by
  unfold stringLabel dueHost
  cases findString members "host_name" <;> rfl

theorem tagLabels_eq_dueTags_iff :
    tagLabels members = dueTags members ↔
      ∀ tags, findArray members "tags" = some tags → ∀ t ∈ tags, ∀ s, t.string? = some s →
        colon ∈ s → 0 ∉ s := by
  unfold tagLabels dueTags
  cases findArray members "tags" with
  | none => simp
  | some tags =>
      simp only [Option.some.injEq, forall_eq']
      rw [Blocks.filterMap_eq_iff]
      · refine forall_congr' fun t => forall_congr' fun _ => ?_
        cases t.string? with
        | none => simp
        | some s => simp [tagLabel_eq_dueTag, dueTag_cString_iff]
      · intro t _
        cases t.string? with
        | none => exact id
        | some s =>
            rw [Option.bind_some, Option.bind_some, tagLabel_eq_dueTag]
            exact dueTag_cString_isSome

theorem checkLabels_eq_iff :
    checkLabels members = dueHost members ++ dueTags members ↔
      (∀ s, findString members "host_name" = some s → 0 ∉ s) ∧
        ∀ tags, findArray members "tags" = some tags → ∀ t ∈ tags, ∀ s, t.string? = some s →
          colon ∈ s → 0 ∉ s := by
  rw [← stringLabel_eq_dueHost_iff, ← tagLabels_eq_dueTags_iff, checkLabels]
  constructor
  · intro heq
    exact List.append_inj heq length_stringLabel
  · rintro ⟨hhost, htags⟩
    rw [hhost, htags]

/-! ## One check -/

theorem filter_isInt (v : Option Value) :
    (v.filter fun v => v.int?.isSome).isSome = (v.bind Value.int?).isSome := by
  cases v with
  | none => rfl
  | some v =>
      cases hint : v.int? with
      | none => simp [Option.filter, hint]
      | some n => simp [Option.filter, hint]

/-- Every time that 32 bits hold is taken for the second 1. -/
theorem timestamp_checkMetric (now : Int64) (members : Members) (check : Bytes) :
    (checkMetric now members check).timestamp =
      if (findInt members "timestamp").isSome then 1000 else now := by
  have hsome := filter_isInt (findMember members "timestamp")
  rw [findInt, ← hsome]
  unfold checkMetric
  cases hfound : (findMember members "timestamp").filter fun v => v.int?.isSome with
  | none => rfl
  | some v =>
      have hint := (Option.filter_eq_some_iff.mp hfound).2
      simp only [isInt, hint, if_true, Option.isSome_some]
      rfl

theorem value_checkMetric (now : Int64) (members : Members) (check : Bytes) :
    (metricView (checkMetric now members check)).value.map Int64.toInt =
      findInt members "status" := by
  unfold metricView checkMetric
  cases hstatus : findInt members "status" with
  | none => rfl
  | some n =>
      obtain ⟨-, hlow, hhigh⟩ := findInt_eq_some_iff.mp hstatus
      simp only [Option.map_some]
      rw [Int64.toInt_ofInt_of_le (by omega) (by omega)]

theorem kept_of_readRight (hright : ReadRight members) (now : Int64) (check : Bytes) :
    Kept members (metricView (checkMetric now members check)) where
  timestamp n hn := by
    obtain rfl := hright.timestamp n hn
    have hint : findInt members "timestamp" = some 1 :=
      findInt_eq_some_iff.mpr ⟨hn, by decide, by decide⟩
    show (checkMetric now members check).timestamp.toInt = 1 * 1000
    rw [timestamp_checkMetric, hint]
    rfl
  value n hn := by
    rw [value_checkMetric, findInt_eq_some_iff]
    exact ⟨hn, hright.status n hn⟩
  labels := checkLabels_eq_iff.mpr ⟨hright.host, hright.tags⟩

/-- It is enough to know what is made of the check in the second 0. -/
theorem readRight_of_kept {check : Bytes}
    (hkept : Kept members (metricView (checkMetric 0 members check))) : ReadRight members := by
  obtain ⟨hhost, htags⟩ := checkLabels_eq_iff.mp hkept.labels
  refine ⟨fun n hn => ?_, fun n hn => ?_, hhost, htags⟩
  · have htime : (checkMetric 0 members check).timestamp.toInt = n * 1000 :=
      hkept.timestamp n hn
    rw [timestamp_checkMetric] at htime
    cases hint : findInt members "timestamp" with
    | some k =>
        rw [hint, Option.isSome_some, if_pos rfl] at htime
        have hone : Int64.toInt 1000 = 1000 := rfl
        omega
    | none =>
        rw [hint, Option.isSome_none, if_neg (by simp)] at htime
        have hzero : Int64.toInt 0 = 0 := rfl
        obtain rfl : n = 0 := by omega
        rw [findInt_eq_some_iff.mpr ⟨hn, by decide, by decide⟩] at hint
        cases hint
  · have hvalue := hkept.value n hn
    rw [value_checkMetric, findInt_eq_some_iff] at hvalue
    exact hvalue.2

/-! ## All checks -/

theorem foldl_addCheck (clock : ℕ → Int64) (elements : List Value) (result : List Metric) :
    elements.foldl (addCheck clock) result =
      result ++ (checks elements).mapIdx fun i c =>
        checkMetric (clock (result.length + i)) c.1 c.2 := by
  refine Numbered.foldl_eq_mapIdx check? (fun i c => checkMetric (clock i) c.1 c.2) ?_ result
  intro c _ result
  rw [addCheck]
  cases check? c with
  | none => rw [Option.map_none, Option.toList_none, List.append_nil]
  | some found => rfl

theorem foldl_addCheckRecord (elements : List Value) (result : List BbAvroMetric) :
    elements.foldl addCheckRecord result = result := by
  induction elements with
  | nil => rfl
  | cons c rest ih =>
      rw [List.foldl_cons]
      have hnothing : addCheckRecord result c = result := by
        unfold addCheckRecord
        cases check? c <;> rfl
      rw [hnothing, ih]

section

variable {parse : Bytes → Option Value} {buffer : Bytes} {elements : List Value}

theorem parseDatadogCheckRun2pb_eq (hparse : parse (cString buffer) = some (.array elements))
    (clock : ℕ → Int64) :
    parseDatadogCheckRun2pb parse clock buffer =
      (checks elements).mapIdx fun i c => checkMetric (clock i) c.1 c.2 := by
  have hfold := foldl_addCheck clock elements []
  simp only [List.nil_append, List.length_nil, Nat.zero_add] at hfold
  simp only [parseDatadogCheckRun2pb, hparse, Option.bind_some, Value.array?, hfold]

theorem parseDatadogCheckRun2avro_eq (hparse : parse (cString buffer) = some (.array elements)) :
    parseDatadogCheckRun2avro parse buffer = [] := by
  simp only [parseDatadogCheckRun2avro, hparse, Option.bind_some, Value.array?,
    foldl_addCheckRecord]

theorem pb_kept_iff (hparse : parse (cString buffer) = some (.array elements)) :
    (∀ clock, List.Forall₂ (fun c m => Kept c.1 (metricView m)) (checks elements)
        (parseDatadogCheckRun2pb parse clock buffer)) ↔
      ∀ c ∈ checks elements, ReadRight c.1 := by
  simp only [parseDatadogCheckRun2pb_eq hparse, Numbered.forall₂_mapIdx_iff]
  rw [List.forall_mem_iff_forall_getElem]
  constructor
  · intro hall i hi
    exact readRight_of_kept (hall (fun _ => 0) i hi)
  · intro hright clock i hi
    exact kept_of_readRight (hright i hi) _ _

end

/-- The checks of a document are kept by the parser for the grpc interface exactly when
they are read right, and by the one for kafka exactly when there are none. -/
theorem check_run_kept_iff (parse : Bytes → Option Value) (buffer : Bytes)
    (elements : List Value) (hparse : parse (cString buffer) = some (.array elements)) :
    ((∀ clock, List.Forall₂ (fun c m => Kept c.1 (metricView m)) (checks elements)
          (parseDatadogCheckRun2pb parse clock buffer)) ↔
        ∀ c ∈ checks elements, ReadRight c.1) ∧
      (List.Forall₂ (fun c m => Kept c.1 (recordView m)) (checks elements)
          (parseDatadogCheckRun2avro parse buffer) ↔ checks elements = []) := by
  refine ⟨pb_kept_iff hparse, ?_⟩
  rw [parseDatadogCheckRun2avro_eq hparse, List.forall₂_nil_right_iff]

/-- A check that was in order in 2019. -/
def uptimeCheck : Members :=
  [(bytes "check", .string (bytes "system.up")),
    (bytes "timestamp", .integer ⟨1569223641, by decide⟩),
    (bytes "status", .integer ⟨0, by decide⟩)]

def uptimeText : Bytes :=
  bytes "[\x7b\"check\":\"system.up\",\"timestamp\":1569223641,\"status\":0\x7d]"

/-- What rapidjson makes of this text. -/
def parseUptime (s : Bytes) : Option Value :=
  if s = uptimeText then some (.array [.object uptimeCheck]) else none

theorem parseUptime_eq :
    parseUptime (cString uptimeText) = some (.array [.object uptimeCheck]) :=
  if_pos (by decide +kernel)

theorem uptime_kept_iff :
    ((∀ clock, List.Forall₂ (fun c m => Kept c.1 (metricView m)) (checks [.object uptimeCheck])
          (parseDatadogCheckRun2pb parseUptime clock uptimeText)) ↔
        ∀ c ∈ checks [.object uptimeCheck], ReadRight c.1) ∧
      (List.Forall₂ (fun c m => Kept c.1 (recordView m)) (checks [.object uptimeCheck])
          (parseDatadogCheckRun2avro parseUptime uptimeText) ↔
        checks [.object uptimeCheck] = []) :=
  check_run_kept_iff parseUptime uptimeText [.object uptimeCheck] parseUptime_eq

/-- It is taken to be from the second 1. -/
theorem uptime_not_kept :
    ¬ ∀ (parse : Bytes → Option Value) (buffer : Bytes) (elements : List Value),
      parse (cString buffer) = some (.array elements) →
        (∀ clock, List.Forall₂ (fun c m => Kept c.1 (metricView m)) (checks elements)
            (parseDatadogCheckRun2pb parse clock buffer)) ∧
          List.Forall₂ (fun c m => Kept c.1 (recordView m)) (checks elements)
            (parseDatadogCheckRun2avro parse buffer) := by
  intro hall
  obtain ⟨hpb, -⟩ := hall parseUptime uptimeText _ parseUptime_eq
  have hmem : (uptimeCheck, bytes "system.up") ∈ checks [.object uptimeCheck] := by
    simp [checks, check?, Value.object?, findString, findMember, uptimeCheck, Value.string?]
  have hright := (pb_kept_iff parseUptime_eq).mp hpb _ hmem
  have hfound : findInteger uptimeCheck "timestamp" = some 1569223641 := by decide +kernel
  exact absurd (hright.timestamp _ hfound) (by decide)

end BbMonitor.Datadog
