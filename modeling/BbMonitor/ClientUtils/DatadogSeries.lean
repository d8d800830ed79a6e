import BbMonitor.ClientUtils.JsonParsing
import BbMonitor.Lib.Blocks
import BbMonitor.Lib.History

/-!
# The points of a series

Every point of two elements is to become a metric that depends on the point and on what
its series says about all of them (`dueMetric`).  The parser does make one metric of each
such point, in order.  Its message is `carried` from point to point, with the last time
and the last sample that were set.

* `setPoint_carried`, `run_spec`: one round of the loop, and all of them;
* `time_eq_iff`, `sample_eq_iff`: when the time and the sample of a round are those of
  the point;
* `splitName_cString_iff`: the name is the one of the document unless a NUL cuts it off.
-/

namespace BbMonitor.Datadog

open Json

/-! ## What is due -/

/-- A point of two elements. -/
def pair? : Value → Option (Value × Value)
  | .array [time, value] => some (time, value)
  | _ => none

/-- The points of two elements. -/
def pairs (members : Members) : List (Value × Value) :=
  ((findArray members "points").getD []).filterMap pair?

/-- The milliseconds, if the element is an integer of 64 bits, and so are they. -/
def milliseconds? (v : Value) : Option ℤ :=
  v.int64?.bind fun n => if -2 ^ 63 ≤ n * 1000 ∧ n * 1000 < 2 ^ 63 then some (n * 1000) else none

def dueSample (v : Value) : Measurement :=
  match v with
  | .double x => .doubleValue x
  | v =>
      match v.int64? with
      | some n => .longValue (Int64.ofInt n)
      | none => .notSet

/-- The parts in front of and behind the first dot. -/
def dueName (rawName : Bytes) : Bytes × Bytes :=
  match cut dot rawName with
  | some (ns, name) => (ns, replaceAll dot name)
  | none => (bytes "undef", rawName)

/-- The metric of a point, given those of its fields that are the same for all points. -/
def dueMetric (m : Metric) (p : Value × Value) : Metric :=
  { m with
    timestamp := Int64.ofInt ((milliseconds? p.1).getD 0)
    sample := dueSample p.2 }

/-- The fields that the metrics of a series have in common. -/
def dueCommon (members : Members) (rawName : Bytes) : Metric :=
  { Metric.empty with
    ns := (dueName rawName).1
    name := (dueName rawName).2
    labels := seriesLabels members }

/-- The metrics that are due for an element of `series`. -/
def dueSeries (s : Value) : List Metric :=
  match s.object? with
  | none => []
  | some members =>
      match findString members "metric" with
      | none => []
      | some rawName => (pairs members).map (dueMetric (dueCommon members rawName))

/-! ## What is carried from point to point -/

/-- The last time that 32 bits could hold. -/
def lastSeconds (before : List (Value × Value)) : ℤ :=
  (before.filterMap fun p => p.1.int?).getLastD 0

def lastSample (before : List (Value × Value)) : Measurement :=
  (before.filterMap fun p => measured p.2).getLastD .notSet

/-- The message behind these points. -/
def carried (m : Metric) (before : List (Value × Value)) : Metric :=
  { m with
    timestamp := Int64.ofInt (lastSeconds before * 1000)
    sample := lastSample before }

/-- A round of the loop for a point of two elements. -/
def addPair (state : Metric × List Metric) (p : Value × Value) : Metric × List Metric :=
  (setPoint state.1 p.1 p.2, state.2 ++ [setPoint state.1 p.1 p.2])

theorem addPoint_of_pair {pa : Value} {p : Value × Value} (hpair : pair? pa = some p)
    (state : Metric × List Metric) : addPoint state pa = addPair state p := by
  unfold pair? at hpair
  split at hpair
  · cases hpair
    rfl
  · cases hpair

theorem addPoint_of_no_pair {pa : Value} (hpair : pair? pa = none)
    (state : Metric × List Metric) : addPoint state pa = state := by
  unfold pair? at hpair
  split at hpair
  · cases hpair
  · rename_i hother
    unfold addPoint
    split
    · rename_i time value
      exact absurd rfl (hother time value)
    · rfl

theorem foldl_addPoint (points : List Value) (state : Metric × List Metric) :
    points.foldl addPoint state = (points.filterMap pair?).foldl addPair state := by
  induction points generalizing state with
  | nil => rfl
  | cons pa rest ih =>
      rw [List.foldl_cons, ih]
      cases hpair : pair? pa with
      | none => rw [addPoint_of_no_pair hpair, List.filterMap_cons_none hpair]
      | some p =>
          rw [addPoint_of_pair hpair, List.filterMap_cons_some hpair, List.foldl_cons]

theorem setPoint_carried (m : Metric) (before : List (Value × Value)) (p : Value × Value) :
    setPoint (carried m before) p.1 p.2 = carried m (before ++ [p]) := by
  have htime := History.getLastD_filterMap_concat (fun p : Value × Value => p.1.int?) before p 0
  have hsample :=
    History.getLastD_filterMap_concat (fun p : Value × Value => measured p.2) before p .notSet
  unfold setPoint carried lastSeconds lastSample
  rw [htime, hsample]
  cases p.1.int? with
  | none => cases measured p.2 <;> rfl
  | some seconds => cases measured p.2 <;> rfl

/-- The loop over the points: one metric for each, and all are as expected when each is. -/
theorem run_spec {m : Metric} (hm : carried m [] = m) (due : Value × Value → Metric)
    (points : List (Value × Value)) :
    (points.foldl addPair (m, [])).1 = carried m points ∧
      (points.foldl addPair (m, [])).2.length = points.length ∧
      ((points.foldl addPair (m, [])).2 = points.map due ↔
        ∀ before p, before ++ [p] <+: points → carried m (before ++ [p]) = due p) := by
  induction points using List.reverseRecOn with
  | nil => simp [hm]
  | append_singleton points p ih =>
      obtain ⟨hmessage, hlength, hiff⟩ := ih
      rw [List.foldl_concat, addPair, hmessage, setPoint_carried]
      refine ⟨rfl, by rw [List.length_append, List.length_append, hlength]; rfl, ?_⟩
      rw [List.map_append, List.map_singleton]
      constructor
      · intro heq
        obtain ⟨hold, hnew⟩ := List.append_inj heq (by rw [hlength, List.length_map])
        intro before q hbegin
        rcases List.prefix_concat_iff.mp hbegin with hlast | hearlier
        · obtain ⟨rfl, hq⟩ := List.append_inj' hlast rfl
          cases hq
          exact List.singleton_inj.mp hnew
        · exact hiff.mp hold before q hearlier
      · intro hall
        rw [hall points p List.prefix_rfl, hiff.mpr fun before q hbegin =>
          hall before q (hbegin.trans (List.prefix_append _ _))]

/-! ## The time of a point -/

theorem lastSeconds_range (before : List (Value × Value)) :
    -2 ^ 31 ≤ lastSeconds before ∧ lastSeconds before < 2 ^ 31 := by
  unfold lastSeconds
  rw [List.getLastD_eq_getLast?]
  cases hlast : (before.filterMap fun p => p.1.int?).getLast? with
  | none => decide
  | some n =>
      obtain ⟨p, -, hp⟩ := List.mem_filterMap.mp (List.mem_of_getLast? hlast)
      exact (int?_eq_some_iff.mp hp).2

theorem milliseconds?_eq_some_iff {v : Value} {ms : ℤ} :
    milliseconds? v = some ms ↔
      ∃ n, v.int64? = some n ∧ ms = n * 1000 ∧ -2 ^ 63 ≤ ms ∧ ms < 2 ^ 63 := by
  simp only [milliseconds?, Option.bind_eq_some_iff, Option.ite_none_right_eq_some,
    Option.some.injEq]
  constructor
  · rintro ⟨n, hn, hrange, rfl⟩
    exact ⟨n, hn, rfl, hrange⟩
  · rintro ⟨n, hn, rfl, hrange⟩
    exact ⟨n, hn, hrange, rfl⟩

theorem ofInt_inj {a b : ℤ} (ha : -2 ^ 63 ≤ a ∧ a < 2 ^ 63) (hb : -2 ^ 63 ≤ b ∧ b < 2 ^ 63) :
    Int64.ofInt a = Int64.ofInt b ↔ a = b := by
  constructor
  · intro heq
    have htoInt := congrArg Int64.toInt heq
    rwa [Int64.toInt_ofInt_of_le ha.1 ha.2, Int64.toInt_ofInt_of_le hb.1 hb.2] at htoInt
  · rintro rfl
    rfl

theorem milliseconds?_of_int? {v : Value} {n : ℤ} (hn : v.int? = some n) :
    milliseconds? v = some (n * 1000) := by
  obtain ⟨hinteger, hlow, hhigh⟩ := int?_eq_some_iff.mp hn
  have hn64 : v.int64? = some n := int64?_eq_some_iff.mpr ⟨hinteger, by omega⟩
  exact milliseconds?_eq_some_iff.mpr ⟨n, hn64, rfl, by omega, by omega⟩

/-- The time is right if 32 bits hold the seconds, or if there is none and none is left
from an earlier point. -/
theorem time_eq_iff (before : List (Value × Value)) (v : Value) :
    Int64.ofInt (v.int?.getD (lastSeconds before) * 1000) =
        Int64.ofInt ((milliseconds? v).getD 0) ↔
      v.int?.isSome ∨ milliseconds? v = none ∧ lastSeconds before = 0 := by
  obtain ⟨hlow, hhigh⟩ := lastSeconds_range before
  have hlast : -2 ^ 63 ≤ lastSeconds before * 1000 ∧ lastSeconds before * 1000 < 2 ^ 63 := by omega
  cases hint : v.int? with
  | some n => simp [milliseconds?_of_int? hint]
  | none =>
      cases hms : milliseconds? v with
      | none =>
          rw [Option.getD_none, Option.getD_none, ofInt_inj hlast (by decide), Option.isSome_none]
          simp only [Bool.false_eq_true, true_and, false_or]
          omega
      | some ms =>
          obtain ⟨n, hn, rfl, hrange⟩ := milliseconds?_eq_some_iff.mp hms
          rw [Option.getD_none, Option.getD_some, ofInt_inj hlast hrange]
          refine iff_of_false (fun heq => ?_) (by simp)
          -- 32 bits would hold the seconds.
          have hsmall : v.int? = some n :=
            int?_eq_some_iff.mpr ⟨(int64?_eq_some_iff.mp hn).1, by omega, by omega⟩
          rw [hint] at hsmall
          cases hsmall

/-! ## The sample of a point -/

theorem dueSample_eq (v : Value) : dueSample v = (measured v).getD .notSet := by
  cases v with
  | integer n =>
      simp only [dueSample, measured]
      cases hint : (Value.integer n).int? with
      | none => cases (Value.integer n).int64? <;> rfl
      | some k =>
          obtain ⟨hinteger, hlow, hhigh⟩ := int?_eq_some_iff.mp hint
          rw [int64?_eq_some_iff.mpr ⟨hinteger, by omega⟩]
          rfl
  | double x => rfl
  | _ => rfl

theorem measured_ne_notSet {v : Value} : measured v ≠ some .notSet := by
  unfold measured
  split
  · simp
  · split
    · simp
    · simp

theorem lastSample_eq_notSet_iff (before : List (Value × Value)) :
    lastSample before = .notSet ↔ ∀ q ∈ before, measured q.2 = none := by
  unfold lastSample
  rw [List.getLastD_eq_getLast?]
  cases hlast : (before.filterMap fun p => measured p.2).getLast? with
  | none =>
      rw [List.getLast?_eq_none_iff, List.filterMap_eq_nil_iff] at hlast
      exact iff_of_true rfl hlast
  | some sample =>
      obtain ⟨p, hp, hsample⟩ := List.mem_filterMap.mp (List.mem_of_getLast? hlast)
      refine iff_of_false ?_ fun hnone => ?_
      · rintro rfl
        exact measured_ne_notSet hsample
      · rw [hnone p hp] at hsample
        cases hsample

/-- The sample is right if there is one, or if there was none so far. -/
theorem sample_eq_iff (before : List (Value × Value)) (v : Value) :
    (measured v).getD (lastSample before) = dueSample v ↔
      (measured v).isSome ∨ ∀ q ∈ before, measured q.2 = none := by
  rw [dueSample_eq]
  cases hv : measured v with
  | some sample => simp
  | none =>
      rw [Option.getD_none, Option.getD_none, lastSample_eq_notSet_iff]
      simp

/-! ## The name -/

theorem replaceAll_of_notMem {c : UInt8} {s : Bytes} (hc : c ∉ s) : replaceAll c s = s := by
  have hkept : ∀ x ∈ s, (if x = c then underscore else x) = id x := by
    intro x hx
    apply if_neg
    rintro rfl
    exact hc hx
  rw [replaceAll, List.map_congr_left hkept, List.map_id]

theorem length_replaceAll (c : UInt8) (s : Bytes) : (replaceAll c s).length = s.length :=
  List.length_map _

theorem dueName_of_notMem {rawName : Bytes} (hdot : dot ∉ rawName) :
    dueName rawName = (bytes "undef", rawName) := by
  rw [dueName, cut_of_notMem hdot]

theorem dueName_append_cons {ns name : Bytes} (hns : dot ∉ ns) :
    dueName (ns ++ dot :: name) = (ns, replaceAll dot name) := by
  rw [dueName, cut_append_cons hns]

/-- The search for a character, and the two `substr` calls. -/
theorem cut_eq_findFirstOf (c : UInt8) (s : Bytes) :
    cut c s = (findFirstOf s [c] 0).map fun pos => (s.take pos, s.drop (pos + 1)) := by
  rcases notMem_or_exists_line c s with hc | ⟨first, rest, rfl, hfirst⟩
  · have hfind : findFirstOf s [c] 0 = none :=
      findFirstOf_char_eq_none (by rwa [List.drop_zero])
    rw [cut_of_notMem hc, hfind, Option.map_none]
  · have hfind : findFirstOf (first ++ c :: rest) [c] 0 = some (0 + first.length) :=
      findFirstOf_char_eq_some List.drop_zero hfirst
    rw [cut_append_cons hfirst, hfind, Option.map_some, Nat.zero_add, List.take_left,
      drop_append_cons]

theorem splitName_eq_dueName (rawName : Bytes) : splitName rawName = dueName rawName := by
  rw [splitName, dueName, cut_eq_findFirstOf]
  cases hfind : findFirstOf rawName [dot] 0 with
  | some separatorPos => rfl
  | none =>
      have hother : ∀ x ∈ rawName, x ≠ dot := by simpa [findFirstOf] using hfind
      have hdot : dot ∉ rawName := fun hmem => hother dot hmem rfl
      rw [replaceAll_of_notMem hdot]
      rfl

/-- A NUL in the string shows, either in the namespace or in the length of the name. -/
theorem dueName_append_nul_ne (s rest : Bytes) : dueName s ≠ dueName (s ++ 0 :: rest) := by
  intro heq
  rcases notMem_or_exists_line dot s with hs | ⟨ns, name, rfl, hns⟩
  · rw [dueName_of_notMem hs] at heq
    rcases notMem_or_exists_line dot rest with hrest | ⟨more, name, rfl, hmore⟩
    · have hdot : dot ∉ s ++ 0 :: rest := by
        simp only [List.mem_append, List.mem_cons, not_or]
        exact ⟨hs, by decide, hrest⟩
      rw [dueName_of_notMem hdot] at heq
      have hlength := congrArg (fun n => n.2.length) heq
      simp at hlength
    · have hns : dot ∉ s ++ 0 :: more := by
        simp only [List.mem_append, List.mem_cons, not_or]
        exact ⟨hs, by decide, hmore⟩
      have hsplit : s ++ 0 :: (more ++ dot :: name) = (s ++ 0 :: more) ++ dot :: name := by simp
      rw [hsplit, dueName_append_cons hns, Prod.mk.injEq] at heq
      have hmem : (0 : UInt8) ∈ bytes "undef" := by
        rw [heq.1]
        simp
      exact absurd hmem (by decide)
  · have hsplit : (ns ++ dot :: name) ++ 0 :: rest = ns ++ dot :: (name ++ 0 :: rest) := by simp
    rw [hsplit, dueName_append_cons hns, dueName_append_cons hns, Prod.mk.injEq] at heq
    have hlength := congrArg List.length heq.2
    rw [length_replaceAll, length_replaceAll, List.length_append, List.length_cons] at hlength
    omega

theorem splitName_cString_iff (rawName : Bytes) :
    splitName (cString rawName) = dueName rawName ↔ 0 ∉ rawName := by
  rw [splitName_eq_dueName]
  constructor
  · intro heq hmem
    obtain ⟨rest, hsplit⟩ := exists_eq_cString_append hmem
    apply dueName_append_nul_ne (cString rawName) rest
    rwa [← hsplit]
  · intro hnul
    rw [cString_eq_self hnul]

/-! ## All series -/

/-- Behind these points, the point leaves nothing of them in the message. -/
structure Fresh (before : List (Value × Value)) (p : Value × Value) : Prop where
  time : p.1.int?.isSome ∨ milliseconds? p.1 = none ∧ lastSeconds before = 0
  sample : (measured p.2).isSome ∨ ∀ q ∈ before, measured q.2 = none

/-- The points are read as they are, and so is the name if there are any. -/
def Faithful (s : Value) : Prop :=
  ∀ members rawName, s.object? = some members → findString members "metric" = some rawName →
    ∀ before p, before ++ [p] <+: pairs members → 0 ∉ rawName ∧ Fresh before p

theorem carried_eq_due_iff (members : Members) (rawName : Bytes)
    (before : List (Value × Value)) (p : Value × Value) :
    carried (seriesMetric members (cString rawName)) (before ++ [p]) =
        dueMetric (dueCommon members rawName) p ↔
      0 ∉ rawName ∧ Fresh before p := by
  have htime := History.getLastD_filterMap_concat (fun p : Value × Value => p.1.int?) before p 0
  have hsample :=
    History.getLastD_filterMap_concat (fun p : Value × Value => measured p.2) before p .notSet
  have hcarried : carried (seriesMetric members (cString rawName)) (before ++ [p]) =
      { seriesMetric members (cString rawName) with
        timestamp := Int64.ofInt (p.1.int?.getD (lastSeconds before) * 1000)
        sample := (measured p.2).getD (lastSample before) } := by
    unfold carried lastSeconds lastSample
    rw [htime, hsample]
  rw [hcarried, dueMetric, Metric.mk.injEq, time_eq_iff, sample_eq_iff, ← splitName_cString_iff,
    Prod.ext_iff]
  constructor
  · rintro ⟨hns, hname, -, hnew, hset⟩
    exact ⟨⟨hns, hname⟩, hset, hnew⟩
  · rintro ⟨⟨hns, hname⟩, hset, hnew⟩
    exact ⟨hns, hname, rfl, hnew, hset⟩

section

variable {s : Value} {members : Members} {rawName : Bytes}

theorem seriesMetrics_eq (hobject : s.object? = some members)
    (hmetric : findString members "metric" = some rawName) :
    seriesMetrics s =
      ((pairs members).foldl addPair (seriesMetric members (cString rawName), [])).2 := by
  unfold seriesMetrics pairs
  simp only [hobject, hmetric]
  cases findArray members "points" with
  | none => rfl
  | some points =>
      simp only [Option.getD_some]
      rw [foldl_addPoint]

theorem dueSeries_eq (hobject : s.object? = some members)
    (hmetric : findString members "metric" = some rawName) :
    dueSeries s = (pairs members).map (dueMetric (dueCommon members rawName)) := by
  unfold dueSeries
  simp only [hobject, hmetric]

end

/-- There are as many metrics as are due, and they are the ones that are due when the
points are read as they are. -/
theorem seriesMetrics_spec (s : Value) :
    (seriesMetrics s).length = (dueSeries s).length ∧
      (seriesMetrics s = dueSeries s ↔ Faithful s) := by
  unfold Faithful
  cases hobject : s.object? with
  | none => simp [seriesMetrics, dueSeries, hobject]
  | some members =>
      cases hmetric : findString members "metric" with
      | none =>
          refine ⟨by simp [seriesMetrics, dueSeries, hobject, hmetric], ?_⟩
          refine iff_of_true (by simp [seriesMetrics, dueSeries, hobject, hmetric]) ?_
          rintro _ rawName ⟨⟩ hraw
          rw [hmetric] at hraw
          cases hraw
      | some rawName =>
          rw [seriesMetrics_eq hobject hmetric, dueSeries_eq hobject hmetric]
          obtain ⟨-, hlength, hiff⟩ := @run_spec (seriesMetric members (cString rawName)) rfl
            (dueMetric (dueCommon members rawName)) (pairs members)
          refine ⟨by rw [hlength, List.length_map], ?_⟩
          simp only [hiff, carried_eq_due_iff]
          constructor
          · rintro hall _ _ ⟨⟩ hraw
            obtain rfl : rawName = _ := Option.some.inj (hmetric.symm.trans hraw)
            exact hall
          · intro hall
            exact hall members rawName rfl hmetric

/-- A document with series is turned into the metrics that are due exactly when in every
series the points are read as they are. -/
theorem series_parsed_iff (parse : Bytes → Option Value) (buffer : Bytes) (members : Members)
    (serie : List Value) (hparse : parse (cString buffer) = some (.object members))
    (hseries : findArray members "series" = some serie) :
    parseDatadogSeries2pb parse buffer = some (serie.flatMap dueSeries) ↔
      ∀ s ∈ serie, Faithful s := by
  have hresult : parseDatadogSeries2pb parse buffer = some (serie.flatMap seriesMetrics) := by
    simp [parseDatadogSeries2pb, hparse, Value.object?, hseries]
  rw [hresult, Option.some.injEq]
  calc serie.flatMap seriesMetrics = serie.flatMap dueSeries
      ↔ ∀ s ∈ serie, seriesMetrics s = dueSeries s :=
        Blocks.flatMap_eq_iff fun s _ => (seriesMetrics_spec s).1
    _ ↔ ∀ s ∈ serie, Faithful s := forall₂_congr fun s _ => (seriesMetrics_spec s).2

/-- A series with points in 1970 and in 2100. -/
def twoPoints : Value :=
  .object
    [(bytes "metric", .string (bytes "system.load")),
      (bytes "points", .array
        [.array [.integer ⟨60, by decide⟩, .integer ⟨1, by decide⟩],
          .array [.integer ⟨4102444800, by decide⟩, .integer ⟨2, by decide⟩]])]

def twoPointsText : Bytes :=
  bytes "\x7b\"series\":[\x7b\"metric\":\"system.load\",\"points\":[[60,1],[4102444800,2]]\x7d]\x7d"

/-- What rapidjson makes of this text. -/
def parseTwoPoints (s : Bytes) : Option Value :=
  if s = twoPointsText then some (.object [(bytes "series", .array [twoPoints])]) else none

theorem parseTwoPoints_eq :
    parseTwoPoints (cString twoPointsText) =
      some (.object [(bytes "series", .array [twoPoints])]) :=
  if_pos (by decide +kernel)

theorem findArray_series (serie : List Value) :
    findArray [(bytes "series", .array serie)] "series" = some serie := by
  simp [findArray, findMember, Value.array?]

theorem twoPoints_series_parsed :
    parseDatadogSeries2pb parseTwoPoints twoPointsText = some ([twoPoints].flatMap dueSeries) ↔
      ∀ s ∈ [twoPoints], Faithful s :=
  series_parsed_iff parseTwoPoints twoPointsText _ [twoPoints] parseTwoPoints_eq
    (findArray_series _)

/-- The second metric has the time of the first. -/
theorem twoPoints_not_due :
    ¬ ∀ (parse : Bytes → Option Value) (buffer : Bytes) (members : Members) (serie : List Value),
      parse (cString buffer) = some (.object members) →
        findArray members "series" = some serie →
          parseDatadogSeries2pb parse buffer = some (serie.flatMap dueSeries) := by
  intro hall
  have htimes := congrArg (Option.map (List.map Metric.timestamp))
    (hall parseTwoPoints twoPointsText _ [twoPoints] parseTwoPoints_eq (findArray_series _))
  revert htimes
  decide +kernel

end BbMonitor.Datadog
