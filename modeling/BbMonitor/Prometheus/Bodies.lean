import BbMonitor.Prometheus.Grouping

/-!
# Bodies, line by line

What the parser makes of a body that an `int` can index is made line by line.  With
the clock standing still this is a law on bodies (`parse_append`): cut behind a line
feed, they are parsed piece by piece, so that what a malformed line is like makes no
difference to any other.
-/

namespace BbMonitor.Prometheus

variable (atof : Bytes → Double) (atoll : Bytes → Int64) (jobId instanceId : Bytes)

/-- In a body that an `int` can index, every line is added. -/
theorem parse_eq_foldl (clock : ℕ → Int64) {s : Bytes} (hsize : s.length < 2 ^ 31) :
    parsePrometheusLineFormat2BbMetrics atof atoll clock jobId instanceId s =
      .ok ((lines lineFeed s).foldl (addLine atof atoll clock jobId instanceId) []) := by
  rw [parsePrometheusLineFormat2BbMetrics, linesLoop_eq, visitedLines_body hsize]
  rfl

/-! ## A clock that stands still -/

/-- The metric of a line, if it gives one. -/
def lineMetric (now : Int64) (line : Bytes) : Option Metric :=
  if line = [] ∨ line.head? = some hashMark then none
  else parseLine atof atoll jobId instanceId now line

theorem foldl_addLine (now : Int64) (visited : List Bytes) (result : List Metric) :
    visited.foldl (addLine atof atoll (fun _ => now) jobId instanceId) result =
      result ++ visited.filterMap (lineMetric atof atoll jobId instanceId now) := by
  induction visited generalizing result with
  | nil => simp
  | cons line rest ih =>
      rw [List.foldl_cons, ih, addLine]
      by_cases hskipped : line = [] ∨ line.head? = some hashMark
      · have hnone : lineMetric atof atoll jobId instanceId now line = none := if_pos hskipped
        rw [if_pos hskipped, List.filterMap_cons_none hnone]
      · have hparsed : lineMetric atof atoll jobId instanceId now line =
            parseLine atof atoll jobId instanceId now line := if_neg hskipped
        rw [if_neg hskipped, List.append_assoc, ← hparsed]
        cases hmetric : lineMetric atof atoll jobId instanceId now line with
        | none => simp [hmetric]
        | some metric => simp [hmetric]

/-- The parser returns the metrics of the lines, each parsed on its own. -/
theorem parse_eq_filterMap (now : Int64) {s : Bytes} (hsize : s.length < 2 ^ 31) :
    parsePrometheusLineFormat2BbMetrics atof atoll (fun _ => now) jobId instanceId s =
      .ok ((lines lineFeed s).filterMap (lineMetric atof atoll jobId instanceId now)) := by
  rw [parse_eq_foldl atof atoll jobId instanceId _ hsize, foldl_addLine, List.nil_append]

/-- Behind a line feed the parser begins anew. -/
theorem parse_append (now : Int64) (a b : Bytes) (hend : a = [] ∨ a.getLast? = some lineFeed)
    (hsize : (a ++ b).length < 2 ^ 31) :
    ∃ before after,
      parsePrometheusLineFormat2BbMetrics atof atoll (fun _ => now) jobId instanceId a =
          .ok before ∧
        parsePrometheusLineFormat2BbMetrics atof atoll (fun _ => now) jobId instanceId b =
          .ok after ∧
        parsePrometheusLineFormat2BbMetrics atof atoll (fun _ => now) jobId instanceId (a ++ b) =
          .ok (before ++ after) := by
  have hlength : (a ++ b).length = a.length + b.length := List.length_append
  refine ⟨_, _, parse_eq_filterMap atof atoll jobId instanceId now (by omega),
    parse_eq_filterMap atof atoll jobId instanceId now (by omega), ?_⟩
  rw [parse_eq_filterMap atof atoll jobId instanceId now hsize, lines_append hend,
    List.filterMap_append]

/-- A block without an end makes no difference to the line behind it. -/
theorem parse_append_unclosed :
    ∃ before after,
      parsePrometheusLineFormat2BbMetrics (fun _ => 0) (fun _ => 0) (fun _ => 7) [] []
          (bytes "a\x7bb 1\n") = .ok before ∧
        parsePrometheusLineFormat2BbMetrics (fun _ => 0) (fun _ => 0) (fun _ => 7) [] []
          (bytes "c 2\n") = .ok after ∧
        parsePrometheusLineFormat2BbMetrics (fun _ => 0) (fun _ => 0) (fun _ => 7) [] []
          (bytes "a\x7bb 1\n" ++ bytes "c 2\n") = .ok (before ++ after) :=
  parse_append (fun _ => 0) (fun _ => 0) [] [] 7 (bytes "a\x7bb 1\n") (bytes "c 2\n")
    (Or.inr (by decide)) (by decide)

end BbMonitor.Prometheus
