import BbMonitor.ClientUtils.KvFilter
import BbMonitor.Prometheus.Labels

/-!
# The lines of the exposition format

`parse_prometheus_line_format_2_bb_metrics` goes through a body line by line.  A line
that is empty, is a comment, has a block of labels without an end, or has no value is
skipped; any other gives a metric.

The cursor is an `int`, so that it comes out wrong behind a line feed beyond `2 ^ 31`.
`visitedLines` are the lines that the cursor comes to; the metrics are those of these
lines, one after the other (`linesLoop_eq`).  In a body that an `int` can index they
are the lines of the body (`visitedLines_eq_lines`).
-/

namespace BbMonitor.Prometheus

/-! ## The parser -/

/-- The part of a line in front of its value. -/
structure Head where
  name : Bytes
  labels : List Label
  valueBegin : Option ℕ

/-- The name and the labels; nothing if the labels have no end. -/
def parseHead (jobId instanceId line : Bytes) : Option Head :=
  match findFirstOf line [leftBrace] 0 with
  | some brace =>
      let startOfTags := brace + 1
      match findFirstOf line [rightBrace] startOfTags with
      | none => none
      | some endOfTags =>
          let tags := (line.drop startOfTags).take (endOfTags - startOfTags)
          some
            { name := line.take (startOfTags - 1)
              labels := parseBbMetricsLabels jobId instanceId tags
              valueBegin := findFirstNotOf line [space] (endOfTags + 1) }
  | none =>
      let firstSpace := findFirstOf line [space] 0
      some
        { name := takeTo line firstSpace
          labels := []
          valueBegin := firstSpace.bind fun p => findFirstNotOf line [space] (p + 1) }

/-- The characters of the value and of the time stamp. -/
def parseValue (line : Bytes) (valueBegin : ℕ) : Bytes × Bytes :=
  match findFirstOf line [space] valueBegin with
  | none => (line.drop valueBegin, [])
  | some valueEnd =>
      let value := (line.drop valueBegin).take (valueEnd - valueBegin)
      match findFirstNotOf line [space] (valueEnd + 1) with
      | none => (value, [])
      | some tsBegin => (value, line.drop tsBegin)

section

-- The conversions of the C library.
variable (atof : Bytes → Double) (atoll : Bytes → Int64)

/-- What a line that is neither empty nor a comment gives at the time `now`. -/
def parseLine (jobId instanceId : Bytes) (now : Int64) (line : Bytes) : Option Metric := do
  let head ← parseHead jobId instanceId line
  let valueBegin ← head.valueBegin
  let (value, ts) := parseValue line valueBegin
  return {
    ns := jobId
    name := head.name
    labels := head.labels
    sample := .doubleValue (atof value)
    timestamp := if ts.length ≠ 0 then atoll ts else now }

-- The clock when the metric with this number is built.
variable (clock : ℕ → Int64)

/-- The loop of `parse_prometheus_line_format_2_bb_metrics`. -/
def linesLoop (jobId instanceId s : Bytes) :
    ℕ → Int32 → List Metric → Except Failure (List Metric)
  | 0, _, _ => .error .endless
  | rounds + 1, lineCursor, result =>
      let begin := toSizeT lineCursor.toInt
      if s.length ≤ begin then .ok result
      else
        match findFirstOf s [lineFeed] begin with
        | none => .ok result
        | some nextLf =>
            let next := Int32.ofNat (nextLf + 1)
            if begin = nextLf then linesLoop jobId instanceId s rounds next result
            else if s[begin]? = some hashMark then linesLoop jobId instanceId s rounds next result
            else
              let line := (s.drop begin).take (nextLf - begin)
              match parseLine atof atoll jobId instanceId (clock result.length) line with
              | none => linesLoop jobId instanceId s rounds next result
              | some metric => linesLoop jobId instanceId s rounds next (result ++ [metric])

/-- `parse_prometheus_line_format_2_bb_metrics`. -/
def parsePrometheusLineFormat2BbMetrics (jobId instanceId s : Bytes) :
    Except Failure (List Metric) :=
  linesLoop atof atoll clock jobId instanceId s (s.length + 2) 0 []

end

/-! ## The lines that the cursor comes to -/

/-- The lines that the loop comes to. -/
def visitedLines (s : Bytes) : ℕ → Int32 → Except Failure (List Bytes)
  | 0, _ => .error .endless
  | rounds + 1, lineCursor =>
      let begin := toSizeT lineCursor.toInt
      if s.length ≤ begin then .ok []
      else
        match findFirstOf s [lineFeed] begin with
        | none => .ok []
        | some nextLf =>
            (visitedLines s rounds (Int32.ofNat (nextLf + 1))).map
              ((s.drop begin).take (nextLf - begin) :: ·)

section

variable (atof : Bytes → Double) (atoll : Bytes → Int64) (clock : ℕ → Int64)

/-- What the loop does with a line. -/
def addLine (jobId instanceId : Bytes) (result : List Metric) (line : Bytes) : List Metric :=
  if line = [] ∨ line.head? = some hashMark then result
  else result ++ (parseLine atof atoll jobId instanceId (clock result.length) line).toList

/-- One round of the loop, behind the search for the line feed. -/
theorem linesLoop_line {jobId instanceId s : Bytes} {begin nextLf : ℕ} (hle : begin ≤ nextLf)
    (hlt : nextLf < s.length) (next : List Metric → Except Failure (List Metric))
    (result : List Metric) :
    (if begin = nextLf then next result
      else if s[begin]? = some hashMark then next result
      else
        match parseLine atof atoll jobId instanceId (clock result.length)
            ((s.drop begin).take (nextLf - begin)) with
        | none => next result
        | some metric => next (result ++ [metric])) =
      next (addLine atof atoll clock jobId instanceId result
        ((s.drop begin).take (nextLf - begin))) := by
  by_cases hempty : begin = nextLf
  · simp [addLine, hempty]
  · have hpos : nextLf - begin ≠ 0 := by omega
    have hhead : ((s.drop begin).take (nextLf - begin)).head? = s[begin]? := by
      rw [List.head?_take, if_neg hpos, List.head?_drop]
    rw [if_neg hempty, addLine, hhead]
    by_cases hcomment : s[begin]? = some hashMark
    · rw [if_pos hcomment, if_pos (Or.inr hcomment)]
    · have hline : (s.drop begin).take (nextLf - begin) ≠ [] := by
        intro hnil
        have hlength := congrArg List.length hnil
        rw [List.length_take, List.length_drop, List.length_nil] at hlength
        omega
      rw [if_neg hcomment, if_neg (not_or.mpr ⟨hline, hcomment⟩)]
      cases parseLine atof atoll jobId instanceId (clock result.length)
          ((s.drop begin).take (nextLf - begin)) with
      | none => simp
      | some metric => simp

theorem linesLoop_eq (jobId instanceId s : Bytes) (rounds : ℕ) (lineCursor : Int32)
    (result : List Metric) :
    linesLoop atof atoll clock jobId instanceId s rounds lineCursor result =
      (visitedLines s rounds lineCursor).map fun visited =>
        visited.foldl (addLine atof atoll clock jobId instanceId) result := by
  induction rounds generalizing lineCursor result with
  | zero => rfl
  | succ rounds ih =>
      rw [linesLoop, visitedLines]
      generalize toSizeT lineCursor.toInt = begin
      by_cases hend : s.length ≤ begin
      · simp [hend]
        rfl
      · simp only [hend, if_false]
        cases hlf : findFirstOf s [lineFeed] begin with
        | none => rfl
        | some nextLf =>
            obtain ⟨hle, hlt⟩ := findFirstOf_bounds hlf
            refine (linesLoop_line atof atoll clock hle hlt _ result).trans ?_
            rw [ih]
            cases hmore : visitedLines s rounds (Int32.ofNat (nextLf + 1)) <;>
              simp only [hmore, Except.map, List.foldl_cons]

end

/-- In a body that an `int` can index, the cursor comes to every line. -/
theorem visitedLines_eq_lines {s : Bytes} (hsize : s.length < 2 ^ 31) (before text : Bytes)
    (hsplit : s = before ++ text) (rounds : ℕ) (hrounds : text.length + 1 < rounds) :
    visitedLines s rounds (Int32.ofNat before.length) = .ok (lines lineFeed text) := by
  induction rounds generalizing before text with
  | zero => omega
  | succ rounds ih =>
      have hlength : s.length = before.length + text.length := by rw [hsplit, List.length_append]
      rw [visitedLines]
      simp only [toSizeT_ofNat (show before.length < 2 ^ 31 by omega)]
      rcases notMem_or_exists_line lineFeed text with hnone | ⟨first, rest, htext, hfirst⟩
      · have hlf : findFirstOf s [lineFeed] before.length = none :=
          findFirstOf_char_eq_none (by rwa [hsplit, List.drop_left])
        simp only [hlf, lines_of_notMem hnone, ite_self]
      · rw [htext, List.length_append, List.length_cons] at hlength hrounds
        have hlf : findFirstOf s [lineFeed] before.length = some (before.length + first.length) :=
          findFirstOf_char_eq_some (by rw [hsplit, List.drop_left, htext]) hfirst
        have hmore :=
          ih (before ++ first ++ [lineFeed]) rest (by rw [hsplit, htext]; simp) (by omega)
        have hnext : (before ++ first ++ [lineFeed]).length = before.length + first.length + 1 := by
          simp only [List.length_append, List.length_singleton]
        have hline : (s.drop before.length).take (before.length + first.length - before.length) =
            first := by
          rw [hsplit, List.drop_left, Nat.add_sub_cancel_left, htext, List.take_left]
        rw [hnext] at hmore
        rw [if_neg (by omega)]
        simp only [hlf, hmore, hline]
        rw [htext, lines_append_cons hfirst]
        rfl

end BbMonitor.Prometheus
