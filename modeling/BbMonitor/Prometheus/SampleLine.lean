import BbMonitor.Prometheus.Grouping
import BbMonitor.Prometheus.RoundTrip

/-!
# A sample line, written and parsed

A sample line has a name, a block of rendered labels, and a value.  The parser gives a
metric with the labels of the block that ends at the first closing brace.

Behind the line, the cursor is its length as an `int`.  If that points into the line
again, which takes a line of `2 ^ 32` characters, the loop does not end.
-/

namespace BbMonitor.Prometheus

structure SampleLine where
  name : Bytes
  labels : List Label
  sample : Bytes
  name_comment : name.head? ≠ some hashMark
  name_brace : leftBrace ∉ name
  name_lineFeed : lineFeed ∉ name
  label_names : ∀ label ∈ labels, isLabelName label.key = true
  sample_lineFeed : lineFeed ∉ sample
  sample_value : ∃ c ∈ sample, c ≠ space

namespace SampleLine

variable (line : SampleLine)

def text : Bytes :=
  line.name ++ leftBrace :: (rendered line.labels ++ rightBrace :: line.sample)

def body : Bytes :=
  line.text ++ [lineFeed]

/-- Behind the line, the cursor does not point into it. -/
def Indexed : Prop :=
  line.body.length ≤ toSizeT (Int32.ofNat line.body.length).toInt

theorem indexed_of_lt (hsize : line.body.length < 2 ^ 32) : line.Indexed := by
  unfold Indexed toSizeT
  rw [Int32.toInt_ofNat', Int.bmod_def, Int32.size]
  split <;> omega

/-! ## The line as it is parsed -/

theorem lineFeed_notMem_text : lineFeed ∉ line.text := by
  have hlabels : lineFeed ∉ rendered line.labels :=
    notMem_rendered line.label_names (by decide) (by decide) fun label _ =>
      lineFeed_notMem_escape label.value
  simp only [text, List.mem_append, List.mem_cons, not_or]
  exact ⟨line.name_lineFeed, by decide, hlabels, by decide, line.sample_lineFeed⟩

theorem parsed_text : Parsed line.text := by
  have hname := line.name_comment
  refine ⟨by simp [text], ?_⟩
  unfold text
  cases hcase : line.name with
  | nil =>
      rw [List.nil_append, List.head?_cons]
      decide
  | cons c name =>
      rw [hcase] at hname
      simpa using hname

/-- The block ends at the first closing brace, and the value comes behind it. -/
theorem exists_after_block :
    ∃ after, rendered line.labels ++ rightBrace :: line.sample =
        block line.labels ++ rightBrace :: after ∧
      rightBrace ∉ block line.labels ∧ ∃ c ∈ after, c ≠ space := by
  have hblock : rightBrace ∉ block line.labels := by
    intro hmem
    exact absurd (List.mem_takeWhile_imp hmem) (by decide)
  obtain ⟨c, hc, hspace⟩ := line.sample_value
  rcases notMem_or_exists_line rightBrace (rendered line.labels) with
    hnone | ⟨first, rest, hlabels, hfirst⟩
  · have hall : block line.labels = rendered line.labels := by
      refine List.takeWhile_eq_self_iff.mpr fun x hx => decide_eq_true fun heq => hnone (heq ▸ hx)
    exact ⟨line.sample, by rw [hall], hblock, c, hc, hspace⟩
  · have hall : block line.labels = first := by
      have hkeep : ∀ x ∈ first, decide (x ≠ rightBrace) = true :=
        fun x hx => decide_eq_true fun heq => hfirst (heq ▸ hx)
      rw [block, hlabels, List.takeWhile_append_of_pos hkeep]
      simp
    refine ⟨rest ++ rightBrace :: line.sample, ?_, hblock, c, by simp [hc], hspace⟩
    rw [hall, hlabels]
    simp

section

variable (atof : Bytes → Double) (atoll : Bytes → Int64) (jobId instanceId : Bytes)

theorem exists_parseLine (now : Int64) :
    ∃ metric, parseLine atof atoll jobId instanceId now line.text = some metric ∧
      metric.labels = parseBbMetricsLabels jobId instanceId (block line.labels) := by
  obtain ⟨after, hsplit, hblock, hvalue⟩ := line.exists_after_block
  have htext : line.text =
      line.name ++ leftBrace :: (block line.labels ++ rightBrace :: after) := by
    rw [text, hsplit]
  have hbehind : line.text.drop (0 + line.name.length + 1 + (block line.labels).length + 1) =
      after := by
    rw [htext, Nat.zero_add, Nat.add_assoc _ (block line.labels).length, ← List.drop_drop,
      drop_append_cons, drop_append_cons]
  have hfound : ∃ x ∈ line.text.drop
      (0 + line.name.length + 1 + (block line.labels).length + 1), x ∉ [space] := by
    rw [hbehind]
    simpa using hvalue
  obtain ⟨valueBegin, hbegin⟩ :=
    Option.isSome_iff_exists.mp (findFirstNotOf_isSome_iff.mpr hfound)
  have hhead : parseHead jobId instanceId line.text =
      some
        { name := line.name
          labels := parseBbMetricsLabels jobId instanceId (block line.labels)
          valueBegin := some valueBegin } := by
    rw [htext] at hbegin
    rw [htext, parseHead_of_block line.name_brace hblock, hbegin]
  exact ⟨_, parseLine_eq_some_iff.mpr ⟨_, valueBegin, hhead, rfl, rfl⟩, rfl⟩

end

/-! ## The cursor behind the line -/

theorem findFirstOf_body {cursor : ℕ} (hcursor : cursor < line.body.length) :
    findFirstOf line.body [lineFeed] cursor = some line.text.length := by
  have hle : cursor ≤ line.text.length := by
    rw [body, List.length_append, List.length_singleton] at hcursor
    omega
  have hsplit : line.body.drop cursor = line.text.drop cursor ++ lineFeed :: [] := by
    rw [body, List.drop_append_of_le_length hle]
  have hclean : lineFeed ∉ line.text.drop cursor :=
    fun hmem => line.lineFeed_notMem_text (List.mem_of_mem_drop hmem)
  rw [findFirstOf_char_eq_some hsplit hclean, List.length_drop]
  congr 1
  omega

theorem length_body : line.body.length = line.text.length + 1 := by
  rw [body, List.length_append, List.length_singleton]

/-- Wherever the cursor points to in the line, the next cursor is behind it. -/
theorem visitedLines_round {cursor : Int32} (hcursor : toSizeT cursor.toInt < line.body.length)
    (rounds : ℕ) :
    visitedLines line.body (rounds + 1) cursor =
      (visitedLines line.body rounds (Int32.ofNat line.body.length)).map
        ((line.body.drop (toSizeT cursor.toInt)).take
          (line.text.length - toSizeT cursor.toInt) :: ·) := by
  rw [visitedLines, length_body]
  simp only [findFirstOf_body line hcursor]
  rw [if_neg (Nat.not_le_of_lt (length_body line ▸ hcursor))]

/-- A cursor that points into the line comes back to where it was. -/
theorem visitedLines_of_not_indexed (hnot : ¬ line.Indexed) (rounds : ℕ) :
    visitedLines line.body rounds (Int32.ofNat line.body.length) = .error .endless := by
  induction rounds with
  | zero => rfl
  | succ rounds ih =>
      rw [visitedLines_round line (Nat.lt_of_not_le hnot), ih]
      rfl

theorem visitedLines_of_indexed (hindexed : line.Indexed) (rounds : ℕ) :
    visitedLines line.body (rounds + 1) (Int32.ofNat line.body.length) = .ok [] := by
  rw [visitedLines]
  exact if_pos hindexed

theorem visitedLines_from_start (rounds : ℕ) :
    visitedLines line.body (rounds + 1) 0 =
      (visitedLines line.body rounds (Int32.ofNat line.body.length)).map (line.text :: ·) := by
  have hzero : toSizeT (0 : Int32).toInt = 0 := rfl
  have hpos : toSizeT (0 : Int32).toInt < line.body.length := by
    rw [hzero, length_body]
    omega
  rw [visitedLines_round line hpos, hzero, List.drop_zero, Nat.sub_zero, body, List.take_left]

section

variable (atof : Bytes → Double) (atoll : Bytes → Int64) (clock : ℕ → Int64)
  (jobId instanceId : Bytes)

/-- The line gives one metric, with the labels that are read of its block. -/
theorem comes_back_iff :
    (∃ metric, parsePrometheusLineFormat2BbMetrics atof atoll clock jobId instanceId line.body =
          .ok [metric] ∧
        metric.labels.Perm (line.labels ++ groupingLabels jobId instanceId)) ↔
      line.Indexed ∧ (read 0 (block line.labels)).Perm line.labels := by
  obtain ⟨parsed, hparsed, hlabels⟩ := line.exists_parseLine atof atoll jobId instanceId (clock 0)
  have hperm : parsed.labels.Perm (line.labels ++ groupingLabels jobId instanceId) ↔
      (read 0 (block line.labels)).Perm line.labels := by
    rw [hlabels, (parseBbMetricsLabels_perm jobId instanceId _).congr_left,
      List.perm_append_right_iff]
  rw [parsePrometheusLineFormat2BbMetrics, linesLoop_eq, visitedLines_from_start]
  by_cases hindexed : line.Indexed
  · have hadd : addLine atof atoll clock jobId instanceId [] line.text = [parsed] := by
      rw [addLine_of_parsed line.parsed_text, List.length_nil, hparsed]
      rfl
    rw [visitedLines_of_indexed line hindexed]
    simp only [Except.map, List.foldl_cons, List.foldl_nil, hadd, Except.ok.injEq,
      List.cons.injEq, and_true, exists_eq_left', hperm, hindexed, true_and]
  · rw [visitedLines_of_not_indexed line hindexed]
    simp [Except.map, hindexed]

/-- The line comes back with its labels exactly when each label is readable, and the
cursor does not point into the line again. -/
theorem round_trip_iff :
    (∃ metric, parsePrometheusLineFormat2BbMetrics atof atoll clock jobId instanceId line.body =
          .ok [metric] ∧
        metric.labels.Perm (line.labels ++ groupingLabels jobId instanceId)) ↔
      line.Indexed ∧ ∀ before label more, line.labels = before ++ label :: more →
        Readable (front before) label more := by
  rw [comes_back_iff, read_block_perm_iff line.label_names]

end

end SampleLine

/-- The line of the format's comment that shows how values are escaped. -/
def escapedLine : SampleLine where
  name := bytes "msdos_file_access_time_seconds"
  labels := [⟨bytes "path", bytes "C:\\DIR\\FILE.TXT"⟩,
    ⟨bytes "error", bytes "Cannot find file:\n\"FILE.TXT\""⟩]
  sample := bytes " 1.458255915e9"
  name_comment := by decide +kernel
  name_brace := by decide +kernel
  name_lineFeed := by decide +kernel
  label_names := by decide +kernel
  sample_lineFeed := by decide +kernel
  sample_value := by decide +kernel

theorem escapedLine_does_not_come_back :
    ¬ ∀ (atof : Bytes → Double) (atoll : Bytes → Int64) (clock : ℕ → Int64)
        (jobId instanceId : Bytes) (line : SampleLine),
        ∃ metric, parsePrometheusLineFormat2BbMetrics atof atoll clock jobId instanceId line.body =
            .ok [metric] ∧
          metric.labels.Perm (line.labels ++ groupingLabels jobId instanceId) := by
  intro hall
  have hback := hall (fun _ => 0) (fun _ => 0) (fun _ => 0) [] [] escapedLine
  have hperm := ((escapedLine.comes_back_iff _ _ _ _ _).mp hback).2
  revert hperm
  decide +kernel

end BbMonitor.Prometheus
