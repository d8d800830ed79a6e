import BbMonitor.Prometheus.Lines

/-!
# Grouping labels

A metric that was pushed for a job is to carry the name of the job, and of the
instance if there is one.  They are attached where the block of labels is parsed.  A
line without a block, such as `some_metric 3.14`, gives a metric without labels
(`Bare`); every other metric is grouped.
-/

namespace BbMonitor.Prometheus

/-- The metric names its job and instance, and its labels are sorted. -/
structure Grouped (jobId instanceId : Bytes) (metric : Metric) : Prop where
  ns : metric.ns = jobId
  sorted : metric.labels.Pairwise fun a b => a.key ≤ b.key
  job : ⟨bytes "job", jobId⟩ ∈ metric.labels
  instance_ : instanceId ≠ [] → ⟨bytes "instance", instanceId⟩ ∈ metric.labels

/-- A line with a value but without a block of labels: no comment, no brace, and
somewhere behind a blank a character that is not one. -/
def Bare (line : Bytes) : Prop :=
  line.head? ≠ some hashMark ∧ leftBrace ∉ line ∧
    ∃ name rest, line = name ++ space :: rest ∧ ∃ c ∈ rest, c ≠ space

/-! ## One line -/

section

variable {atof : Bytes → Double} {atoll : Bytes → Int64} {jobId instanceId line : Bytes}
  {now : Int64} {metric : Metric}

theorem parseLine_eq_some_iff :
    parseLine atof atoll jobId instanceId now line = some metric ↔
      ∃ head valueBegin, parseHead jobId instanceId line = some head ∧
        head.valueBegin = some valueBegin ∧
        metric =
          { ns := jobId
            name := head.name
            labels := head.labels
            sample := .doubleValue (atof (parseValue line valueBegin).1)
            timestamp := if (parseValue line valueBegin).2.length ≠ 0
              then atoll (parseValue line valueBegin).2 else now } := by
  simp only [parseLine, Option.bind_eq_bind, Option.bind_eq_some_iff, Option.pure_def,
    Option.some.injEq]
  constructor
  · rintro ⟨head, hhead, valueBegin, hvalue, rfl⟩
    exact ⟨head, valueBegin, hhead, hvalue, rfl⟩
  · rintro ⟨head, valueBegin, hhead, hvalue, rfl⟩
    exact ⟨head, hhead, valueBegin, hvalue, rfl⟩

theorem grouped_of_block {block : Bytes} (hns : metric.ns = jobId)
    (hlabels : metric.labels = parseBbMetricsLabels jobId instanceId block) :
    Grouped jobId instanceId metric := by
  have hmem : ∀ label ∈ groupingLabels jobId instanceId, label ∈ metric.labels := by
    intro label hlabel
    rw [hlabels, parseBbMetricsLabels, (sortByLabelName_perm _).mem_iff]
    exact List.mem_append_right _ hlabel
  refine ⟨hns, ?_, hmem _ (by simp [groupingLabels]), fun hinstance => hmem _ ?_⟩
  · rw [hlabels]
    exact sorted_sortByLabelName _
  · have hpos : instanceId.length > 0 := List.length_pos_of_ne_nil hinstance
    simp [groupingLabels, hpos]

/-- The head of a line with a block. -/
theorem parseHead_of_mem {head : Head} (hbrace : leftBrace ∈ line)
    (hhead : parseHead jobId instanceId line = some head) :
    ∃ block, head.labels = parseBbMetricsLabels jobId instanceId block := by
  obtain ⟨before, after, hline, hbefore⟩ := List.eq_append_cons_of_mem hbrace
  have hfind := findFirstOf_char_eq_some (List.drop_zero.trans hline) hbefore
  unfold parseHead at hhead
  simp only [hfind] at hhead
  split at hhead
  · cases hhead
  · cases hhead
    exact ⟨_, rfl⟩

theorem parseHead_of_notMem (hbrace : leftBrace ∉ line) :
    parseHead jobId instanceId line =
      some
        { name := takeTo line (findFirstOf line [space] 0)
          labels := []
          valueBegin := (findFirstOf line [space] 0).bind fun p =>
            findFirstNotOf line [space] (p + 1) } := by
  have hfind : findFirstOf line [leftBrace] 0 = none :=
    findFirstOf_char_eq_none (by rwa [List.drop_zero])
  simp only [parseHead, hfind]

/-- With a block, the search for the value starts behind the closing brace. -/
theorem parseHead_of_block {name block after : Bytes} (hname : leftBrace ∉ name)
    (hblock : rightBrace ∉ block) :
    parseHead jobId instanceId (name ++ leftBrace :: (block ++ rightBrace :: after)) =
      some
        { name := name
          labels := parseBbMetricsLabels jobId instanceId block
          valueBegin := findFirstNotOf (name ++ leftBrace :: (block ++ rightBrace :: after)) [space]
            (0 + name.length + 1 + block.length + 1) } := by
  generalize hline : name ++ leftBrace :: (block ++ rightBrace :: after) = line
  have hopen : findFirstOf line [leftBrace] 0 = some (0 + name.length) :=
    findFirstOf_char_eq_some (by rw [← hline, List.drop_zero]) hname
  have hrest : line.drop (0 + name.length + 1) = block ++ rightBrace :: after := by
    rw [← hline, Nat.zero_add, drop_append_cons]
  have hclose : findFirstOf line [rightBrace] (0 + name.length + 1) =
      some (0 + name.length + 1 + block.length) := findFirstOf_char_eq_some hrest hblock
  have htags : (line.drop (0 + name.length + 1)).take
      (0 + name.length + 1 + block.length - (0 + name.length + 1)) = block := by
    rw [hrest, Nat.add_sub_cancel_left, List.take_left]
  have hbefore : line.take (0 + name.length + 1 - 1) = name := by
    rw [← hline, Nat.add_sub_cancel, Nat.zero_add, List.take_left]
  unfold parseHead
  simp only [hopen, hclose, htags, hbefore]

/-- Without a block, there is a value if a character comes behind the first blank. -/
theorem valueBegin_isSome_iff (line : Bytes) :
    ((findFirstOf line [space] 0).bind fun p => findFirstNotOf line [space] (p + 1)).isSome ↔
      ∃ name rest, line = name ++ space :: rest ∧ ∃ c ∈ rest, c ≠ space := by
  rcases notMem_or_exists_line space line with hnone | ⟨name, rest, hline, hname⟩
  · have hfind : findFirstOf line [space] 0 = none :=
      findFirstOf_char_eq_none (by rwa [List.drop_zero])
    rw [hfind]
    refine iff_of_false (by simp) ?_
    rintro ⟨name, rest, rfl, -⟩
    exact hnone (by simp)
  · have hfind := findFirstOf_char_eq_some (List.drop_zero.trans hline) hname
    have hrest : line.drop (0 + name.length + 1) = rest := by
      rw [hline, Nat.zero_add, drop_append_cons]
    rw [hfind, Option.bind_some, findFirstNotOf_isSome_iff, hrest]
    constructor
    · rintro ⟨c, hc, hspace⟩
      exact ⟨name, rest, hline, c, hc, by simpa using hspace⟩
    · rintro ⟨other, tail, hother, c, hc, hspace⟩
      refine ⟨c, ?_, by simpa using hspace⟩
      rcases eq_or_exists_of_append_cons_eq hname (hline.symm.trans hother) with
        rfl | ⟨more, rfl⟩
      · exact hc
      · exact List.mem_append_right _ (List.mem_cons_of_mem _ hc)

/-- The metric of a bare line has no labels. -/
theorem exists_parseLine_of_bare (hbare : Bare line) (now : Int64) :
    ∃ metric, parseLine atof atoll jobId instanceId now line = some metric ∧
      metric.labels = [] := by
  obtain ⟨-, hbrace, hvalue⟩ := hbare
  obtain ⟨valueBegin, hbegin⟩ :=
    Option.isSome_iff_exists.mp ((valueBegin_isSome_iff line).mpr hvalue)
  exact ⟨_, parseLine_eq_some_iff.mpr ⟨_, valueBegin, parseHead_of_notMem hbrace, hbegin, rfl⟩, rfl⟩

theorem not_grouped_of_labels (hlabels : metric.labels = []) :
    ¬ Grouped jobId instanceId metric := by
  intro hgrouped
  have hjob := hgrouped.job
  rw [hlabels] at hjob
  cases hjob

/-- The metric of any other line is grouped. -/
theorem grouped_of_parseLine (hcomment : line.head? ≠ some hashMark) (hbare : ¬ Bare line)
    (hparse : parseLine atof atoll jobId instanceId now line = some metric) :
    Grouped jobId instanceId metric := by
  obtain ⟨head, valueBegin, hhead, hbegin, rfl⟩ := parseLine_eq_some_iff.mp hparse
  by_cases hbrace : leftBrace ∈ line
  · obtain ⟨block, hblock⟩ := parseHead_of_mem hbrace hhead
    exact grouped_of_block rfl hblock
  · rw [parseHead_of_notMem hbrace] at hhead
    cases hhead
    have hvalue := (valueBegin_isSome_iff line).mp (Option.isSome_iff_exists.mpr ⟨_, hbegin⟩)
    exact absurd ⟨hcomment, hbrace, hvalue⟩ hbare

end

/-! ## All the lines -/

/-- The line is neither empty nor a comment. -/
def Parsed (line : Bytes) : Prop :=
  line ≠ [] ∧ line.head? ≠ some hashMark

section

variable {atof : Bytes → Double} {atoll : Bytes → Int64} {clock : ℕ → Int64}
  {jobId instanceId : Bytes}

theorem addLine_of_parsed {line : Bytes} (hparsed : Parsed line) (result : List Metric) :
    addLine atof atoll clock jobId instanceId result line =
      result ++ (parseLine atof atoll jobId instanceId (clock result.length) line).toList :=
  if_neg (not_or.mpr hparsed)

theorem addLine_of_not_parsed {line : Bytes} (hskipped : ¬ Parsed line) (result : List Metric) :
    addLine atof atoll clock jobId instanceId result line = result := by
  refine if_pos ?_
  by_contra hnot
  exact hskipped (not_or.mp hnot)

/-- Every metric comes from a line. -/
theorem exists_line_of_mem {visited : List Bytes} {result : List Metric} {metric : Metric}
    (hmem : metric ∈ visited.foldl (addLine atof atoll clock jobId instanceId) result) :
    metric ∈ result ∨ ∃ line ∈ visited, Parsed line ∧
      ∃ now, parseLine atof atoll jobId instanceId now line = some metric := by
  induction visited generalizing result with
  | nil => exact Or.inl hmem
  | cons line visited ih =>
      rcases ih hmem with hresult | ⟨other, hother, hparse⟩
      · by_cases hparsed : Parsed line
        · rw [addLine_of_parsed hparsed] at hresult
          rcases List.mem_append.mp hresult with hold | hnew
          · exact Or.inl hold
          · exact Or.inr ⟨line, List.mem_cons_self .., hparsed, _, Option.mem_toList.mp hnew⟩
        · rw [addLine_of_not_parsed hparsed] at hresult
          exact Or.inl hresult
      · exact Or.inr ⟨other, List.mem_cons_of_mem _ hother, hparse⟩

theorem mem_foldl_of_mem {metric : Metric} (visited : List Bytes) {result : List Metric}
    (hmem : metric ∈ result) :
    metric ∈ visited.foldl (addLine atof atoll clock jobId instanceId) result := by
  induction visited generalizing result with
  | nil => exact hmem
  | cons line visited ih =>
      apply ih
      by_cases hparsed : Parsed line
      · rw [addLine_of_parsed hparsed]
        exact List.mem_append_left _ hmem
      · rwa [addLine_of_not_parsed hparsed]

/-- Every line that is parsed gives its metric. -/
theorem exists_now_of_line {visited : List Bytes} {line : Bytes} (hline : line ∈ visited)
    (hparsed : Parsed line) (result : List Metric) :
    ∃ now, ∀ metric, parseLine atof atoll jobId instanceId now line = some metric →
      metric ∈ visited.foldl (addLine atof atoll clock jobId instanceId) result := by
  induction visited generalizing result with
  | nil => cases hline
  | cons first visited ih =>
      rcases List.mem_cons.mp hline with rfl | hmem
      · refine ⟨clock result.length, fun metric hmetric => mem_foldl_of_mem visited ?_⟩
        rw [addLine_of_parsed hparsed, hmetric]
        simp
      · exact ih hmem _

theorem parsed_of_bare {line : Bytes} (hbare : Bare line) : Parsed line := by
  obtain ⟨hcomment, -, name, rest, rfl, -⟩ := hbare
  exact ⟨by simp, hcomment⟩

/-- The metrics of these lines are grouped exactly when none of the lines is bare. -/
theorem grouped_foldl_iff (visited : List Bytes) :
    (∀ metric ∈ visited.foldl (addLine atof atoll clock jobId instanceId) [],
        Grouped jobId instanceId metric) ↔ ∀ line ∈ visited, ¬ Bare line := by
  constructor
  · intro hgrouped line hline hbare
    obtain ⟨now, hmem⟩ := @exists_now_of_line atof atoll clock jobId instanceId visited line
      hline (parsed_of_bare hbare) []
    obtain ⟨metric, hparse, hlabels⟩ := exists_parseLine_of_bare hbare now
    exact not_grouped_of_labels hlabels (hgrouped metric (hmem metric hparse))
  · intro hnone metric hmem
    rcases exists_line_of_mem hmem with hnil | ⟨line, hline, hparsed, now, hparse⟩
    · cases hnil
    · exact grouped_of_parseLine hparsed.2 (hnone line hline) hparse

end

/-! ## The whole body -/

/-- The lines that the parser comes to before it returns. -/
def visited (s : Bytes) : List Bytes :=
  match visitedLines s (s.length + 2) 0 with
  | .ok visited => visited
  | .error _ => []

theorem visitedLines_body {s : Bytes} (hsize : s.length < 2 ^ 31) :
    visitedLines s (s.length + 2) 0 = .ok (lines lineFeed s) :=
  visitedLines_eq_lines hsize [] s rfl (s.length + 2) (Nat.lt_succ_self _)

section

variable (atof : Bytes → Double) (atoll : Bytes → Int64) (clock : ℕ → Int64)
  (jobId instanceId s : Bytes)

/-- All metrics are grouped exactly when no line is bare.  When an `int` can index the
body, the parser returns and comes to every line. -/
theorem grouped_iff :
    ((∀ result, parsePrometheusLineFormat2BbMetrics atof atoll clock jobId instanceId s =
          .ok result → ∀ metric ∈ result, Grouped jobId instanceId metric) ↔
        ∀ line ∈ visited s, ¬ Bare line) ∧
      (s.length < 2 ^ 31 →
        visited s = lines lineFeed s ∧
          ∃ result, parsePrometheusLineFormat2BbMetrics atof atoll clock jobId instanceId s =
            .ok result) := by
  have hparse := linesLoop_eq atof atoll clock jobId instanceId s (s.length + 2) 0 []
  refine ⟨?_, fun hsize => ?_⟩
  · rw [parsePrometheusLineFormat2BbMetrics, hparse, visited]
    cases visitedLines s (s.length + 2) 0 with
    | error failure => simp [Except.map]
    | ok visited =>
        have hiff := @grouped_foldl_iff atof atoll clock jobId instanceId visited
        simpa [Except.map] using hiff
  · rw [visitedLines_body hsize] at hparse
    exact ⟨by rw [visited, visitedLines_body hsize], _, hparse⟩

end

/-- The sample of the usage text. -/
def minimalBody : Bytes := bytes "some_metric 3.14\n"

theorem minimalBody_not_grouped :
    ¬ ∀ (atof : Bytes → Double) (atoll : Bytes → Int64) (clock : ℕ → Int64)
        (jobId instanceId s : Bytes) (result : List Metric),
        parsePrometheusLineFormat2BbMetrics atof atoll clock jobId instanceId s = .ok result →
        ∀ metric ∈ result, Grouped jobId instanceId metric := by
  intro hall
  have hparse : parsePrometheusLineFormat2BbMetrics (fun _ => 0) (fun _ => 0) (fun _ => 0)
      (bytes "some_job") [] minimalBody =
        .ok [⟨bytes "some_job", bytes "some_metric", [], .doubleValue 0, 0⟩] := by
    decide +kernel
  have hgrouped := hall _ _ _ _ _ _ _ hparse _ (List.mem_singleton_self _)
  exact not_grouped_of_labels rfl hgrouped

end BbMonitor.Prometheus
