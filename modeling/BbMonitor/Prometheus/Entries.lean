import BbMonitor.Lib.Numbered
import BbMonitor.Prometheus.Bodies

/-!
# Well-formed bodies

A line of a well-formed body is empty, a comment, or an entry: a name, perhaps a block
of labels, the value and perhaps a time stamp, with blanks between them.  What there is
in a block is left open, except that it has no closing brace.

The parser finds the parts one by one, each search starting where the one before it has
ended.  `parseHead_of_block` and `parseHead_of_no_block` say where the search for the
value starts, `parseValue_alone` and `parseValue_stamped` what is cut out from there.
-/

namespace BbMonitor.Prometheus

/-! ## The lines of a well-formed body -/

/-- A name, a value or a time stamp. -/
structure Token where
  text : Bytes
  text_ne_nil : text ≠ []
  space_notMem : space ∉ text
  leftBrace_notMem : leftBrace ∉ text
  lineFeed_notMem : lineFeed ∉ text

/-- What stands between the braces. -/
structure Block where
  text : Bytes
  rightBrace_notMem : rightBrace ∉ text
  lineFeed_notMem : lineFeed ∉ text

/-- `n + 1` blanks. -/
def blanks (n : ℕ) : Bytes := List.replicate (n + 1) space

/-- A sample; blanks are counted behind the first one. -/
structure Entry where
  name : Token
  name_comment : name.text.head? ≠ some hashMark
  block : Option Block
  gap : ℕ
  value : Token
  stamp : Option (ℕ × Token)

namespace Entry

variable (entry : Entry)

def blockText : Bytes :=
  match entry.block with
  | none => []
  | some block => leftBrace :: (block.text ++ [rightBrace])

def stampText : Bytes :=
  match entry.stamp with
  | none => []
  | some (gap, token) => blanks gap ++ token.text

/-- The line, without its line feed. -/
def text : Bytes :=
  entry.name.text ++
    (entry.blockText ++ (blanks entry.gap ++ (entry.value.text ++ entry.stampText)))

/-- What is to be read from the line at the time `now`. -/
def metric (atof : Bytes → Double) (atoll : Bytes → Int64) (jobId instanceId : Bytes)
    (now : Int64) : Metric where
  ns := jobId
  name := entry.name.text
  labels :=
    match entry.block with
    | none => []
    | some block => parseBbMetricsLabels jobId instanceId block.text
  sample := .doubleValue (atof entry.value.text)
  timestamp :=
    match entry.stamp with
    | none => now
    | some (_, token) => atoll token.text

end Entry

inductive Line where
  | empty
  | comment (text : Bytes) (clean : lineFeed ∉ text)
  | sample (entry : Entry)

def Line.text : Line → Bytes
  | .empty => []
  | .comment text _ => hashMark :: text
  | .sample entry => entry.text

def Line.entry? : Line → Option Entry
  | .sample entry => some entry
  | _ => none

/-- The lines, each with its line feed. -/
def body (document : List Line) : Bytes :=
  terminated lineFeed (document.map Line.text)

/-- The entries, in order. -/
def entries (document : List Line) : List Entry :=
  document.filterMap Line.entry?

/-! ## The parts of a line -/

section

variable {jobId instanceId line name after value stamp : Bytes} {p n : ℕ} {c : UInt8}

theorem space_of_mem_blanks (hmem : c ∈ blanks n) : c = space :=
  List.eq_of_mem_replicate hmem

theorem notMem_blanks (hc : c ≠ space) : c ∉ blanks n :=
  fun hmem => hc (space_of_mem_blanks hmem)

/-- Without a block, the search for the value starts behind the name. -/
theorem parseHead_of_no_block (hbrace : leftBrace ∉ name ++ space :: after) (hname : space ∉ name) :
    parseHead jobId instanceId (name ++ space :: after) =
      some
        { name := name
          labels := []
          valueBegin :=
            findFirstNotOf (name ++ space :: after) [space] (0 + name.length + 1) } := by
  have hfind : findFirstOf (name ++ space :: after) [space] 0 = some (0 + name.length) :=
    findFirstOf_char_eq_some List.drop_zero hname
  rw [parseHead_of_notMem hbrace, hfind, takeTo, Nat.zero_add, List.take_left]
  rfl

/-- The value begins behind the blanks. -/
theorem findFirstNotOf_blanks (hdrop : line.drop p = List.replicate n space ++ c :: after)
    (hc : c ≠ space) : findFirstNotOf line [space] p = some (p + n) := by
  have hblank : ∀ x ∈ List.replicate n space, x ∈ [space] :=
    fun x hx => List.mem_singleton.mpr (List.eq_of_mem_replicate hx)
  rw [findFirstNotOf_eq_some hdrop hblank (by simpa using hc), List.length_replicate]

theorem parseValue_alone (hdrop : line.drop p = value) (hvalue : space ∉ value) :
    parseValue line p = (value, []) := by
  have hfind : findFirstOf line [space] p = none :=
    findFirstOf_char_eq_none (by rwa [hdrop])
  simp only [parseValue, hfind, hdrop]

theorem parseValue_stamped (hdrop : line.drop p = value ++ (blanks n ++ c :: stamp))
    (hvalue : space ∉ value) (hc : c ≠ space) : parseValue line p = (value, c :: stamp) := by
  have hsplit : line.drop p = value ++ space :: (List.replicate n space ++ c :: stamp) := by
    rw [hdrop, blanks, List.replicate_succ, List.cons_append]
  have hend : findFirstOf line [space] p = some (p + value.length) :=
    findFirstOf_char_eq_some hsplit hvalue
  have hbehind : line.drop (p + value.length + 1) = List.replicate n space ++ c :: stamp := by
    rw [Nat.add_assoc, ← List.drop_drop, hsplit, drop_append_cons]
  have hbegin := findFirstNotOf_blanks hbehind hc
  have hcut : (line.drop p).take (p + value.length - p) = value := by
    rw [hsplit, Nat.add_sub_cancel_left, List.take_left]
  have hstamp : line.drop (p + value.length + 1 + n) = c :: stamp := by
    rw [← List.drop_drop, hbehind, List.drop_left' List.length_replicate]
  simp only [parseValue, hend, hbegin, hcut, hstamp]

end

/-! ## One entry -/

section

variable (atof : Bytes → Double) (atoll : Bytes → Int64) (jobId instanceId : Bytes)

theorem Token.exists_cons (token : Token) :
    ∃ c rest, token.text = c :: rest ∧ c ≠ space := by
  obtain ⟨c, rest, htext⟩ := List.exists_cons_of_ne_nil token.text_ne_nil
  refine ⟨c, rest, htext, ?_⟩
  rintro rfl
  exact token.space_notMem (by simp [htext])

namespace Entry

variable (entry : Entry)

/-- What is read where the value begins. -/
theorem parseValue_eq {line : Bytes} {p : ℕ}
    (hdrop : line.drop p = entry.value.text ++ entry.stampText) :
    parseValue line p = (entry.value.text, (entry.stamp.elim [] fun s => s.2.text)) := by
  unfold stampText at hdrop
  cases hstamp : entry.stamp with
  | none =>
      simp only [hstamp, List.append_nil] at hdrop
      exact parseValue_alone hdrop entry.value.space_notMem
  | some stamp =>
      obtain ⟨c, rest, htext, hc⟩ := stamp.2.exists_cons
      simp only [hstamp, htext] at hdrop
      rw [parseValue_stamped hdrop entry.value.space_notMem hc, Option.elim_some, htext]

/-- Where the value begins, if the search for it starts in front of the blanks. -/
theorem valueBegin_eq {line : Bytes} {p n : ℕ}
    (hdrop : line.drop p = List.replicate n space ++ (entry.value.text ++ entry.stampText)) :
    findFirstNotOf line [space] p = some (p + n) ∧
      line.drop (p + n) = entry.value.text ++ entry.stampText := by
  obtain ⟨c, rest, htext, hc⟩ := entry.value.exists_cons
  constructor
  · rw [htext, List.cons_append] at hdrop
    exact findFirstNotOf_blanks hdrop hc
  · rw [← List.drop_drop, hdrop, List.drop_left' List.length_replicate]

theorem notMem_stampText {c : UInt8} (hc : c ≠ space) (htoken : ∀ token : Token, c ∉ token.text) :
    c ∉ entry.stampText := by
  unfold stampText
  split
  · exact List.not_mem_nil
  · rename_i gap token _
    rw [List.mem_append, not_or]
    exact ⟨notMem_blanks hc, htoken token⟩

theorem leftBrace_notMem_tail :
    leftBrace ∉ blanks entry.gap ++ (entry.value.text ++ entry.stampText) := by
  have hspace : leftBrace ≠ space := by decide
  simp only [List.mem_append, not_or]
  exact ⟨notMem_blanks hspace, entry.value.leftBrace_notMem,
    entry.notMem_stampText hspace Token.leftBrace_notMem⟩

/-- The name and the labels are read, and the search for the value ends at the value. -/
theorem exists_head :
    ∃ valueBegin,
      parseHead jobId instanceId entry.text =
          some
            { name := entry.name.text
              labels := (entry.metric atof atoll jobId instanceId 0).labels
              valueBegin := some valueBegin } ∧
        entry.text.drop valueBegin = entry.value.text ++ entry.stampText := by
  cases hblock : entry.block with
  | none =>
      have htext : entry.text =
          entry.name.text ++ space ::
            (List.replicate entry.gap space ++ (entry.value.text ++ entry.stampText)) := by
        simp only [text, blockText, hblock, blanks, List.replicate_succ, List.nil_append,
          List.cons_append]
      have hbrace : leftBrace ∉ entry.text := by
        simp only [text, blockText, hblock, List.nil_append]
        rw [List.mem_append, not_or]
        exact ⟨entry.name.leftBrace_notMem, entry.leftBrace_notMem_tail⟩
      have hdrop : entry.text.drop (0 + entry.name.text.length + 1) =
          List.replicate entry.gap space ++ (entry.value.text ++ entry.stampText) := by
        rw [htext, Nat.zero_add, drop_append_cons]
      obtain ⟨hbegin, hvalue⟩ := entry.valueBegin_eq hdrop
      refine ⟨_, ?_, hvalue⟩
      rw [htext] at hbrace hbegin
      rw [htext, parseHead_of_no_block hbrace entry.name.space_notMem, hbegin]
      simp only [metric, hblock]
  | some block =>
      have htext : entry.text =
          entry.name.text ++ leftBrace :: (block.text ++ rightBrace ::
            (blanks entry.gap ++ (entry.value.text ++ entry.stampText))) := by
        simp only [text, blockText, hblock, List.cons_append, List.append_assoc, List.nil_append]
      have hdrop : entry.text.drop
          (0 + entry.name.text.length + 1 + block.text.length + 1) =
          List.replicate (entry.gap + 1) space ++ (entry.value.text ++ entry.stampText) := by
        rw [htext, Nat.add_assoc _ block.text.length, ← List.drop_drop, Nat.zero_add,
          drop_append_cons, drop_append_cons, blanks]
      obtain ⟨hbegin, hvalue⟩ := entry.valueBegin_eq hdrop
      refine ⟨_, ?_, hvalue⟩
      rw [htext] at hbegin
      rw [htext, parseHead_of_block entry.name.leftBrace_notMem block.rightBrace_notMem, hbegin]
      simp only [metric, hblock]

/-- An entry is read exactly. -/
theorem parseLine_text (now : Int64) :
    parseLine atof atoll jobId instanceId now entry.text =
      some (entry.metric atof atoll jobId instanceId now) := by
  obtain ⟨valueBegin, hhead, hdrop⟩ := entry.exists_head atof atoll jobId instanceId
  refine parseLine_eq_some_iff.mpr ⟨_, valueBegin, hhead, rfl, ?_⟩
  rw [entry.parseValue_eq hdrop]
  unfold metric
  cases hstamp : entry.stamp with
  | none => simp
  | some stamp =>
      have hpos : stamp.2.text.length ≠ 0 := fun hzero =>
        stamp.2.text_ne_nil (List.length_eq_zero_iff.mp hzero)
      simp [hpos]

theorem parsed_text : Parsed entry.text := by
  obtain ⟨c, rest, htext, -⟩ := entry.name.exists_cons
  have hcomment := entry.name_comment
  rw [htext, List.head?_cons] at hcomment
  refine ⟨by simp [text, htext], ?_⟩
  rwa [text, htext, List.cons_append, List.head?_cons]

theorem lineFeed_notMem_text : lineFeed ∉ entry.text := by
  have hspace : lineFeed ≠ space := by decide
  have hblock : lineFeed ∉ entry.blockText := by
    unfold blockText
    split
    · exact List.not_mem_nil
    · rename_i block _
      simp only [List.mem_cons, List.mem_append, List.not_mem_nil, or_false, not_or]
      exact ⟨by decide, block.lineFeed_notMem, by decide⟩
  simp only [text, List.mem_append, not_or]
  exact ⟨entry.name.lineFeed_notMem, hblock, notMem_blanks hspace, entry.value.lineFeed_notMem,
    entry.notMem_stampText hspace Token.lineFeed_notMem⟩

end Entry

/-! ## All the lines -/

theorem Line.lineFeed_notMem_text (line : Line) : lineFeed ∉ line.text := by
  cases line with
  | empty => exact List.not_mem_nil
  | comment text clean =>
      rw [Line.text, List.mem_cons, not_or]
      exact ⟨by decide, clean⟩
  | sample entry => exact entry.lineFeed_notMem_text

theorem lines_body (document : List Line) :
    lines lineFeed (body document) = document.map Line.text := by
  have hclean : ∀ line ∈ document.map Line.text, lineFeed ∉ line := by
    intro text htext
    obtain ⟨line, -, rfl⟩ := List.mem_map.mp htext
    exact line.lineFeed_notMem_text
  have hlines := lines_terminated_append hclean []
  rwa [List.append_nil, lines_of_notMem List.not_mem_nil, List.append_nil] at hlines

variable (clock : ℕ → Int64)

/-- What a line of a well-formed body adds. -/
theorem addLine_text (line : Line) (result : List Metric) :
    addLine atof atoll clock jobId instanceId result line.text =
      result ++ (line.entry?.map fun entry =>
        entry.metric atof atoll jobId instanceId (clock result.length)).toList := by
  cases line with
  | empty =>
      rw [Line.text, addLine_of_not_parsed (fun hparsed => hparsed.1 rfl)]
      simp [Line.entry?]
  | comment text clean =>
      rw [Line.text, addLine_of_not_parsed (fun hparsed => hparsed.2 rfl)]
      simp [Line.entry?]
  | sample entry =>
      rw [Line.text, addLine_of_parsed entry.parsed_text, entry.parseLine_text]
      rfl

theorem foldl_addLine_text (document : List Line) (result : List Metric) :
    (document.map Line.text).foldl (addLine atof atoll clock jobId instanceId) result =
      result ++ (entries document).mapIdx fun i entry =>
        entry.metric atof atoll jobId instanceId (clock (result.length + i)) := by
  rw [List.foldl_map]
  refine Numbered.foldl_eq_mapIdx Line.entry?
    (fun i entry => entry.metric atof atoll jobId instanceId (clock i)) ?_ result
  exact fun line _ result => addLine_text atof atoll jobId instanceId clock line result

/-- The parser returns the metrics of the entries; the clock is read where there is no
time stamp. -/
theorem parse_body (document : List Line) (hsize : (body document).length < 2 ^ 31) :
    parsePrometheusLineFormat2BbMetrics atof atoll clock jobId instanceId (body document) =
      .ok ((entries document).mapIdx fun i entry =>
        entry.metric atof atoll jobId instanceId (clock i)) := by
  rw [parse_eq_foldl atof atoll jobId instanceId clock hsize, lines_body, foldl_addLine_text]
  simp

end

/-- The metric from before the epoch, of the format's comment. -/
def somethingWeird : Entry where
  name := ⟨bytes "something_weird", by decide, by decide, by decide, by decide⟩
  name_comment := by decide
  block := some ⟨bytes "problem=\"division by zero\"", by decide, by decide⟩
  gap := 0
  value := ⟨bytes "+Inf", by decide, by decide, by decide, by decide⟩
  stamp := some (0, ⟨bytes "-3982045", by decide, by decide, by decide, by decide⟩)

theorem parse_body_somethingWeird :
    parsePrometheusLineFormat2BbMetrics (fun _ => 0) (fun _ => -3982045) (fun _ => 7)
        (bytes "job") [] (body [.comment (bytes " weird") (by decide), .empty,
          .sample somethingWeird]) =
      .ok ((entries [.comment (bytes " weird") (by decide), .empty,
          .sample somethingWeird]).mapIdx fun i entry =>
        entry.metric (fun _ => 0) (fun _ => -3982045) (bytes "job") [] ((fun _ => 7) i)) :=
  parse_body (fun _ => 0) (fun _ => -3982045) (bytes "job") [] (fun _ => 7) _ (by decide +kernel)

end BbMonitor.Prometheus
