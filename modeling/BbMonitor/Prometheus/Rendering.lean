import BbMonitor.Prometheus.Neighbours

/-!
# What is read of rendered labels

Labels are written as `name="value"`, with commas between them; backslashes,
quotation marks and line feeds in a value are escaped (`rendered`).

The parser separates the labels at every comma, also at those inside a value.  So
what it reads consists of one label for each that was written (`heard`), and of stray
labels from the commas in the values.  A stray label disappears only if its name is
empty, that is, if the comma is followed by `=` (`read_rendered`, `stray_rendered`).

The value that is heard of a label is the escaped one without its leading blanks, or
nothing, if the text that was cut out ends before the closing quotation mark; an empty
value can also run on into the next label (`firstValue`).
-/

namespace BbMonitor.Prometheus

/-! ## Reading a block of labels -/

/-- The text between the commas. -/
def pieces (text : Bytes) : List Bytes :=
  text.splitOn comma

/-- The labels that are read from the rest of a block when the cursor has come to it. -/
def read (cursor : ℕ) (text : Bytes) : List Label :=
  named (handed cursor (pieces text))

variable {text first rest : Bytes}

theorem pieces_of_notMem (hmem : comma ∉ text) : pieces text = [text] :=
  List.splitOn_eq_singleton hmem

theorem pieces_append_cons (hfirst : comma ∉ first) (rest : Bytes) :
    pieces (first ++ comma :: rest) = first :: pieces rest :=
  List.splitOn_append_cons_self_of_not_mem hfirst rest

theorem pieces_ne_nil (text : Bytes) : pieces text ≠ [] :=
  List.splitOn_ne_nil comma text

/-- Induction on a text, piece by piece. -/
theorem pieces_induction {P : Bytes → Prop} (hlast : ∀ text, comma ∉ text → P text)
    (hmore : ∀ first rest, comma ∉ first → P rest → P (first ++ comma :: rest)) (text : Bytes) :
    P text := by
  induction hlength : text.length using Nat.strong_induction_on generalizing text with
  | _ n ih =>
      rcases notMem_or_exists_line comma text with hmem | ⟨first, rest, rfl, hfirst⟩
      · exact hlast text hmem
      · refine hmore first rest hfirst (ih rest.length ?_ rest rfl)
        rw [← hlength, List.length_append, List.length_cons]
        omega

theorem comma_notMem_pieces (text : Bytes) : ∀ piece ∈ pieces text, comma ∉ piece := by
  induction text using pieces_induction with
  | hlast text hmem => simpa [pieces_of_notMem hmem] using hmem
  | hmore first rest hfirst ih =>
      rw [pieces_append_cons hfirst]
      exact List.forall_mem_cons.mpr ⟨hfirst, ih⟩

theorem joined_pieces (text : Bytes) : joined (pieces text) = text :=
  List.intercalate_splitOn comma

theorem read_of_notMem (hmem : comma ∉ text) (cursor : ℕ) : read cursor text = named [text] := by
  rw [read, pieces_of_notMem hmem, handed]

theorem read_append_cons (hfirst : comma ∉ first) (cursor : ℕ) (rest : Bytes) :
    read cursor (first ++ comma :: rest) =
      named [first ++ (comma :: rest).take cursor] ++ read (cursor + first.length + 1) rest := by
  obtain ⟨next, more, hpieces⟩ := List.exists_cons_of_ne_nil (pieces_ne_nil rest)
  rw [read, pieces_append_cons hfirst, hpieces, handed, ← hpieces, joined_pieces, read,
    ← named_cons]

theorem parseBbMetricsLabels_perm (jobId instanceId text : Bytes) :
    (parseBbMetricsLabels jobId instanceId text).Perm
      (read 0 text ++ groupingLabels jobId instanceId) := by
  have hloop := labelsLoop_joined (comma_notMem_pieces text) (pieces_ne_nil text)
    [] (text.length + 1) (by rw [joined_pieces]; exact Nat.lt_succ_self _) []
  rw [List.nil_append, List.nil_append, List.length_nil, joined_pieces] at hloop
  rw [parseBbMetricsLabels, hloop]
  exact sortByLabelName_perm _

/-! ## Labels as they are written -/

/-- `[a-zA-Z_]`. -/
def isNameStart (c : UInt8) : Bool :=
  (0x61 ≤ c ∧ c ≤ 0x7a) ∨ (0x41 ≤ c ∧ c ≤ 0x5a) ∨ c = 0x5f

/-- `[a-zA-Z0-9_]`. -/
def isNameChar (c : UInt8) : Bool :=
  isNameStart c ∨ (0x30 ≤ c ∧ c ≤ 0x39)

/-- `[a-zA-Z_][a-zA-Z0-9_]*`. -/
def isLabelName : Bytes → Bool
  | [] => false
  | first :: rest => isNameStart first && rest.all isNameChar

def escapeChar (c : UInt8) : Bytes :=
  if c = backslash then [backslash, backslash]
  else if c = quotationMark then [backslash, quotationMark]
  else if c = lineFeed then [backslash, 0x6e]
  else [c]

def escape (value : Bytes) : Bytes :=
  value.flatMap escapeChar

def renderLabel (label : Label) : Bytes :=
  label.key ++ equalsSign :: quotationMark :: (escape label.value ++ [quotationMark])

/-- The text between the braces. -/
def rendered (labels : List Label) : Bytes :=
  joined (labels.map renderLabel)

/-- What follows a label. -/
def following : List Label → Bytes
  | [] => []
  | next :: more => comma :: rendered (next :: more)

theorem rendered_cons (label : Label) (more : List Label) :
    rendered (label :: more) = renderLabel label ++ following more := by
  cases more with
  | nil => simp [rendered, following, joined_singleton]
  | cons next more =>
      rw [rendered, List.map_cons, List.map_cons, joined_cons_cons]
      rfl

/-- What stands in a name: none of the characters that the parser looks for. -/
theorem isNameChar_of_mem {key : Bytes} (hkey : isLabelName key = true) :
    ∀ c ∈ key, isNameChar c = true := by
  cases key with
  | nil => simp
  | cons first rest =>
      simp only [isLabelName, Bool.and_eq_true, List.all_eq_true] at hkey
      refine List.forall_mem_cons.mpr ⟨?_, hkey.2⟩
      simp [isNameChar, hkey.1]

theorem ne_nil_of_isLabelName {key : Bytes} (hkey : isLabelName key = true) : key ≠ [] := by
  rintro rfl
  cases hkey

theorem notMem_of_isLabelName {key : Bytes} (hkey : isLabelName key = true) {c : UInt8}
    (hc : isNameChar c = false) : c ∉ key := by
  intro hmem
  rw [isNameChar_of_mem hkey c hmem] at hc
  cases hc

/-! ## Stray labels -/

/-- What is read behind a label. -/
def readFollowing (cursor : ℕ) (labels : List Label) : List Label :=
  match labels with
  | [] => []
  | next :: more => read (cursor + 1) (rendered (next :: more))

/-- The piece of a value makes no label of its own: it begins with `=`. -/
def Nameless (piece : Bytes) : Prop :=
  piece.head? = some equalsSign

theorem named_eq_nil_iff (text : Bytes) : named [text] = [] ↔ text = [] ∨ Nameless text := by
  have hname : named [text] = [] ↔ (parseBbMetricsLabel text).key = [] := by simp [named]
  rw [hname]
  rcases notMem_or_exists_line equalsSign text with hmem | ⟨key, rest, rfl, hkey⟩
  · rw [parseBbMetricsLabel_of_notMem hmem]
    refine ⟨Or.inl, fun hcases => hcases.resolve_right fun hhead => hmem ?_⟩
    exact List.mem_of_head? hhead
  · rw [parseBbMetricsLabel_eq hkey]
    cases key with
    | nil => simp [Nameless]
    | cons c key =>
        have hc : c ≠ equalsSign := fun heq => hkey (by simp [heq])
        simp [Nameless, hc]

theorem nameless_append_cons {c : UInt8} (hc : c ≠ equalsSign) (piece rest : Bytes) :
    Nameless (piece ++ c :: rest) ↔ Nameless piece := by
  cases piece with
  | nil => simp [Nameless, hc]
  | cons b piece => simp [Nameless]

theorem named_append_comma_eq_nil_iff (piece rest : Bytes) :
    named [piece ++ comma :: rest] = [] ↔ Nameless piece := by
  have hne : piece ++ comma :: rest ≠ [] := by simp
  rw [named_eq_nil_iff, or_iff_right hne, nameless_append_cons (by decide)]

/-- What is read from inside a value on: stray labels, and then what follows. -/
theorem read_inside (inside : Bytes) (cursor : ℕ) (more : List Label) :
    ∃ strays, read (cursor + 1) (inside ++ quotationMark :: following more) =
        strays ++ readFollowing (cursor + 1 + inside.length + 1) more ∧
      (strays = [] ↔ ∀ piece ∈ pieces inside, Nameless piece) := by
  induction inside using pieces_induction generalizing cursor with
  | hlast inside hmem =>
      have hfirst : comma ∉ inside ++ [quotationMark] := by
        rw [List.mem_append, List.mem_singleton]
        exact not_or.mpr ⟨hmem, by decide⟩
      have hnameless : Nameless (inside ++ [quotationMark]) ↔ Nameless inside :=
        nameless_append_cons (by decide) inside []
      simp only [pieces_of_notMem hmem, List.forall_mem_singleton]
      cases more with
      | nil =>
          refine ⟨named [inside ++ [quotationMark]], ?_, ?_⟩
          · rw [following, read_of_notMem hfirst, readFollowing, List.append_nil]
          · rw [named_eq_nil_iff, or_iff_right (by simp), hnameless]
      | cons next more =>
          refine ⟨named [(inside ++ [quotationMark]) ++ comma ::
            (rendered (next :: more)).take cursor], ?_, ?_⟩
          · have hsplit : inside ++ quotationMark :: following (next :: more) =
                (inside ++ [quotationMark]) ++ comma :: rendered (next :: more) := by
              simp [following]
            have hcursor : cursor + 1 + (inside ++ [quotationMark]).length + 1 =
                cursor + 1 + inside.length + 1 + 1 := by
              rw [List.length_append, List.length_singleton]
              omega
            rw [hsplit, read_append_cons hfirst, List.take_succ_cons, hcursor, readFollowing]
          · rw [named_append_comma_eq_nil_iff, hnameless]
  | hmore first rest hfirst ih =>
      obtain ⟨strays, hread, hstrays⟩ := ih (cursor + 1 + first.length)
      have hsplit : first ++ comma :: rest ++ quotationMark :: following more =
          first ++ comma :: (rest ++ quotationMark :: following more) := by simp
      refine ⟨named [first ++ comma :: (rest ++ quotationMark :: following more).take cursor] ++
        strays, ?_, ?_⟩
      · have hcursor : cursor + 1 + first.length + 1 + rest.length + 1 =
            cursor + 1 + (first ++ comma :: rest).length + 1 := by
          rw [List.length_append, List.length_cons]
          omega
        rw [hsplit, read_append_cons hfirst, List.take_succ_cons, hread, hcursor, List.append_assoc]
      · rw [List.append_eq_nil_iff, named_append_comma_eq_nil_iff, hstrays,
          pieces_append_cons hfirst, List.forall_mem_cons]

/-! ## What is heard of a label -/

/-- The value that is read of a label, from its escaped value and what follows the
label: it is cut out up to the first comma, and then `cursor` characters more. -/
def firstValue (cursor : ℕ) (escaped tail : Bytes) : Bytes :=
  match cut comma escaped with
  | none => quoted (escaped ++ quotationMark :: tail.take cursor)
  | some (before, after) =>
      quoted (before ++ (comma :: (after ++ quotationMark :: tail)).take cursor)

/-- The labels that are read of those that were written. -/
def heard : ℕ → List Label → List Label
  | _, [] => []
  | cursor, label :: more =>
      ⟨label.key, firstValue cursor (escape label.value) (following more)⟩ ::
        heard (cursor + (renderLabel label).length + 1) more

/-- No piece of the values makes a label of its own. -/
def NoStrays (labels : List Label) : Prop :=
  ∀ label ∈ labels, ∀ piece ∈ (pieces (escape label.value)).tail, Nameless piece

theorem quoted_quotationMark (text : Bytes) : quoted (quotationMark :: text) = quoted text := by
  have hpadding : isPadding quotationMark = true := by decide
  simp [quoted, List.dropWhile_cons_of_pos hpadding]

theorem named_label {key : Bytes} (hkey : isLabelName key = true) (text : Bytes) :
    named [key ++ equalsSign :: text] = [⟨key, quoted text⟩] := by
  have hparse := parseBbMetricsLabel_eq (notMem_of_isLabelName hkey (by decide)) text
  have hne := ne_nil_of_isLabelName hkey
  simp [named, hparse, hne]

/-- One label: what is heard of it, stray labels, and then what follows. -/
theorem read_label {label : Label} (hkey : isLabelName label.key = true) (cursor : ℕ)
    (more : List Label) :
    ∃ strays, read cursor (renderLabel label ++ following more) =
        ⟨label.key, firstValue cursor (escape label.value) (following more)⟩ ::
          (strays ++ readFollowing (cursor + (renderLabel label).length) more) ∧
      (strays = [] ↔ ∀ piece ∈ (pieces (escape label.value)).tail, Nameless piece) := by
  have hname : comma ∉ label.key := notMem_of_isLabelName hkey (by decide)
  have hlength :
      (renderLabel label).length = label.key.length + (escape label.value).length + 3 := by
    simp only [renderLabel, List.length_append, List.length_cons, List.length_nil]
    omega
  have hclean : ∀ text : Bytes, comma ∉ text →
      comma ∉ label.key ++ equalsSign :: quotationMark :: text := by
    intro text htext
    simp only [List.mem_append, List.mem_cons, not_or]
    exact ⟨hname, by decide, by decide, htext⟩
  rcases notMem_or_exists_line comma (escape label.value) with
    hmem | ⟨before, after, hvalue, hbefore⟩
  · have hfirst : comma ∉ renderLabel label := by
      refine hclean _ ?_
      rw [List.mem_append, List.mem_singleton]
      exact not_or.mpr ⟨hmem, by decide⟩
    have hnamed : ∀ beyond : Bytes, named [renderLabel label ++ beyond] =
        [⟨label.key, quoted (escape label.value ++ quotationMark :: beyond)⟩] := by
      intro beyond
      have hsplit : renderLabel label ++ beyond = label.key ++ equalsSign ::
          (quotationMark :: (escape label.value ++ quotationMark :: beyond)) := by
        simp [renderLabel]
      rw [hsplit, named_label hkey, quoted_quotationMark]
    refine ⟨[], ?_, by simp [pieces_of_notMem hmem]⟩
    simp only [firstValue, cut_of_notMem hmem]
    cases more with
    | nil =>
        rw [following, read_of_notMem (by rwa [List.append_nil]), hnamed, List.take_nil]
        rfl
    | cons next more =>
        rw [following, read_append_cons hfirst, hnamed]
        rfl
  · have hfirst := hclean before hbefore
    have hsplit : renderLabel label ++ following more =
        (label.key ++ equalsSign :: quotationMark :: before) ++ comma ::
          (after ++ quotationMark :: following more) := by
      simp [renderLabel, hvalue]
    obtain ⟨strays, hread, hstrays⟩ := read_inside after
      (cursor + (label.key ++ equalsSign :: quotationMark :: before).length) more
    refine ⟨strays, ?_, ?_⟩
    · have hcursor : cursor + (label.key ++ equalsSign :: quotationMark :: before).length + 1 +
          after.length + 1 = cursor + (renderLabel label).length := by
        rw [hlength, hvalue]
        simp only [List.length_append, List.length_cons]
        omega
      rw [hsplit, read_append_cons hfirst, hread, hcursor, List.append_assoc, List.cons_append,
        List.cons_append, named_label hkey, quoted_quotationMark]
      simp only [firstValue, hvalue, cut_append_cons hbefore]
      rfl
    · rw [hstrays, hvalue, pieces_append_cons hbefore, List.tail_cons]

theorem heard_length (cursor : ℕ) (labels : List Label) :
    (heard cursor labels).length = labels.length := by
  induction labels generalizing cursor with
  | nil => rfl
  | cons label more ih => rw [heard, List.length_cons, List.length_cons, ih]

/-- Without stray labels, what is read is what is heard of each label. -/
theorem read_rendered {labels : List Label}
    (hnames : ∀ label ∈ labels, isLabelName label.key = true)
    (hne : labels ≠ []) (cursor : ℕ) :
    (NoStrays labels → read cursor (rendered labels) = heard cursor labels) ∧
      (¬ NoStrays labels → labels.length < (read cursor (rendered labels)).length) := by
  induction labels generalizing cursor with
  | nil => exact absurd rfl hne
  | cons label more ih =>
      obtain ⟨hname, hnames⟩ := List.forall_mem_cons.mp hnames
      obtain ⟨strays, hread, hstrays⟩ := read_label hname cursor more
      rw [rendered_cons, hread]
      have hmore : (NoStrays more → readFollowing (cursor + (renderLabel label).length) more =
          heard (cursor + (renderLabel label).length + 1) more) ∧
          (¬ NoStrays more →
            more.length < (readFollowing (cursor + (renderLabel label).length) more).length) := by
        cases more with
        | nil => exact ⟨fun _ => rfl, fun hnot => absurd (by simp [NoStrays]) hnot⟩
        | cons next more => exact ih hnames (by simp) _
      have hsplit : NoStrays (label :: more) ↔ strays = [] ∧ NoStrays more := by
        rw [hstrays, NoStrays, List.forall_mem_cons, NoStrays]
      rw [hsplit]
      constructor
      · rintro ⟨hnone, hclean⟩
        rw [hnone, hmore.1 hclean, List.nil_append, heard]
      · intro hnot
        rw [List.length_cons, List.length_cons, List.length_append]
        by_cases hclean : NoStrays more
        · have hpos : 0 < strays.length :=
            List.length_pos_of_ne_nil fun hnone => hnot ⟨hnone, hclean⟩
          rw [hmore.1 hclean, heard_length]
          omega
        · have hlt := hmore.2 hclean
          omega

end BbMonitor.Prometheus
