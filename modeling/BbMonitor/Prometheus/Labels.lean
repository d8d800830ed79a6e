import BbMonitor.Lib.Framing
import BbMonitor.Messages
import Mathlib.Data.List.Nodup
import Mathlib.Data.List.TakeWhile

/-!
# The labels of a sample

A label block, the text between the braces, is taken apart at its commas
(`parse_bb_metrics_labels`), and each piece at its first `=`
(`parse_bb_metrics_label`).  The value of a label starts after the quotation marks
and blanks that follow the `=`, and ends at the next quotation mark; without one it
is empty.

The searches are restated as equations on the text that is searched: `quoted` is the
value that is read from what follows the `=`.
-/

namespace BbMonitor.Prometheus

/-! ## One label -/

/-- `parse_bb_metrics_label`. -/
def parseBbMetricsLabel (s : Bytes) : Label :=
  let separatorPos := findFirstOf s [equalsSign] 0
  let labelName := takeTo s separatorPos
  match separatorPos with
  | none => ⟨labelName, []⟩
  | some separatorPos =>
      match findFirstNotOf s [quotationMark, space] (separatorPos + 1) with
      | none => ⟨labelName, []⟩
      | some begin =>
          match findFirstOf s [quotationMark] (begin + 1) with
          | none => ⟨labelName, []⟩
          | some stop => ⟨labelName, (s.drop begin).take (stop - begin)⟩

/-- What may stand before a value. -/
def isPadding (c : UInt8) : Bool :=
  c = quotationMark ∨ c = space

/-- The value in the text that follows the `=`. -/
def quoted (text : Bytes) : Bytes :=
  match text.dropWhile isPadding with
  | [] => []
  | first :: more =>
      if quotationMark ∈ more then first :: more.takeWhile (· ≠ quotationMark) else []

variable {key padding inner rest text : Bytes} {first : UInt8}

theorem quoted_of_padding (hpadding : ∀ c ∈ text, isPadding c = true) : quoted text = [] := by
  have hdrop : text.dropWhile isPadding = [] := List.dropWhile_eq_nil_iff.mpr hpadding
  rw [quoted, hdrop]

theorem dropWhile_padding (hpadding : ∀ c ∈ padding, isPadding c = true)
    (hfirst : isPadding first = false) (rest : Bytes) :
    (padding ++ first :: rest).dropWhile isPadding = first :: rest := by
  rw [List.dropWhile_append_of_pos hpadding, List.dropWhile_cons_of_neg (by simp [hfirst])]

theorem quoted_of_notMem (hpadding : ∀ c ∈ padding, isPadding c = true)
    (hfirst : isPadding first = false) (hopen : quotationMark ∉ rest) :
    quoted (padding ++ first :: rest) = [] := by
  rw [quoted, dropWhile_padding hpadding hfirst]
  simp [hopen]

theorem quoted_of_closed (hpadding : ∀ c ∈ padding, isPadding c = true)
    (hfirst : isPadding first = false) (hinner : quotationMark ∉ inner) (rest : Bytes) :
    quoted (padding ++ first :: (inner ++ quotationMark :: rest)) = first :: inner := by
  have hall : ∀ c ∈ inner, decide (c ≠ quotationMark) = true := by
    intro c hc
    exact decide_eq_true fun heq => hinner (heq ▸ hc)
  rw [quoted, dropWhile_padding hpadding hfirst]
  simp only [List.mem_append, List.mem_cons_self, or_true, if_true]
  rw [List.takeWhile_append_of_pos hall]
  simp

theorem isPadding_iff {c : UInt8} : isPadding c = true ↔ c ∈ [quotationMark, space] := by
  simp [isPadding]

theorem drop_append_cons_succ (key : Bytes) (c : UInt8) (text : Bytes) (n : ℕ) :
    (key ++ c :: text).drop (key.length + 1 + n) = text.drop n := by
  rw [← List.drop_drop, ← List.drop_drop, List.drop_left, List.drop_one, List.tail_cons]

/-- The two searches for the value find what `quoted` describes. -/
theorem parseBbMetricsLabel_eq (hkey : equalsSign ∉ key) (text : Bytes) :
    parseBbMetricsLabel (key ++ equalsSign :: text) = ⟨key, quoted text⟩ := by
  have hseparator := findFirstOf_char_eq_some (List.drop_zero (l := key ++ equalsSign :: text)) hkey
  have hafter := drop_append_cons_succ key equalsSign text
  unfold parseBbMetricsLabel
  simp only [hseparator, Nat.zero_add, takeTo, List.take_left]
  rcases all_or_exists_first isPadding text with
    hall | ⟨padding, first, rest, rfl, hpadding, hfirst⟩
  · have hbegin : findFirstNotOf (key ++ equalsSign :: text) [quotationMark, space]
        (key.length + 1) = none := by
      refine findFirstNotOf_eq_none fun c hc => isPadding_iff.mp (hall c ?_)
      rwa [← Nat.add_zero (key.length + 1), hafter, List.drop_zero] at hc
    simp only [hbegin, quoted_of_padding hall]
  · have hbegin : findFirstNotOf (key ++ equalsSign :: (padding ++ first :: rest))
        [quotationMark, space] (key.length + 1) = some (key.length + 1 + padding.length) := by
      refine findFirstNotOf_eq_some ((hafter 0).trans List.drop_zero)
        (fun c hc => isPadding_iff.mp (hpadding c hc)) ?_
      rw [← isPadding_iff, hfirst]
      exact Bool.false_ne_true
    have hrest : (key ++ equalsSign :: (padding ++ first :: rest)).drop
        (key.length + 1 + padding.length + 1) = rest := by
      rw [Nat.add_assoc, hafter, ← List.drop_drop, List.drop_left, List.drop_one, List.tail_cons]
    simp only [hbegin]
    rcases notMem_or_exists_line quotationMark rest with hopen | ⟨inner, after, rfl, hinner⟩
    · rw [findFirstOf_char_eq_none (by rwa [hrest]), quoted_of_notMem hpadding hfirst hopen]
    · rw [findFirstOf_char_eq_some hrest hinner, quoted_of_closed hpadding hfirst hinner]
      simp only [hafter, List.drop_left]
      congr 1
      have hlength : key.length + 1 + padding.length + 1 + inner.length -
          (key.length + 1 + padding.length) = inner.length + 1 := by omega
      rw [hlength, List.take_succ_cons, List.take_left]

theorem parseBbMetricsLabel_of_notMem (htext : equalsSign ∉ text) :
    parseBbMetricsLabel text = ⟨text, []⟩ := by
  have hseparator : findFirstOf text [equalsSign] 0 = none :=
    findFirstOf_char_eq_none (by rwa [List.drop_zero])
  simp [parseBbMetricsLabel, hseparator, takeTo]

/-! ## A block of labels -/

/-- The loop of `parse_bb_metrics_labels`.  Each round moves the cursor on, so that
one round more than the text has characters is enough. -/
def labelsLoop (s : Bytes) : ℕ → ℕ → List Label → List Label
  | 0, _, result => result
  | rounds + 1, cursor, result =>
      if cursor = s.length then result
      else
        let tagSeparatorPos := findFirstOf s [comma] cursor
        let label := parseBbMetricsLabel (takeTo (s.drop cursor) tagSeparatorPos)
        let result := if label.key.length ≠ 0 then result ++ [label] else result
        match tagSeparatorPos with
        | none => result
        | some tagSeparatorPos => labelsLoop s rounds (tagSeparatorPos + 1) result

/-- `compare_by_label_name2`. -/
def compareByLabelName (a b : Label) : Bool :=
  a.key < b.key

/-- The labels that every metric is given. -/
def groupingLabels (jobId instanceId : Bytes) : List Label :=
  ⟨bytes "job", jobId⟩ ::
    if instanceId.length > 0 then [⟨bytes "instance", instanceId⟩] else []

/-- `std::sort` by name.  It leaves open in which order labels with equal names come;
no result depends on it. -/
def sortByLabelName (labels : List Label) : List Label :=
  labels.mergeSort fun a b => !compareByLabelName b a

/-- `parse_bb_metrics_labels`. -/
def parseBbMetricsLabels (jobId instanceId s : Bytes) : List Label :=
  sortByLabelName (labelsLoop s (s.length + 1) 0 [] ++ groupingLabels jobId instanceId)

theorem sortByLabelName_perm (labels : List Label) : (sortByLabelName labels).Perm labels :=
  List.mergeSort_perm _ _

theorem sorted_sortByLabelName (labels : List Label) :
    (sortByLabelName labels).Pairwise fun a b => a.key ≤ b.key := by
  have hsorted := @List.pairwise_mergeSort Label (fun a b => !compareByLabelName b a)
    (fun a b c hab hbc => by
      simp only [compareByLabelName, Bool.not_eq_true', decide_eq_false_iff_not, List.not_lt] at *
      exact List.le_trans hab hbc)
    (fun a b => by
      simpa [compareByLabelName] using (List.le_total b.key a.key).symm)
    labels
  simpa [sortByLabelName, compareByLabelName] using hsorted

/-- There is one way to sort labels whose names differ. -/
theorem eq_of_sorted {xs ys : List Label} (hperm : xs.Perm ys)
    (hxs : xs.Pairwise fun a b => a.key ≤ b.key) (hys : ys.Pairwise fun a b => a.key ≤ b.key)
    (hdistinct : (ys.map Label.key).Nodup) : xs = ys := by
  refine List.Perm.eq_of_pairwise ?_ hxs hys hperm
  intro a b ha hb hab hba
  exact List.inj_on_of_nodup_map hdistinct (hperm.mem_iff.mp ha) hb (List.le_antisymm hab hba)

/-! ## What each label is read from -/

/-- The pieces, with a comma between them. -/
def joined (chunks : List Bytes) : Bytes :=
  [comma].intercalate chunks

/-- The texts that are handed to `parse_bb_metrics_label`.  The piece is cut out with
the position of its comma in the place of its length; so a piece that is not the last
comes with as many characters of what follows as the cursor has passed. -/
def handed (cursor : ℕ) : List Bytes → List Bytes
  | [] => []
  | [chunk] => [chunk]
  | chunk :: next :: more =>
      (chunk ++ (comma :: joined (next :: more)).take cursor) ::
        handed (cursor + chunk.length + 1) (next :: more)

/-- The labels with a name that are read from the texts. -/
def named (texts : List Bytes) : List Label :=
  (texts.map parseBbMetricsLabel).filter fun label => label.key.length ≠ 0

variable {chunk : Bytes} {chunks : List Bytes}

theorem joined_singleton (chunk : Bytes) : joined [chunk] = chunk := by
  simp [joined, List.intercalate]

theorem joined_cons_cons (chunk next : Bytes) (more : List Bytes) :
    joined (chunk :: next :: more) = chunk ++ comma :: joined (next :: more) := by
  rw [joined, List.intercalate_cons_cons, List.append_assoc, List.singleton_append, joined]

theorem named_cons (text : Bytes) (texts : List Bytes) :
    named (text :: texts) = named [text] ++ named texts := by
  rw [named, List.map_cons, ← List.singleton_append, List.filter_append]
  rfl

/-- One round of the loop. -/
theorem labelsLoop_succ (s : Bytes) (rounds cursor : ℕ) (result : List Label)
    (hcursor : cursor ≠ s.length) :
    labelsLoop s (rounds + 1) cursor result =
      match findFirstOf s [comma] cursor with
      | none => result ++ named [s.drop cursor]
      | some pos => labelsLoop s rounds (pos + 1) (result ++ named [(s.drop cursor).take pos]) := by
  have hnamed : ∀ text, (if (parseBbMetricsLabel text).key.length ≠ 0
      then result ++ [parseBbMetricsLabel text] else result) = result ++ named [text] := by
    intro text
    unfold named
    split <;> simp_all
  rw [labelsLoop, if_neg hcursor]
  cases findFirstOf s [comma] cursor with
  | none => exact hnamed _
  | some pos => exact congrArg (labelsLoop s rounds (pos + 1)) (hnamed _)

/-- The loop reads one label from each of the texts. -/
theorem labelsLoop_joined (hchunks : ∀ chunk ∈ chunks, comma ∉ chunk) (hne : chunks ≠ [])
    (before : Bytes) (rounds : ℕ) (hrounds : (joined chunks).length < rounds)
    (result : List Label) :
    labelsLoop (before ++ joined chunks) rounds before.length result =
      result ++ named (handed before.length chunks) := by
  induction chunks generalizing before rounds result with
  | nil => exact absurd rfl hne
  | cons chunk more ih =>
      obtain ⟨rounds, rfl⟩ := Nat.exists_eq_add_one_of_ne_zero (Nat.ne_zero_of_lt hrounds)
      have hchunk : comma ∉ chunk := hchunks chunk (List.mem_cons_self ..)
      cases more with
      | nil =>
          rw [joined_singleton, handed]
          by_cases hempty : chunk = []
          · have hlast : before.length = (before ++ chunk).length := by simp [hempty]
            rw [labelsLoop, if_pos hlast, hempty]
            simp [named, parseBbMetricsLabel_of_notMem]
          · have hcursor : before.length ≠ (before ++ chunk).length := by simpa using hempty
            have hnone : findFirstOf (before ++ chunk) [comma] before.length = none :=
              findFirstOf_char_eq_none (by rwa [List.drop_left])
            simp only [labelsLoop_succ _ _ _ _ hcursor, hnone, List.drop_left]
      | cons next more =>
          have hmore := ih (fun chunk hmem => hchunks chunk (List.mem_cons_of_mem _ hmem)) (by simp)
          rw [joined_cons_cons] at hrounds ⊢
          rw [List.length_append, List.length_cons] at hrounds
          have hcursor :
              before.length ≠ (before ++ (chunk ++ comma :: joined (next :: more))).length := by
            simp only [List.length_append, List.length_cons]
            omega
          have hdrop : (before ++ (chunk ++ comma :: joined (next :: more))).drop before.length =
              chunk ++ comma :: joined (next :: more) := List.drop_left
          have hcomma := findFirstOf_char_eq_some hdrop hchunk
          have htext :
              (chunk ++ comma :: joined (next :: more)).take (before.length + chunk.length) =
              chunk ++ (comma :: joined (next :: more)).take before.length := by
            rw [Nat.add_comm, List.take_length_add_append]
          have hsplit : before ++ (chunk ++ comma :: joined (next :: more)) =
              (before ++ chunk ++ [comma]) ++ joined (next :: more) := by simp
          have hlength :
              before.length + chunk.length + 1 = (before ++ chunk ++ [comma]).length := by
            simp only [List.length_append, List.length_singleton]
          simp only [labelsLoop_succ _ _ _ _ hcursor, hcomma, List.drop_left, htext]
          rw [hsplit, hlength, hmore _ rounds (by omega), handed, ← hlength, List.append_assoc,
            ← named_cons]

end BbMonitor.Prometheus
