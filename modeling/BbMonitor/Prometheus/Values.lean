import BbMonitor.Prometheus.Rendering

/-!
# The value that is heard of a label

Three things can become of a value (`firstValue_cases`): nothing is read, or it is read
without its leading blanks, or, when there is nothing but blanks, a piece of the next
label is read in its place.  `firstValue_eq_iff` says when it is read as it is.

A value that is read has no quotation mark, and no character that is not in the block.
-/

namespace BbMonitor.Prometheus

variable {text escaped value beyond tail : Bytes} {cursor : ℕ}

/-! ## The value that is heard -/

theorem quoted_of_no_mark (hmark : quotationMark ∉ text) : quoted text = [] := by
  refine (open_cases ?_).1
  rintro ⟨padding, first, rest, rfl, -, -, hmem⟩
  exact hmark (by simp [hmem])

theorem quoted_of_blank (hblank : ∀ c ∈ text, isPadding c = true) (beyond : Bytes) :
    quoted (text ++ quotationMark :: beyond) = quoted beyond := by
  have hpadding : isPadding quotationMark = true := by decide
  rw [quoted, List.dropWhile_append_of_pos hblank, List.dropWhile_cons_of_pos hpadding, quoted]

theorem quoted_of_not_blank (hmark : quotationMark ∉ text) (hne : text.dropWhile isPadding ≠ [])
    (beyond : Bytes) : quoted (text ++ quotationMark :: beyond) = text.dropWhile isPadding := by
  rcases all_or_exists_first isPadding text with
    hall | ⟨padding, first, rest, rfl, hpadding, hfirst⟩
  · exact absurd (List.dropWhile_eq_nil_iff.mpr hall) hne
  · have hrest : quotationMark ∉ rest := fun hmem => hmark (by simp [hmem])
    rw [dropWhile_padding hpadding hfirst, List.append_assoc, List.cons_append,
      quoted_of_closed hpadding hfirst hrest]

theorem quotationMark_notMem_quoted (text : Bytes) : quotationMark ∉ quoted text := by
  by_cases hclosed : Closed text
  · obtain ⟨padding, first, rest, rfl, hpadding, hfirst, hmem⟩ := hclosed
    obtain ⟨inner, after, rfl, hinner⟩ := List.eq_append_cons_of_mem hmem
    rw [quoted_of_closed hpadding hfirst hinner, List.mem_cons]
    refine not_or.mpr ⟨?_, hinner⟩
    rintro rfl
    exact absurd hfirst (by decide)
  · rw [(open_cases hclosed).1]
    exact List.not_mem_nil

/-- A value does not begin with padding. -/
theorem not_padding_of_quoted {c : UInt8} (hhead : (quoted text).head? = some c) :
    isPadding c = false := by
  by_cases hclosed : Closed text
  · obtain ⟨padding, first, rest, rfl, hpadding, hfirst, hmem⟩ := hclosed
    obtain ⟨inner, after, rfl, hinner⟩ := List.eq_append_cons_of_mem hmem
    rw [quoted_of_closed hpadding hfirst hinner] at hhead
    cases hhead
    exact hfirst
  · rw [(open_cases hclosed).1] at hhead
    cases hhead

/-- A value with a comma is heard if the text goes beyond its closing mark. -/
theorem firstValue_of_comma {before after : Bytes} (hbefore : comma ∉ before)
    (hmark : quotationMark ∉ before ++ comma :: after) (cursor : ℕ) (tail : Bytes) :
    firstValue cursor (before ++ comma :: after) tail =
      if after.length + 1 < cursor then (before ++ comma :: after).dropWhile isPadding else [] := by
  have hlist : comma :: (after ++ quotationMark :: tail) =
      (comma :: after) ++ quotationMark :: tail := rfl
  simp only [firstValue, cut_append_cons hbefore, hlist]
  split
  · rename_i hlong
    have hne : (before ++ comma :: after).dropWhile isPadding ≠ [] := by
      rw [ne_eq, List.dropWhile_eq_nil_iff]
      intro hall
      exact absurd (hall comma (by simp)) (by decide)
    obtain ⟨extra, hextra⟩ := Nat.exists_eq_add_of_lt hlong
    have htake : ((comma :: after) ++ quotationMark :: tail).take cursor =
        (comma :: after) ++ quotationMark :: tail.take extra := by
      have hcursor : cursor = (comma :: after).length + (extra + 1) := by
        rw [List.length_cons]
        omega
      rw [hcursor, List.take_length_add_append, List.take_succ_cons]
    rw [htake, ← List.append_assoc, quoted_of_not_blank hmark hne]
  · rename_i hshort
    have hle : cursor ≤ (comma :: after).length := by
      rw [List.length_cons]
      omega
    rw [List.take_append_of_le_length hle]
    refine quoted_of_no_mark fun hmem => hmark ?_
    rcases List.mem_append.mp hmem with hleft | hright
    · exact List.mem_append_left _ hleft
    · exact List.mem_append_right _ (List.mem_of_mem_take hright)

theorem firstValue_of_not_blank (hcomma : comma ∉ escaped) (hmark : quotationMark ∉ escaped)
    (hne : escaped.dropWhile isPadding ≠ []) (cursor : ℕ) (tail : Bytes) :
    firstValue cursor escaped tail = escaped.dropWhile isPadding := by
  simp only [firstValue, cut_of_notMem hcomma]
  exact quoted_of_not_blank hmark hne _

theorem firstValue_of_blank (hblank : ∀ c ∈ escaped, isPadding c = true) (cursor : ℕ)
    (tail : Bytes) : firstValue cursor escaped tail = quoted (tail.take cursor) := by
  have hcomma : comma ∉ escaped := fun hmem => absurd (hblank comma hmem) (by decide)
  simp only [firstValue, cut_of_notMem hcomma]
  exact quoted_of_blank hblank _

/-- A blank value runs on into the next label if the text goes beyond the opening mark
of its value. -/
theorem quoted_following (cursor : ℕ) {more : List Label}
    (hnames : ∀ label ∈ more, isLabelName label.key = true) :
    (quoted ((following more).take cursor) = [] ∧
        ∀ next ∈ more.head?, cursor ≤ next.key.length + 2) ∨
      ∃ next ∈ more.head?, next.key.length + 2 < cursor ∧
        quoted ((following more).take cursor) = comma :: (next.key ++ [equalsSign]) := by
  cases more with
  | nil => exact Or.inl ⟨by simp [following, quoted], by simp⟩
  | cons next more =>
      have hname : isLabelName next.key = true := hnames next (List.mem_cons_self ..)
      have hinner : quotationMark ∉ next.key ++ [equalsSign] := by
        rw [List.mem_append, List.mem_singleton]
        exact not_or.mpr ⟨notMem_of_isLabelName hname (by decide), by decide⟩
      have hfollowing : following (next :: more) =
          (comma :: (next.key ++ [equalsSign])) ++ quotationMark ::
            (escape next.value ++ quotationMark :: following more) := by
        rw [following, rendered_cons]
        simp [renderLabel]
      have hlength : (comma :: (next.key ++ [equalsSign])).length = next.key.length + 2 := by
        rw [List.length_cons, List.length_append, List.length_singleton]
      simp only [List.head?_cons, Option.mem_some_iff, forall_eq', exists_eq_left', hfollowing]
      rcases Nat.lt_or_ge (next.key.length + 2) cursor with hlong | hshort
      · refine Or.inr ⟨hlong, ?_⟩
        obtain ⟨extra, hextra⟩ := Nat.exists_eq_add_of_lt hlong
        have hcursor : cursor = (comma :: (next.key ++ [equalsSign])).length + (extra + 1) := by
          rw [hlength]
          omega
        rw [hcursor, List.take_length_add_append, List.take_succ_cons]
        exact quoted_of_closed (List.forall_mem_nil _) comma_not_padding hinner _
      · refine Or.inl ⟨?_, hshort⟩
        rw [List.take_append_of_le_length (by omega)]
        refine quoted_of_no_mark fun hmem => ?_
        rcases List.mem_cons.mp (List.mem_of_mem_take hmem) with heq | hrest
        · exact absurd heq (by decide)
        · exact hinner hrest

/-- What is heard of a value: nothing, the value without its leading blanks, or a piece
of the next label. -/
theorem firstValue_cases (hmark : quotationMark ∉ escaped) (cursor : ℕ) {more : List Label}
    (hnames : ∀ label ∈ more, isLabelName label.key = true) :
    firstValue cursor escaped (following more) = [] ∨
      firstValue cursor escaped (following more) = escaped.dropWhile isPadding ∨
      ∃ next ∈ more, firstValue cursor escaped (following more) =
        comma :: (next.key ++ [equalsSign]) := by
  by_cases hblank : escaped.dropWhile isPadding = []
  · rw [firstValue_of_blank (List.dropWhile_eq_nil_iff.mp hblank)]
    rcases quoted_following cursor hnames with ⟨hnone, -⟩ | ⟨next, hnext, -, hleak⟩
    · exact Or.inl hnone
    · exact Or.inr (Or.inr ⟨next, List.mem_of_head? hnext, hleak⟩)
  · rcases notMem_or_exists_line comma escaped with hcomma | ⟨before, after, rfl, hbefore⟩
    · exact Or.inr (Or.inl (firstValue_of_not_blank hcomma hmark hblank cursor _))
    · rw [firstValue_of_comma hbefore hmark]
      split
      · exact Or.inr (Or.inl rfl)
      · exact Or.inl rfl

theorem not_padding_of_firstValue {c : UInt8}
    (hhead : (firstValue cursor escaped tail).head? = some c) : isPadding c = false := by
  unfold firstValue at hhead
  split at hhead <;> exact not_padding_of_quoted hhead

theorem dropWhile_padding_eq_self {c : UInt8} {rest : Bytes} (hc : isPadding c = false) :
    (c :: rest).dropWhile isPadding = c :: rest :=
  List.dropWhile_cons_of_neg (by simp [hc])

/-- A value without quotation marks is heard as it is. -/
theorem firstValue_eq_iff (hmark : quotationMark ∉ value) (cursor : ℕ) {more : List Label}
    (hnames : ∀ label ∈ more, isLabelName label.key = true) :
    firstValue cursor value (following more) = value ↔
      value.head? ≠ some space ∧
        (∀ before after, value = before ++ comma :: after → comma ∉ before →
          after.length + 1 < cursor) ∧
        (value = [] → ∀ next ∈ more.head?, cursor ≤ next.key.length + 2) := by
  cases value with
  | nil =>
      have hnone : ∀ before after : Bytes, [] ≠ before ++ comma :: after := by simp
      rw [firstValue_of_blank (by simp)]
      rcases quoted_following cursor hnames with ⟨hempty, hshort⟩ | ⟨next, hnext, hlong, hleak⟩
      · exact iff_of_true hempty
          ⟨by simp, fun before after heq => absurd heq (hnone before after), fun _ => hshort⟩
      · refine iff_of_false (by rw [hleak]; simp) fun hcond => ?_
        have hshort := hcond.2.2 rfl next hnext
        omega
  | cons c rest =>
      by_cases hc : isPadding c = true
      · have hspace : c = space := by
          have hne : c ≠ quotationMark := fun heq => hmark (by simp [heq])
          simpa [isPadding, hne] using hc
        refine iff_of_false (fun heq => ?_) (fun hcond => hcond.1 (by rw [hspace]; rfl))
        have hpadding := not_padding_of_firstValue (heq ▸ (List.head?_cons : (c :: rest).head? = _))
        rw [hc] at hpadding
        cases hpadding
      · rw [Bool.not_eq_true] at hc
        have hstrip : (c :: rest).dropWhile isPadding = c :: rest := dropWhile_padding_eq_self hc
        have hspace : (c :: rest).head? ≠ some space := by
          intro hhead
          cases hhead
          exact absurd hc (by decide)
        rcases notMem_or_exists_line comma (c :: rest) with
          hcomma | ⟨before, after, hvalue, hbefore⟩
        · refine iff_of_true ?_ ⟨hspace, fun before after heq => ?_, by simp⟩
          · rw [firstValue_of_not_blank hcomma hmark (by rw [hstrip]; simp), hstrip]
          · exact absurd (by rw [heq]; simp) hcomma
        · rw [hvalue] at hmark hstrip ⊢
          rw [firstValue_of_comma hbefore hmark, hstrip]
          constructor
          · intro heq
            split at heq
            · rename_i hlong
              refine ⟨hvalue ▸ hspace, fun first last hsplit hfirst => ?_, by simp⟩
              have hcuts := (cut_append_cons hbefore after).symm.trans
                ((congrArg (cut comma) hsplit).trans (cut_append_cons hfirst last))
              cases hcuts
              exact hlong
            · simp at heq
          · rintro ⟨-, hcommas, -⟩
            rw [if_pos (hcommas before after rfl hbefore)]

/-! ## Escaping -/

theorem mem_escape_iff {c : UInt8} (hbackslash : c ≠ backslash) (hn : c ≠ 0x6e)
    (hlf : c ≠ lineFeed) : c ∈ escape value ↔ c ∈ value := by
  have hchar : ∀ x, c ∈ escapeChar x ↔ c = x := by
    intro x
    unfold escapeChar
    split
    · rename_i hx
      simp [hbackslash, hx]
    · split
      · rename_i hx
        simp [hbackslash, hx]
      · split
        · rename_i hx
          simp [hbackslash, hn, hx, hlf]
        · simp
  simp [escape, List.mem_flatMap, hchar]

theorem lineFeed_notMem_escape (value : Bytes) : lineFeed ∉ escape value := by
  intro hmem
  obtain ⟨x, -, hx⟩ := List.mem_flatMap.mp hmem
  unfold escapeChar at hx
  split at hx
  · exact absurd hx (by decide)
  · split at hx
    · exact absurd hx (by decide)
    · split at hx
      · exact absurd hx (by decide)
      · rename_i hne
        exact hne (List.mem_singleton.mp hx).symm

theorem escape_cons (c : UInt8) (value : Bytes) :
    escape (c :: value) = escapeChar c ++ escape value :=
  List.flatMap_cons

theorem escape_eq_self (hbackslash : backslash ∉ value) (hmark : quotationMark ∉ value)
    (hlf : lineFeed ∉ value) : escape value = value := by
  induction value with
  | nil => rfl
  | cons c value ih =>
      simp only [List.mem_cons, not_or] at hbackslash hmark hlf
      rw [escape_cons, ih hbackslash.2 hmark.2 hlf.2, escapeChar, if_neg (Ne.symm hbackslash.1),
        if_neg (Ne.symm hmark.1), if_neg (Ne.symm hlf.1), List.singleton_append]

/-- Only backslashes are left to escape, and each becomes two. -/
theorem count_escape (hmark : quotationMark ∉ value) (hlf : lineFeed ∉ value) :
    (escape value).count backslash = 2 * value.count backslash := by
  induction value with
  | nil => rfl
  | cons c value ih =>
      simp only [List.mem_cons, not_or] at hmark hlf
      rw [escape_cons, List.count_append, ih hmark.2 hlf.2, escapeChar]
      by_cases hc : c = backslash
      · have htwo : List.count backslash [backslash, backslash] = 2 := by decide
        have hone : List.count backslash (backslash :: value) = List.count backslash value + 1 :=
          List.count_cons_self
        rw [if_pos hc, hc, htwo, hone]
        omega
      · rw [if_neg hc, if_neg (Ne.symm hmark.1), if_neg (Ne.symm hlf.1),
          List.count_cons_of_ne hc, List.count_cons_of_ne hc, List.count_nil, Nat.zero_add]

theorem count_dropWhile_padding (text : Bytes) :
    (text.dropWhile isPadding).count backslash = text.count backslash := by
  have hpadding : backslash ∉ text.takeWhile isPadding := by
    intro hmem
    exact absurd (List.mem_takeWhile_imp hmem) (by decide)
  conv_rhs => rw [← List.takeWhile_append_dropWhile (p := isPadding) (l := text)]
  rw [List.count_append, List.count_eq_zero.mpr hpadding, Nat.zero_add]

/-! ## What a label that was read can contain -/

theorem mem_of_mem_read {label : Label} {x : UInt8} (hlabel : label ∈ read cursor text)
    (hx : x ∈ label.key ∨ x ∈ label.value) : x ∈ text := by
  induction text using pieces_induction generalizing cursor with
  | hlast text hmem =>
      rw [read_of_notMem hmem] at hlabel
      exact mem_of_mem_named hlabel hx
  | hmore first rest hfirst ih =>
      rw [read_append_cons hfirst] at hlabel
      rcases List.mem_append.mp hlabel with hnamed | hrest
      · have hmem := mem_of_mem_named hnamed hx
        rcases List.mem_append.mp hmem with hleft | hright
        · exact List.mem_append_left _ hleft
        · exact List.mem_append_right _ (List.mem_of_mem_take hright)
      · exact List.mem_append_right _ (List.mem_cons_of_mem _ (ih hrest))

theorem quotationMark_notMem_value (text : Bytes) :
    quotationMark ∉ (parseBbMetricsLabel text).value := by
  rcases notMem_or_exists_line equalsSign text with htext | ⟨key, rest, rfl, hkey⟩
  · rw [parseBbMetricsLabel_of_notMem htext]
    exact List.not_mem_nil
  · rw [parseBbMetricsLabel_eq hkey]
    exact quotationMark_notMem_quoted rest

theorem quotationMark_notMem_read {label : Label} (hlabel : label ∈ read cursor text) :
    quotationMark ∉ label.value := by
  obtain ⟨piece, -, hpiece⟩ := mem_named_iff.mp hlabel
  obtain rfl : label = parseBbMetricsLabel piece :=
    List.mem_singleton.mp (List.mem_of_mem_filter hpiece)
  exact quotationMark_notMem_value piece

theorem mem_rendered {labels : List Label} {x : UInt8} (hx : x ∈ rendered labels) :
    x = comma ∨ ∃ label ∈ labels, x ∈ renderLabel label := by
  induction labels with
  | nil => cases hx
  | cons label more ih =>
      rw [rendered_cons, List.mem_append] at hx
      rcases hx with hlabel | hmore
      · exact Or.inr ⟨label, List.mem_cons_self .., hlabel⟩
      · cases more with
        | nil => cases hmore
        | cons next more =>
            rcases List.mem_cons.mp hmore with heq | hrest
            · exact Or.inl heq
            · rcases ih hrest with heq | ⟨other, hother, hmem⟩
              · exact Or.inl heq
              · exact Or.inr ⟨other, List.mem_cons_of_mem _ hother, hmem⟩

/-- A character that is neither of the format nor of a name comes from a value. -/
theorem notMem_rendered {labels : List Label} {x : UInt8}
    (hnames : ∀ label ∈ labels, isLabelName label.key = true) (hx : isNameChar x = false)
    (hformat : x ∉ [comma, equalsSign, quotationMark])
    (hvalues : ∀ label ∈ labels, x ∉ escape label.value) : x ∉ rendered labels := by
  simp only [List.mem_cons, List.not_mem_nil, or_false, not_or] at hformat
  obtain ⟨hcomma, hequals, hmark⟩ := hformat
  intro hmem
  rcases mem_rendered hmem with heq | ⟨label, hlabel, hrender⟩
  · exact hcomma heq
  · have hname := notMem_of_isLabelName (hnames label hlabel) hx
    have hvalue := hvalues label hlabel
    simp [renderLabel, hname, hvalue, hequals, hmark] at hrender

end BbMonitor.Prometheus
