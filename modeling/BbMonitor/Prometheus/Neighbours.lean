import BbMonitor.Prometheus.Labels

/-!
# Labels and their neighbours

`parse_bb_metrics_labels` cuts a piece out with `substr(cursor, tag_separator_pos)`,
the position of the comma in the place of the length of the piece.  The first piece
starts at 0 and the last one has no comma; they come out right.  Every other piece is
followed by a part of its neighbours, as long as the text in front of it.

Whether this shows depends on where the label ends.  A piece without `=` takes in all
of that part.  A value that is closed inside its piece is read as it is; one that is
not closed there goes on to the next quotation mark, if that part has one
(`Undisturbed`).  What has gone wrong always shows, because it contains a comma.
-/

namespace BbMonitor.Prometheus

variable {chunk key text beyond rest : Bytes} {chunks : List Bytes}

/-! ## A value and what follows it -/

/-- A value starts in the text, and a quotation mark ends it. -/
def Closed (text : Bytes) : Prop :=
  ∃ padding first rest, text = padding ++ first :: rest ∧
    (∀ c ∈ padding, isPadding c = true) ∧ isPadding first = false ∧ quotationMark ∈ rest

theorem quoted_append_of_closed (hclosed : Closed text) (more : Bytes) :
    quoted (text ++ more) = quoted text := by
  obtain ⟨padding, first, rest, rfl, hpadding, hfirst, hmem⟩ := hclosed
  obtain ⟨inner, after, rfl, hinner⟩ := List.eq_append_cons_of_mem hmem
  have hsplit : padding ++ first :: (inner ++ quotationMark :: after) ++ more =
      padding ++ first :: (inner ++ quotationMark :: (after ++ more)) := by simp
  rw [hsplit, quoted_of_closed hpadding hfirst hinner, quoted_of_closed hpadding hfirst hinner]

/-- A value that is not closed is empty, and its text has no quotation mark after the
padding. -/
theorem open_cases (hopen : ¬ Closed text) :
    quoted text = [] ∧
      ((∀ c ∈ text, isPadding c = true) ∨
        ∃ padding first rest, text = padding ++ first :: rest ∧
          (∀ c ∈ padding, isPadding c = true) ∧ isPadding first = false ∧
          quotationMark ∉ rest) := by
  rcases all_or_exists_first isPadding text with
    hall | ⟨padding, first, rest, rfl, hpadding, hfirst⟩
  · exact ⟨quoted_of_padding hall, Or.inl hall⟩
  · have hmem : quotationMark ∉ rest :=
      fun hmem => hopen ⟨padding, first, rest, rfl, hpadding, hfirst, hmem⟩
    exact ⟨quoted_of_notMem hpadding hfirst hmem,
      Or.inr ⟨padding, first, rest, rfl, hpadding, hfirst, hmem⟩⟩

theorem comma_not_padding : isPadding comma = false := by decide

theorem comma_ne_quotationMark : quotationMark ≠ comma := by decide

/-- Without a quotation mark in what follows, an open value stays open. -/
theorem quoted_append_of_notMem (hopen : ¬ Closed text)
    (hmark : quotationMark ∉ comma :: beyond) : quoted (text ++ comma :: beyond) = [] := by
  obtain ⟨-, hall | ⟨padding, first, rest, rfl, hpadding, hfirst, hmem⟩⟩ := open_cases hopen
  · exact quoted_of_notMem hall comma_not_padding fun hmem =>
      hmark (List.mem_cons_of_mem _ hmem)
  · rw [List.append_assoc, List.cons_append]
    refine quoted_of_notMem hpadding hfirst ?_
    rw [List.mem_append]
    exact not_or.mpr ⟨hmem, hmark⟩

/-- With one, the value goes on to it, over the comma. -/
theorem comma_mem_quoted_append (hopen : ¬ Closed text)
    (hmark : quotationMark ∈ comma :: beyond) : comma ∈ quoted (text ++ comma :: beyond) := by
  have hover : quotationMark ∈ beyond :=
    (List.mem_cons.mp hmark).resolve_left comma_ne_quotationMark
  obtain ⟨inner, after, rfl, hinner⟩ := List.eq_append_cons_of_mem hover
  obtain ⟨-, hall | ⟨padding, first, rest, rfl, hpadding, hfirst, hmem⟩⟩ := open_cases hopen
  · rw [quoted_of_closed hall comma_not_padding hinner]
    exact List.mem_cons_self ..
  · have hclean : quotationMark ∉ rest ++ comma :: inner := by
      rw [List.mem_append, List.mem_cons]
      exact not_or.mpr ⟨hmem, not_or.mpr ⟨comma_ne_quotationMark, hinner⟩⟩
    have hsplit : padding ++ first :: rest ++ comma :: (inner ++ quotationMark :: after) =
        padding ++ first :: (rest ++ comma :: inner ++ quotationMark :: after) := by simp
    rw [hsplit, quoted_of_closed hpadding hfirst hclean]
    simp

/-! ## A piece and what follows it -/

/-- The label of the piece is the same with `over` behind it: its name is empty, or it
has a `=` and then its value is closed, or `over` has no quotation mark. -/
def Undisturbed (chunk beyond : Bytes) : Prop :=
  ∃ key text, chunk = key ++ equalsSign :: text ∧ equalsSign ∉ key ∧
    (key = [] ∨ Closed text ∨ quotationMark ∉ beyond)

theorem named_eq_of_undisturbed (hundisturbed : Undisturbed chunk (comma :: beyond)) :
    named [chunk ++ comma :: beyond] = named [chunk] := by
  obtain ⟨key, text, rfl, hkey, hcases⟩ := hundisturbed
  have hsplit : key ++ equalsSign :: text ++ comma :: beyond =
      key ++ equalsSign :: (text ++ comma :: beyond) := by simp
  unfold named
  rw [hsplit, List.map_singleton, List.map_singleton, parseBbMetricsLabel_eq hkey,
    parseBbMetricsLabel_eq hkey]
  rcases hcases with rfl | hclosed | hmark
  · simp
  · rw [quoted_append_of_closed hclosed]
  · by_cases hclosed : Closed text
    · rw [quoted_append_of_closed hclosed]
    · rw [quoted_append_of_notMem hclosed hmark, (open_cases hclosed).1]

theorem mem_named_singleton {label : Label} (hlabel : parseBbMetricsLabel text = label)
    (hkey : label.key ≠ []) : label ∈ named [text] := by
  simp [named, hlabel, hkey]

/-- Otherwise the label has a comma that is not of the piece. -/
theorem exists_comma_of_disturbed (hdisturbed : ¬ Undisturbed chunk (comma :: beyond)) :
    ∃ label ∈ named [chunk ++ comma :: beyond], comma ∈ label.key ∨ comma ∈ label.value := by
  have hname : ∀ more : Bytes, chunk ++ comma :: more ≠ [] := by simp
  rcases notMem_or_exists_line equalsSign chunk with hchunk | ⟨key, text, rfl, hkey⟩
  · -- the name goes on beyond the comma
    rcases notMem_or_exists_line equalsSign beyond with hover | ⟨first, rest, rfl, hfirst⟩
    · have hnone : equalsSign ∉ chunk ++ comma :: beyond := by
        rw [List.mem_append, List.mem_cons]
        exact not_or.mpr ⟨hchunk, not_or.mpr ⟨by decide, hover⟩⟩
      exact ⟨_, mem_named_singleton (parseBbMetricsLabel_of_notMem hnone) (hname beyond),
        Or.inl (by simp)⟩
    · have hlonger : equalsSign ∉ chunk ++ comma :: first := by
        rw [List.mem_append, List.mem_cons]
        exact not_or.mpr ⟨hchunk, not_or.mpr ⟨by decide, hfirst⟩⟩
      have hsplit : chunk ++ comma :: (first ++ equalsSign :: rest) =
          (chunk ++ comma :: first) ++ equalsSign :: rest := by simp
      rw [hsplit]
      exact ⟨_, mem_named_singleton (parseBbMetricsLabel_eq hlonger rest) (hname first),
        Or.inl (by simp)⟩
  · -- the value goes on beyond the comma
    have hnot : ¬ (key = [] ∨ Closed text ∨ quotationMark ∉ comma :: beyond) :=
      fun hcases => hdisturbed ⟨key, text, rfl, hkey, hcases⟩
    simp only [not_or, not_not] at hnot
    obtain ⟨hnonempty, hopen, hmark⟩ := hnot
    have hsplit : key ++ equalsSign :: text ++ comma :: beyond =
        key ++ equalsSign :: (text ++ comma :: beyond) := by simp
    rw [hsplit]
    exact ⟨_, mem_named_singleton (parseBbMetricsLabel_eq hkey _) hnonempty,
      Or.inr (comma_mem_quoted_append hopen hmark)⟩

theorem mem_of_mem_quoted {c : UInt8} (hmem : c ∈ quoted text) : c ∈ text := by
  by_cases hclosed : Closed text
  · obtain ⟨padding, first, rest, rfl, hpadding, hfirst, hmark⟩ := hclosed
    obtain ⟨inner, after, rfl, hinner⟩ := List.eq_append_cons_of_mem hmark
    rw [quoted_of_closed hpadding hfirst hinner] at hmem
    rcases List.mem_cons.mp hmem with rfl | hmem
    · simp
    · simp [hmem]
  · rw [(open_cases hclosed).1] at hmem
    cases hmem

/-- A label has no character that is not in its text. -/
theorem mem_of_mem_named {c : UInt8} {label : Label} (hlabel : label ∈ named [text])
    (hmem : c ∈ label.key ∨ c ∈ label.value) : c ∈ text := by
  obtain rfl : parseBbMetricsLabel text = label := by
    have hsub := List.mem_of_mem_filter hlabel
    exact (List.mem_singleton.mp hsub).symm
  rcases notMem_or_exists_line equalsSign text with htext | ⟨key, rest, rfl, hkey⟩
  · rw [parseBbMetricsLabel_of_notMem htext] at hmem
    simpa using hmem
  · rw [parseBbMetricsLabel_eq hkey] at hmem
    rcases hmem with hmem | hmem
    · exact List.mem_append_left _ hmem
    · exact List.mem_append_right _ (List.mem_cons_of_mem _ (mem_of_mem_quoted hmem))

theorem mem_named_iff {label : Label} {texts : List Bytes} :
    label ∈ named texts ↔ ∃ text ∈ texts, label ∈ named [text] := by
  simp only [named, List.mem_filter, List.mem_map, List.map_singleton, List.mem_singleton]
  constructor
  · rintro ⟨⟨text, hmem, rfl⟩, hkey⟩
    exact ⟨text, hmem, rfl, hkey⟩
  · rintro ⟨text, hmem, rfl, hkey⟩
    exact ⟨⟨text, hmem, rfl⟩, hkey⟩

/-! ## All the pieces -/

/-- No piece but the last is disturbed, when the cursor stands before the first. -/
def AllUndisturbed : ℕ → List Bytes → Prop
  | _, [] => True
  | _, [_] => True
  | cursor, chunk :: next :: more =>
      Undisturbed chunk ((comma :: joined (next :: more)).take cursor) ∧
        AllUndisturbed (cursor + chunk.length + 1) (next :: more)

theorem named_handed_of_all {cursor : ℕ} (hall : AllUndisturbed (cursor + 1) chunks) :
    named (handed (cursor + 1) chunks) = named chunks := by
  induction chunks generalizing cursor with
  | nil => rfl
  | cons chunk more ih =>
      cases more with
      | nil => rfl
      | cons next more =>
          obtain ⟨hchunk, hmore⟩ := hall
          rw [List.take_succ_cons] at hchunk
          rw [handed, named_cons, named_cons chunk, List.take_succ_cons,
            named_eq_of_undisturbed hchunk]
          exact congrArg _ (ih hmore)

theorem exists_comma_of_not_all {cursor : ℕ} (hnot : ¬ AllUndisturbed (cursor + 1) chunks) :
    ∃ label ∈ named (handed (cursor + 1) chunks), comma ∈ label.key ∨ comma ∈ label.value := by
  induction chunks generalizing cursor with
  | nil => exact absurd trivial hnot
  | cons chunk more ih =>
      cases more with
      | nil => exact absurd trivial hnot
      | cons next more =>
          rw [handed, named_cons]
          rcases not_and_or.mp hnot with hchunk | hmore
          · rw [List.take_succ_cons] at hchunk ⊢
            obtain ⟨label, hlabel, hcomma⟩ := exists_comma_of_disturbed hchunk
            exact ⟨label, List.mem_append_left _ hlabel, hcomma⟩
          · obtain ⟨label, hlabel, hcomma⟩ := ih hmore
            exact ⟨label, List.mem_append_right _ hlabel, hcomma⟩

theorem joined_concat {front : List Bytes} (hfront : front ≠ []) (chunk : Bytes) :
    joined (front ++ [chunk]) = joined front ++ comma :: chunk := by
  induction front with
  | nil => exact absurd rfl hfront
  | cons first more ih =>
      cases more with
      | nil => simp [joined_cons_cons, joined_singleton]
      | cons next more =>
          have hmore := ih (by simp)
          rw [List.cons_append, List.cons_append, joined_cons_cons, ← List.cons_append, hmore,
            joined_cons_cons, List.append_assoc, List.cons_append]

theorem allUndisturbed_cons (cursor : ℕ) (chunk : Bytes) (more : List Bytes) :
    AllUndisturbed cursor (chunk :: more) ↔
      (more ≠ [] → Undisturbed chunk ((comma :: joined more).take cursor)) ∧
        AllUndisturbed (cursor + chunk.length + 1) more := by
  cases more with
  | nil => simp [AllUndisturbed]
  | cons next more => simp [AllUndisturbed]

/-- The same, piece by piece. -/
theorem allUndisturbed_iff {front : List Bytes} (hfront : front ≠ []) (chunks : List Bytes) :
    AllUndisturbed ((joined front).length + 1) chunks ↔
      ∀ before chunk after, chunks = before ++ chunk :: after → after ≠ [] →
        Undisturbed chunk
          ((comma :: joined after).take ((joined (front ++ before)).length + 1)) := by
  induction chunks generalizing front with
  | nil => simp [AllUndisturbed]
  | cons chunk more ih =>
      have hlength : (joined front).length + 1 + chunk.length + 1 =
          (joined (front ++ [chunk])).length + 1 := by
        rw [joined_concat hfront, List.length_append, List.length_cons]
        omega
      have hmore := @ih (front ++ [chunk]) (by simp)
      simp only [List.append_assoc, List.singleton_append] at hmore
      rw [allUndisturbed_cons, hlength, hmore]
      constructor
      · rintro ⟨hfirst, hrest⟩ before piece after hsplit hafter
        cases before with
        | nil =>
            obtain ⟨rfl, rfl⟩ := List.cons.inj hsplit
            rw [List.append_nil]
            exact hfirst hafter
        | cons head before =>
            obtain ⟨rfl, hrestSplit⟩ := List.cons.inj hsplit
            exact hrest before piece after hrestSplit hafter
      · intro hall
        refine ⟨fun hne => ?_, fun before piece after hsplit hafter => ?_⟩
        · have hfirst := hall [] chunk more rfl hne
          rwa [List.append_nil] at hfirst
        · exact hall (chunk :: before) piece after (by rw [hsplit, List.cons_append]) hafter

/-! ## When labels are independent -/

theorem named_handed_perm_iff (hchunks : ∀ chunk ∈ chunks, comma ∉ chunk) :
    (named (handed 0 chunks)).Perm (named chunks) ↔
      ∀ before chunk after, chunks = before ++ chunk :: after → before ≠ [] → after ≠ [] →
        Undisturbed chunk ((comma :: joined after).take ((joined before).length + 1)) := by
  cases chunks with
  | nil => simp [handed]
  | cons first more =>
      -- the cursor of the first piece is 0, and nothing comes with it
      have hfirst : named (handed 0 (first :: more)) =
          named [first] ++ named (handed ((joined [first]).length + 1) more) := by
        rw [joined_singleton]
        cases more with
        | nil => simp [handed, named]
        | cons next more => rw [handed, named_cons, List.take_zero, List.append_nil, Nat.zero_add]
      rw [hfirst, named_cons first more, List.perm_append_left_iff]
      have hsplits : (∀ before chunk after, first :: more = before ++ chunk :: after →
          before ≠ [] → after ≠ [] →
          Undisturbed chunk ((comma :: joined after).take ((joined before).length + 1))) ↔
          AllUndisturbed ((joined [first]).length + 1) more := by
        rw [allUndisturbed_iff (by simp)]
        constructor
        · intro hall before chunk after hsplit hafter
          have hcons : first :: before ≠ [] := List.cons_ne_nil _ _
          exact hall (first :: before) chunk after (by rw [hsplit, List.cons_append]) hcons hafter
        · intro hall before chunk after hsplit hbefore hafter
          cases before with
          | nil => exact absurd rfl hbefore
          | cons head before =>
              obtain ⟨rfl, hrestSplit⟩ := List.cons.inj hsplit
              exact hall before chunk after hrestSplit hafter
      rw [hsplits]
      constructor
      · intro hperm
        by_contra hnot
        obtain ⟨label, hlabel, hcomma⟩ := exists_comma_of_not_all hnot
        obtain ⟨text, htext, hmem⟩ := mem_named_iff.mp (hperm.subset hlabel)
        exact hchunks text (List.mem_cons_of_mem _ htext) (mem_of_mem_named hmem hcomma)
      · intro hall
        rw [named_handed_of_all hall]

/-- The labels of a block are those of its pieces taken alone exactly when no piece is
disturbed; the first and the last are not. -/
theorem labels_independent_iff (jobId instanceId : Bytes) (chunks : List Bytes)
    (hne : chunks ≠ []) (hchunks : ∀ chunk ∈ chunks, comma ∉ chunk) :
    (parseBbMetricsLabels jobId instanceId (joined chunks)).Perm
        (named chunks ++ groupingLabels jobId instanceId) ↔
      ∀ before chunk after, chunks = before ++ chunk :: after → before ≠ [] → after ≠ [] →
        Undisturbed chunk ((comma :: joined after).take ((joined before).length + 1)) := by
  have hloop :=
    labelsLoop_joined hchunks hne [] ((joined chunks).length + 1) (Nat.lt_succ_self _) []
  rw [List.nil_append, List.nil_append, List.length_nil] at hloop
  rw [parseBbMetricsLabels, hloop, (sortByLabelName_perm _).congr_left,
    List.perm_append_right_iff, named_handed_perm_iff hchunks]

/-- Three labels, each with a value. -/
def threeLabels : List Bytes := [bytes "a=\"1\"", bytes "b=\"2\"", bytes "c=\"3\""]

theorem threeLabels_independent :
    (parseBbMetricsLabels (bytes "j") (bytes "i") (joined threeLabels)).Perm
      (named threeLabels ++ groupingLabels (bytes "j") (bytes "i")) := by
  refine (labels_independent_iff (bytes "j") (bytes "i") threeLabels (by decide)
    (by decide)).mpr ?_
  rintro before chunk after hsplit hbefore hafter
  have hchunk : chunk = bytes "b=\"2\"" := by
    match before, after, hbefore, hafter with
    | [_], [_], _, _ => simp_all [threeLabels]
    | [_], _ :: _ :: _, _, _ => simp [threeLabels] at hsplit
    | _ :: _ :: [], _ :: _, _, _ => simp [threeLabels] at hsplit
    | _ :: _ :: _ :: _, _ :: _, _, _ => simp [threeLabels] at hsplit
  rw [hchunk]
  refine ⟨bytes "b", bytes "\"2\"", rfl, by decide, Or.inr (Or.inl ?_)⟩
  exact ⟨[quotationMark], 0x32, [quotationMark], rfl, List.forall_mem_singleton.mpr rfl,
    by decide, by decide⟩

/-- The second of three labels is empty. -/
def emptyInTheMiddle : List Bytes := [bytes "a=\"1\"", bytes "b=\"\"", bytes "c=\"2\""]

/-- The empty value becomes `,c=`. -/
theorem emptyInTheMiddle_not_independent :
    ¬ ∀ (jobId instanceId : Bytes) (chunks : List Bytes), chunks ≠ [] →
        (∀ chunk ∈ chunks, comma ∉ chunk ∧ backslash ∉ chunk ∧ chunk.count quotationMark % 2 = 0) →
        (parseBbMetricsLabels jobId instanceId (joined chunks)).Perm
          (named chunks ++ groupingLabels jobId instanceId) := by
  intro hall
  have hperm := hall [] [] emptyInTheMiddle (by decide) (by decide)
  rw [parseBbMetricsLabels, (sortByLabelName_perm _).congr_left] at hperm
  revert hperm
  decide +kernel

end BbMonitor.Prometheus
