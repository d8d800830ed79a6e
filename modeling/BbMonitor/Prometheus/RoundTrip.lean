import Mathlib.Algebra.GroupWithZero.Nat
import BbMonitor.Prometheus.Lines
import BbMonitor.Prometheus.Values

/-!
# Labels that come back

A line is written with rendered labels and then parsed.  The labels that come back are
those that were written exactly when every label is `Readable`, which depends on its
value, on how much text stands in front of it, and on the name of the label behind it.

That the labels of a block come back implies, in this order: no value contains a
brace, a quotation mark or a line feed, because no value that is read does; no label is
stray, because there would be too many; no value has run on into the next label,
because it would contain a comma that makes a stray label; no value contains a
backslash, because each was doubled; and no value is shorter than it was, because the
lengths have to add up.
-/

namespace BbMonitor.Prometheus

/-! ## Labels that can be read -/

/-- The label is read as it was written, with `cursor` characters in front of it and
the labels `more` behind it. -/
structure Readable (cursor : ℕ) (label : Label) (more : List Label) : Prop where
  noBrace : rightBrace ∉ label.value
  noMark : quotationMark ∉ label.value
  noLineFeed : lineFeed ∉ label.value
  noBackslash : backslash ∉ label.value
  start : label.value.head? ≠ some space
  -- a comma makes no label of its own
  nameless : ∀ before after, label.value = before ++ comma :: after → Nameless after
  -- the text that is cut out goes beyond the closing mark
  closed : ∀ before after, label.value = before ++ comma :: after → comma ∉ before →
    after.length + 1 < cursor
  -- the text that is cut out ends before the next value
  empty : label.value = [] → ∀ next ∈ more.head?, cursor ≤ next.key.length + 2

/-- A value without special characters can be read anywhere. -/
theorem readable_of_plain {cursor : ℕ} {label : Label} {more : List Label}
    (hne : label.value ≠ []) (hstart : label.value.head? ≠ some space)
    (hplain : ∀ c ∈ [rightBrace, quotationMark, lineFeed, backslash, comma], c ∉ label.value) :
    Readable cursor label more := by
  simp only [List.forall_mem_cons, List.not_mem_nil, false_implies, implies_true, and_true]
    at hplain
  obtain ⟨hbrace, hmark, hlineFeed, hbackslash, hcomma⟩ := hplain
  have hsplit : ∀ before after, label.value ≠ before ++ comma :: after := by
    intro before after heq
    exact hcomma (by simp [heq])
  exact
    { noBrace := hbrace
      noMark := hmark
      noLineFeed := hlineFeed
      noBackslash := hbackslash
      start := hstart
      nameless := fun before after heq => absurd heq (hsplit before after)
      closed := fun before after heq => absurd heq (hsplit before after)
      empty := fun hnil => absurd hnil hne }

/-- The number of characters in front of the label that follows these. -/
def front (before : List Label) : ℕ :=
  (before.map fun label => (renderLabel label).length + 1).sum

theorem add_front_cons (cursor : ℕ) (first : Label) (before : List Label) :
    cursor + front (first :: before) =
      cursor + (renderLabel first).length + 1 + front before := by
  simp only [front, List.map_cons, List.sum_cons]
  omega

theorem nameless_pieces_iff (text : Bytes) :
    (∀ piece ∈ pieces text, Nameless piece) ↔
      Nameless text ∧ ∀ piece ∈ (pieces text).tail, Nameless piece := by
  rcases notMem_or_exists_line comma text with hmem | ⟨first, rest, rfl, hfirst⟩
  · simp [pieces_of_notMem hmem]
  · rw [pieces_append_cons hfirst, List.forall_mem_cons, List.tail_cons,
      nameless_append_cons (by decide)]

theorem nameless_tail_iff (value : Bytes) :
    (∀ piece ∈ (pieces value).tail, Nameless piece) ↔
      ∀ before after, value = before ++ comma :: after → Nameless after := by
  induction value using pieces_induction with
  | hlast text hmem =>
      rw [pieces_of_notMem hmem]
      refine iff_of_true (by simp) fun before after heq => ?_
      exact absurd (by rw [heq]; simp) hmem
  | hmore first rest hfirst ih =>
      rw [pieces_append_cons hfirst, List.tail_cons, nameless_pieces_iff, ih]
      constructor
      · rintro ⟨hrest, hinner⟩ before after heq
        rcases eq_or_exists_of_append_cons_eq hfirst heq with rfl | ⟨more, hmore⟩
        · exact hrest
        · exact hinner more after hmore
      · intro hall
        refine ⟨hall first rest rfl, fun before after heq => ?_⟩
        exact hall (first ++ comma :: before) after (by simp [heq])

/-! ## What is heard -/

/-- Every label that is heard was written somewhere. -/
theorem exists_of_mem_heard {labels : List Label} {cursor : ℕ} {label : Label}
    (hlabel : label ∈ heard cursor labels) :
    ∃ written ∈ labels, ∃ (position : ℕ) (more : List Label), (∀ next ∈ more, next ∈ labels) ∧
      label = ⟨written.key, firstValue position (escape written.value) (following more)⟩ := by
  induction labels generalizing cursor with
  | nil => cases hlabel
  | cons written rest ih =>
      rcases List.mem_cons.mp hlabel with heq | hmem
      · exact ⟨written, List.mem_cons_self .., cursor, rest,
          fun next hnext => List.mem_cons_of_mem _ hnext, heq⟩
      · obtain ⟨other, hother, position, more, hmore, heq⟩ := ih hmem
        exact ⟨other, List.mem_cons_of_mem _ hother, position, more,
          fun next hnext => List.mem_cons_of_mem _ (hmore next hnext), heq⟩

/-- The labels are heard as they are when each value is. -/
theorem heard_eq_self_iff (labels : List Label) (cursor : ℕ) :
    heard cursor labels = labels ↔
      ∀ before label more, labels = before ++ label :: more →
        firstValue (cursor + front before) (escape label.value) (following more) = label.value := by
  induction labels generalizing cursor with
  | nil => simp [heard]
  | cons first rest ih =>
      rw [heard, List.cons.injEq, ih]
      constructor
      · rintro ⟨hfirst, hrest⟩ before label more hsplit
        cases before with
        | nil =>
            obtain ⟨rfl, rfl⟩ := List.cons.inj hsplit
            exact congrArg Label.value hfirst
        | cons head before =>
            obtain ⟨rfl, hsplit'⟩ := List.cons.inj hsplit
            rw [add_front_cons]
            exact hrest before label more hsplit'
      · intro hall
        refine ⟨?_, fun before label more hsplit => ?_⟩
        · have hvalue := hall [] first rest rfl
          cases first
          exact congrArg (Label.mk _) hvalue
        · have hvalue := hall (first :: before) label more (by rw [hsplit, List.cons_append])
          rwa [add_front_cons] at hvalue

/-! ## Labels that come back -/

section

variable {labels : List Label} (hnames : ∀ label ∈ labels, isLabelName label.key = true)
  {cursor : ℕ}

include hnames

/-- A piece of the next label would make a label of its own. -/
theorem value_ne_leak (hstrays : NoStrays labels) {label next : Label} (hlabel : label ∈ labels)
    (hnext : next ∈ labels) : label.value ≠ comma :: (next.key ++ [equalsSign]) := by
  intro hvalue
  have hname := hnames next hnext
  have habsent : ∀ c : UInt8, isNameChar c = false → c ≠ comma → c ≠ equalsSign →
      c ∉ label.value := by
    intro c hc hcomma hequals
    have hkey := notMem_of_isLabelName hname hc
    simp [hvalue, hcomma, hequals, hkey]
  have hescape : escape label.value = [] ++ comma :: (next.key ++ [equalsSign]) := by
    rw [escape_eq_self (habsent _ (by decide) (by decide) (by decide))
      (habsent _ (by decide) (by decide) (by decide))
      (habsent _ (by decide) (by decide) (by decide)), hvalue, List.nil_append]
  have hcomma : comma ∉ next.key ++ [equalsSign] := by
    rw [List.mem_append, List.mem_singleton]
    exact not_or.mpr ⟨notMem_of_isLabelName hname (by decide), by decide⟩
  have hnameless := hstrays label hlabel (next.key ++ [equalsSign]) (by
    rw [hescape, pieces_append_cons List.not_mem_nil, pieces_of_notMem hcomma]
    simp)
  have hequals : equalsSign ∉ next.key := notMem_of_isLabelName hname (by decide)
  have hne := ne_nil_of_isLabelName hname
  cases hkey : next.key with
  | nil => exact hne hkey
  | cons c key =>
      rw [hkey] at hnameless hequals
      cases hnameless
      exact hequals (List.mem_cons_self ..)

/-- So a value that is heard is empty or has lost its leading blanks. -/
theorem firstValue_cases_of_perm (hstrays : NoStrays labels)
    (hperm : (heard cursor labels).Perm labels)
    (hmarks : ∀ label ∈ labels, quotationMark ∉ label.value) {label : Label} {position : ℕ}
    {more : List Label} (hlabel : label ∈ labels) (hmore : ∀ next ∈ more, next ∈ labels)
    (hheard : ⟨label.key, firstValue position (escape label.value) (following more)⟩ ∈
      heard cursor labels) :
    firstValue position (escape label.value) (following more) = [] ∨
      firstValue position (escape label.value) (following more) =
        (escape label.value).dropWhile isPadding := by
  have hmark : quotationMark ∉ escape label.value :=
    fun hmem => hmarks label hlabel ((mem_escape_iff (by decide) (by decide) (by decide)).mp hmem)
  rcases firstValue_cases hmark position (fun next hnext => hnames next (hmore next hnext)) with
    hnone | hstrip | ⟨next, hnext, hleak⟩
  · exact Or.inl hnone
  · exact Or.inr hstrip
  · exact absurd hleak (value_ne_leak hnames hstrays (hperm.subset hheard) (hmore next hnext))

/-- The backslashes were doubled, so that a value with the fewest would not come back. -/
theorem count_backslash_eq_zero (hstrays : NoStrays labels)
    (hperm : (heard cursor labels).Perm labels)
    (hmarks : ∀ label ∈ labels, quotationMark ∉ label.value)
    (hlfs : ∀ label ∈ labels, lineFeed ∉ label.value) {label : Label} (hlabel : label ∈ labels) :
    label.value.count backslash = 0 := by
  induction hcount : label.value.count backslash using Nat.strong_induction_on
    generalizing label with
  | _ n ih =>
      have hheard := hperm.symm.subset hlabel
      obtain ⟨written, hwritten, position, more, hmore, heq⟩ := exists_of_mem_heard hheard
      rw [heq] at hheard
      have hvalue := congrArg Label.value heq
      rcases firstValue_cases_of_perm hnames hstrays hperm hmarks hwritten hmore hheard with
        hnone | hstrip
      · rw [hvalue, hnone] at hcount
        exact hcount.symm
      · rw [hvalue, hstrip, count_dropWhile_padding,
          count_escape (hmarks written hwritten) (hlfs written hwritten)] at hcount
        by_contra hpos
        have hzero := ih (written.value.count backslash) (by omega) hwritten rfl
        omega

omit hnames in
/-- Values that can only lose characters come back if none is lost altogether. -/
theorem heard_eq_of_total (labels : List Label) (cursor : ℕ)
    (hshorter : ∀ before label more, labels = before ++ label :: more →
      ∃ lost, lost ++ firstValue (cursor + front before) (escape label.value) (following more) =
        label.value) :
    ((heard cursor labels).map fun label => label.value.length).sum ≤
        (labels.map fun label => label.value.length).sum ∧
      (((heard cursor labels).map fun label => label.value.length).sum =
        (labels.map fun label => label.value.length).sum → heard cursor labels = labels) := by
  induction labels generalizing cursor with
  | nil => exact ⟨Nat.le_refl _, fun _ => rfl⟩
  | cons first rest ih =>
      obtain ⟨lost, hfirst⟩ := hshorter [] first rest rfl
      rw [front, List.map_nil, List.sum_nil, Nat.add_zero] at hfirst
      have hlength := congrArg List.length hfirst
      rw [List.length_append] at hlength
      obtain ⟨hle, heq⟩ := ih (cursor + (renderLabel first).length + 1) (by
        intro before label more hsplit
        have hvalue := hshorter (first :: before) label more (by rw [hsplit, List.cons_append])
        rwa [add_front_cons] at hvalue)
      rw [heard]
      simp only [List.map_cons, List.sum_cons]
      refine ⟨by omega, fun htotal => ?_⟩
      have hlost : lost = [] := List.eq_nil_of_length_eq_zero (by omega)
      rw [hlost, List.nil_append] at hfirst
      rw [heq (by omega), hfirst]

omit hnames in
theorem mem_heard_of_split {before more : List Label} {label : Label}
    (hsplit : labels = before ++ label :: more) (cursor : ℕ) :
    ⟨label.key, firstValue (cursor + front before) (escape label.value) (following more)⟩ ∈
      heard cursor labels := by
  induction before generalizing labels cursor with
  | nil =>
      rw [hsplit, List.nil_append, heard, front, List.map_nil, List.sum_nil, Nat.add_zero]
      exact List.mem_cons_self ..
  | cons first before ih =>
      rw [hsplit, List.cons_append, heard, add_front_cons]
      exact List.mem_cons_of_mem _ (ih rfl _)

/-- Labels that come back, in whatever order, are heard as they are. -/
theorem heard_eq_of_perm (hstrays : NoStrays labels) (hperm : (heard cursor labels).Perm labels)
    (hmarks : ∀ label ∈ labels, quotationMark ∉ label.value)
    (hlfs : ∀ label ∈ labels, lineFeed ∉ label.value) : heard cursor labels = labels := by
  refine (heard_eq_of_total labels cursor fun before label more hsplit => ?_).2 ?_
  · have hlabel : label ∈ labels := by simp [hsplit]
    have hmore : ∀ next ∈ more, next ∈ labels := by
      intro next hnext
      simp [hsplit, hnext]
    have hescape : escape label.value = label.value := by
      refine escape_eq_self (List.count_eq_zero.mp ?_) (hmarks label hlabel) (hlfs label hlabel)
      exact count_backslash_eq_zero hnames hstrays hperm hmarks hlfs hlabel
    rcases firstValue_cases_of_perm hnames hstrays hperm hmarks hlabel hmore
      (mem_heard_of_split hsplit cursor) with hnone | hstrip
    · exact ⟨label.value, by rw [hnone, List.append_nil]⟩
    · refine ⟨label.value.takeWhile isPadding, ?_⟩
      rw [hstrip, hescape, List.takeWhile_append_dropWhile]
  · exact (hperm.map _).sum_nat

/-- What stands between the opening brace and the first closing one. -/
def block (labels : List Label) : Bytes :=
  (rendered labels).takeWhile (· ≠ rightBrace)

theorem block_eq_rendered (hbraces : ∀ label ∈ labels, rightBrace ∉ label.value) :
    block labels = rendered labels := by
  have hnone : rightBrace ∉ rendered labels := by
    refine notMem_rendered hnames (by decide) (by decide) fun label hlabel hmem => ?_
    exact hbraces label hlabel ((mem_escape_iff (by decide) (by decide) (by decide)).mp hmem)
  refine List.takeWhile_eq_self_iff.mpr fun c hc => decide_eq_true fun heq => ?_
  exact hnone (heq ▸ hc)

theorem read_eq_of_noStrays (hne : labels ≠ []) (hstrays : NoStrays labels) :
    read 0 (rendered labels) = heard 0 labels :=
  (read_rendered hnames hne 0).1 hstrays

theorem readable_of_perm (hne : labels ≠ []) (hperm : (read 0 (block labels)).Perm labels)
    {before more : List Label} {label : Label} (hsplit : labels = before ++ label :: more) :
    Readable (front before) label more := by
  have hbraces : ∀ label ∈ labels, rightBrace ∉ label.value := by
    intro label hlabel hmem
    have hblock := mem_of_mem_read (hperm.symm.subset hlabel) (Or.inr hmem)
    exact absurd (List.mem_takeWhile_imp hblock) (by decide)
  rw [block_eq_rendered hnames hbraces] at hperm
  have hmarks : ∀ label ∈ labels, quotationMark ∉ label.value :=
    fun label hlabel => quotationMark_notMem_read (hperm.symm.subset hlabel)
  have hlfs : ∀ label ∈ labels, lineFeed ∉ label.value := by
    intro label hlabel hmem
    exact notMem_rendered hnames (by decide) (by decide)
      (fun label _ => lineFeed_notMem_escape label.value)
      (mem_of_mem_read (hperm.symm.subset hlabel) (Or.inr hmem))
  have hstrays : NoStrays labels := by
    by_contra hnot
    have hlt := (read_rendered hnames hne 0).2 hnot
    rw [hperm.length_eq] at hlt
    exact Nat.lt_irrefl _ hlt
  rw [read_eq_of_noStrays hnames hne hstrays] at hperm
  have hlabel : label ∈ labels := by simp [hsplit]
  have hbackslash : backslash ∉ label.value :=
    List.count_eq_zero.mp (count_backslash_eq_zero hnames hstrays hperm hmarks hlfs hlabel)
  have hescape := escape_eq_self hbackslash (hmarks label hlabel) (hlfs label hlabel)
  have hheard := (heard_eq_self_iff labels 0).mp
    (heard_eq_of_perm hnames hstrays hperm hmarks hlfs) before label more hsplit
  rw [hescape, Nat.zero_add] at hheard
  obtain ⟨hstart, hclosed, hempty⟩ := (firstValue_eq_iff (hmarks label hlabel) _
    (fun next hnext => hnames next (by simp [hsplit, hnext]))).mp hheard
  have hnameless := hstrays label hlabel
  rw [hescape] at hnameless
  exact ⟨hbraces label hlabel, hmarks label hlabel, hlfs label hlabel, hbackslash, hstart,
    (nameless_tail_iff label.value).mp hnameless, hclosed, hempty⟩

theorem read_eq_of_readable (hne : labels ≠ [])
    (hall : ∀ before label more, labels = before ++ label :: more →
      Readable (front before) label more) : read 0 (block labels) = labels := by
  have heach : ∀ label ∈ labels, ∃ cursor more, Readable cursor label more := by
    intro label hlabel
    obtain ⟨before, more, hsplit⟩ := List.append_of_mem hlabel
    exact ⟨_, _, hall before label more hsplit⟩
  have hescape : ∀ label ∈ labels, escape label.value = label.value := by
    intro label hlabel
    obtain ⟨cursor, more, hreadable⟩ := heach label hlabel
    exact escape_eq_self hreadable.noBackslash hreadable.noMark hreadable.noLineFeed
  have hbraces : ∀ label ∈ labels, rightBrace ∉ label.value := by
    intro label hlabel
    obtain ⟨cursor, more, hreadable⟩ := heach label hlabel
    exact hreadable.noBrace
  have hstrays : NoStrays labels := by
    intro label hlabel
    obtain ⟨cursor, more, hreadable⟩ := heach label hlabel
    rw [hescape label hlabel]
    exact (nameless_tail_iff label.value).mpr hreadable.nameless
  rw [block_eq_rendered hnames hbraces, read_eq_of_noStrays hnames hne hstrays, heard_eq_self_iff]
  intro before label more hsplit
  have hreadable := hall before label more hsplit
  rw [hescape label (by simp [hsplit]), Nat.zero_add]
  exact (firstValue_eq_iff hreadable.noMark _
    (fun next hnext => hnames next (by simp [hsplit, hnext]))).mpr
    ⟨hreadable.start, hreadable.closed, hreadable.empty⟩

/-- The labels of a block come back exactly when each of them is readable. -/
theorem read_block_perm_iff :
    (read 0 (block labels)).Perm labels ↔
      ∀ before label more, labels = before ++ label :: more →
        Readable (front before) label more := by
  by_cases hne : labels = []
  · have hblock : read 0 (block []) = [] := by decide +kernel
    rw [hne, hblock]
    exact iff_of_true List.Perm.nil (by simp)
  · refine ⟨fun hperm before label more => readable_of_perm hnames hne hperm, fun hall => ?_⟩
    rw [read_eq_of_readable hnames hne hall]

end

end BbMonitor.Prometheus
