import BbMonitor.ClientUtils.KvFilter

/-!
# Texts of terms

A text consists of terms with runs of term separators between them.  A term is a word or
a pair; both may be empty, so that a text may also begin or end with separators.

A round of `match` begins at some place in front of a term, and leaves behind it either
one separator or, for a pair, the pair and one separator (`scan_word`, `scan_pair`).  So
the run that follows is skipped separator by separator (`scan_gap`).
-/

namespace BbMonitor

namespace KvFilter

/-- No separator is in the text. -/
def Clean (filter : KvFilter) (text : Bytes) : Prop :=
  ∀ c ∈ text, c ∉ filter.separators

instance (filter : KvFilter) (text : Bytes) : Decidable (filter.Clean text) :=
  inferInstanceAs (Decidable (∀ c ∈ text, c ∉ filter.separators))

inductive Term (filter : KvFilter) where
  | word (text : Bytes) (clean : filter.Clean text)
  | pair (key val : Bytes) (key_clean : filter.Clean key) (val_clean : filter.Clean val)

/-- One term separator or more. -/
structure Gap (termSeparators : Bytes) where
  text : Bytes
  text_ne_nil : text ≠ []
  text_mem : ∀ c ∈ text, c ∈ termSeparators

namespace Term

variable {filter : KvFilter}

def text : filter.Term → Bytes
  | .word text _ => text
  | .pair key val _ _ => key ++ filter.kvSeparator :: val

def pair? : filter.Term → Option Kv
  | .word _ _ => none
  | .pair key val _ _ => some ⟨key, val⟩

end Term

end KvFilter

/-- A term, and more terms behind gaps. -/
structure KvText (termSeparators : Bytes) (kvSeparator : UInt8) where
  first : (kvFilter termSeparators kvSeparator).Term
  rest : List (KvFilter.Gap termSeparators × (kvFilter termSeparators kvSeparator).Term)

namespace KvText

variable {termSeparators : Bytes} {kvSeparator : UInt8}

/-- The gaps and terms behind the first term. -/
def tailText
    (rest : List (KvFilter.Gap termSeparators × (kvFilter termSeparators kvSeparator).Term)) :
    Bytes :=
  rest.flatMap fun p => p.1.text ++ p.2.text

def text (t : KvText termSeparators kvSeparator) : Bytes :=
  t.first.text ++ tailText t.rest

/-- The pairs, in order. -/
def pairs (t : KvText termSeparators kvSeparator) : List Kv :=
  (t.first :: t.rest.map Prod.snd).filterMap KvFilter.Term.pair?

end KvText

namespace KvFilter

/-! ## One round -/

section

variable {filter : KvFilter} {s word key val more : Bytes} {c : UInt8} {cursor rounds : ℕ}
  {result : List Kv}

/-- Nothing comes any more. -/
theorem scan_clean (hcursor : cursor < 2 ^ 31) (hclean : filter.Clean (s.drop cursor)) :
    filter.scan s (rounds + 1) (Int32.ofNat cursor) result = .ok result := by
  have hfind : findFirstOf s filter.separators cursor = none := findFirstOf_eq_none hclean
  rw [scan]
  simp only [toSizeT_ofNat hcursor, hfind]

theorem getElem?_of_drop (hsplit : s.drop cursor = word ++ c :: more) :
    s[cursor + word.length]? = some c := by
  rw [← List.getElem?_drop, hsplit, List.getElem?_append_right (Nat.le_refl _), Nat.sub_self,
    List.getElem?_cons_zero]

/-- A word is passed by, with the separator behind it. -/
theorem scan_word (hcursor : cursor < 2 ^ 31) (hsplit : s.drop cursor = word ++ c :: more)
    (hclean : filter.Clean word) (hc : c ∈ filter.separators) (hterm : c ≠ filter.kvSeparator) :
    filter.scan s (rounds + 1) (Int32.ofNat cursor) result =
      filter.scan s rounds (Int32.ofNat (cursor + word.length + 1)) result := by
  have hfind : findFirstOf s filter.separators cursor = some (cursor + word.length) :=
    findFirstOf_eq_some hsplit hclean hc
  have hother : some c ≠ some filter.kvSeparator := fun heq => hterm (Option.some.inj heq)
  rw [scan]
  simp only [toSizeT_ofNat hcursor, hfind, getElem?_of_drop hsplit]
  rw [if_neg hother]

/-- The text in front of the separator is the key. -/
theorem substr_key (hlength : cursor ≤ s.length) (hsplit : s.drop cursor = key ++ more) :
    substr s cursor (cursor + key.length - cursor) = .ok key := by
  rw [substr_of_le hlength, hsplit, Nat.add_sub_cancel_left, List.take_left]

theorem drop_behind (hsplit : s.drop cursor = word ++ c :: more) :
    s.drop (cursor + word.length + 1) = more := by
  have hdrop : s.drop (cursor + (word.length + 1)) = (s.drop cursor).drop (word.length + 1) :=
    List.drop_drop.symm
  rw [Nat.add_assoc, hdrop, hsplit, ← List.drop_drop, List.drop_left, List.drop_one, List.tail_cons]

theorem scan_last_pair (hsize : s.length < 2 ^ 31) (hcursor : cursor ≤ s.length)
    (hsplit : s.drop cursor = key ++ filter.kvSeparator :: val)
    (hkv : filter.kvSeparator ∈ filter.separators) (hkey : filter.Clean key)
    (hval : filter.Clean val) :
    filter.scan s (rounds + 1) (Int32.ofNat cursor) result = .ok (result ++ [⟨key, val⟩]) := by
  have hfirst : findFirstOf s filter.separators cursor = some (cursor + key.length) :=
    findFirstOf_eq_some hsplit hkey hkv
  have hbehind := drop_behind hsplit
  have hsecond : findFirstOf s filter.separators (cursor + key.length + 1) = none :=
    findFirstOf_eq_none (by rwa [hbehind])
  have hle : cursor + key.length + 1 ≤ s.length := (findFirstOf_bounds hfirst).2
  have hrest : substr s (cursor + key.length + 1) npos = .ok val := by
    have hshort : val.length ≤ npos := by
      have hlength := congrArg List.length hbehind
      rw [List.length_drop] at hlength
      unfold npos
      omega
    rw [substr_of_le hle, hbehind, List.take_of_length_le hshort]
  rw [scan]
  simp only [toSizeT_ofNat (Nat.lt_of_le_of_lt hcursor hsize), hfirst, getElem?_of_drop hsplit,
    if_true, substr_key hcursor hsplit, hsecond, hrest]
  rfl

theorem scan_pair (hsize : s.length < 2 ^ 31) (hcursor : cursor ≤ s.length)
    (hsplit : s.drop cursor = key ++ filter.kvSeparator :: (val ++ c :: more))
    (hkv : filter.kvSeparator ∈ filter.separators) (hc : c ∈ filter.separators)
    (hkey : filter.Clean key) (hval : filter.Clean val) :
    filter.scan s (rounds + 1) (Int32.ofNat cursor) result =
      filter.scan s rounds (Int32.ofNat (cursor + key.length + 1 + val.length + 1))
        (result ++ [⟨key, val⟩]) := by
  have hfirst : findFirstOf s filter.separators cursor = some (cursor + key.length) :=
    findFirstOf_eq_some hsplit hkey hkv
  have hbehind := drop_behind hsplit
  have hsecond : findFirstOf s filter.separators (cursor + key.length + 1) =
      some (cursor + key.length + 1 + val.length) := findFirstOf_eq_some hbehind hval hc
  have hle : cursor + key.length + 1 ≤ s.length := (findFirstOf_bounds hfirst).2
  rw [scan]
  simp only [toSizeT_ofNat (Nat.lt_of_le_of_lt hcursor hsize), hfirst, getElem?_of_drop hsplit,
    if_true, substr_key hcursor hsplit, hsecond, substr_key hle hbehind]
  rfl

end

/-! ## One term -/

section

variable {termSeparators : Bytes} {kvSeparator : UInt8} {s gap more : Bytes} {c : UInt8}
  {cursor rounds : ℕ} {result : List Kv}

theorem kvSeparator_mem :
    (kvFilter termSeparators kvSeparator).kvSeparator ∈
      (kvFilter termSeparators kvSeparator).separators :=
  List.mem_append_right _ (List.mem_singleton_self _)

theorem mem_separators (hc : c ∈ termSeparators) :
    c ∈ (kvFilter termSeparators kvSeparator).separators :=
  List.mem_append_left _ hc

/-- The last term ends the loop. -/
theorem scan_last (hsize : s.length < 2 ^ 31) (hcursor : cursor ≤ s.length)
    (term : (kvFilter termSeparators kvSeparator).Term) (hsplit : s.drop cursor = term.text) :
    (kvFilter termSeparators kvSeparator).scan s (rounds + 1) (Int32.ofNat cursor) result =
      .ok (result ++ term.pair?.toList) := by
  cases term with
  | word text clean =>
      rw [Term.text] at hsplit
      rw [scan_clean (Nat.lt_of_le_of_lt hcursor hsize) (hsplit ▸ clean), Term.pair?,
        Option.toList_none, List.append_nil]
  | pair key val key_clean val_clean =>
      exact scan_last_pair hsize hcursor hsplit kvSeparator_mem key_clean val_clean

/-- Any other term is passed with one separator behind it. -/
theorem scan_term (hkv : kvSeparator ∉ termSeparators) (hsize : s.length < 2 ^ 31)
    (hcursor : cursor ≤ s.length) (term : (kvFilter termSeparators kvSeparator).Term)
    (hc : c ∈ termSeparators) (hsplit : s.drop cursor = term.text ++ c :: more) :
    (kvFilter termSeparators kvSeparator).scan s (rounds + 1) (Int32.ofNat cursor) result =
      (kvFilter termSeparators kvSeparator).scan s rounds
        (Int32.ofNat (cursor + term.text.length + 1)) (result ++ term.pair?.toList) := by
  cases term with
  | word text clean =>
      have hother : c ≠ kvSeparator := fun heq => hkv (heq ▸ hc)
      rw [scan_word (Nat.lt_of_le_of_lt hcursor hsize) hsplit clean (mem_separators hc) hother,
        Term.pair?, Option.toList_none, List.append_nil]
  | pair key val key_clean val_clean =>
      have hlength : cursor + (key ++ kvSeparator :: val).length =
          cursor + key.length + 1 + val.length := by
        rw [List.length_append, List.length_cons]
        omega
      rw [Term.text, List.append_assoc, List.cons_append] at hsplit
      rw [scan_pair hsize hcursor hsplit kvSeparator_mem (mem_separators hc) key_clean val_clean,
        ← hlength]
      rfl

/-- Separators are passed one by one. -/
theorem scan_gap (hkv : kvSeparator ∉ termSeparators) (hsize : s.length < 2 ^ 31)
    (hcursor : cursor ≤ s.length) (hgap : ∀ c ∈ gap, c ∈ termSeparators)
    (hsplit : s.drop cursor = gap ++ more) :
    (kvFilter termSeparators kvSeparator).scan s (gap.length + rounds) (Int32.ofNat cursor) result =
      (kvFilter termSeparators kvSeparator).scan s rounds (Int32.ofNat (cursor + gap.length))
        result := by
  induction gap generalizing cursor with
  | nil => rw [List.length_nil, Nat.zero_add, Nat.add_zero]
  | cons c gap ih =>
      obtain ⟨hc, hgap⟩ := List.forall_mem_cons.mp hgap
      have hempty : s.drop cursor = [] ++ c :: (gap ++ more) := hsplit
      have hother : c ≠ kvSeparator := fun heq => hkv (heq ▸ hc)
      have hnext := drop_behind hempty
      have hlt : cursor + 1 ≤ s.length := by
        have hlength := congrArg List.length hsplit
        rw [List.length_drop, List.length_append, List.length_cons] at hlength
        omega
      rw [List.length_cons, Nat.add_right_comm,
        scan_word (Nat.lt_of_le_of_lt hcursor hsize) hempty (List.forall_mem_nil _)
          (mem_separators hc) hother]
      rw [List.length_nil, Nat.add_zero] at hnext ⊢
      rw [ih hlt hgap hnext, Nat.add_assoc cursor, Nat.add_comm 1]

/-! ## All terms -/

theorem scan_terms (hkv : kvSeparator ∉ termSeparators) (hsize : s.length < 2 ^ 31)
    (first : (kvFilter termSeparators kvSeparator).Term)
    (rest : List (Gap termSeparators × (kvFilter termSeparators kvSeparator).Term))
    (hcursor : cursor ≤ s.length) (hrounds : s.length < rounds + cursor)
    (hsplit : s.drop cursor = first.text ++ KvText.tailText rest) :
    (kvFilter termSeparators kvSeparator).scan s rounds (Int32.ofNat cursor) result =
      .ok (result ++ (first :: rest.map Prod.snd).filterMap Term.pair?) := by
  induction rest generalizing first cursor rounds result with
  | nil =>
      obtain ⟨rounds, rfl⟩ : ∃ n, rounds = n + 1 := ⟨rounds - 1, by omega⟩
      rw [KvText.tailText, List.flatMap_nil, List.append_nil] at hsplit
      rw [scan_last hsize hcursor first hsplit]
      cases first <;> rfl
  | cons p rest ih =>
      obtain ⟨gap, term⟩ := p
      obtain ⟨c, run, hrun⟩ := List.exists_cons_of_ne_nil gap.text_ne_nil
      have hmem := gap.text_mem
      rw [hrun, List.forall_mem_cons] at hmem
      have hterm :
          s.drop cursor = first.text ++ c :: (run ++ (term.text ++ KvText.tailText rest)) := by
        rw [hsplit, KvText.tailText, List.flatMap_cons, hrun, List.cons_append, List.cons_append,
          List.append_assoc]
        rfl
      have hrest := drop_behind hterm
      have hnext : s.drop (cursor + first.text.length + 1 + run.length) =
          term.text ++ KvText.tailText rest := by
        rw [← List.drop_drop, hrest, List.drop_left]
      have hlength := congrArg List.length hterm
      rw [List.length_drop, List.length_append, List.length_cons, List.length_append] at hlength
      obtain ⟨left, rfl⟩ : ∃ left, rounds = run.length + left + 1 :=
        ⟨rounds - run.length - 1, by omega⟩
      calc (kvFilter termSeparators kvSeparator).scan s (run.length + left + 1)
            (Int32.ofNat cursor) result
          = (kvFilter termSeparators kvSeparator).scan s (run.length + left)
              (Int32.ofNat (cursor + first.text.length + 1)) (result ++ first.pair?.toList) :=
            scan_term hkv hsize hcursor first hmem.1 hterm
        _ = (kvFilter termSeparators kvSeparator).scan s left
              (Int32.ofNat (cursor + first.text.length + 1 + run.length))
              (result ++ first.pair?.toList) :=
            scan_gap hkv hsize (by omega) hmem.2 hrest
        _ = .ok ((result ++ first.pair?.toList) ++
              (term :: rest.map Prod.snd).filterMap Term.pair?) :=
            ih term (by omega) (by omega) hnext
        _ = .ok (result ++ (first :: term :: rest.map Prod.snd).filterMap Term.pair?) := by
            rw [List.append_assoc]
            cases first <;> rfl

end

/-- On a text of terms, `match` finds the pairs, in order, and says whether there are
any. -/
theorem kvMatch_text (termSeparators : Bytes) (kvSeparator : UInt8)
    (hkv : kvSeparator ∉ termSeparators) (t : KvText termSeparators kvSeparator)
    (hsize : t.text.length < 2 ^ 31) :
    (kvFilter termSeparators kvSeparator).kvMatch t.text =
      .ok (if t.pairs = [] then 1 else 0, t.pairs) := by
  have hscan : (kvFilter termSeparators kvSeparator).scan t.text (t.text.length + 2) (Int32.ofNat 0)
      [] = .ok ([] ++ t.pairs) :=
    scan_terms hkv hsize t.first t.rest (Nat.zero_le _) (by omega) List.drop_zero
  have hzero : Int32.ofNat 0 = 0 := rfl
  rw [hzero, List.nil_append] at hscan
  rw [kvMatch, hscan]
  simp only [List.length_eq_zero_iff]
  rfl

/-- The tags of a line, after a blank and with a word among them. -/
def ddTags : KvText (bytes "\",") 0x3a where
  first := .pair (bytes "filename") (bytes "syslog") (by decide +kernel) (by decide +kernel)
  rest :=
    [(⟨bytes ",", by decide +kernel, by decide +kernel⟩, .word (bytes "env") (by decide +kernel)),
      (⟨bytes ",\"", by decide +kernel, by decide +kernel⟩,
        .pair [] (bytes "1") (by decide +kernel) (by decide +kernel))]

theorem kvMatch_ddTags :
    (kvFilter (bytes "\",") 0x3a).kvMatch ddTags.text =
      .ok (if ddTags.pairs = [] then 1 else 0, ddTags.pairs) :=
  kvMatch_text (bytes "\",") 0x3a (by decide) ddTags (by decide)

end KvFilter

end BbMonitor
