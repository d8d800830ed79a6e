import BbMonitor.Utils.GrpcUtils

/-!
# Array literals

`readArray` reads an expression `ARRAY[...]::TEXT[]` as PostgreSQL does: string literals in
single quotes, where two quotes stand for one, with single commas between them and blanks
where one likes.

`to_pg` looks at the place of an element in the list to tell whether a comma follows, but
writes only those that are not empty.  So there is a comma too many when the list ends with
empty strings that come behind others.
-/

namespace BbMonitor.GrpcUtils

/-! ## The expressions -/

/-- Where the reader is. -/
inductive Place where
  -- Behind the opening bracket.
  | start
  -- Behind a comma.
  | element
  -- In a literal, of which this was read.
  | inside (acc : Bytes)
  -- Behind a quote: the literal has ended, unless another quote follows.
  | closing (acc : Bytes)
  -- Behind a literal.
  | behind (acc : Bytes)

/-- What comes behind the elements. -/
def arrayEnd : Bytes := bytes "::TEXT[]"

/-- The elements up to the closing bracket. -/
def readElements : Place → Bytes → Option (List Bytes)
  | _, [] => none
  | .start, c :: rest =>
      if c = space then readElements .start rest
      else if c = quote then readElements (.inside []) rest
      else if c = 0x5d then if rest = arrayEnd then some [] else none
      else none
  | .element, c :: rest =>
      if c = space then readElements .element rest
      else if c = quote then readElements (.inside []) rest
      else none
  | .inside acc, c :: rest =>
      if c = quote then readElements (.closing acc) rest
      else readElements (.inside (acc ++ [c])) rest
  | .closing acc, c :: rest =>
      if c = quote then readElements (.inside (acc ++ [quote])) rest
      else if c = space then readElements (.behind acc) rest
      else if c = comma then (readElements .element rest).map (acc :: ·)
      else if c = 0x5d then if rest = arrayEnd then some [acc] else none
      else none
  | .behind acc, c :: rest =>
      if c = space then readElements (.behind acc) rest
      else if c = comma then (readElements .element rest).map (acc :: ·)
      else if c = 0x5d then if rest = arrayEnd then some [acc] else none
      else none

/-- The strings that an expression denotes, if it is one. -/
def readArray (text : Bytes) : Option (List Bytes) :=
  if (bytes "ARRAY[").isPrefixOf text then readElements .start (text.drop 6) else none

/-! ## What `to_pg` writes -/

/-- The expression from some element on. -/
def tailText (v : List Bytes) : Bytes :=
  elementsToPg v ++ 0x5d :: arrayEnd

theorem listToPg_eq (v : List Bytes) : listToPg v = bytes "ARRAY[" ++ tailText v := by
  rw [listToPg, tailText, List.append_assoc]
  rfl

theorem tailText_nil_cons (v : List Bytes) : tailText ([] :: v) = tailText v := rfl

theorem tailText_singleton {s : Bytes} (hs : s ≠ []) :
    tailText [s] = quote :: (s ++ quote :: 0x5d :: arrayEnd) := by
  have hlength : s.length > 0 := List.length_pos_of_ne_nil hs
  rw [tailText, elementsToPg, if_pos hlength, if_pos rfl, elementsToPg]
  have hquote : bytes "'" = [quote] := rfl
  have hempty : bytes "" = [] := rfl
  rw [hquote, hempty]
  simp

theorem tailText_cons {s : Bytes} (hs : s ≠ []) (t : Bytes) (v : List Bytes) :
    tailText (s :: t :: v) = quote :: (s ++ quote :: comma :: space :: tailText (t :: v)) := by
  have hlength : s.length > 0 := List.length_pos_of_ne_nil hs
  rw [tailText, elementsToPg, if_pos hlength, if_neg (List.cons_ne_nil t v)]
  have hquote : bytes "'" = [quote] := rfl
  have hcomma : bytes ", " = [comma, space] := rfl
  rw [hquote, hcomma, tailText]
  simp

theorem readElements_inside {s : Bytes} (hquote : quote ∉ s) (acc rest : Bytes) :
    readElements (.inside acc) (s ++ quote :: rest) = readElements (.closing (acc ++ s)) rest := by
  induction s generalizing acc with
  | nil => rw [List.nil_append, List.append_nil, readElements, if_pos rfl]
  | cons c s ih =>
      rw [List.mem_cons, not_or] at hquote
      rw [List.cons_append, readElements, if_neg (Ne.symm hquote.1), ih hquote.2,
        List.append_assoc, List.singleton_append]

/-- Behind a comma, a literal with its comma. -/
theorem readElements_element {s : Bytes} (hquote : quote ∉ s) (rest : Bytes) :
    readElements .element (quote :: (s ++ quote :: rest)) = readElements (.closing s) rest := by
  rw [readElements, if_neg (by decide), if_pos rfl, readElements_inside hquote, List.nil_append]

theorem readElements_closing_comma (s rest : Bytes) :
    readElements (.closing s) (comma :: space :: rest) =
      (readElements .element rest).map (s :: ·) := by
  rw [readElements, if_neg (by decide), if_neg (by decide), if_pos rfl, readElements, if_pos rfl]

theorem readElements_closing_bracket (s : Bytes) :
    readElements (.closing s) (0x5d :: arrayEnd) = some [s] := by
  rw [readElements, if_neg (by decide), if_neg (by decide), if_neg (by decide), if_pos rfl,
    if_pos rfl]

/-- Behind a comma an element has to follow, and it does unless the list ends with an empty
string. -/
theorem readElements_tailText {v : List Bytes} (hquote : ∀ s ∈ v, quote ∉ s) :
    readElements .element (tailText v) =
      if v.getLastD [] = [] then none else some (v.filter (· ≠ [])) := by
  induction v with
  | nil => rfl
  | cons s v ih =>
      obtain ⟨hs, hquote⟩ := List.forall_mem_cons.mp hquote
      by_cases hempty : s = []
      · rw [hempty, tailText_nil_cons, ih hquote, List.getLastD_cons,
          List.filter_cons_of_neg (by decide)]
      · rw [List.filter_cons_of_pos (by rwa [decide_eq_true_eq])]
        cases v with
        | nil =>
            rw [tailText_singleton hempty, readElements_element hs, readElements_closing_bracket,
              List.getLastD_cons, List.getLastD_nil, if_neg hempty, List.filter_nil]
        | cons t v =>
            rw [tailText_cons hempty, readElements_element hs, readElements_closing_comma,
              ih hquote, apply_ite (Option.map _), Option.map_none, Option.map_some]
            rfl

/-- Behind the opening bracket an element may follow. -/
theorem readElements_start {v : List Bytes} (hsome : ∃ s ∈ v, s ≠ []) :
    readElements .start (tailText v) = readElements .element (tailText v) := by
  induction v with
  | nil => exact absurd hsome (by simp)
  | cons s v ih =>
      by_cases hempty : s = []
      · rw [hempty, tailText_nil_cons]
        apply ih
        rw [hempty] at hsome
        obtain ⟨t, ht, hne⟩ := hsome
        exact ⟨t, (List.mem_cons.mp ht).resolve_left hne, hne⟩
      · have hfirst : ∃ rest, tailText (s :: v) = quote :: rest := by
          cases v with
          | nil => exact ⟨_, tailText_singleton hempty⟩
          | cons t v => exact ⟨_, tailText_cons hempty t v⟩
        obtain ⟨rest, hrest⟩ := hfirst
        have hblank : quote ≠ space := by decide
        rw [hrest, readElements, readElements, if_neg hblank, if_neg hblank, if_pos rfl,
          if_pos rfl]

theorem elementsToPg_empty {v : List Bytes} (hall : ∀ s ∈ v, s = []) : elementsToPg v = [] := by
  induction v with
  | nil => rfl
  | cons s v ih =>
      obtain ⟨hs, hall⟩ := List.forall_mem_cons.mp hall
      rw [hs, elementsToPg, if_neg (by decide), ih hall]

/-! ## Which lists come out well -/

/-- The expression denotes the strings of the list that are not empty, just when the list does
not end with an empty string or has no others. -/
theorem readArray_toPg_iff {v : List Bytes} (hplain : ∀ s ∈ v, quote ∉ s ∧ backslash ∉ s) :
    readArray (listToPg v) = some (v.filter (· ≠ [])) ↔
      (v.getLastD [] = [] → ∀ s ∈ v, s = []) := by
  have hquote : ∀ s ∈ v, quote ∉ s := fun s hs => (hplain s hs).1
  have hread : readArray (listToPg v) = readElements .start (tailText v) := by
    rw [readArray, listToPg_eq, if_pos (by simp), List.drop_left' (by decide)]
  rw [hread]
  by_cases hall : ∀ s ∈ v, s = []
  · have hfilter : v.filter (· ≠ []) = [] := by
      rw [List.filter_eq_nil_iff]
      intro s hs
      simp [hall s hs]
    have htext : readElements .start (tailText v) = some [] := by
      rw [tailText, elementsToPg_empty hall]
      rfl
    rw [htext, hfilter]
    exact iff_of_true rfl fun _ => hall
  · have hsome : ∃ s ∈ v, s ≠ [] := by
      by_contra hnone
      apply hall
      intro s hs
      by_contra hne
      exact hnone ⟨s, hs, hne⟩
    rw [readElements_start hsome, readElements_tailText hquote]
    split
    · next hlast => exact iff_of_false (by simp) fun h => hall (h hlast)
    · next hlast => exact iff_of_true rfl fun h => absurd h hlast

/-- A list with an empty string in front of another. -/
theorem readArray_toPg_inner :
    readArray (listToPg [[], bytes "a"]) = some [bytes "a"] := by
  have hiff := readArray_toPg_iff (v := [[], bytes "a"]) (by decide)
  exact hiff.mpr (by decide)

/-- `ARRAY['a', ]::TEXT[]`. -/
theorem toPg_last_empty :
    ¬∀ v : List Bytes, (∀ s ∈ v, quote ∉ s ∧ backslash ∉ s) →
      readArray (listToPg v) = some (v.filter (· ≠ [])) := by
  intro hread
  have hlist := hread [bytes "a", []] (by decide)
  exact absurd hlist (by decide)

end BbMonitor.GrpcUtils
