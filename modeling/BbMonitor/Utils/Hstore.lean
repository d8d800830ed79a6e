import BbMonitor.Utils.GrpcUtils

/-!
# hstore literals

What `to_pg` writes for a map, `pg2proto` reads back, in whatever order the map was iterated.

The reader cuts the text at the commas.  A pair is then an item `"key"=>"value"` with a blank
in front, unless it is the first.  Its first `=>` is the one between the quotes, even if the
value has another one or the key ends in `=`.  `trim` removes only the blank in front: the
quotes are outermost, so that the blanks of the key and of the value are out of its reach.
At last the quotes are removed, of which the key and the value have none.
-/

namespace BbMonitor.GrpcUtils

variable {k v : Bytes}

/-- The delimiter of `split_key_val`. -/
def arrow : Bytes := bytes "=>"

/-- A pair that the texts can hold. -/
structure Storable (k v : Bytes) : Prop where
  key_ne_nil : k ≠ []
  quote_notMem_key : quotationMark ∉ k
  quote_notMem_value : quotationMark ∉ v
  comma_notMem_key : comma ∉ k
  comma_notMem_value : comma ∉ v
  no_arrow : ¬arrow <:+: k

/-! ## The items -/

def quoted (s : Bytes) : Bytes := quotationMark :: (s ++ [quotationMark])

def item (i : Σ _ : Bytes, Bytes) : Bytes := quoted i.1 ++ arrow ++ quoted i.2

theorem addPair_eq (result : Bytes) (first : Bool) (i : Σ _ : Bytes, Bytes) :
    addPair (result, first) i =
      ((if first then result else result ++ [comma, space]) ++ item i, false) := by
  have hquote : bytes "\"" = [quotationMark] := rfl
  have harrow : bytes "\"=>\"" = quotationMark :: arrow ++ [quotationMark] := rfl
  have hcomma : bytes ", " = [comma, space] := rfl
  rw [addPair, hquote, harrow, hcomma, item, quoted, quoted]
  cases first with
  | false => simp
  | true => simp

/-- The pairs behind the first one. -/
def others (l : List (Σ _ : Bytes, Bytes)) : Bytes :=
  l.flatMap fun i => comma :: space :: item i

theorem foldl_addPair (l : List (Σ _ : Bytes, Bytes)) (result : Bytes) :
    (l.foldl addPair (result, false)).1 = result ++ others l := by
  induction l generalizing result with
  | nil => exact (List.append_nil result).symm
  | cons i l ih =>
      rw [List.foldl_cons, addPair_eq, ih, others, others, List.flatMap_cons]
      simp

/-- The text without its outer quotes. -/
def body : List (Σ _ : Bytes, Bytes) → Bytes
  | [] => []
  | i :: l => item i ++ others l

theorem mapToPg_eq (l : List (Σ _ : Bytes, Bytes)) : mapToPg l = quote :: (body l ++ [quote]) := by
  have hquote : bytes "'" = [quote] := rfl
  rw [mapToPg, hquote]
  cases l with
  | nil => rfl
  | cons i l =>
      rw [List.foldl_cons, addPair_eq, if_pos rfl, foldl_addPair, body]
      simp

/-! ## The commas -/

theorem comma_notMem_item (hpair : Storable k v) : comma ∉ item ⟨k, v⟩ := by
  have hquote : comma ≠ quotationMark := by decide
  have harrow : comma ∉ arrow := by decide
  simp [item, quoted, hquote, harrow, hpair.comma_notMem_key, hpair.comma_notMem_value]

theorem splitOn_others {first : Bytes} (hfirst : comma ∉ first) {l : List (Σ _ : Bytes, Bytes)}
    (hpairs : ∀ i ∈ l, Storable i.1 i.2) :
    (first ++ others l).splitOn comma = first :: l.map (space :: item ·) := by
  induction l generalizing first with
  | nil => rw [others, List.flatMap_nil, List.append_nil, List.splitOn_eq_singleton hfirst]; rfl
  | cons i l ih =>
      obtain ⟨hi, hpairs⟩ := List.forall_mem_cons.mp hpairs
      have hitem : comma ∉ space :: item i := by
        rw [List.mem_cons, not_or]
        exact ⟨by decide, comma_notMem_item hi⟩
      have hothers : others (i :: l) = comma :: ((space :: item i) ++ others l) := by
        rw [others, List.flatMap_cons]
        rfl
      rw [hothers, List.splitOn_append_cons_self_of_not_mem hfirst, ih hitem hpairs, List.map_cons]

/-! ## The arrow -/

/-- An arrow can begin with the last character of a text, but does not end there. -/
theorem findIdx?_arrow {first : Bytes} (hnone : ¬arrow <:+: first) (rest : Bytes) :
    (first ++ arrow ++ rest).tails.findIdx? (arrow.isPrefixOf ·) = some first.length := by
  have harrow : arrow = [0x3d, 0x3e] := rfl
  rw [harrow] at hnone ⊢
  induction first with
  | nil => simp [List.findIdx?_cons]
  | cons c first ih =>
      rw [List.infix_cons_iff, not_or] at hnone
      have hhead : [0x3d, 0x3e].isPrefixOf (c :: first ++ [0x3d, 0x3e] ++ rest) = false := by
        rw [Bool.eq_false_iff, ne_eq, List.isPrefixOf_iff_prefix]
        cases first with
        | nil => simp
        | cons d first => simpa using hnone.1
      rw [List.cons_append, List.cons_append] at hhead ⊢
      rw [List.tails_cons, List.findIdx?_cons, hhead, ih hnone.2]
      rfl

theorem splitKeyVal_eq {first : Bytes} (hnone : ¬arrow <:+: first) (rest : Bytes) :
    splitKeyVal (first ++ arrow ++ rest) arrow = (first, rest) := by
  have hfind : find (first ++ arrow ++ rest) arrow 0 = some first.length := by
    rw [find, if_neg (Nat.not_lt_zero _), List.drop_zero, findIdx?_arrow hnone, Option.map_some,
      Nat.zero_add]
  rw [splitKeyVal, hfind]
  dsimp only
  rw [List.append_assoc, List.take_left, ← List.drop_drop, List.drop_left, List.drop_left]

theorem no_arrow_cons {c : UInt8} (hc : c ≠ equalsSign) (hnone : ¬arrow <:+: k) :
    ¬arrow <:+: c :: k := by
  have harrow : arrow = [equalsSign, 0x3e] := rfl
  rw [List.infix_cons_iff, not_or]
  refine ⟨?_, hnone⟩
  rw [harrow, List.cons_prefix_cons, not_and]
  exact fun heq => absurd heq.symm hc

theorem no_arrow_concat {c : UInt8} (hc : c ≠ 0x3e) (hnone : ¬arrow <:+: k) :
    ¬arrow <:+: k ++ [c] := by
  have harrow : arrow = [equalsSign] ++ [0x3e] := rfl
  rw [List.infix_concat_iff, not_or]
  refine ⟨?_, hnone⟩
  rw [harrow]
  intro hsuffix
  obtain ⟨before, hbefore⟩ := hsuffix
  rw [← List.append_assoc] at hbefore
  exact hc (List.append_singleton_inj.mp hbefore).2.symm

/-! ## A pair -/

theorem trim_quoted {blanks : Bytes} (hblanks : ∀ c ∈ blanks, isSpace c = true) (s : Bytes) :
    trim (blanks ++ quoted s) = quoted s := by
  have hquote : isSpace quotationMark = false := by decide
  have hltrim : ltrim (blanks ++ quoted s) = quoted s := by
    rw [ltrim, List.dropWhile_append_of_pos hblanks, quoted,
      List.dropWhile_cons_of_neg (by rw [hquote]; exact Bool.false_ne_true)]
  rw [trim, hltrim, rtrim, quoted, ← List.cons_append,
    List.rdropWhile_concat_neg _ _ _ (by rw [hquote]; exact Bool.false_ne_true)]

theorem eraseAll_quoted {s : Bytes} (hs : quotationMark ∉ s) :
    eraseAll quotationMark (quoted s) = s := by
  have hfilter : s.filter (· ≠ quotationMark) = s := by
    rw [List.filter_eq_self]
    intro c hc
    rw [decide_eq_true_eq]
    exact fun heq => hs (heq ▸ hc)
  rw [eraseAll, quoted, List.filter_cons_of_neg (by simp), List.filter_append, hfilter,
    List.filter_cons_of_neg (by simp), List.filter_nil, List.append_nil]

/-- A round of the loop puts the pair of its item into the map. -/
theorem readPair_item {blanks : Bytes} (hblanks : ∀ c ∈ blanks, c = space)
    (hpair : Storable k v) (p : StringMap) :
    readPair p (blanks ++ item ⟨k, v⟩) = p.insert k v := by
  have harrow : ¬arrow <:+: blanks ++ quoted k := by
    induction blanks with
    | nil =>
        apply no_arrow_cons (by decide)
        apply no_arrow_concat (by decide)
        exact hpair.no_arrow
    | cons c blanks ih =>
        obtain ⟨hc, hblanks⟩ := List.forall_mem_cons.mp hblanks
        apply no_arrow_cons (by rw [hc]; decide)
        exact ih hblanks
  have hsplit : splitKeyVal (blanks ++ item ⟨k, v⟩) (bytes "=>") =
      (blanks ++ quoted k, quoted v) := by
    rw [item, ← List.append_assoc, ← List.append_assoc]
    exact splitKeyVal_eq harrow (quoted v)
  have hspace : ∀ c ∈ blanks, isSpace c = true := by
    intro c hc
    rw [hblanks c hc]
    decide
  have hkey : eraseAll quotationMark (trim (blanks ++ quoted k)) = k := by
    rw [trim_quoted hspace, eraseAll_quoted hpair.quote_notMem_key]
  have hval : eraseAll quotationMark (trim (quoted v)) = v := by
    have htrim : trim (quoted v) = quoted v :=
      trim_quoted (List.forall_mem_nil (isSpace · = true)) v
    rw [htrim, eraseAll_quoted hpair.quote_notMem_value]
  have hlength : k.length > 0 := List.length_pos_of_ne_nil hpair.key_ne_nil
  rw [readPair, hsplit]
  dsimp only
  rw [hkey, hval, if_pos hlength]

/-! ## The whole text -/

theorem foldl_readPair {l : List (Σ _ : Bytes, Bytes)} (hpairs : ∀ i ∈ l, Storable i.1 i.2)
    (p : StringMap) :
    (l.map (space :: item ·)).foldl readPair p = l.foldl (fun p i => p.insert i.1 i.2) p := by
  induction l generalizing p with
  | nil => rfl
  | cons i l ih =>
      obtain ⟨hi, hpairs⟩ := List.forall_mem_cons.mp hpairs
      have hround : readPair p (space :: item i) = p.insert i.1 i.2 :=
        readPair_item (List.forall_mem_singleton.mpr rfl) hi p
      rw [List.map_cons, List.foldl_cons, List.foldl_cons, hround, ih hpairs]

theorem pg2proto_body {l : List (Σ _ : Bytes, Bytes)} (hpairs : ∀ i ∈ l, Storable i.1 i.2)
    (p : StringMap) : pg2proto (body l) p = l.foldl (fun p i => p.insert i.1 i.2) p := by
  cases l with
  | nil =>
      -- One piece without a delimiter, and so without a key.
      rfl
  | cons i l =>
      obtain ⟨hi, hpairs⟩ := List.forall_mem_cons.mp hpairs
      have hround : readPair p (item i) = p.insert i.1 i.2 :=
        readPair_item (List.forall_mem_nil (· = space)) hi p
      have hpieces : splitString2vector (body (i :: l)) comma =
          item i :: l.map (space :: item ·) :=
        splitOn_others (comma_notMem_item hi) hpairs
      calc pg2proto (body (i :: l)) p
          = (item i :: l.map (space :: item ·)).foldl readPair p := by rw [pg2proto, hpieces]
        _ = (l.map (space :: item ·)).foldl readPair (p.insert i.1 i.2) := by
            rw [List.foldl_cons, hround]
        _ = l.foldl (fun p i => p.insert i.1 i.2) (p.insert i.1 i.2) := foldl_readPair hpairs _

/-- Pairs with different keys are all found. -/
theorem lookup_foldl_insert {l : List (Σ _ : Bytes, Bytes)} (hnodup : l.NodupKeys)
    (p : StringMap) (key : Bytes) :
    (l.foldl (fun p i => p.insert i.1 i.2) p).lookup key =
      (l.dlookup key).or (p.lookup key) := by
  induction l generalizing p with
  | nil => rw [List.foldl_nil, List.dlookup_nil, Option.none_or]
  | cons i l ih =>
      obtain ⟨k, v⟩ := i
      obtain ⟨hkey, hnodup⟩ := List.nodupKeys_cons.mp hnodup
      rw [List.foldl_cons, ih hnodup]
      by_cases heq : key = k
      · subst heq
        rw [List.dlookup_cons_eq, List.dlookup_eq_none.mpr hkey, Finmap.lookup_insert]
        rfl
      · rw [List.dlookup_cons_ne _ _ heq, Finmap.lookup_insert_of_ne _ heq]

/-- What `to_pg` writes for a map, in any order, gives the map back. -/
theorem pg2proto_mapToPg {m : StringMap} {order : AList fun _ : Bytes => Bytes}
    (horder : order.toFinmap = m) (hpairs : ∀ k v, m.lookup k = some v → Storable k v) :
    pg2proto (mapToPg order.entries).tail.dropLast ∅ = m := by
  have hentries : ∀ i ∈ order.entries, Storable i.1 i.2 := by
    intro i hi
    apply hpairs
    rw [← horder, Finmap.lookup_toFinmap]
    exact List.mem_dlookup order.nodupKeys hi
  rw [mapToPg_eq, List.tail_cons, List.dropLast_concat, pg2proto_body hentries]
  apply Finmap.ext_lookup
  intro key
  calc (order.entries.foldl (fun p i => p.insert i.1 i.2) (∅ : StringMap)).lookup key
      = (order.entries.dlookup key).or none := lookup_foldl_insert order.nodupKeys ∅ key
    _ = order.toFinmap.lookup key := by rw [Option.or_none, Finmap.lookup_toFinmap]; rfl
    _ = m.lookup key := by rw [horder]

/-- Blanks at the ends, an empty value and an arrow in a value. -/
theorem pg2proto_mapToPg_pairs :
    let order : AList fun _ : Bytes => Bytes :=
      ⟨[⟨bytes " a=", bytes "=> b "⟩, ⟨bytes "c", []⟩],
        List.nodupKeys_iff_pairwise.mpr (by decide)⟩
    pg2proto (mapToPg order.entries).tail.dropLast ∅ = order.toFinmap := by
  intro order
  apply pg2proto_mapToPg rfl
  intro k v hlookup
  rw [Finmap.lookup_toFinmap, ← Option.mem_def, AList.mem_lookup_iff] at hlookup
  have hcases : k = bytes " a=" ∧ v = bytes "=> b " ∨ k = bytes "c" ∧ v = [] := by
    simpa [order] using hlookup
  rcases hcases with ⟨rfl, rfl⟩ | ⟨rfl, rfl⟩
  · constructor <;> decide
  · constructor <;> decide

end BbMonitor.GrpcUtils
