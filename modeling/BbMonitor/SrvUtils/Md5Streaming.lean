import BbMonitor.Lib.Absorb
import BbMonitor.SrvUtils.Md5

/-!
# The digest of a text that comes in pieces

`MD5::update` keeps the bytes that fill no block in a buffer, and finds its place there from
a counter of two words.  `Represents` says what the members stand for: the text so far, as
the library takes it in byte by byte.  Every `update` keeps it, wherever the text is cut.

What `finalize` returns for a text is then known without the buffer: the text is padded to
whole blocks, and these are worked off one after another (`reference`).
-/

namespace BbMonitor

namespace MD5

open Absorb

/-! ## The algorithm without a buffer -/

/-- What is appended to a text of `length` bytes: a bit 1 and zeros, up to eight bytes before
the end of a block, and then the number of bits, modulo `2 ^ 64`. -/
def fill (length : ℕ) : Bytes :=
  0x80 :: (List.replicate ((119 - length % 64) % 64) 0 ++ littleEndian 8 (8 * length))

def padded (text : Bytes) : Bytes :=
  text ++ fill text.length

/-- The digest of a text, block by block. -/
def reference (text : Bytes) : Bytes :=
  let blocks := blocksOf blocksize ((padded text).length / blocksize) (padded text)
  let w := blocks.foldl transform init.state
  encode [w.a, w.b, w.c, w.d]

/-! ## The counter -/

/-- The counter holds the number of bits of `length` bytes, modulo `2 ^ 64`. -/
def Counts (count : UInt32 × UInt32) (length : ℕ) : Prop :=
  count.1.toNat = 8 * length % 2 ^ 32 ∧ count.2.toNat = 8 * length / 2 ^ 32 % 2 ^ 32

theorem counts_addCount {count : UInt32 × UInt32} {before : ℕ} (hcount : Counts count before)
    {length : UInt32} : Counts (addCount count length) (before + length.toNat) := by
  obtain ⟨hlow, hhigh⟩ := hcount
  have hlength := length.toNat_lt
  have hshift : (length <<< 3).toNat = 8 * length.toNat % 2 ^ 32 := by
    rw [UInt32.toNat_shiftLeft, Nat.shiftLeft_eq]
    show length.toNat * 2 ^ 3 % 2 ^ 32 = _
    omega
  have htop : (length >>> 29).toNat = length.toNat / 2 ^ 29 := by
    rw [UInt32.toNat_shiftRight, Nat.shiftRight_eq_div_pow]
    rfl
  have hsum : (count.1 + length <<< 3).toNat = 8 * (before + length.toNat) % 2 ^ 32 := by
    rw [UInt32.toNat_add, hlow, hshift]
    omega
  refine ⟨hsum, ?_⟩
  rw [addCount]
  dsimp only
  by_cases hcarry : count.1 + length <<< 3 < length <<< 3
  · rw [if_pos hcarry, UInt32.toNat_add, UInt32.toNat_add, hhigh, htop]
    rw [UInt32.lt_iff_toNat_lt, hsum, hshift] at hcarry
    show ((8 * before / 2 ^ 32 % 2 ^ 32 + 1) % 2 ^ 32 + length.toNat / 2 ^ 29) % 2 ^ 32 = _
    omega
  · rw [if_neg hcarry, UInt32.toNat_add, hhigh, htop]
    rw [UInt32.lt_iff_toNat_lt, hsum, hshift] at hcarry
    omega

/-- The place in the buffer. -/
theorem index_eq {count : UInt32 × UInt32} {length : ℕ} (hcount : Counts count length) :
    (count.1 / 8 % 64).toNat = length % 64 := by
  rw [UInt32.toNat_mod, UInt32.toNat_div, hcount.1]
  show 8 * length % 2 ^ 32 / 8 % 64 = _
  omega

theorem encode_word (w : UInt32) : encode [w] = littleEndian 4 w.toNat := by
  have hbyte : ∀ k : UInt32, (k &&& 0xff).toUInt8 = UInt8.ofNat k.toNat := by
    intro k
    apply UInt8.toNat_inj.mp
    rw [UInt32.toNat_toUInt8, UInt32.toNat_and]
    show (k.toNat &&& (2 ^ 8 - 1)) % 2 ^ 8 = k.toNat % 2 ^ 8
    rw [Nat.and_two_pow_sub_one_eq_mod, Nat.mod_mod]
  simp only [encode, List.flatMap_cons, List.flatMap_nil, List.append_nil, hbyte, littleEndian,
    UInt32.toNat_shiftRight, Nat.shiftRight_eq_div_pow, Nat.div_div_eq_div_mul]
  rfl

/-- The eight bytes of the counter. -/
theorem encode_count {count : UInt32 × UInt32} {length : ℕ} (hcount : Counts count length) :
    encode [count.1, count.2] = littleEndian 8 (8 * length) := by
  have hsplit : encode [count.1, count.2] = encode [count.1] ++ encode [count.2] := by
    simp [encode]
  rw [hsplit, encode_word, encode_word, hcount.1, hcount.2, littleEndian_append 4 4]
  congr 1
  · exact littleEndian_mod 4 (8 * length)
  · exact littleEndian_mod 4 (8 * length / 2 ^ 32)

/-! ## The text so far -/

/-- A text, taken in byte by byte. -/
def taken (text : Bytes) : Words × Bytes :=
  absorb blocksize transform (init.state, []) text

/-- The members hold this text. -/
structure Represents (md : MD5) (text : Bytes) : Prop where
  counts : Counts md.count text.length
  state : md.state = (taken text).1
  buffer : md.buffer.take (text.length % 64) = (taken text).2
  length : md.buffer.length = blocksize

theorem represents_init : Represents init [] :=
  ⟨⟨rfl, rfl⟩, rfl, rfl, rfl⟩

theorem length_taken_snd (text : Bytes) : (taken text).2.length = text.length % 64 :=
  length_absorb_snd (by decide) init.state text

theorem taken_append (text more : Bytes) :
    taken (text ++ more) = absorb blocksize transform (taken text) more :=
  absorb_append _ text more

/-- The loop over the blocks. -/
theorem transformBlocks_eq {fuel : ℕ} (state : Words) {input : Bytes}
    (hfuel : input.length ≤ blocksize * fuel + 63) :
    transformBlocks fuel state input = absorb blocksize transform (state, []) input := by
  induction fuel generalizing state input with
  | zero =>
      rw [Nat.mul_zero] at hfuel
      rw [transformBlocks, absorb_of_lt state (by rw [List.length_nil, blocksize]; omega),
        List.nil_append]
  | succ fuel ih =>
      rw [transformBlocks]
      by_cases hblock : blocksize ≤ input.length
      · have htake : (input.take blocksize).length = blocksize :=
          List.length_take_of_le hblock
        have hrest : (input.drop blocksize).length ≤ blocksize * fuel + 63 := by
          rw [List.length_drop]
          rw [Nat.mul_succ] at hfuel
          omega
        rw [if_pos hblock, ih _ hrest, ← absorb_block (by decide) state htake, ← absorb_append,
          List.take_append_drop]
      · rw [if_neg hblock, absorb_of_lt state (by rw [List.length_nil]; omega), List.nil_append]

theorem take_store (buffer : Bytes) {index : ℕ} (hindex : index ≤ buffer.length) (input : Bytes) :
    (store buffer index input).take (index + input.length) = buffer.take index ++ input := by
  have hlength : (buffer.take index ++ input).length = index + input.length := by
    rw [List.length_append, List.length_take_of_le hindex]
  rw [store, ← hlength, List.take_left]

theorem length_store {buffer input : Bytes} {index : ℕ}
    (hroom : index + input.length ≤ buffer.length) :
    (store buffer index input).length = buffer.length := by
  rw [store, List.length_append, List.length_append, List.length_take_of_le (by omega),
    List.length_drop]
  omega

/-- `update` takes in a piece. -/
theorem represents_update {md : MD5} {text more : Bytes} (hmd : Represents md text)
    (hmore : more.length < maxLength) : Represents (md.update more) (text ++ more) := by
  have hlength : (UInt32.ofNat more.length).toNat = more.length := by
    rw [maxLength, blocksize] at hmore
    rw [UInt32.toNat_ofNat', Nat.mod_eq_of_lt (by omega)]
  have hcounts : Counts (addCount md.count (UInt32.ofNat more.length)) (text ++ more).length := by
    have hadd : (text ++ more).length = text.length + (UInt32.ofNat more.length).toNat := by
      rw [List.length_append, hlength]
    rw [hadd]
    exact counts_addCount hmd.counts
  have hsize : blocksize = 64 := rfl
  have hwaiting := length_taken_snd text
  have hindex : text.length % 64 < blocksize := Nat.mod_lt _ (by decide)
  rw [update]
  dsimp only
  rw [hlength, List.take_length, index_eq hmd.counts]
  by_cases hfull : blocksize - text.length % 64 ≤ more.length
  · rw [if_pos hfull]
    set firstpart := blocksize - text.length % 64 with hfirstpart
    have htake : (more.take firstpart).length = firstpart := List.length_take_of_le hfull
    have hfilled : store md.buffer (text.length % 64) (more.take firstpart) =
        (taken text).2 ++ more.take firstpart := by
      have hend : text.length % 64 + (more.take firstpart).length = md.buffer.length := by
        rw [htake, hmd.length]
        omega
      rw [store, hend, List.drop_length, List.append_nil, hmd.buffer]
    -- The buffer is filled and worked off, and then the blocks of the input.
    have hblocks : transformBlocks (more.length / blocksize)
        (transform md.state ((taken text).2 ++ more.take firstpart)) (more.drop firstpart) =
          taken (text ++ more) := by
      have hrest : (more.drop firstpart).length ≤ blocksize * (more.length / blocksize) + 63 := by
        rw [List.length_drop, blocksize]
        omega
      have hblock : absorb blocksize transform (taken text) (more.take firstpart) =
          (transform (taken text).1 ((taken text).2 ++ more.take firstpart), []) := by
        have hends : (taken text).2.length + (more.take firstpart).length = blocksize := by
          omega
        exact absorb_of_eq (taken text).1 (List.ne_nil_of_length_pos (by omega)) hends
      calc _ = absorb blocksize transform
            (transform (taken text).1 ((taken text).2 ++ more.take firstpart), [])
            (more.drop firstpart) := by rw [transformBlocks_eq _ hrest, hmd.state]
        _ = taken (text ++ more) := by
            rw [← hblock, ← absorb_append, List.take_append_drop, ← taken_append]
    rw [hfilled, hblocks]
    have hnext := length_taken_snd (text ++ more)
    have hlt : (text ++ more).length % 64 < 64 := Nat.mod_lt _ (by decide)
    have hbuffer : ((taken text).2 ++ more.take firstpart).length = blocksize := by
      rw [List.length_append, hwaiting, htake]
      omega
    refine ⟨hcounts, rfl, ?_, ?_⟩
    · have hstored := take_store ((taken text).2 ++ more.take firstpart) (Nat.zero_le _)
        (taken (text ++ more)).2
      rw [Nat.zero_add, List.take_zero, List.nil_append, hnext] at hstored
      exact hstored
    · rw [length_store (by rw [hnext, hbuffer, blocksize]; omega), hbuffer]
  · rw [if_neg hfull]
    have hroom : text.length % 64 + more.length < blocksize := by omega
    have hmod : (text ++ more).length % 64 = text.length % 64 + more.length := by
      rw [List.length_append]
      omega
    have htaken : taken (text ++ more) = ((taken text).1, (taken text).2 ++ more) := by
      rw [← hwaiting] at hroom
      rw [taken_append]
      exact absorb_of_lt (taken text).1 hroom
    refine ⟨hcounts, ?_, ?_, ?_⟩
    · rw [htaken]
      exact hmd.state
    · rw [hmod, htaken, take_store md.buffer (by rw [hmd.length]; omega), hmd.buffer]
    · rw [length_store (by rw [hmd.length]; omega), hmd.length]

/-! ## The whole text -/

theorem padding_eq {n : ℕ} (hpos : 0 < n) (hle : n ≤ 64) :
    padding n = 0x80 :: List.replicate (n - 1) 0 := by
  obtain ⟨n, rfl⟩ : ∃ m, n = m + 1 := ⟨n - 1, by omega⟩
  rw [padding, List.take_succ_cons, List.take_replicate, Nat.add_sub_cancel,
    Nat.min_eq_left (by rw [blocksize]; omega)]

theorem length_padded (text : Bytes) : (padded text).length % 64 = 0 := by
  rw [padded, fill, List.length_append, List.length_cons, List.length_append,
    List.length_replicate, length_littleEndian]
  omega

theorem taken_padded (text : Bytes) :
    (taken (padded text)).1 =
      (blocksOf blocksize ((padded text).length / blocksize) (padded text)).foldl transform
        init.state := by
  have hlength : (padded text).length = blocksize * ((padded text).length / blocksize) :=
    (Nat.mul_div_cancel' (Nat.dvd_of_mod_eq_zero (length_padded text))).symm
  calc (taken (padded text)).1
      = (taken
          (blocksOf blocksize ((padded text).length / blocksize) (padded text)).flatten).1 := by
        rw [flatten_blocksOf hlength]
    _ = _ := by rw [taken, absorb_flatten (by decide) _ (length_of_mem_blocksOf hlength)]

/-- `finalize` returns the digest of the text that the members hold. -/
theorem finalize_of_represents {md : MD5} {text : Bytes} (hmd : Represents md text) :
    md.finalize = reference text := by
  rw [finalize, index_eq hmd.counts, encode_count hmd.counts]
  set padLen := if text.length % 64 < 56 then 56 - text.length % 64
    else 120 - text.length % 64 with hpadLen
  have hlt : text.length % 64 < 64 := Nat.mod_lt _ (by decide)
  have hbounds : 0 < padLen ∧ padLen ≤ 64 ∧
      padLen - 1 = (119 - text.length % 64) % 64 := by
    rw [hpadLen]
    split <;> omega
  obtain ⟨hpos, hle, hzeros⟩ := hbounds
  have hpadding : padding padLen =
      0x80 :: List.replicate ((119 - text.length % 64) % 64) 0 := by
    rw [padding_eq hpos hle, hzeros]
  have hlength : (padding padLen).length < maxLength := by
    rw [hpadding, List.length_cons, List.length_replicate, maxLength, blocksize]
    omega
  have hdone : Represents ((md.update (padding padLen)).update (littleEndian 8 (8 * text.length)))
      (padded text) := by
    have hfill : padded text = text ++ padding padLen ++ littleEndian 8 (8 * text.length) := by
      rw [padded, fill, hpadding, List.append_assoc, List.cons_append]
    rw [hfill]
    apply represents_update (represents_update hmd hlength)
    rw [length_littleEndian]
    decide
  rw [hdone.state, taken_padded]
  rfl

theorem represents_foldl {md : MD5} {text : Bytes} (hmd : Represents md text)
    {pieces : List Bytes} (hpieces : ∀ p ∈ pieces, p.length < maxLength) :
    Represents (pieces.foldl update md) (text ++ pieces.flatten) := by
  induction pieces generalizing md text with
  | nil => rwa [List.flatten_nil, List.append_nil]
  | cons p pieces ih =>
      obtain ⟨hp, hpieces⟩ := List.forall_mem_cons.mp hpieces
      rw [List.foldl_cons, List.flatten_cons, ← List.append_assoc]
      exact ih (represents_update hmd hp) hpieces

/-- However a text is cut into pieces for `update`, `finalize` returns its digest. -/
theorem finalize_foldl_update {pieces : List Bytes}
    (hpieces : ∀ p ∈ pieces, p.length < maxLength) :
    (pieces.foldl update init).finalize = reference pieces.flatten :=
  finalize_of_represents (represents_foldl represents_init hpieces)

/-- A text in two pieces, the second of which fills the buffer and leaves two bytes in it. -/
theorem finalize_foldl_update_abc :
    ([bytes "abc", List.replicate 63 0x61].foldl update init).finalize =
      reference [bytes "abc", List.replicate 63 0x61].flatten := by
  apply finalize_foldl_update
  simp only [List.forall_mem_cons, List.length_replicate, List.not_mem_nil, false_implies,
    implies_true, and_true]
  exact ⟨by decide, by decide⟩

/-- The same digest when the text is handed over whole. -/
theorem finalize_update {text : Bytes} (htext : text.length < maxLength) :
    (init.update text).finalize = reference text := by
  rw [finalize_of_represents (represents_update represents_init htext), List.nil_append]

end MD5

/-- What the authorizer compares with the stored hash is the digest of the whole text. -/
theorem md5_eq {str : Bytes} (hstr : str.length < MD5.maxLength) :
    md5 str = MD5.hexdigest (MD5.reference str) := by
  rw [← MD5.finalize_update hstr, md5]

end BbMonitor
