import BbMonitor.Strings

/-!
# The digest of `md5.cpp`

The class `MD5` of `bb_monitor_srv_utils/md5.cpp`, with its two-word bit
counter, its 64-byte buffer and its four state words, and the function `md5`
that the authorizer calls.  The 64 operations of `transform` are a table in the
order of the source; between two of them the roles of `a`, `b`, `c`, `d` rotate
by one place, which is how the source writes its argument lists.

Nothing below says that `md5` is hard to invert or to collide.  What the
authorizer needs, and what is proved, is the shape of its output: 32 characters,
all of them lowercase hexadecimal digits, hence no `'#'`.
-/

namespace BbMonitor

namespace MD5

/-- `blocksize`. -/
def blocksize : ℕ := 64

/-! ## The basic functions -/

def F (x y z : UInt32) : UInt32 := x &&& y ||| ~~~x &&& z

def G (x y z : UInt32) : UInt32 := x &&& z ||| y &&& ~~~z

def H (x y z : UInt32) : UInt32 := x ^^^ y ^^^ z

def I (x y z : UInt32) : UInt32 := y ^^^ (x ||| ~~~z)

def rotateLeft (x n : UInt32) : UInt32 := x <<< n ||| x >>> (32 - n)

/-- `FF`, `GG`, `HH` and `II` differ only in the basic function `f` they mix in. -/
def operation (f : UInt32 → UInt32 → UInt32 → UInt32) (a b c d x s ac : UInt32) : UInt32 :=
  rotateLeft (a + f b c d + x + ac) s + b

def FF : UInt32 → UInt32 → UInt32 → UInt32 → UInt32 → UInt32 → UInt32 → UInt32 := operation F

def GG : UInt32 → UInt32 → UInt32 → UInt32 → UInt32 → UInt32 → UInt32 → UInt32 := operation G

def HH : UInt32 → UInt32 → UInt32 → UInt32 → UInt32 → UInt32 → UInt32 → UInt32 := operation H

def II : UInt32 → UInt32 → UInt32 → UInt32 → UInt32 → UInt32 → UInt32 → UInt32 := operation I

/-- The four words `state[0..3]`, or the working variables `a`, `b`, `c`, `d`. -/
structure Words where
  a : UInt32
  b : UInt32
  c : UInt32
  d : UInt32
deriving DecidableEq, Repr

/-- One line of a round: the index into `x`, the rotation and the constant. -/
abbrev Line := ℕ × UInt32 × UInt32

def round1 : List Line :=
  [(0, 7, 0xd76aa478), (1, 12, 0xe8c7b756), (2, 17, 0x242070db), (3, 22, 0xc1bdceee),
   (4, 7, 0xf57c0faf), (5, 12, 0x4787c62a), (6, 17, 0xa8304613), (7, 22, 0xfd469501),
   (8, 7, 0x698098d8), (9, 12, 0x8b44f7af), (10, 17, 0xffff5bb1), (11, 22, 0x895cd7be),
   (12, 7, 0x6b901122), (13, 12, 0xfd987193), (14, 17, 0xa679438e), (15, 22, 0x49b40821)]

def round2 : List Line :=
  [(1, 5, 0xf61e2562), (6, 9, 0xc040b340), (11, 14, 0x265e5a51), (0, 20, 0xe9b6c7aa),
   (5, 5, 0xd62f105d), (10, 9, 0x2441453), (15, 14, 0xd8a1e681), (4, 20, 0xe7d3fbc8),
   (9, 5, 0x21e1cde6), (14, 9, 0xc33707d6), (3, 14, 0xf4d50d87), (8, 20, 0x455a14ed),
   (13, 5, 0xa9e3e905), (2, 9, 0xfcefa3f8), (7, 14, 0x676f02d9), (12, 20, 0x8d2a4c8a)]

def round3 : List Line :=
  [(5, 4, 0xfffa3942), (8, 11, 0x8771f681), (11, 16, 0x6d9d6122), (14, 23, 0xfde5380c),
   (1, 4, 0xa4beea44), (4, 11, 0x4bdecfa9), (7, 16, 0xf6bb4b60), (10, 23, 0xbebfbc70),
   (13, 4, 0x289b7ec6), (0, 11, 0xeaa127fa), (3, 16, 0xd4ef3085), (6, 23, 0x4881d05),
   (9, 4, 0xd9d4d039), (12, 11, 0xe6db99e5), (15, 16, 0x1fa27cf8), (2, 23, 0xc4ac5665)]

def round4 : List Line :=
  [(0, 6, 0xf4292244), (7, 10, 0x432aff97), (14, 15, 0xab9423a7), (5, 21, 0xfc93a039),
   (12, 6, 0x655b59c3), (3, 10, 0x8f0ccc92), (10, 15, 0xffeff47d), (1, 21, 0x85845dd1),
   (8, 6, 0x6fa87e4f), (15, 10, 0xfe2ce6e0), (6, 15, 0xa3014314), (13, 21, 0x4e0811a1),
   (4, 6, 0xf7537e82), (11, 10, 0xbd3af235), (2, 15, 0x2ad7d2bb), (9, 21, 0xeb86d391)]

/-- One operation of a round followed by the rotation of the roles: what the
source calls `d` in its next line is what this one called `c`. -/
def apply (op : UInt32 → UInt32 → UInt32 → UInt32 → UInt32 → UInt32 → UInt32 → UInt32)
    (x : List UInt32) (w : Words) (line : Line) : Words :=
  ⟨w.d, op w.a w.b w.c w.d (x.getD line.1 0) line.2.1 line.2.2, w.b, w.c⟩

/-- `decode`: four bytes to a word, low byte first. -/
def decode : List UInt8 → List UInt32
  | b₀ :: b₁ :: b₂ :: b₃ :: rest =>
      (b₀.toUInt32 ||| b₁.toUInt32 <<< 8 ||| b₂.toUInt32 <<< 16 ||| b₃.toUInt32 <<< 24) ::
        decode rest
  | _ => []

/-- `encode`: a word to four bytes, low byte first. -/
def encode (input : List UInt32) : List UInt8 :=
  input.flatMap fun (w : UInt32) =>
    [(w &&& 0xff).toUInt8, (w >>> 8 &&& 0xff).toUInt8, (w >>> 16 &&& 0xff).toUInt8,
      (w >>> 24 &&& 0xff).toUInt8]

/-- `transform`: the new state after one block. -/
def transform (state : Words) (block : List UInt8) : Words :=
  let x := decode block
  let w := round1.foldl (apply FF x) state
  let w := round2.foldl (apply GG x) w
  let w := round3.foldl (apply HH x) w
  let w := round4.foldl (apply II x) w
  ⟨state.a + w.a, state.b + w.b, state.c + w.c, state.d + w.d⟩

end MD5

/-- The members of the class `MD5` that outlive a call. -/
structure MD5 where
  count : UInt32 × UInt32
  state : MD5.Words
  buffer : List UInt8

namespace MD5

/-- `init`.  The source leaves the buffer uninitialised; every byte of it is
written before it is read. -/
def init : MD5 where
  count := (0, 0)
  state := ⟨0x67452301, 0xefcdab89, 0x98badcfe, 0x10325476⟩
  buffer := List.replicate blocksize 0

/-- The lengths for which `i + blocksize` does not wrap around in `update`; where it does, the
loop runs on behind the input. -/
def maxLength : ℕ := 2 ^ 32 - blocksize

/-- The loop `for (i = firstpart; i + blocksize <= length; i += blocksize)`, for an input
below `maxLength`, returning the state and the rest of the input that fills no block. -/
def transformBlocks : ℕ → Words → List UInt8 → Words × List UInt8
  | 0, state, input => (state, input)
  | fuel + 1, state, input =>
      if blocksize ≤ input.length then
        transformBlocks fuel (transform state (input.take blocksize)) (input.drop blocksize)
      else (state, input)

/-- The bit counter after `length` more bytes, with the carry of the source. -/
def addCount (count : UInt32 × UInt32) (length : UInt32) : UInt32 × UInt32 :=
  let low := count.1 + length <<< 3
  let carry := if low < length <<< 3 then count.2 + 1 else count.2
  (low, carry + length >>> 29)

/-- `update`.  `size_type` is a 32-bit type, so the length is taken modulo
`2 ^ 32`. -/
def update (md : MD5) (text : List UInt8) : MD5 :=
  let length : UInt32 := UInt32.ofNat text.length
  let input := text.take length.toNat
  let index := (md.count.1 / 8 % 64).toNat
  let firstpart := blocksize - index
  if firstpart ≤ input.length then
    let filled := store md.buffer index (input.take firstpart)
    let (state, rest) := transformBlocks (input.length / blocksize)
      (transform md.state filled) (input.drop firstpart)
    { count := addCount md.count length, state, buffer := store filled 0 rest }
  else
    { md with count := addCount md.count length, buffer := store md.buffer index input }

/-- The first `n` bytes of the padding `0x80 0 0 ...`. -/
def padding (n : ℕ) : List UInt8 :=
  (0x80 :: List.replicate (blocksize - 1) 0).take n

/-- `finalize`: pad to 56 modulo 64, append the bit count, encode the state. -/
def finalize (md : MD5) : List UInt8 :=
  let bits := encode [md.count.1, md.count.2]
  let index := (md.count.1 / 8 % 64).toNat
  let padLen := if index < 56 then 56 - index else 120 - index
  let done := (md.update (padding padLen)).update bits
  encode [done.state.a, done.state.b, done.state.c, done.state.d]

/-- A hexadecimal digit of `"%02x"`. -/
def hexDigit (n : UInt8) : UInt8 :=
  if n < 10 then 0x30 + n else 0x57 + n

/-- `hexdigest`. -/
def hexdigest (digest : List UInt8) : Bytes :=
  digest.flatMap fun (byte : UInt8) => [hexDigit (byte >>> 4), hexDigit (byte &&& 0xf)]

end MD5

/-- The function `md5` of the source. -/
@[irreducible] def md5 (str : Bytes) : Bytes :=
  MD5.hexdigest (MD5.init.update str).finalize

/-! ## The shape of the output -/

namespace MD5

/-- A character that `"%02x"` can print. -/
def IsHexDigit (c : UInt8) : Prop :=
  (0x30 ≤ c ∧ c ≤ 0x39) ∨ (0x61 ≤ c ∧ c ≤ 0x66)

instance (c : UInt8) : Decidable (IsHexDigit c) :=
  inferInstanceAs (Decidable (_ ∨ _))

private theorem isHexDigit_nibbles :
    ∀ n : Fin 256, IsHexDigit (hexDigit (UInt8.ofFin n >>> 4)) ∧
      IsHexDigit (hexDigit (UInt8.ofFin n &&& 0xf)) := by
  decide +kernel

theorem isHexDigit_of_mem_hexdigest {digest : List UInt8} {c : UInt8}
    (hmem : c ∈ hexdigest digest) : IsHexDigit c := by
  simp only [hexdigest, List.mem_flatMap, List.mem_cons, List.not_mem_nil, or_false] at hmem
  obtain ⟨byte, -, hc⟩ := hmem
  obtain ⟨hhigh, hlow⟩ := isHexDigit_nibbles byte.toFin
  rcases hc with rfl | rfl
  · exact hhigh
  · exact hlow

theorem length_hexdigest (digest : List UInt8) :
    (hexdigest digest).length = 2 * digest.length := by
  induction digest with
  | nil => rfl
  | cons byte rest ih =>
      simp only [hexdigest, List.flatMap_cons, List.length_append, List.length_cons,
        List.length_nil] at ih ⊢
      omega

@[simp] theorem length_finalize (md : MD5) : md.finalize.length = 16 := rfl

end MD5

/-- The digest is printed in 32 characters. -/
@[simp] theorem length_md5 (str : Bytes) : (md5 str).length = 32 := by
  unfold md5
  rw [MD5.length_hexdigest, MD5.length_finalize]

/-- Every character of the digest is a lowercase hexadecimal digit. -/
theorem isHexDigit_of_mem_md5 {str : Bytes} {c : UInt8} (hmem : c ∈ md5 str) :
    MD5.IsHexDigit c := by
  unfold md5 at hmem
  exact MD5.isHexDigit_of_mem_hexdigest hmem

/-- The separator of the credential strings does not occur in a digest. -/
theorem hashMark_notMem_md5 (str : Bytes) : hashMark ∉ md5 str := by
  intro hmem
  exact absurd (isHexDigit_of_mem_md5 hmem) (by decide)

/-- The last sample of the test suite of the algorithm, which spans two blocks. -/
example : md5 (bytes
    "12345678901234567890123456789012345678901234567890123456789012345678901234567890") =
      bytes "57edf4a22be3c955ac49da2e2107b67a" := by
  decide +kernel

end BbMonitor
