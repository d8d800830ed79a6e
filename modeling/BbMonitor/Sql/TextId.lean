import BbMonitor.Lib.Halves
import BbMonitor.Strings
import Mathlib.Data.Nat.Digits.Defs
import Mathlib.Tactic.Ring

/-!
# The text id of a tenant

When a tenant is stored, a trigger derives a text from its number: the number goes
through a Feistel network (`pseudo_encrypt_int`) and comes out as digits of base 62
(`stringify_int`).

The network is a permutation of the 32-bit integers.  The digits, however, are those
of the absolute value.
-/

namespace BbMonitor.Sql

/-! ## Integers -/

/-- A value of type `int`, or the error "integer out of range". -/
def int4 (n : ℤ) : Option Int32 :=
  if -2 ^ 31 ≤ n ∧ n < 2 ^ 31 then some (Int32.ofInt n) else none

/-- The quotient, rounded to the nearest integer, halves up. -/
def roundDiv (n d : ℤ) : ℤ :=
  (2 * n + d) / (2 * d)

/-! ## `pseudo_encrypt_int` -/

/-- `((((1366 * r1 + 150889) % 714025) / 714025.0) * 32767)::int`.  The quotient is
computed to sixteen digits at least.  This does not change what it is rounded to: the
product is a multiple of `1 / 714025`, hence `1 / 1428050` away from every half. -/
def roundFunction (r1 : Int32) : Option Int32 := do
  let product ← int4 (1366 * r1.toInt)
  let sum ← int4 (product.toInt + 150889)
  int4 (roundDiv (Int.tmod sum.toInt 714025 * 32767) 714025)

/-- The loop of `pseudo_encrypt_int`. -/
def pseudoEncryptLoop : ℕ → Int32 → Int32 → Option (Int32 × Int32)
  | 0, l1, r1 => some (l1, r1)
  | rounds + 1, l1, r1 => do
      let l2 := r1
      let r2 := l1 ^^^ (← roundFunction r1)
      pseudoEncryptLoop rounds l2 r2

def pseudoEncryptInt (value : Int32) : Option Int32 := do
  let l1 := (value >>> 16) &&& 65535
  let r1 := value &&& 65535
  let (l1, r1) ← pseudoEncryptLoop 3 l1 r1
  int4 ((r1 <<< 16).toInt + l1.toInt)

/-! ## `stringify_int` -/

def alphabet : Bytes :=
  bytes "abcdefghijklmnopqrstuvwxyzABCDEFGHIJKLMNOPQRSTUVWXYZ0123456789"

def base : ℕ := alphabet.length

/-- `substr(text, start, count)`, where positions count from 1. -/
def sqlSubstr (text : Bytes) (start count : ℕ) : Bytes :=
  (text.drop (start - 1)).take count

/-- `abs(n)`, an error for the least integer. -/
def abs (n : Int32) : Option Int32 :=
  int4 n.toInt.natAbs

/-- The loop of `stringify_int`. -/
def stringifyLoop (n : ℕ) (output : Bytes) : Bytes :=
  let output := output ++ sqlSubstr alphabet (1 + n % base) 1
  if n / base = 0 then output else stringifyLoop (n / base) output
termination_by n
decreasing_by
  have hbase : 1 < base := by decide
  have hpos : 0 < n := by
    rcases Nat.eq_zero_or_pos n with rfl | hpos
    · simp_all
    · exact hpos
  exact Nat.div_lt_self hpos hbase

def stringifyInt (n : Int32) : Option Bytes := do
  let n ← abs n
  return stringifyLoop n.toInt.toNat []

/-- What the trigger `tenant_assign_text_id_column` assigns. -/
def tenantTextId (tenantId : Int32) : Option Bytes := do
  stringifyInt (← pseudoEncryptInt tenantId)

/-! ## The halves of an integer -/

/-- A half, as the value of an `int`. -/
def half (x : BitVec 16) : Int32 :=
  Int32.ofBitVec (x.setWidth 32)

/-- The high and the low half. -/
def halves : Int32 ≃ BitVec 16 × BitVec 16 where
  toFun n := (n.toBitVec.extractLsb' 16 16, n.toBitVec.extractLsb' 0 16)
  invFun p := Int32.ofBitVec (p.1 ++ p.2)
  left_inv n := by
    apply Int32.toBitVec_inj.mp
    exact BitVec.extractLsb'_append_extractLsb'_eq_extractLsb' (by decide) |>.trans (by simp)
  right_inv _ := Prod.ext BitVec.extractLsb'_append_eq_left BitVec.extractLsb'_append_eq_right

theorem toInt_half (x : BitVec 16) : (half x).toInt = x.toNat :=
  Halves.toInt_widen (by decide) x

theorem high_half (value : Int32) : (value >>> 16) &&& 65535 = half (halves value).1 :=
  Int32.toBitVec_inj.mp (Halves.sshiftRight_and_allOnes (w := 16) value.toBitVec)

theorem low_half (value : Int32) : value &&& 65535 = half (halves value).2 :=
  Int32.toBitVec_inj.mp (Halves.and_allOnes (w := 16) value.toBitVec)

theorem half_xor (l r : BitVec 16) : half l ^^^ half r = half (l ^^^ r) :=
  Int32.toBitVec_inj.mp (Halves.widen_xor l r)

theorem int4_of_bounds {n : ℤ} (hlow : -2 ^ 31 ≤ n) (hhigh : n < 2 ^ 31) :
    int4 n = some (Int32.ofInt n) :=
  if_pos ⟨hlow, hhigh⟩

theorem int4_toInt (n : Int32) : int4 n.toInt = some n := by
  rw [int4_of_bounds n.le_toInt n.toInt_lt, Int32.ofInt_toInt]

/-- The shift wraps around and the sum stays in range. -/
theorem join_halves (l r : BitVec 16) :
    int4 ((half r <<< 16).toInt + (half l).toInt) = some (halves.symm (r, l)) := by
  have hjoin : (half r <<< 16).toInt + (half l).toInt = (halves.symm (r, l)).toInt :=
    Halves.toInt_join (by decide) r l
  rw [hjoin, int4_toInt]

/-! ## The network -/

/-- What the round function computes for a half: a number of fifteen bits. -/
def share (r1 : ℕ) : ℕ :=
  (2 * ((1366 * r1 + 150889) % 714025 * 32767) + 714025) / (2 * 714025)

theorem share_lt (r1 : ℕ) : share r1 < 2 ^ 15 := by
  have hmod : (1366 * r1 + 150889) % 714025 < 714025 := Nat.mod_lt _ (by decide)
  unfold share
  omega

theorem roundFunction_half (r : BitVec 16) :
    roundFunction (half r) = some (half (BitVec.ofNat 16 (share r.toNat))) := by
  have hr := r.isLt
  have hshare := share_lt r.toNat
  have hround : roundDiv (Int.tmod (1366 * r.toNat + 150889) 714025 * 32767) 714025 =
      share r.toNat := by
    rw [Int.tmod_eq_emod_of_nonneg (by omega)]
    unfold roundDiv share
    push_cast
    rfl
  have hhalf : half (BitVec.ofNat 16 (share r.toNat)) = Int32.ofInt (share r.toNat) := by
    apply Int32.toInt_inj.mp
    rw [toInt_half, BitVec.toNat_ofNat, Int32.toInt_ofInt_of_le (by omega) (by omega),
      Nat.mod_eq_of_lt (by omega)]
  unfold roundFunction
  rw [toInt_half, int4_of_bounds (by omega) (by omega), Option.bind_eq_bind, Option.bind_some,
    Int32.toInt_ofInt_of_le (by omega) (by omega), int4_of_bounds (by omega) (by omega),
    Option.bind_some, Int32.toInt_ofInt_of_le (by omega) (by omega), hround,
    int4_of_bounds (by omega) (by omega), hhalf]

/-- The halves are mixed by `#`. -/
def xorMix : Mix (BitVec 16) where
  mix l r := l ^^^ r
  mix_mix l r := by rw [BitVec.xor_assoc, BitVec.xor_self, BitVec.xor_zero]

def network : Equiv.Perm (BitVec 16 × BitVec 16) :=
  xorMix.network (fun r => BitVec.ofNat 16 (share r.toNat)) 3

theorem pseudoEncryptLoop_half (rounds : ℕ) (p : BitVec 16 × BitVec 16) :
    pseudoEncryptLoop rounds (half p.1) (half p.2) =
      some (Prod.map half half
        (xorMix.network (fun r => BitVec.ofNat 16 (share r.toNat)) rounds p)) := by
  induction rounds generalizing p with
  | zero => rfl
  | succ rounds ih =>
      obtain ⟨l, r⟩ := p
      rw [pseudoEncryptLoop, roundFunction_half, Option.bind_eq_bind, Option.bind_some, half_xor]
      exact ih (r, l ^^^ BitVec.ofNat 16 (share r.toNat))

/-- What `pseudo_encrypt_int` does to the 32-bit integers: at the end the halves
change places. -/
def encrypt : Equiv.Perm Int32 :=
  halves.trans (network.trans ((Equiv.prodComm _ _).trans halves.symm))

/-- `pseudo_encrypt_int` never leaves the range of its variables. -/
theorem pseudoEncryptInt_eq (value : Int32) : pseudoEncryptInt value = some (encrypt value) := by
  calc pseudoEncryptInt value
      = (pseudoEncryptLoop 3 (half (halves value).1) (half (halves value).2)).bind fun p =>
          int4 ((p.2 <<< 16).toInt + p.1.toInt) := by
        rw [pseudoEncryptInt, high_half, low_half]
        rfl
    _ = int4 ((half (network (halves value)).2 <<< 16).toInt +
          (half (network (halves value)).1).toInt) := by
        rw [pseudoEncryptLoop_half, Option.bind_some]
        rfl
    _ = some (encrypt value) := join_halves _ _

theorem neg_iff_msb (n : Int32) : n < 0 ↔ (halves n).1.msb = true := by
  have hmsb : (halves n).1.msb = n.toBitVec.msb := by
    simp [halves, BitVec.msb_eq_getLsbD_last]
  rw [hmsb, BitVec.msb_eq_toInt, Int32.lt_iff_toInt_lt, decide_eq_true_iff]
  rfl

/-- The round function has no bit for the sign, which stays. -/
theorem encrypt_neg_iff (value : Int32) : encrypt value < 0 ↔ value < 0 := by
  have hmark : ∀ l r : BitVec 16,
      (xorMix.mix l (BitVec.ofNat 16 (share r.toNat))).msb = l.msb := by
    intro l r
    have hshare := share_lt r.toNat
    have hsmall : (BitVec.ofNat 16 (share r.toNat)).msb = false := by
      rw [BitVec.msb_eq_false_iff_two_mul_lt, BitVec.toNat_ofNat]
      omega
    simp [xorMix, hsmall]
  have hhigh := (xorMix.network_three_marks _ BitVec.msb hmark (halves value)).2
  rw [neg_iff_msb, neg_iff_msb, ← hhigh]
  simp [encrypt, network]

/-! ## The digits -/

/-- The number that a text stands for. -/
def decode (text : Bytes) : ℕ :=
  Nat.ofDigits base (text.map fun c => alphabet.idxOf c)

theorem decode_digit {d : ℕ} (hd : d < base) : decode (sqlSubstr alphabet (1 + d) 1) = d := by
  have hall : ∀ d : Fin base, decode (sqlSubstr alphabet (1 + d) 1) = d.val := by decide +kernel
  exact hall ⟨d, hd⟩

theorem decode_append (text more : Bytes) :
    decode (text ++ more) = decode text + base ^ text.length * decode more := by
  simp [decode, Nat.ofDigits_append]

theorem length_digit {d : ℕ} (hd : d < base) : (sqlSubstr alphabet (1 + d) 1).length = 1 := by
  have hbase : alphabet.length = base := rfl
  simp only [sqlSubstr, List.length_take, List.length_drop]
  omega

theorem decode_stringifyLoop (n : ℕ) (output : Bytes) :
    decode (stringifyLoop n output) = decode output + base ^ output.length * n := by
  induction n, output using stringifyLoop.induct with
  | case1 n text hlast =>
      have hn : n % base = n := Nat.mod_eq_of_lt ((Nat.div_eq_zero_iff_lt (by decide)).mp hlast)
      rw [stringifyLoop, if_pos hlast, decode_append, decode_digit (Nat.mod_lt _ (by decide)), hn]
  | case2 n text out hmore ih =>
      have hdigit : n % base < base := Nat.mod_lt _ (by decide)
      rw [stringifyLoop, if_neg hmore, ih, decode_append, decode_digit hdigit, List.length_append,
        length_digit hdigit]
      calc decode text + base ^ text.length * (n % base) +
            base ^ (text.length + 1) * (n / base)
          = decode text + base ^ text.length * (n % base + base * (n / base)) := by ring
        _ = decode text + base ^ text.length * n := by rw [Nat.mod_add_div]

/-- The text determines the number. -/
theorem stringifyLoop_inj {m n : ℕ} (heq : stringifyLoop m [] = stringifyLoop n []) : m = n := by
  have hdecode := congrArg decode heq
  simpa [decode_stringifyLoop] using hdecode

/-- The digits are those of the absolute value, which the least integer does not
have. -/
theorem stringifyInt_eq (n : Int32) :
    stringifyInt n =
      if n = Int32.minValue then none else some (stringifyLoop n.toInt.natAbs []) := by
  have hlow := n.le_toInt
  have hhigh := n.toInt_lt
  unfold stringifyInt abs
  split
  · rename_i hmin
    rw [hmin]
    decide
  · rename_i hmin
    have hne : n.toInt ≠ -2 ^ 31 := fun heq => hmin (Int32.toInt_inj.mp heq)
    rw [int4_of_bounds (by omega) (by omega), Option.bind_eq_bind, Option.bind_some,
      Int32.toInt_ofInt_of_le (by omega) (by omega)]
    rfl

/-! ## Which ids get a text of their own -/

/-- The id that the network takes to the least integer. -/
def unencodable : Int32 := -1245441359

/-- The id that the network takes to the negated number. -/
def mirror (a : Int32) : Int32 :=
  encrypt.symm (-(encrypt a))

theorem encrypt_eq_minValue_iff (a : Int32) : encrypt a = Int32.minValue ↔ a = unencodable := by
  have hunencodable : encrypt unencodable = Int32.minValue := by decide +kernel
  rw [← hunencodable, encrypt.apply_eq_iff_eq]

theorem tenantTextId_eq (a : Int32) :
    tenantTextId a =
      if a = unencodable then none else some (stringifyLoop (encrypt a).toInt.natAbs []) := by
  unfold tenantTextId
  rw [pseudoEncryptInt_eq, Option.bind_eq_bind, Option.bind_some, stringifyInt_eq]
  simp only [encrypt_eq_minValue_iff]

theorem toInt_neg_of_ne {n : Int32} (hn : n ≠ Int32.minValue) : (-n).toInt = -n.toInt := by
  have hlow := n.le_toInt
  have hhigh := n.toInt_lt
  have hne : n.toInt ≠ -2 ^ 31 := fun heq => hn (Int32.toInt_inj.mp heq)
  rw [Int32.toInt_neg]
  exact Int.bmod_eq_of_le (by omega) (by omega)

theorem natAbs_toInt_eq_iff {m n : Int32} (hm : m ≠ Int32.minValue) :
    m.toInt.natAbs = n.toInt.natAbs ↔ n = m ∨ n = -m := by
  rw [← Int32.toInt_inj, ← Int32.toInt_inj, toInt_neg_of_ne hm]
  omega

theorem eq_mirror_iff (a b : Int32) : b = mirror a ↔ encrypt b = -(encrypt a) :=
  encrypt.eq_symm_apply

/-- The mirror image of an id is on the other side of zero, unless it is the id
itself. -/
theorem mirror_neg_iff {a : Int32} (ha : a ≠ unencodable) (hne : mirror a ≠ a) :
    mirror a < 0 ↔ ¬ a < 0 := by
  have hmirror : encrypt (mirror a) = -(encrypt a) := (eq_mirror_iff a _).mp rfl
  have hmin : encrypt a ≠ Int32.minValue := fun heq => ha ((encrypt_eq_minValue_iff a).mp heq)
  have hzero : (encrypt a).toInt ≠ 0 := by
    intro hzero
    refine hne (encrypt.injective (hmirror.trans (Int32.toInt_inj.mp ?_)))
    rw [toInt_neg_of_ne hmin]
    omega
  rw [← encrypt_neg_iff, ← encrypt_neg_iff a, hmirror, Int32.lt_iff_toInt_lt,
    Int32.lt_iff_toInt_lt, toInt_neg_of_ne hmin, Int32.toInt_zero]
  omega

theorem exists_tenantTextId {a : Int32} (ha : a ≠ unencodable) :
    ∃ s, tenantTextId a = some s := by
  rw [tenantTextId_eq, if_neg ha]
  exact ⟨_, rfl⟩

theorem tenantTextId_eq_iff {a b : Int32} (hne : a ≠ b) (ha : a ≠ unencodable)
    (hb : b ≠ unencodable) : tenantTextId a = tenantTextId b ↔ b = mirror a := by
  have hmin : encrypt a ≠ Int32.minValue := fun heq => ha ((encrypt_eq_minValue_iff a).mp heq)
  have hother : encrypt b ≠ encrypt a := fun heq => hne (encrypt.injective heq).symm
  rw [tenantTextId_eq, tenantTextId_eq, if_neg ha, if_neg hb, eq_mirror_iff, Option.some.injEq]
  constructor
  · intro heq
    exact ((natAbs_toInt_eq_iff hmin).mp (stringifyLoop_inj heq)).resolve_left hother
  · intro heq
    rw [(natAbs_toInt_eq_iff hmin).mpr (Or.inr heq)]

/-- Ids on the same side of zero get different texts, if they get one. -/
theorem tenantTextId_ne_of_same_side {a b : Int32} (hne : a ≠ b) (hside : a < 0 ↔ b < 0)
    (ha : a ≠ unencodable) (hb : b ≠ unencodable) : tenantTextId a ≠ tenantTextId b := by
  intro heq
  have hmirror := (tenantTextId_eq_iff hne ha hb).mp heq
  rw [hmirror] at hne hside
  exact iff_not_self (hside.trans (mirror_neg_iff ha hne.symm))

/-- Two ids get different texts unless one of them is the id without a text, or they
are mirror images of each other. -/
theorem tenantTextId_distinct_iff (a b : Int32) (hne : a ≠ b) :
    (∃ s t, tenantTextId a = some s ∧ tenantTextId b = some t ∧ s ≠ t) ↔
      a ≠ unencodable ∧ b ≠ unencodable ∧ b ≠ mirror a := by
  constructor
  · rintro ⟨s, t, hs, ht, hdistinct⟩
    have ha : a ≠ unencodable := by
      rintro rfl
      simp [tenantTextId_eq] at hs
    have hb : b ≠ unencodable := by
      rintro rfl
      simp [tenantTextId_eq] at ht
    refine ⟨ha, hb, fun hmirror => hdistinct ?_⟩
    have heq := (tenantTextId_eq_iff hne ha hb).mpr hmirror
    rw [hs, ht] at heq
    exact Option.some.inj heq
  · rintro ⟨ha, hb, hmirror⟩
    obtain ⟨s, hs⟩ := exists_tenantTextId ha
    obtain ⟨t, ht⟩ := exists_tenantTextId hb
    refine ⟨s, t, hs, ht, fun heq => hmirror ((tenantTextId_eq_iff hne ha hb).mp ?_)⟩
    rw [hs, ht, heq]

theorem tenantTextId_one_two :
    ∃ s t, tenantTextId 1 = some s ∧ tenantTextId 2 = some t ∧ s ≠ t :=
  (tenantTextId_distinct_iff 1 2 (by decide)).mpr (by decide +kernel)

/-- The ids 1 and -2116569833 get the same text. -/
theorem tenantTextId_collision :
    ¬ ∀ a b : Int32, a ≠ b →
        ∃ s t, tenantTextId a = some s ∧ tenantTextId b = some t ∧ s ≠ t := by
  intro hall
  obtain ⟨s, t, hs, ht, hne⟩ := hall 1 (-2116569833) (by decide)
  have hone : encrypt 1 = 561465857 := by decide +kernel
  have hother : encrypt (-2116569833) = -561465857 := by decide +kernel
  rw [tenantTextId_eq, if_neg (by decide), hone] at hs
  rw [tenantTextId_eq, if_neg (by decide), hother] at ht
  cases hs
  cases ht
  exact hne rfl

end BbMonitor.Sql
