import BbMonitor.Lib.Halves
import BbMonitor.Sql.TextId

/-!
# The id scramblers

`pseudo_encrypt_bigint` is the Feistel network of `pseudo_encrypt_int` with halves of 32
bits, and a round function of thirty.  The halves stay in place at the end.
-/

namespace BbMonitor.Sql

/-! ## `pseudo_encrypt_bigint` -/

/-- A value of type `bigint`, or the error "bigint out of range". -/
def int8 (n : ℤ) : Option Int64 :=
  if -2 ^ 63 ≤ n ∧ n < 2 ^ 63 then some (Int64.ofInt n) else none

/-- `((((1366.0 * r1 + 150889) % 714025) / 714025.0) * 32767*32767)::int`.  All is
computed as `numeric`, up to the cast.  The quotient has twenty digits behind the point,
and its product with the two factors is `1 / 1428050` away from every half. -/
def bigRoundFunction (r1 : Int64) : Option Int32 :=
  int4 (roundDiv (Int.tmod (1366 * r1.toInt + 150889) 714025 * 32767 * 32767) 714025)

/-- The loop of `pseudo_encrypt_bigint`. -/
def pseudoEncryptBigLoop : ℕ → Int64 → Int64 → Option (Int64 × Int64)
  | 0, l1, r1 => some (l1, r1)
  | rounds + 1, l1, r1 => do
      let l2 := r1
      let r2 := l1 ^^^ (← bigRoundFunction r1).toInt64
      pseudoEncryptBigLoop rounds l2 r2

def pseudoEncryptBigint (value : Int64) : Option Int64 := do
  let l1 := (value >>> 32) &&& 4294967295
  let r1 := value &&& 4294967295
  let (l1, r1) ← pseudoEncryptBigLoop 3 l1 r1
  int8 ((l1 <<< 32).toInt + r1.toInt)

/-! ## The halves of a `bigint` -/

/-- A half, as the value of a `bigint`. -/
def bigHalf (x : BitVec 32) : Int64 :=
  Int64.ofBitVec (Halves.widen x)

/-- The bits of a `bigint`. -/
def bigBits : Int64 ≃ BitVec (32 + 32) where
  toFun := Int64.toBitVec
  invFun := Int64.ofBitVec
  left_inv _ := rfl
  right_inv _ := rfl

/-- The high and the low half. -/
def bigHalves : Int64 ≃ BitVec 32 × BitVec 32 :=
  bigBits.trans Halves.split

theorem toInt_bigHalf (x : BitVec 32) : (bigHalf x).toInt = x.toNat :=
  Halves.toInt_widen (by decide) x

theorem high_bigHalf (value : Int64) :
    (value >>> 32) &&& 4294967295 = bigHalf (bigHalves value).1 :=
  Int64.toBitVec_inj.mp (Halves.sshiftRight_and_allOnes (w := 32) value.toBitVec)

theorem low_bigHalf (value : Int64) : value &&& 4294967295 = bigHalf (bigHalves value).2 :=
  Int64.toBitVec_inj.mp (Halves.and_allOnes (w := 32) value.toBitVec)

theorem bigHalf_xor (l r : BitVec 32) : bigHalf l ^^^ bigHalf r = bigHalf (l ^^^ r) :=
  Int64.toBitVec_inj.mp (Halves.widen_xor l r)

theorem int8_toInt (n : Int64) : int8 n.toInt = some n := by
  rw [int8, if_pos ⟨n.le_toInt, n.toInt_lt⟩, Int64.ofInt_toInt]

theorem join_bigHalves (l r : BitVec 32) :
    int8 ((bigHalf l <<< 32).toInt + (bigHalf r).toInt) = some (bigHalves.symm (l, r)) := by
  have hjoin : (bigHalf l <<< 32).toInt + (bigHalf r).toInt = (bigHalves.symm (l, r)).toInt :=
    Halves.toInt_join (by decide) l r
  rw [hjoin, int8_toInt]

/-! ## The network -/

/-- What the round function computes for a half: a number of thirty bits. -/
def bigShare (r1 : ℕ) : ℕ :=
  (2 * ((1366 * r1 + 150889) % 714025 * 32767 * 32767) + 714025) / (2 * 714025)

theorem bigShare_lt (r1 : ℕ) : bigShare r1 < 2 ^ 30 := by
  have hmod : (1366 * r1 + 150889) % 714025 < 714025 := Nat.mod_lt _ (by decide)
  unfold bigShare
  omega

theorem bigRoundFunction_bigHalf (r : BitVec 32) :
    ∃ share, bigRoundFunction (bigHalf r) = some share ∧
      share.toInt64 = bigHalf (BitVec.ofNat 32 (bigShare r.toNat)) := by
  have hshare := bigShare_lt r.toNat
  have hround : roundDiv (Int.tmod (1366 * r.toNat + 150889) 714025 * 32767 * 32767) 714025 =
      bigShare r.toNat := by
    rw [Int.tmod_eq_emod_of_nonneg (by omega)]
    unfold roundDiv bigShare
    push_cast
    rfl
  refine ⟨Int32.ofInt (bigShare r.toNat), ?_, ?_⟩
  · rw [bigRoundFunction, toInt_bigHalf, hround, int4_of_bounds (by omega) (by omega)]
  · apply Int64.toInt_inj.mp
    rw [toInt_bigHalf, BitVec.toNat_ofNat, Int32.toInt_toInt64,
      Int32.toInt_ofInt_of_le (by omega) (by omega), Nat.mod_eq_of_lt (by omega)]

def bigNetwork : Equiv.Perm (BitVec 32 × BitVec 32) :=
  Halves.xorMix.network (fun r => BitVec.ofNat 32 (bigShare r.toNat)) 3

theorem pseudoEncryptBigLoop_bigHalf (rounds : ℕ) (p : BitVec 32 × BitVec 32) :
    pseudoEncryptBigLoop rounds (bigHalf p.1) (bigHalf p.2) =
      some (Prod.map bigHalf bigHalf
        (Halves.xorMix.network (fun r => BitVec.ofNat 32 (bigShare r.toNat)) rounds p)) := by
  induction rounds generalizing p with
  | zero => rfl
  | succ rounds ih =>
      obtain ⟨l, r⟩ := p
      obtain ⟨share, hshare, hhalf⟩ := bigRoundFunction_bigHalf r
      rw [pseudoEncryptBigLoop, hshare, Option.bind_eq_bind, Option.bind_some, hhalf, bigHalf_xor]
      exact ih (r, l ^^^ BitVec.ofNat 32 (bigShare r.toNat))

/-- What `pseudo_encrypt_bigint` does to the 64-bit integers. -/
def bigEncrypt : Equiv.Perm Int64 :=
  bigHalves.trans (bigNetwork.trans bigHalves.symm)

/-- `pseudo_encrypt_bigint` never leaves the range of its variables. -/
theorem pseudoEncryptBigint_eq (value : Int64) :
    pseudoEncryptBigint value = some (bigEncrypt value) := by
  calc pseudoEncryptBigint value
      = (pseudoEncryptBigLoop 3 (bigHalf (bigHalves value).1) (bigHalf (bigHalves value).2)).bind
          fun p => int8 ((p.1 <<< 32).toInt + p.2.toInt) := by
        rw [pseudoEncryptBigint, high_bigHalf, low_bigHalf]
        rfl
    _ = int8 ((bigHalf (bigNetwork (bigHalves value)).1 <<< 32).toInt +
          (bigHalf (bigNetwork (bigHalves value)).2).toInt) := by
        rw [pseudoEncryptBigLoop_bigHalf, Option.bind_some]
        rfl
    _ = some (bigEncrypt value) := join_bigHalves _ _

/-- Both scramblers are permutations, and never raise an error. -/
theorem scramblers_bijective :
    (∃ f : Int32 → Int32, Function.Bijective f ∧ ∀ value, pseudoEncryptInt value = some (f value)) ∧
      ∃ f : Int64 → Int64,
        Function.Bijective f ∧ ∀ value, pseudoEncryptBigint value = some (f value) :=
  ⟨⟨encrypt, encrypt.bijective, pseudoEncryptInt_eq⟩,
    ⟨bigEncrypt, bigEncrypt.bijective, pseudoEncryptBigint_eq⟩⟩

end BbMonitor.Sql
