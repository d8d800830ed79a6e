import Mathlib.Algebra.Group.Nat.Defs
import Mathlib.Logic.Equiv.Basic
import BbMonitor.Lib.Feistel

/-!
# Words and their halves

A word of `w + w` bits has a high and a low half.  A half is computed with as a word, by
`widen`.  What masks and shifts do to a word is said in terms of its halves; in
particular, putting the halves together again by a shift and a sum neither overflows nor
loses a bit, when the word is read as a signed number.
-/

namespace BbMonitor.Halves

variable {w : ℕ}

/-- A half, as a word. -/
def widen (x : BitVec w) : BitVec (w + w) :=
  x.setWidth (w + w)

/-- The high and the low half. -/
def split : BitVec (w + w) ≃ BitVec w × BitVec w where
  toFun v := (v.extractLsb' w w, v.extractLsb' 0 w)
  invFun p := p.1 ++ p.2
  left_inv v := by
    ext i hi
    rw [BitVec.getElem_append]
    split
    · simp [BitVec.getLsbD_eq_getElem hi]
    · rename_i hle
      have hback : w + (i - w) = i := by omega
      simp [hback, BitVec.getLsbD_eq_getElem hi]
  right_inv _ := Prod.ext BitVec.extractLsb'_append_eq_left BitVec.extractLsb'_append_eq_right

theorem toNat_widen (x : BitVec w) : (widen x).toNat = x.toNat := by
  have hlt := x.isLt
  rw [widen, BitVec.toNat_setWidth, Nat.mod_eq_of_lt]
  exact Nat.lt_of_lt_of_le hlt (Nat.pow_le_pow_right (by decide) (Nat.le_add_right w w))

theorem widen_xor (l r : BitVec w) : widen l ^^^ widen r = widen (l ^^^ r) := by
  rw [widen, widen, widen, BitVec.setWidth_xor]

theorem getElem_widen_allOnes (i : ℕ) (hi : i < w + w) :
    (widen (BitVec.allOnes w))[i] = decide (i < w) := by
  rw [widen, BitVec.getElem_setWidth, BitVec.getLsbD_allOnes]

/-- The mask of the low half. -/
theorem and_allOnes (v : BitVec (w + w)) :
    v &&& widen (BitVec.allOnes w) = widen (split v).2 := by
  ext i hi
  rw [BitVec.getElem_and, getElem_widen_allOnes, Bool.and_comm]
  simp [widen, split, BitVec.getLsbD_eq_getElem hi]

/-- The shift drags the sign in, and the mask takes it away. -/
theorem sshiftRight_and_allOnes (v : BitVec (w + w)) :
    v.sshiftRight w &&& widen (BitVec.allOnes w) = widen (split v).1 := by
  ext i hi
  rw [BitVec.getElem_and, getElem_widen_allOnes]
  by_cases hlow : i < w
  · have hbound : w + i < w + w := by omega
    simp [widen, split, hlow, hbound, BitVec.getElem_sshiftRight]
  · simp [widen, split, hlow]

theorem toInt_widen (hw : 0 < w) (x : BitVec w) : (widen x).toInt = x.toNat := by
  have hlt := x.isLt
  have hpow : 2 * 2 ^ w ≤ 2 ^ (w + w) := by
    rw [← Nat.pow_succ']
    exact Nat.pow_le_pow_right (by decide) (by omega)
  rw [BitVec.toInt_eq_toNat_cond, toNat_widen, if_pos (by omega)]

/-- The low half does not reach the sign. -/
theorem double_mul_add_lt_iff (hw : 0 < w) {high low : ℕ} (hlow : low < 2 ^ w) :
    2 * (high * 2 ^ w) < 2 ^ w * 2 ^ w ↔ 2 * (high * 2 ^ w + low) < 2 ^ w * 2 ^ w := by
  obtain ⟨n, rfl⟩ : ∃ n, w = n + 1 := ⟨w - 1, by omega⟩
  have hsquare : 2 ^ (n + 1) * 2 ^ (n + 1) = 2 * (2 ^ n * 2 ^ (n + 1)) := by
    rw [Nat.pow_succ' (n := n), Nat.mul_assoc]
  by_cases hhigh : high < 2 ^ n
  · have hmul := Nat.mul_le_mul_right (2 ^ (n + 1)) (Nat.succ_le_of_lt hhigh)
    rw [Nat.succ_mul] at hmul
    omega
  · have hmul := Nat.mul_le_mul_right (2 ^ (n + 1)) (Nat.le_of_not_lt hhigh)
    omega

/-- The shift wraps around, and the sum stays in range. -/
theorem toInt_join (hw : 0 < w) (high low : BitVec w) :
    (widen high <<< w).toInt + (widen low).toInt = (split.symm (high, low)).toInt := by
  have hhigh := high.isLt
  have hlow := low.isLt
  have hpow : 2 ^ (w + w) = 2 ^ w * 2 ^ w := Nat.pow_add 2 w w
  have happend : (high ++ low).toNat = high.toNat * 2 ^ w + low.toNat := by
    rw [BitVec.toNat_append, ← Nat.shiftLeft_add_eq_or_of_lt hlow, Nat.shiftLeft_eq]
  have hlt : high.toNat * 2 ^ w < 2 ^ (w + w) := by
    rw [hpow]
    exact Nat.mul_lt_mul_of_pos_right hhigh (Nat.two_pow_pos w)
  have hshift : (widen high <<< w).toNat = high.toNat * 2 ^ w := by
    rw [BitVec.toNat_shiftLeft, toNat_widen, Nat.shiftLeft_eq, Nat.mod_eq_of_lt hlt]
  rw [toInt_widen hw]
  show _ = (high ++ low).toInt
  have hsign : 2 * (high.toNat * 2 ^ w) < 2 ^ (w + w) ↔
      2 * (high.toNat * 2 ^ w + low.toNat) < 2 ^ (w + w) := by
    rw [hpow]
    exact double_mul_add_lt_iff hw hlow
  rw [BitVec.toInt_eq_toNat_cond, BitVec.toInt_eq_toNat_cond, happend, hshift]
  by_cases hpositive : 2 * (high.toNat * 2 ^ w) < 2 ^ (w + w)
  · rw [if_pos hpositive, if_pos (hsign.mp hpositive)]
    push_cast
    rfl
  · rw [if_neg hpositive, if_neg (fun hsum => hpositive (hsign.mpr hsum))]
    push_cast
    omega

/-- The halves are mixed bit by bit. -/
def xorMix : Mix (BitVec w) where
  mix l r := l ^^^ r
  mix_mix l r := by rw [BitVec.xor_assoc, BitVec.xor_self, BitVec.xor_zero]

end BbMonitor.Halves
