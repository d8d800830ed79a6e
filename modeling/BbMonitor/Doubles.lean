import BbMonitor.Messages

/-!
# Doubles

What the exporter needs of `double`: the test `std::isfinite`, the constant `NAN`
and the conversion of an `int64_t`, which rounds to the nearest double, to the
even one of two.
-/

namespace BbMonitor.Double

/-- `NAN`. -/
def nan : Double := 0x7ff8000000000000

/-- `std::isfinite`: not all eleven bits of the exponent are set. -/
def isFinite (x : Double) : Bool :=
  x.toNat / 2 ^ 52 % 2 ^ 11 ≠ 2 ^ 11 - 1

/-- The quotient `m / d`, rounded to the nearest integer. -/
def roundedQuotient (m d : ℕ) : ℕ :=
  if 2 * (m % d) < d then m / d
  else if d < 2 * (m % d) then m / d + 1
  else m / d + m / d % 2

/-- The leading 53 bits of `m`, rounded; `2 ^ 53` if the rounding carries. -/
def significand (m : ℕ) : ℕ :=
  if m.log2 ≤ 52 then m * 2 ^ (52 - m.log2) else roundedQuotient m (2 ^ (m.log2 - 52))

/-- The bits of the double nearest to `m`.  A carry out of the significand goes
into the exponent. -/
def magnitude (m : ℕ) : ℕ :=
  if m = 0 then 0 else (m.log2 + 1023) * 2 ^ 52 + (significand m - 2 ^ 52)

/-- The conversion of an `int64_t`. -/
def ofInt64 (n : Int64) : Double :=
  UInt64.ofNat ((if n < 0 then 2 ^ 63 else 0) + magnitude n.toInt.natAbs)

example : [ofInt64 0, ofInt64 3, ofInt64 (-1), ofInt64 9007199254740993] =
    [0, 0x4008000000000000, 0xbff0000000000000, 0x4340000000000000] := by decide

theorem roundedQuotient_le {m d : ℕ} : roundedQuotient m d ≤ m / d + 1 := by
  unfold roundedQuotient
  have hodd : m / d % 2 < 2 := Nat.mod_lt _ (by decide)
  split_ifs <;> omega

theorem significand_le {m : ℕ} : significand m ≤ 2 ^ 53 := by
  have hlt : m < 2 ^ (m.log2 + 1) := Nat.lt_log2_self
  unfold significand
  split
  · rename_i hle
    have hpow : 2 ^ (m.log2 + 1) * 2 ^ (52 - m.log2) = 2 ^ 53 := by
      rw [← Nat.pow_add]
      congr 1
      omega
    calc m * 2 ^ (52 - m.log2) ≤ 2 ^ (m.log2 + 1) * 2 ^ (52 - m.log2) :=
          Nat.mul_le_mul_right _ (Nat.le_of_lt hlt)
      _ = 2 ^ 53 := hpow
  · rename_i hgt
    have hpow : 2 ^ 53 * 2 ^ (m.log2 - 52) = 2 ^ (m.log2 + 1) := by
      rw [← Nat.pow_add]
      congr 1
      omega
    have hquotient : m / 2 ^ (m.log2 - 52) < 2 ^ 53 := by
      apply Nat.div_lt_of_lt_mul
      rw [Nat.mul_comm, hpow]
      exact hlt
    exact Nat.le_trans roundedQuotient_le hquotient

theorem log2_le_of_int64 (n : Int64) : n.toInt.natAbs.log2 ≤ 63 := by
  have hlow : -2 ^ 63 ≤ n.toInt := Int64.le_toInt n
  have hhigh : n.toInt < 2 ^ 63 := Int64.toInt_lt n
  by_contra hgt
  have hpow : 2 ^ 64 ≤ 2 ^ n.toInt.natAbs.log2 := Nat.pow_le_pow_right (by decide) (by omega)
  have hne : n.toInt.natAbs ≠ 0 := by
    intro hzero
    rw [hzero] at hgt
    exact hgt (by decide)
  have hself : 2 ^ n.toInt.natAbs.log2 ≤ n.toInt.natAbs := Nat.log2_self_le hne
  omega

theorem magnitude_lt {m : ℕ} (hlog : m.log2 ≤ 63) : magnitude m < 2 ^ 11 * 2 ^ 52 - 2 ^ 52 := by
  unfold magnitude
  split
  · decide
  · have hsignificand : significand m ≤ 2 ^ 53 := significand_le
    omega

/-- The double nearest to an integer is finite. -/
theorem isFinite_ofInt64 (n : Int64) : isFinite (ofInt64 n) = true := by
  have hmagnitude := magnitude_lt (log2_le_of_int64 n)
  have hbits : (ofInt64 n).toNat =
      (if n < 0 then 2 ^ 63 else 0) + magnitude n.toInt.natAbs := by
    rw [ofInt64, UInt64.toNat_ofNat']
    apply Nat.mod_eq_of_lt
    split <;> omega
  rw [isFinite, hbits, decide_eq_true_eq]
  split <;> omega

end BbMonitor.Double
