import BbMonitor.Strings

/-!
# Numbers as text

What `std::to_string` and the conversions of the database print: the decimal digits, with
a sign in front where there is one.  A number can be read back, and its text has no other
characters than these.
-/

namespace BbMonitor

theorem bytes_injective : Function.Injective bytes := by
  intro s t heq
  apply String.toByteArray_inj.mp
  apply ByteArray.ext
  exact Array.toList_inj.mp heq

theorem bytes_append (s t : String) : bytes (s ++ t) = bytes s ++ bytes t := by
  simp only [bytes, String.toUTF8_eq_toByteArray, String.toByteArray_append,
    ByteArray.data_append, Array.toList_append]

theorem bytes_eq_flatMap (s : String) : bytes s = s.toList.flatMap String.utf8EncodeChar := by
  rw [bytes, String.toUTF8_eq_toByteArray, ← String.utf8Encode_toList, List.utf8Encode,
    List.data_toByteArray]

/-- A byte that prints a decimal digit. -/
def IsDigit (c : UInt8) : Prop := 0x30 ≤ c ∧ c ≤ 0x39

instance (c : UInt8) : Decidable (IsDigit c) := inferInstanceAs (Decidable (_ ∧ _))

theorem isDigit_of_mem_utf8EncodeChar {ch : Char} (hdigit : ch.isDigit = true) {c : UInt8}
    (hmem : c ∈ String.utf8EncodeChar ch) : IsDigit c := by
  obtain ⟨hlow, hhigh⟩ := Char.isDigit_iff_toNat.mp hdigit
  have hlow' : 48 ≤ ch.toNat := hlow
  have hhigh' : ch.toNat ≤ 57 := hhigh
  have hsize : String.utf8EncodeChar ch = [UInt8.ofNat ch.toNat] := by
    rw [String.utf8EncodeChar, if_pos]
    · rfl
    · exact Nat.le_trans hhigh' (by decide)
  rw [hsize, List.mem_singleton] at hmem
  subst hmem
  rw [IsDigit, UInt8.le_iff_toNat_le, UInt8.le_iff_toNat_le, UInt8.toNat_ofNat',
    Nat.mod_eq_of_lt (by omega)]
  exact ⟨hlow', hhigh'⟩

theorem isDigit_of_mem_repr {n : ℕ} {c : UInt8} (hmem : c ∈ bytes n.repr) : IsDigit c := by
  rw [bytes_eq_flatMap, List.mem_flatMap] at hmem
  obtain ⟨ch, hch, hmem⟩ := hmem
  rw [Nat.toList_repr] at hch
  exact isDigit_of_mem_utf8EncodeChar
    (Nat.isDigit_of_mem_toDigits (by decide) (by decide) hch) hmem

/-- `'-'`. -/
def minusSign : UInt8 := 0x2d

theorem mem_bytes_toString {n : ℤ} {c : UInt8} (hmem : c ∈ bytes (toString n)) :
    c = minusSign ∨ IsDigit c := by
  rw [Int.toString_eq_repr, Int.repr_eq_if] at hmem
  split at hmem
  · exact Or.inr (isDigit_of_mem_repr hmem)
  · rw [bytes_append, List.mem_append] at hmem
    rcases hmem with hsign | hdigits
    · exact Or.inl (List.mem_singleton.mp hsign)
    · exact Or.inr (isDigit_of_mem_repr hdigits)

theorem nat_repr_injective {m n : ℕ} (heq : m.repr = n.repr) : m = n := by
  have hdigits := congrArg String.toList heq
  rw [Nat.toList_repr, Nat.toList_repr] at hdigits
  rw [← Nat.ofDigitChars_ten_toDigits (n := m), hdigits, Nat.ofDigitChars_ten_toDigits]

/-- A sign is not a digit. -/
theorem repr_ne_minus_append (m n : ℕ) : m.repr ≠ "-" ++ n.repr := by
  intro heq
  have hmem : minusSign ∈ bytes m.repr := by
    rw [heq, bytes_append, List.mem_append]
    left
    decide
  exact absurd (isDigit_of_mem_repr hmem) (by decide)

theorem toString_injective {m n : ℤ} (heq : toString m = toString n) : m = n := by
  rw [Int.toString_eq_repr, Int.toString_eq_repr, Int.repr_eq_if, Int.repr_eq_if] at heq
  split at heq <;> split at heq
  · have hnat := nat_repr_injective heq
    omega
  · exact absurd heq (repr_ne_minus_append _ _)
  · exact absurd heq.symm (repr_ne_minus_append _ _)
  · have hnat := nat_repr_injective (bytes_injective
      (List.append_cancel_left (by simpa only [bytes_append] using congrArg bytes heq)))
    omega

/-- A number is the same when its text is. -/
theorem bytes_toString_injective {m n : ℤ} (heq : bytes (toString m) = bytes (toString n)) :
    m = n :=
  toString_injective (bytes_injective heq)

end BbMonitor
