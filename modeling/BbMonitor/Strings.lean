import Mathlib.Algebra.Group.Int.Defs
import Mathlib.Algebra.Group.Nat.Defs
import Mathlib.Data.List.Basic

/-!
# Byte strings

`std::string` is a sequence of bytes, and so are the texts of the model: every
topic name, api key, hash and line is a `Bytes`.  String literals of the source
are written with `bytes`.

The searches of `std::string` return `npos` when nothing is found; here they
return an `Option`, and `npos` is written out where the source goes on computing
with it.
-/

namespace BbMonitor

/-- A `std::string`. -/
abbrev Bytes := List UInt8

/-- The bytes of a literal of the source. -/
def bytes (text : String) : Bytes :=
  text.toUTF8.data.toList

/-- `'#'`, the separator inside a credential string. -/
def hashMark : UInt8 := 0x23

/-- `'\n'`. -/
def lineFeed : UInt8 := 0x0a

/-- `' '`. -/
def space : UInt8 := 0x20

/-- `'"'`. -/
def quotationMark : UInt8 := 0x22

/-- `','`. -/
def comma : UInt8 := 0x2c

/-- `'='`. -/
def equalsSign : UInt8 := 0x3d

/-- `'{'`. -/
def leftBrace : UInt8 := 0x7b

/-- `'}'`. -/
def rightBrace : UInt8 := 0x7d

/-- `'\\'`. -/
def backslash : UInt8 := 0x5c

/-- The conversion of a signed integer to `size_t`. -/
def toSizeT (n : ℤ) : ℕ := (n % 2 ^ 64).toNat

/-- `std::string::npos`. -/
def npos : ℕ := 2 ^ 64 - 1

/-- Why a call does not return. -/
inductive Failure where
  -- `std::out_of_range` is thrown.
  | outOfRange
  -- A loop goes on forever.
  | endless
deriving DecidableEq, Repr

/-- `s.substr(pos, n)`. -/
def substr (s : Bytes) (pos n : ℕ) : Except Failure Bytes :=
  if s.length < pos then .error .outOfRange else .ok ((s.drop pos).take n)

/-- `s.find_first_of(set, pos)`. -/
def findFirstOf (s set : Bytes) (pos : ℕ) : Option ℕ :=
  ((s.drop pos).findIdx? (· ∈ set)).map (pos + ·)

/-- `s.find_first_not_of(set, pos)`. -/
def findFirstNotOf (s set : Bytes) (pos : ℕ) : Option ℕ :=
  ((s.drop pos).findIdx? (· ∉ set)).map (pos + ·)

/-- `s.substr(0, n)`, where `none` stands for `npos`. -/
def takeTo (s : Bytes) : Option ℕ → Bytes
  | none => s
  | some n => s.take n

/-- `s.find(pattern, pos)`. -/
def find (s pattern : Bytes) (pos : ℕ) : Option ℕ :=
  if s.length < pos then none
  else ((s.drop pos).tails.findIdx? (pattern.isPrefixOf ·)).map (pos + ·)

theorem substr_of_le {s : Bytes} {pos : ℕ} (hpos : pos ≤ s.length) (n : ℕ) :
    substr s pos n = .ok ((s.drop pos).take n) := by
  rw [substr, if_neg (Nat.not_lt.mpr hpos)]

theorem findFirstOf_bounds {s set : Bytes} {pos p : ℕ} (hfind : findFirstOf s set pos = some p) :
    pos ≤ p ∧ p < s.length := by
  obtain ⟨i, hi, rfl⟩ := Option.map_eq_some_iff.mp hfind
  have hlt := (List.findIdx?_eq_some_iff_getElem.mp hi).1
  rw [List.length_drop] at hlt
  omega

/-- The first separator is no later than any other. -/
theorem eq_or_exists_of_append_cons_eq {c : UInt8} {first rest before after : Bytes}
    (hfirst : c ∉ first) (heq : first ++ c :: rest = before ++ c :: after) :
    after = rest ∨ ∃ more, rest = more ++ c :: after := by
  rcases List.append_eq_append_iff.mp heq with ⟨more, -, hmore⟩ | ⟨more, rfl, hmore⟩
  · cases more with
    | nil => exact Or.inl (List.cons.inj hmore).2.symm
    | cons d more => exact Or.inr ⟨more, (List.cons.inj hmore).2⟩
  · cases more with
    | nil => exact Or.inl (List.cons.inj hmore).2
    | cons d more =>
        obtain ⟨rfl, -⟩ := List.cons.inj hmore
        exact absurd (by simp) hfirst

/-- A text satisfies `p` everywhere, or there is a first place where it does not. -/
theorem all_or_exists_first (p : UInt8 → Bool) (text : Bytes) :
    (∀ c ∈ text, p c = true) ∨
      ∃ skipped first rest, text = skipped ++ first :: rest ∧ (∀ c ∈ skipped, p c = true) ∧
        p first = false := by
  induction text with
  | nil => simp
  | cons c text ih =>
      cases hc : p c with
      | false => exact Or.inr ⟨[], c, text, rfl, by simp, hc⟩
      | true =>
          rcases ih with hall | ⟨skipped, first, rest, rfl, hskipped, hfirst⟩
          · exact Or.inl (by simpa [hc] using hall)
          · exact Or.inr ⟨c :: skipped, first, rest, rfl, by simpa [hc] using hskipped, hfirst⟩

section

variable {s set skipped rest : Bytes} {c : UInt8} {pos : ℕ}

theorem findIdx?_append_cons {p : UInt8 → Bool} (hskipped : ∀ x ∈ skipped, p x = false)
    (hc : p c = true) : (skipped ++ c :: rest).findIdx? p = some skipped.length := by
  have hnone : skipped.findIdx? p = none := List.findIdx?_eq_none_iff.mpr hskipped
  simp [List.findIdx?_append, hnone, List.findIdx?_cons, hc]

theorem findFirstOf_eq_none (hnone : ∀ x ∈ s.drop pos, x ∉ set) : findFirstOf s set pos = none := by
  rw [findFirstOf, List.findIdx?_eq_none_iff.mpr (by simpa using hnone), Option.map_none]

theorem findFirstOf_eq_some (hsplit : s.drop pos = skipped ++ c :: rest)
    (hskipped : ∀ x ∈ skipped, x ∉ set) (hc : c ∈ set) :
    findFirstOf s set pos = some (pos + skipped.length) := by
  rw [findFirstOf, hsplit, findIdx?_append_cons (by simpa using hskipped) (by simpa using hc),
    Option.map_some]

/-- The search for one character. -/
theorem findFirstOf_char_eq_none (hnone : c ∉ s.drop pos) : findFirstOf s [c] pos = none := by
  refine findFirstOf_eq_none fun x hx => ?_
  rw [List.mem_singleton]
  exact fun heq => hnone (heq ▸ hx)

theorem findFirstOf_char_eq_some (hsplit : s.drop pos = skipped ++ c :: rest)
    (hskipped : c ∉ skipped) : findFirstOf s [c] pos = some (pos + skipped.length) := by
  refine findFirstOf_eq_some hsplit (fun x hx => ?_) (List.mem_singleton_self c)
  rw [List.mem_singleton]
  exact fun heq => hskipped (heq ▸ hx)

theorem findFirstNotOf_eq_none (hall : ∀ x ∈ s.drop pos, x ∈ set) :
    findFirstNotOf s set pos = none := by
  rw [findFirstNotOf, List.findIdx?_eq_none_iff.mpr (by simpa using hall), Option.map_none]

theorem findFirstNotOf_eq_some (hsplit : s.drop pos = skipped ++ c :: rest)
    (hskipped : ∀ x ∈ skipped, x ∈ set) (hc : c ∉ set) :
    findFirstNotOf s set pos = some (pos + skipped.length) := by
  rw [findFirstNotOf, hsplit, findIdx?_append_cons (by simpa using hskipped) (by simpa using hc),
    Option.map_some]

theorem findFirstNotOf_isSome_iff :
    (findFirstNotOf s set pos).isSome ↔ ∃ x ∈ s.drop pos, x ∉ set := by
  simp [findFirstNotOf, List.any_eq_true]

end

/-- A number in memory, in `n` bytes. -/
def littleEndian : ℕ → ℕ → Bytes
  | 0, _ => []
  | n + 1, x => UInt8.ofNat x :: littleEndian n (x / 256)

theorem length_littleEndian (n x : ℕ) : (littleEndian n x).length = n := by
  induction n generalizing x with
  | zero => rfl
  | succ n ih => rw [littleEndian, List.length_cons, ih]

/-- A number that has room is known by its bytes. -/
theorem littleEndian_inj {n x y : ℕ} (hx : x < 256 ^ n) (hy : y < 256 ^ n)
    (heq : littleEndian n x = littleEndian n y) : x = y := by
  induction n generalizing x y with
  | zero =>
      rw [Nat.pow_zero] at hx hy
      omega
  | succ n ih =>
      rw [Nat.pow_succ] at hx hy
      obtain ⟨hlow, hhigh⟩ := List.cons.inj heq
      have hmod : x % 256 = y % 256 := congrArg UInt8.toNat hlow
      rw [Nat.mul_comm] at hx hy
      have hdiv : x / 256 = y / 256 :=
        ih (Nat.div_lt_of_lt_mul hx) (Nat.div_lt_of_lt_mul hy) hhigh
      omega

theorem littleEndian_append (m n x : ℕ) :
    littleEndian (m + n) x = littleEndian m x ++ littleEndian n (x / 256 ^ m) := by
  induction m generalizing x with
  | zero => rw [Nat.zero_add, Nat.pow_zero, Nat.div_one]; rfl
  | succ m ih =>
      rw [Nat.add_right_comm, littleEndian, littleEndian, ih, List.cons_append,
        Nat.div_div_eq_div_mul, Nat.pow_succ']

/-- Only the part of a number that has room counts. -/
theorem littleEndian_mod (n x : ℕ) : littleEndian n (x % 256 ^ n) = littleEndian n x := by
  induction n generalizing x with
  | zero => rfl
  | succ n ih =>
      have hlow : UInt8.ofNat (x % 256 ^ (n + 1)) = UInt8.ofNat x := by
        apply UInt8.toNat_inj.mp
        show x % 256 ^ (n + 1) % 256 = x % 256
        exact Nat.mod_mod_of_dvd x ⟨256 ^ n, Nat.pow_succ'⟩
      have hhigh : x % 256 ^ (n + 1) / 256 = x / 256 % 256 ^ n := by
        rw [Nat.pow_succ', Nat.mod_mul_right_div_self]
      rw [littleEndian, littleEndian, hlow, hhigh, ih]

/-- `memcpy(&buffer[index], input, input.length)`. -/
def store (buffer : Bytes) (index : ℕ) (input : Bytes) : Bytes :=
  buffer.take index ++ input ++ buffer.drop (index + input.length)

end BbMonitor
