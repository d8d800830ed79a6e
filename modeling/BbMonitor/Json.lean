import Mathlib.Data.List.TakeWhile
import BbMonitor.Lib.Framing
import BbMonitor.Messages

/-!
# JSON documents

The values that rapidjson makes of a text.  An object keeps its members in the order of
the text; a name may come up twice, and is then looked up at its first place.

A number without a fraction and an exponent is kept as an integer if 64 bits can hold
it, with or without a sign; all other numbers become doubles.

`GetString` returns a pointer to characters.  Where they are read up to the first NUL, as
a `std::string` does that is made of the pointer, the rest of the string is lost
(`cString`).
-/

namespace BbMonitor

/-- What is read of a string up to its first NUL. -/
def cString (s : Bytes) : Bytes := s.takeWhile (· ≠ 0)

namespace Json

/-- An integer that rapidjson keeps as one. -/
structure Integer where
  val : ℤ
  range : -2 ^ 63 ≤ val ∧ val < 2 ^ 64

inductive Value where
  | null
  | bool (b : Bool)
  | integer (n : Integer)
  | double (x : Double)
  | string (s : Bytes)
  | array (elements : List Value)
  | object (members : List (Bytes × Value))

/-- The members of an object. -/
abbrev Members := List (Bytes × Value)

namespace Value

/-- `IsString`, with the string. -/
def string? : Value → Option Bytes
  | .string s => some s
  | _ => none

/-- `IsInt`, with the integer. -/
def int? : Value → Option ℤ
  | .integer n => if -2 ^ 31 ≤ n.val ∧ n.val < 2 ^ 31 then some n.val else none
  | _ => none

/-- `IsInt64`, with the integer. -/
def int64? : Value → Option ℤ
  | .integer n => if -2 ^ 63 ≤ n.val ∧ n.val < 2 ^ 63 then some n.val else none
  | _ => none

/-- The integer, of whatever size. -/
def integer? : Value → Option ℤ
  | .integer n => some n.val
  | _ => none

/-- `IsArray`, with the elements. -/
def array? : Value → Option (List Value)
  | .array elements => some elements
  | _ => none

/-- `IsObject`, with the members. -/
def object? : Value → Option Members
  | .object members => some members
  | _ => none

end Value

/-- `HasMember` and `operator[]`. -/
def findMember (members : Members) (name : String) : Option Value :=
  members.lookup (bytes name)

/-- `HasMember`, `operator[]` and `IsString`, with the string. -/
def findString (members : Members) (name : String) : Option Bytes :=
  (findMember members name).bind Value.string?

def findInt (members : Members) (name : String) : Option ℤ :=
  (findMember members name).bind Value.int?

def findArray (members : Members) (name : String) : Option (List Value) :=
  (findMember members name).bind Value.array?

def findObject (members : Members) (name : String) : Option Members :=
  (findMember members name).bind Value.object?

/-- The member is an integer, of whatever size. -/
def findInteger (members : Members) (name : String) : Option ℤ :=
  (findMember members name).bind Value.integer?

/-! ## Integers -/

variable {v : Value} {n : ℤ}

theorem int?_eq_some_iff :
    v.int? = some n ↔ v.integer? = some n ∧ -2 ^ 31 ≤ n ∧ n < 2 ^ 31 := by
  cases v with
  | integer k =>
      simp only [Value.int?, Value.integer?, Option.ite_none_right_eq_some, Option.some.injEq]
      constructor
      · rintro ⟨hrange, rfl⟩
        exact ⟨rfl, hrange⟩
      · rintro ⟨rfl, hrange⟩
        exact ⟨hrange, rfl⟩
  | _ => simp [Value.int?, Value.integer?]

theorem int64?_eq_some_iff :
    v.int64? = some n ↔ v.integer? = some n ∧ n < 2 ^ 63 := by
  cases v with
  | integer k =>
      simp only [Value.int64?, Value.integer?, Option.ite_none_right_eq_some, Option.some.injEq]
      constructor
      · rintro ⟨hrange, rfl⟩
        exact ⟨rfl, hrange.2⟩
      · rintro ⟨rfl, hrange⟩
        exact ⟨⟨k.range.1, hrange⟩, rfl⟩
  | _ => simp [Value.int64?, Value.integer?]

theorem findInt_eq_some_iff {members : Members} {name : String} :
    findInt members name = some n ↔
      findInteger members name = some n ∧ -2 ^ 31 ≤ n ∧ n < 2 ^ 31 := by
  simp only [findInt, findInteger, Option.bind_eq_some_iff, int?_eq_some_iff]
  constructor
  · rintro ⟨v, hfind, hv, hrange⟩
    exact ⟨⟨v, hfind, hv⟩, hrange⟩
  · rintro ⟨⟨v, hfind, hv⟩, hrange⟩
    exact ⟨v, hfind, hv, hrange⟩

end Json

/-! ## Strings without NUL -/

variable {s : Bytes}

theorem zero_notMem_cString (s : Bytes) : 0 ∉ cString s := by
  intro hmem
  exact absurd (List.mem_takeWhile_imp hmem) (by decide)

theorem cString_eq_self (hnul : 0 ∉ s) : cString s = s := by
  refine List.takeWhile_eq_self_iff.mpr fun c hc => decide_eq_true ?_
  rintro rfl
  exact hnul hc

theorem cString_eq_self_iff : cString s = s ↔ 0 ∉ s :=
  ⟨fun heq => heq ▸ zero_notMem_cString s, cString_eq_self⟩

/-- Behind what is read comes the NUL. -/
theorem exists_eq_cString_append (hmem : 0 ∈ s) : ∃ rest, s = cString s ++ 0 :: rest := by
  obtain ⟨before, after, rfl, hbefore⟩ := List.eq_append_cons_of_mem hmem
  have hkeep : ∀ c ∈ before, decide (c ≠ 0) = true :=
    fun c hc => decide_eq_true fun hzero => hbefore (hzero ▸ hc)
  refine ⟨after, ?_⟩
  rw [cString, List.takeWhile_append_of_pos hkeep]
  simp

end BbMonitor
