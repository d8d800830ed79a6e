import Mathlib.Data.List.Basic

/-!
# Names in DNS messages

A name is a sequence of labels, each behind its length, and ends with the empty label.  The
bits `11` in front of a length would make it a pointer to another place of the message;
`readName` reads the names that have none.  It stays inside the message: the encoded name
ends in its first `size` bytes (`readName_le`).
-/

namespace BbMonitor.DnsNames

/-- The text of a label and of the labels behind it. -/
def joinLabels (label rest : List UInt8) : List UInt8 :=
  if rest = [] then label else label ++ 0x2e :: rest

/-- The name at the cursor, and its encoded length. -/
def readLabels (message : ℕ → UInt8) (size : ℕ) : ℕ → ℕ → Option (List UInt8 × ℕ)
  | 0, _ => none
  | fuel + 1, cursor =>
      if cursor < size then
        let n := (message cursor).toNat
        if n = 0 then some ([], 1)
        else if 64 ≤ n then none
        else
          (readLabels message size fuel (cursor + 1 + n)).map fun rest =>
            (joinLabels ((List.range n).map fun i => message (cursor + 1 + i)) rest.1,
              1 + n + rest.2)
      else none

/-- No name has more labels than the message has bytes. -/
def readName (message : ℕ → UInt8) (size cursor : ℕ) : Option (List UInt8 × ℕ) :=
  readLabels message size (size + 1) cursor

variable {message : ℕ → UInt8} {size : ℕ}

theorem readLabels_le {fuel cursor : ℕ} {name : List UInt8} {len : ℕ}
    (hread : readLabels message size fuel cursor = some (name, len)) : cursor + len ≤ size := by
  induction fuel generalizing cursor name len with
  | zero => exact absurd hread.symm (Option.some_ne_none _)
  | succ fuel ih =>
      rw [readLabels] at hread
      by_cases hcursor : cursor < size
      · rw [if_pos hcursor] at hread
        dsimp only at hread
        split at hread
        · obtain ⟨-, rfl⟩ := Prod.mk.inj (Option.some.inj hread)
          exact hcursor
        · split at hread
          · exact absurd hread.symm (Option.some_ne_none _)
          · obtain ⟨rest, hrest, heq⟩ := Option.map_eq_some_iff.mp hread
            obtain ⟨-, rfl⟩ := Prod.mk.inj heq
            have hle := ih hrest
            omega
      · rw [if_neg hcursor] at hread
        exact absurd hread.symm (Option.some_ne_none _)

theorem readName_le {cursor : ℕ} {name : List UInt8} {len : ℕ}
    (hread : readName message size cursor = some (name, len)) : cursor + len ≤ size :=
  readLabels_le hread

end BbMonitor.DnsNames
