import Mathlib.Data.List.Infix
import Mathlib.Data.List.TakeDrop

/-!
# The first occurrence of a pattern

A pattern is looked for from the front of a text.  A piece in which no occurrence begins is
skipped (`firstOccurrence_append`).  Whether one begins there is often seen from one entry of
the pattern that is rare in the text (`getElem?_of_prefix`), or from how the pattern differs
from what the text has in its place (`not_prefix_append`).
-/

namespace BbMonitor

variable {α : Type*} [BEq α] [LawfulBEq α] {pattern skipped rest known : List α}

/-- Where the pattern occurs first. -/
def firstOccurrence (pattern text : List α) : Option ℕ :=
  text.tails.findIdx? (pattern.isPrefixOf ·)

theorem firstOccurrence_of_prefix {text : List α} (hmatch : pattern <+: text) :
    firstOccurrence pattern text = some 0 := by
  have hhead : pattern.isPrefixOf text = true := List.isPrefixOf_iff_prefix.mpr hmatch
  cases text with
  | nil => simp [firstOccurrence, hhead]
  | cons c text =>
      rw [firstOccurrence, List.tails_cons, List.findIdx?_cons, if_pos hhead]

/-- A piece in which the pattern does not begin is skipped. -/
theorem firstOccurrence_append
    (hskipped : ∀ i < skipped.length, ¬ pattern <+: (skipped ++ rest).drop i) :
    firstOccurrence pattern (skipped ++ rest) =
      (firstOccurrence pattern rest).map (skipped.length + ·) := by
  induction skipped with
  | nil => simp
  | cons c skipped ih =>
      have hhead : ¬ pattern.isPrefixOf (c :: (skipped ++ rest)) = true := by
        rw [List.isPrefixOf_iff_prefix]
        exact hskipped 0 (Nat.succ_pos _)
      have htail : ∀ i < skipped.length, ¬ pattern <+: (skipped ++ rest).drop i :=
        fun i hi => hskipped (i + 1) (Nat.succ_lt_succ hi)
      have hstep : firstOccurrence pattern (c :: (skipped ++ rest)) =
          (firstOccurrence pattern (skipped ++ rest)).map (· + 1) := by
        rw [firstOccurrence, List.tails_cons, List.findIdx?_cons, if_neg hhead]
        rfl
      rw [List.cons_append, hstep, ih htail, Option.map_map]
      refine congrArg (Option.map · _) (funext fun i => ?_)
      show skipped.length + i + 1 = skipped.length + 1 + i
      omega

omit [BEq α] [LawfulBEq α] in
/-- An entry of the pattern is an entry of the text. -/
theorem getElem?_of_prefix {text : List α} {i k : ℕ} {c : α} (hmatch : pattern <+: text.drop i)
    (hc : pattern[k]? = some c) : text[i + k]? = some c := by
  obtain ⟨more, hmore⟩ := hmatch
  obtain ⟨hk, -⟩ := List.getElem?_eq_some_iff.mp hc
  rw [← List.getElem?_drop, ← hmore, List.getElem?_append_left hk, hc]

omit [BEq α] [LawfulBEq α] in
/-- What is known of the text rules the pattern out. -/
theorem not_prefix_append (hknown : ¬ pattern.take known.length <+: known) :
    ¬ pattern <+: known ++ rest := by
  intro hmatch
  refine hknown ?_
  have htake := hmatch.take known.length
  rwa [List.take_left] at htake

end BbMonitor
