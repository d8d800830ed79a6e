import Mathlib.Data.List.Count
import Mathlib.Data.List.Range
import Mathlib.Data.List.Nodup

/-!
# Lists by their positions

A list is what `getElem?` gives at the positions of `List.range`.  So a fold over the list is a
fold over its positions, and different positions hold an entry no more often than the
list does.
-/

namespace BbMonitor

variable {α β : Type*}

theorem map_getElem?_range (xs : List α) :
    (List.range xs.length).map (fun i => xs[i]?) = xs.map some := by
  refine List.ext_getElem? fun i => ?_
  rcases Nat.lt_or_ge i xs.length with hlt | hge
  · simp [hlt]
  · simp [hge]

/-- Different positions that hold a certain kind of entry. -/
theorem countP_positions_le (p : α → Bool) (xs : List α) {positions : List ℕ}
    (hnodup : positions.Nodup) :
    positions.countP (fun i => (xs[i]?).any p) ≤ xs.countP p := by
  have hxs : xs.countP p = (List.range xs.length).countP (fun i => (xs[i]?).any p) := by
    calc xs.countP p = (xs.map some).countP (Option.any p) := by
          rw [List.countP_map]
          rfl
      _ = (List.range xs.length).countP (fun i => (xs[i]?).any p) := by
          rw [← map_getElem?_range, List.countP_map]
          rfl
  rw [hxs, List.countP_eq_length_filter, List.countP_eq_length_filter]
  refine List.Subperm.length_le (List.subperm_of_subset (hnodup.filter _) ?_)
  intro i hmem
  obtain ⟨hi, hany⟩ := List.mem_filter.mp hmem
  refine List.mem_filter.mpr ⟨List.mem_range.mpr ?_, hany⟩
  by_contra hge
  rw [List.getElem?_eq_none (not_lt.mp hge)] at hany
  cases hany

end BbMonitor
