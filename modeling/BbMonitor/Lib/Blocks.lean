import Mathlib.Data.List.Basic

/-!
# Lists made of blocks

When two lists are put together block by block, and it is known how long the blocks
are, the lists are equal exactly when the blocks are.  For `filterMap` a block has at
most one element, and it is enough that one of the functions drops no more than the
other.

Where the lengths are not known, the blocks can be `Shifted`: the same elements, cut at
other places.
-/

namespace BbMonitor.Blocks

variable {α β : Type*} {xs : List α}

theorem flatMap_eq_iff {f g : α → List β} (hlength : ∀ x ∈ xs, (f x).length = (g x).length) :
    xs.flatMap f = xs.flatMap g ↔ ∀ x ∈ xs, f x = g x := by
  constructor
  · intro heq
    induction xs with
    | nil => simp
    | cons x rest ih =>
        rw [List.flatMap_cons, List.flatMap_cons] at heq
        obtain ⟨hx, hrest⟩ := List.append_inj heq (hlength x (List.mem_cons_self ..))
        rw [List.forall_mem_cons]
        exact ⟨hx, ih (fun y hy => hlength y (List.mem_cons_of_mem _ hy)) hrest⟩
  · exact List.flatMap_congr

theorem length_filterMap_le {f g : α → Option β}
    (hsome : ∀ x ∈ xs, (f x).isSome → (g x).isSome) :
    (xs.filterMap f).length ≤ (xs.filterMap g).length := by
  rw [List.length_filterMap_eq_countP, List.length_filterMap_eq_countP]
  exact List.countP_mono_left hsome

theorem filterMap_eq_iff {f g : α → Option β} (hsome : ∀ x ∈ xs, (f x).isSome → (g x).isSome) :
    xs.filterMap f = xs.filterMap g ↔ ∀ x ∈ xs, f x = g x := by
  constructor
  · intro heq
    induction xs with
    | nil => simp
    | cons x rest ih =>
        have hrest : ∀ y ∈ rest, (f y).isSome → (g y).isSome :=
          fun y hy => hsome y (List.mem_cons_of_mem _ hy)
        rw [List.forall_mem_cons]
        cases hf : f x with
        | none =>
            cases hg : g x with
            | none =>
                rw [List.filterMap_cons_none hf, List.filterMap_cons_none hg] at heq
                exact ⟨rfl, ih hrest heq⟩
            | some b =>
                -- `g` has kept one more than `f` ever will.
                rw [List.filterMap_cons_none hf, List.filterMap_cons_some hg] at heq
                have hle := length_filterMap_le hrest
                rw [heq, List.length_cons] at hle
                omega
        | some a =>
            have hx := hsome x (List.mem_cons_self ..)
            rw [hf, Option.isSome_some] at hx
            obtain ⟨b, hg⟩ := Option.isSome_iff_exists.mp (hx rfl)
            rw [List.filterMap_cons_some hf, List.filterMap_cons_some hg, List.cons.injEq] at heq
            exact ⟨by rw [hg, heq.1], ih hrest heq.2⟩
  · exact List.filterMap_congr

/-! ## Where the blocks end -/

/-- The same elements in the same order, but blocks of other lengths. -/
def Shifted (blocks blocks' : List (List α)) : Prop :=
  blocks.flatten = blocks'.flatten ∧ blocks.map List.length ≠ blocks'.map List.length

/-- Unless they are shifted, the blocks can be told from what they are put together to. -/
theorem not_shifted_iff {blocks blocks' : List (List α)} :
    ¬ Shifted blocks blocks' ↔ (blocks.flatten = blocks'.flatten → blocks = blocks') := by
  rw [Shifted, not_and, not_ne_iff]
  refine forall_congr' fun hflatten => ?_
  rw [List.eq_iff_flatten_eq, and_iff_right hflatten]

end BbMonitor.Blocks
