import Mathlib.Data.List.Forall2

/-!
# Results with numbers

A loop that appends one result for each element that has something to say, and gives
`f` the number of results that are there already, as for one that reads a clock
whenever it makes a result.  What comes out is a `mapIdx`.
-/

namespace BbMonitor.Numbered

universe u v

variable {α β : Type*} {γ : Type u} {xs : List α}

/-- The loop in a monad, where no round for one of the elements fails. -/
theorem foldlM_eq_mapIdx {m : Type u → Type v} [Monad m] [LawfulMonad m]
    {step : List γ → α → m (List γ)} (key? : α → Option β) (f : ℕ → β → γ)
    (hstep : ∀ x ∈ xs, ∀ ys, step ys x = pure (ys ++ ((key? x).map (f ys.length)).toList))
    (ys : List γ) :
    xs.foldlM step ys =
      pure (ys ++ (xs.filterMap key?).mapIdx fun i a => f (ys.length + i) a) := by
  induction xs generalizing ys with
  | nil => rw [List.foldlM_nil, List.filterMap_nil, List.mapIdx_nil, List.append_nil]
  | cons x rest ih =>
      obtain ⟨hx, hrest⟩ := List.forall_mem_cons.mp hstep
      rw [List.foldlM_cons, hx, pure_bind, ih hrest]
      cases hkey : key? x with
      | none =>
          rw [List.filterMap_cons_none hkey, Option.map_none, Option.toList_none, List.append_nil]
      | some a =>
          simp only [List.filterMap_cons_some hkey, List.mapIdx_cons, Option.map_some,
            Option.toList_some, List.length_append, List.length_singleton, List.append_assoc,
            List.singleton_append, Nat.add_zero, Nat.add_assoc, Nat.add_comm 1]

theorem foldl_eq_mapIdx {step : List γ → α → List γ} (key? : α → Option β) (f : ℕ → β → γ)
    (hstep : ∀ x ∈ xs, ∀ ys, step ys x = ys ++ ((key? x).map (f ys.length)).toList)
    (ys : List γ) :
    xs.foldl step ys = ys ++ (xs.filterMap key?).mapIdx fun i a => f (ys.length + i) a := by
  rw [List.foldl_eq_foldlM]
  exact foldlM_eq_mapIdx key? f hstep ys

/-- Elements that are related one by one and give the same results. -/
theorem mapIdx_eq_mapIdx {R : α → β → Prop} {f : ℕ → α → γ} {g : ℕ → β → γ} {ys : List β}
    (hrelated : List.Forall₂ R xs ys) (hfg : ∀ i a b, R a b → f i a = g i b) :
    xs.mapIdx f = ys.mapIdx g := by
  induction hrelated generalizing f g with
  | nil => rfl
  | cons hfirst _ ih =>
      rw [List.mapIdx_cons, List.mapIdx_cons, hfg 0 _ _ hfirst, ih fun i => hfg (i + 1)]

/-- A relation between the elements and their results, read number by number. -/
theorem forall₂_mapIdx_iff {R : α → β → Prop} {f : ℕ → α → β} :
    List.Forall₂ R xs (xs.mapIdx f) ↔ ∀ i (hi : i < xs.length), R xs[i] (f i xs[i]) := by
  rw [List.forall₂_iff_get]
  constructor
  · rintro ⟨-, hall⟩ i hi
    have hi' : i < (xs.mapIdx f).length := by rwa [List.length_mapIdx]
    have hrelated := hall i hi hi'
    rwa [List.get_eq_getElem, List.get_eq_getElem, List.getElem_mapIdx] at hrelated
  · intro hall
    refine ⟨List.length_mapIdx.symm, fun i hi _ => ?_⟩
    rw [List.get_eq_getElem, List.get_eq_getElem, List.getElem_mapIdx]
    exact hall i hi

end BbMonitor.Numbered
