import Mathlib.Data.List.Induction

/-!
# Folding over blocks

A list is taken in element by element and worked off in blocks of `n`: the elements wait in
a buffer until it is full (`absorbOne`).  Since this is a fold, it does not matter in which
pieces the list comes (`absorb_append`).

A program takes in more at a time.  What it does with a piece is told by two rules, one for
a piece that does not fill the buffer (`absorb_of_lt`) and one for a piece that fills it
(`absorb_of_eq`); a list that is made of whole blocks is a fold over them
(`absorb_flatten`).
-/

namespace BbMonitor.Absorb

variable {σ α : Type*} (n : ℕ) (compress : σ → List α → σ)

/-- One more element: a full block is worked off. -/
def absorbOne (acc : σ × List α) (a : α) : σ × List α :=
  if acc.2.length + 1 = n then (compress acc.1 (acc.2 ++ [a]), []) else (acc.1, acc.2 ++ [a])

/-- The state and what waits for a full block. -/
def absorb (acc : σ × List α) (l : List α) : σ × List α :=
  l.foldl (absorbOne n compress) acc

variable {n : ℕ} {compress : σ → List α → σ}

theorem absorb_append (acc : σ × List α) (first rest : List α) :
    absorb n compress acc (first ++ rest) =
      absorb n compress (absorb n compress acc first) rest :=
  List.foldl_append

/-- A piece that does not fill the buffer waits there. -/
theorem absorb_of_lt (s : σ) {buffer l : List α} (hroom : buffer.length + l.length < n) :
    absorb n compress (s, buffer) l = (s, buffer ++ l) := by
  induction l generalizing buffer with
  | nil => rw [List.append_nil]; rfl
  | cons a l ih =>
      rw [List.length_cons] at hroom
      have hone : absorbOne n compress (s, buffer) a = (s, buffer ++ [a]) := by
        rw [absorbOne, if_neg (by dsimp only; omega)]
      have hrest : (buffer ++ [a]).length + l.length < n := by
        rw [List.length_append, List.length_singleton]
        omega
      calc absorb n compress (s, buffer) (a :: l)
          = absorb n compress (s, buffer ++ [a]) l := by rw [absorb, List.foldl_cons, hone]; rfl
        _ = (s, buffer ++ (a :: l)) := by rw [ih hrest, List.append_assoc, List.singleton_append]

/-- A piece that fills the buffer makes a block with what waits there. -/
theorem absorb_of_eq (s : σ) {buffer l : List α} (hne : l ≠ [])
    (hfull : buffer.length + l.length = n) :
    absorb n compress (s, buffer) l = (compress s (buffer ++ l), []) := by
  obtain ⟨l, a, rfl⟩ : ∃ first last, l = first ++ [last] :=
    ⟨l.dropLast, l.getLast hne, (List.dropLast_concat_getLast hne).symm⟩
  rw [List.length_append, List.length_singleton] at hfull
  have hlast : absorbOne n compress (s, buffer ++ l) a =
      (compress s (buffer ++ l ++ [a]), []) := by
    rw [absorbOne, if_pos (by dsimp only; rw [List.length_append]; omega)]
  rw [absorb_append, absorb_of_lt s (by omega), ← List.append_assoc]
  exact hlast

/-- One block, from an empty buffer. -/
theorem absorb_block (hn : 0 < n) (s : σ) {block : List α} (hblock : block.length = n) :
    absorb n compress (s, []) block = (compress s block, []) :=
  absorb_of_eq s (List.ne_nil_of_length_pos (by omega)) (by rw [List.length_nil]; omega)

/-- A list that is made of whole blocks. -/
theorem absorb_flatten (hn : 0 < n) (s : σ) {blocks : List (List α)}
    (hblocks : ∀ b ∈ blocks, b.length = n) :
    absorb n compress (s, []) blocks.flatten = (blocks.foldl compress s, []) := by
  induction blocks generalizing s with
  | nil => rfl
  | cons b blocks ih =>
      obtain ⟨hb, hblocks⟩ := List.forall_mem_cons.mp hblocks
      rw [List.flatten_cons, absorb_append, absorb_block hn s hb, ih _ hblocks, List.foldl_cons]

/-- How much waits depends on the length only. -/
theorem length_absorb_snd (hn : 0 < n) (s : σ) (l : List α) :
    (absorb n compress (s, []) l).2.length = l.length % n := by
  induction l using List.reverseRecOn with
  | nil => exact (Nat.zero_mod n).symm
  | append_singleton l a ih =>
      rw [absorb_append, List.length_append, List.length_singleton, Nat.add_mod, ← ih]
      have hlt : (absorb n compress (s, []) l).2.length < n := ih ▸ Nat.mod_lt _ hn
      generalize absorb n compress (s, []) l = acc at hlt ⊢
      show (absorbOne n compress acc a).2.length = _
      rw [absorbOne]
      split
      · next hfull =>
          rcases Nat.lt_or_ge 1 n with hone | hone
          · rw [Nat.mod_eq_of_lt hone, hfull, Nat.mod_self]
            rfl
          · obtain rfl : n = 1 := by omega
            rw [Nat.mod_one]
            rfl
      · next hroom =>
          have hmod : (acc.2.length + 1 % n) % n = acc.2.length + 1 := by
            rw [Nat.mod_eq_of_lt (by omega : 1 < n), Nat.mod_eq_of_lt (by omega)]
          rw [hmod, List.length_append, List.length_singleton]

/-! ## The blocks of a list -/

variable (n) in
/-- The first `count` blocks. -/
def blocksOf : ℕ → List α → List (List α)
  | 0, _ => []
  | count + 1, l => l.take n :: blocksOf count (l.drop n)

theorem length_of_mem_blocksOf {count : ℕ} {l : List α} (hlength : l.length = n * count) :
    ∀ b ∈ blocksOf n count l, b.length = n := by
  induction count generalizing l with
  | zero => exact List.forall_mem_nil _
  | succ count ih =>
      rw [Nat.mul_succ] at hlength
      rw [blocksOf, List.forall_mem_cons, List.length_take]
      exact ⟨by omega, ih (by rw [List.length_drop]; omega)⟩

theorem flatten_blocksOf {count : ℕ} {l : List α} (hlength : l.length = n * count) :
    (blocksOf n count l).flatten = l := by
  induction count generalizing l with
  | zero => exact (List.eq_nil_of_length_eq_zero (by rw [hlength, Nat.mul_zero])).symm
  | succ count ih =>
      rw [Nat.mul_succ] at hlength
      rw [blocksOf, List.flatten_cons, ih (by rw [List.length_drop]; omega),
        List.take_append_drop]

end BbMonitor.Absorb
