import Mathlib.Logic.Equiv.Basic

/-!
# Feistel networks

A round takes a pair of halves `(l, r)` to `(r, l ⊕ f r)`.  Whatever the round
function `f` is, a round can be undone, for `f r` is known from the new left half.
So a network is a permutation of the pairs, and running it backwards is its
inverse.

All that is needed of `⊕` is that mixing in the same half twice has no effect.
-/

namespace BbMonitor

variable {α : Type*}

/-- A way to mix one half into another that is undone by mixing it in again. -/
structure Mix (α : Type*) where
  mix : α → α → α
  mix_mix : ∀ l r, mix (mix l r) r = l

namespace Mix

/-- One round of a Feistel network. -/
def round (m : Mix α) (f : α → α) : Equiv.Perm (α × α) where
  toFun p := (p.2, m.mix p.1 (f p.2))
  invFun p := (m.mix p.2 (f p.1), p.1)
  left_inv p := by simp [m.mix_mix]
  right_inv p := by simp [m.mix_mix]

@[simp] theorem round_apply (m : Mix α) (f : α → α) (l r : α) :
    m.round f (l, r) = (r, m.mix l (f r)) := rfl

@[simp] theorem round_symm_apply (m : Mix α) (f : α → α) (l r : α) :
    (m.round f).symm (l, r) = (m.mix r (f l), l) := rfl

/-- So many rounds with the same round function. -/
def network (m : Mix α) (f : α → α) : ℕ → Equiv.Perm (α × α)
  | 0 => Equiv.refl _
  | n + 1 => (m.round f).trans (m.network f n)

@[simp] theorem network_zero (m : Mix α) (f : α → α) (p : α × α) : m.network f 0 p = p := rfl

@[simp] theorem network_succ (m : Mix α) (f : α → α) (n : ℕ) (p : α × α) :
    m.network f (n + 1) p = m.network f n (m.round f p) := rfl

/-- What the round function leaves alone changes sides with every round. -/
theorem network_three_marks {β : Type*} (m : Mix α) (f : α → α) (mark : α → β)
    (hmark : ∀ l r, mark (m.mix l (f r)) = mark l) (p : α × α) :
    mark (m.network f 3 p).1 = mark p.2 ∧ mark (m.network f 3 p).2 = mark p.1 := by
  obtain ⟨l, r⟩ := p
  simp [hmark]

end Mix

end BbMonitor
