/-!
# Computations with a trace

A computation that records each access it makes to something outside, such as the indices
at which it reads a buffer.  The recorded accesses are part of the result, so that a
statement about all of them is a statement about the computation: `Traced.All p x` says that
each access satisfies `p`, and is decided step by step (`Traced.all_bind`).
-/

namespace BbMonitor

universe u v

structure Traced (ι : Type u) (α : Type v) where
  trace : List ι
  value : α

namespace Traced

variable {ι : Type u} {α β : Type v}

instance : Monad (Traced ι) where
  pure a := ⟨[], a⟩
  bind x f := ⟨x.trace ++ (f x.value).trace, (f x.value).value⟩

/-- An access and what it gives. -/
def access (i : ι) (a : α) : Traced ι α := ⟨[i], a⟩

@[simp] theorem access_value (i : ι) (a : α) : (access i a).value = a := rfl

@[simp] theorem bind_value (x : Traced ι α) (f : α → Traced ι β) :
    (x >>= f).value = (f x.value).value := rfl

/-- Each access satisfies `p`. -/
def All (p : ι → Prop) (x : Traced ι α) : Prop := ∀ i ∈ x.trace, p i

instance {p : ι → Prop} [DecidablePred p] {x : Traced ι α} : Decidable (x.All p) :=
  inferInstanceAs (Decidable (∀ i ∈ x.trace, p i))

variable {p : ι → Prop}

@[simp] theorem all_pure (a : α) : (pure a : Traced ι α).All p :=
  fun _ hi => absurd hi List.not_mem_nil

@[simp] theorem all_access (i : ι) (a : α) : (access i a).All p ↔ p i :=
  List.forall_mem_singleton

@[simp] theorem all_bind (x : Traced ι α) (f : α → Traced ι β) :
    (x >>= f).All p ↔ x.All p ∧ (f x.value).All p :=
  List.forall_mem_append

end Traced

end BbMonitor
