import BbMonitor.Lib.Positions
import Mathlib.Control.Monad.Basic

/-!
# Codecs

A decoder takes a value from the front of its input, or fails.  `Reads d written a` says that
it takes `a` from `written` whatever comes behind it; this is the form in which facts about
decoders compose.  A codec is an encoder with a decoder that reads what it writes.

A record is written field by field.  A reader may meet the fields in another order than the
one they are declared in, and some of them not at all; it sets those it meets and leaves the
others as they were (`RecordCodec.reads_decode`).
-/

namespace BbMonitor

/-- A decoder takes a value from the front of its input, or fails. -/
abbrev Decoder (ε α : Type) := StateT (List UInt8) (Except ε) α

variable {ε α β : Type}

/-- The decoder takes this value from what was written, and nothing more. -/
def Reads (d : Decoder ε α) (written : List UInt8) (a : α) : Prop :=
  ∀ rest, d.run (written ++ rest) = .ok (a, rest)

namespace Reads

theorem pure (a : α) : Reads (Pure.pure a : Decoder ε α) [] a :=
  fun _ => rfl

theorem bind {d : Decoder ε α} {f : α → Decoder ε β} {first second : List UInt8} {a : α} {b : β}
    (hd : Reads d first a) (hf : Reads (f a) second b) :
    Reads (d >>= f) (first ++ second) b := by
  intro rest
  rw [StateT.run_bind, List.append_assoc, hd (second ++ rest)]
  exact hf rest

theorem map {d : Decoder ε α} {written : List UInt8} {a : α} (hd : Reads d written a)
    (f : α → β) : Reads (f <$> d) written (f a) := by
  intro rest
  rw [StateT.run_map, hd rest]
  rfl

/-- One value after the other, with a state that is carried along. -/
theorem foldlM {σ : Type} {ι : Type*} {d : σ → ι → Decoder ε σ} {write : ι → List UInt8}
    {next : σ → ι → σ} (hstep : ∀ s i, Reads (d s i) (write i) (next s i)) (is : List ι) (s : σ) :
    Reads (is.foldlM d s) (is.flatMap write) (is.foldl next s) := by
  induction is generalizing s with
  | nil => exact Reads.pure s
  | cons i rest ih =>
      rw [List.foldlM_cons, List.flatMap_cons, List.foldl_cons]
      exact (hstep s i).bind (ih (next s i))

end Reads

/-! ## Codecs -/

structure Codec (ε α : Type) where
  encode : α → List UInt8
  decode : Decoder ε α
  reads : ∀ a, Reads decode (encode a) a

namespace Codec

/-- Values are written as other values. -/
def via (c : Codec ε β) (f : α → β) (g : β → α) (hretract : ∀ a, g (f a) = a) : Codec ε α where
  encode a := c.encode (f a)
  decode := g <$> c.decode
  reads a := by
    have hmap := (c.reads (f a)).map g
    rwa [hretract] at hmap

end Codec

/-! ## Records -/

/-- A field of a record. -/
structure Field (ε σ : Type) where
  {α : Type}
  get : σ → α
  set : α → σ → σ
  codec : Codec ε α

namespace Field

variable {σ : Type} (f : Field ε σ)

def encode (s : σ) : List UInt8 :=
  f.codec.encode (f.get s)

/-- The field is decoded into a record that is there already. -/
def decode (s : σ) : Decoder ε σ :=
  (fun a => f.set a s) <$> f.codec.decode

/-- The field as it is in another record. -/
def copy (source s : σ) : σ :=
  f.set (f.get source) s

theorem reads_decode (source s : σ) : Reads (f.decode s) (f.encode source) (f.copy source s) :=
  (f.codec.reads (f.get source)).map _

end Field

/-- The fields of a record are independent of each other, and there is nothing else in it. -/
structure RecordCodec (ε σ : Type) where
  fields : List (Field ε σ)
  get_copy : ∀ f ∈ fields, ∀ source s, f.get (f.copy source s) = f.get source
  independent : fields.Pairwise fun f g => ∀ source s,
    f.get (g.copy source s) = f.get s ∧ g.get (f.copy source s) = g.get s
  ext : ∀ s t, (∀ f ∈ fields, f.get s = f.get t) → s = t

namespace RecordCodec

variable {σ : Type} (r : RecordCodec ε σ)

def encode (s : σ) : List UInt8 :=
  r.fields.flatMap fun f => f.encode s

/-- One field, by its index; there is nothing to do for another index. -/
def decodeAt (s : σ) (i : ℕ) : Decoder ε σ :=
  match r.fields[i]? with
  | some f => f.decode s
  | none => pure s

/-- The fields in their order, or in the one that is given. -/
def decode (order : Option (List ℕ)) (s : σ) : Decoder ε σ :=
  match order with
  | some order => order.foldlM r.decodeAt s
  | none => r.fields.foldlM (fun s f => f.decode s) s

/-- What a field with this index is written as. -/
def encodeAt (s : σ) (i : ℕ) : List UInt8 :=
  match r.fields[i]? with
  | some f => f.encode s
  | none => []

/-- The encoding by a writer that has the fields in this order. -/
def encodeInOrder (order : Option (List ℕ)) (s : σ) : List UInt8 :=
  match order with
  | some order => order.flatMap (r.encodeAt s)
  | none => r.encode s

def copyAt (source s : σ) (i : ℕ) : σ :=
  (r.fields[i]?).elim s fun f => f.copy source s

theorem reads_decodeAt (source s : σ) (i : ℕ) :
    Reads (r.decodeAt s i) (r.encodeAt source i) (r.copyAt source s i) := by
  unfold decodeAt encodeAt copyAt
  cases r.fields[i]? with
  | none => exact Reads.pure s
  | some f => exact f.reads_decode source s

/-- A field after one of the fields was copied. -/
theorem get_copyAt {i : ℕ} {f : Field ε σ} (hf : r.fields[i]? = some f) (source s : σ) (j : ℕ) :
    f.get (r.copyAt source s j) = if j = i then f.get source else f.get s := by
  unfold copyAt
  by_cases hij : j = i
  · subst hij
    rw [hf, if_pos rfl]
    exact r.get_copy f (List.mem_of_getElem? hf) source s
  · rw [if_neg hij]
    cases hg : r.fields[j]? with
    | none => rfl
    | some g =>
        obtain ⟨hi, rfl⟩ := List.getElem?_eq_some_iff.mp hf
        obtain ⟨hj, rfl⟩ := List.getElem?_eq_some_iff.mp hg
        have hpairs := List.pairwise_iff_getElem.mp r.independent
        rcases Nat.lt_or_gt_of_ne hij with hlt | hgt
        · exact (hpairs j i hj hi hlt source s).2
        · exact (hpairs i j hi hj hgt source s).1

theorem get_foldl_copyAt {i : ℕ} {f : Field ε σ} (hf : r.fields[i]? = some f) (source s : σ)
    (order : List ℕ) :
    f.get (order.foldl (r.copyAt source) s) = if i ∈ order then f.get source else f.get s := by
  induction order generalizing s with
  | nil => rfl
  | cons j rest ih =>
      rw [List.foldl_cons, ih, r.get_copyAt hf]
      by_cases hrest : i ∈ rest
      · simp [hrest]
      · by_cases hij : j = i
        · simp [hij]
        · simp [hrest, hij, Ne.symm hij]

/-- The fields that are met are those of the writer, the others are as they were. -/
theorem reads_decode (order : List ℕ) (source s : σ) :
    ∃ t, Reads (r.decode (some order) s) (r.encodeInOrder (some order) source) t ∧
      ∀ i f, r.fields[i]? = some f →
        f.get t = if i ∈ order then f.get source else f.get s := by
  refine ⟨order.foldl (r.copyAt source) s, ?_, ?_⟩
  · exact Reads.foldlM (fun s i => r.reads_decodeAt source s i) order s
  · intro i f hf
    exact r.get_foldl_copyAt hf source s order

/-- A fold over the fields is one over all indices. -/
theorem foldl_copy_eq (source s : σ) :
    r.fields.foldl (fun s f => f.copy source s) s =
      (List.range r.fields.length).foldl (r.copyAt source) s := by
  calc r.fields.foldl (fun s f => f.copy source s) s
      = (r.fields.map some).foldl (fun s f => f.elim s fun f => f.copy source s) s := by
        rw [List.foldl_map]
        rfl
    _ = (List.range r.fields.length).foldl (r.copyAt source) s := by
        rw [← map_getElem?_range, List.foldl_map]
        rfl

theorem foldl_copyAt_eq {order : List ℕ} (hall : ∀ i < r.fields.length, i ∈ order)
    (source s : σ) : order.foldl (r.copyAt source) s = source := by
  refine r.ext _ _ fun f hmem => ?_
  obtain ⟨i, hi, rfl⟩ := List.getElem_of_mem hmem
  rw [r.get_foldl_copyAt (List.getElem?_eq_getElem hi), if_pos (hall i hi)]

/-- All fields are met. -/
def Covers (order : Option (List ℕ)) : Prop :=
  ∀ fo, order = some fo → ∀ i < r.fields.length, i ∈ fo

/-- A reader that meets all fields reads what was written, whatever the record was before. -/
theorem reads_of_covers {order : Option (List ℕ)} (hcovers : r.Covers order) (source s : σ) :
    Reads (r.decode order s) (r.encodeInOrder order source) source := by
  cases order with
  | none =>
      have hreads := Reads.foldlM (fun s f => Field.reads_decode f source s) r.fields s
      rw [foldl_copy_eq, r.foldl_copyAt_eq (fun i hi => List.mem_range.mpr hi)] at hreads
      exact hreads
  | some fo =>
      have hreads := Reads.foldlM (fun s i => r.reads_decodeAt source s i) fo s
      rw [r.foldl_copyAt_eq (hcovers fo rfl)] at hreads
      exact hreads

/-- The codec of a record whose reader starts from a fresh one. -/
def codec (order : Option (List ℕ)) (hcovers : r.Covers order) (fresh : σ) : Codec ε σ where
  encode := r.encodeInOrder order
  decode := r.decode order fresh
  reads source := r.reads_of_covers hcovers source fresh

end RecordCodec

end BbMonitor
