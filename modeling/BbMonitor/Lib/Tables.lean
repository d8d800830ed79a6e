import Mathlib.Data.List.Basic
import Mathlib.Data.List.Nodup
import Mathlib.Order.Lattice

/-!
# Tables with a primary key

A table is a list of rows no two of which have the same key; that is a field of the
structure, so an `INSERT` that would break it has no result.  An `UPDATE` that leaves
the keys alone keeps them distinct.

`leftJoin` is `LEFT JOIN` on any condition: one row for each match, or one with `none`
where there is no match.  On the key of the other table it gives exactly one row for
each row of the first (`leftJoin_key`).  `greatest` is `GREATEST`, which passes over
nulls.

Two relations say how a table changes.  It *keeps* a part of its rows when each key still
has a row with that part; it is *stamped from* a time when each key has the row that it
had, or one that bears this time or a later one.
-/

namespace BbMonitor

variable {ρ κ : Type*}

structure Table (key : ρ → κ) where
  rows : List ρ
  nodup_keys : (rows.map key).Nodup

namespace Table

variable {key : ρ → κ}

def empty (key : ρ → κ) : Table key := ⟨[], List.nodup_nil⟩

variable [DecidableEq κ]

/-- The row of a key. -/
def find? (t : Table key) (k : κ) : Option ρ :=
  t.rows.find? fun r => key r = k

/-- `INSERT`, or the violation of the primary key. -/
def insert (t : Table key) (r : ρ) : Option (Table key) :=
  if hfresh : key r ∉ t.rows.map key then
    some ⟨t.rows ++ [r], by
      rw [List.map_append, List.nodup_append]
      refine ⟨t.nodup_keys, List.nodup_singleton _, ?_⟩
      rintro a ha b hb rfl
      rw [List.map_singleton, List.mem_singleton] at hb
      exact hfresh (hb ▸ ha)⟩
  else none

/-- `UPDATE … SET … WHERE p`, where `set` leaves the key as it is. -/
def update (t : Table key) (p : ρ → Bool) (set : ρ → ρ) (hset : ∀ r, key (set r) = key r) :
    Table key where
  rows := t.rows.map fun r => if p r then set r else r
  nodup_keys := by
    have hkeys : (t.rows.map fun r => if p r then set r else r).map key = t.rows.map key := by
      rw [List.map_map]
      apply List.map_congr_left
      intro r _
      by_cases hp : p r = true
      · simp only [Function.comp_apply, hp, if_true, hset]
      · simp only [Function.comp_apply, hp, Bool.false_eq_true, if_false]
    rw [hkeys]
    exact t.nodup_keys

theorem find?_eq_some {t : Table key} {k : κ} {r : ρ} :
    t.find? k = some r ↔ r ∈ t.rows ∧ key r = k := by
  constructor
  · intro hfind
    exact ⟨List.mem_of_find?_eq_some hfind, by simpa using List.find?_some hfind⟩
  · rintro ⟨hmem, rfl⟩
    cases hfind : t.find? (key r) with
    | none => simpa using List.find?_eq_none.mp hfind r hmem
    | some r' =>
        have hmem' : r' ∈ t.rows := List.mem_of_find?_eq_some hfind
        have hkey : key r' = key r := by simpa using List.find?_some hfind
        rw [List.inj_on_of_nodup_map t.nodup_keys hmem' hmem hkey]

theorem find?_eq_none {t : Table key} {k : κ} :
    t.find? k = none ↔ ∀ r ∈ t.rows, key r ≠ k := by
  simp [find?, List.find?_eq_none]

theorem insert_eq_some {t t' : Table key} {r : ρ} :
    t.insert r = some t' ↔ (∀ r' ∈ t.rows, key r' ≠ key r) ∧ t'.rows = t.rows ++ [r] := by
  have hfresh : key r ∉ t.rows.map key ↔ ∀ r' ∈ t.rows, key r' ≠ key r := by
    simp only [List.mem_map, not_exists, not_and]
  rw [← hfresh]
  unfold insert
  by_cases h : key r ∉ t.rows.map key
  · rw [dif_pos h, Option.some_inj]
    constructor
    · rintro rfl
      exact ⟨h, rfl⟩
    · rintro ⟨-, hrows⟩
      obtain ⟨rows, hnodup⟩ := t'
      cases hrows
      rfl
  · rw [dif_neg h]
    constructor
    · intro hnone
      cases hnone
    · rintro ⟨hkey, -⟩
      exact absurd hkey h

theorem find?_update (t : Table key) (p : ρ → Bool) (set : ρ → ρ)
    (hset : ∀ r, key (set r) = key r) (k : κ) :
    (t.update p set hset).find? k = (t.find? k).map fun r => if p r then set r else r := by
  have hkey : ∀ r, key (if p r then set r else r) = key r := by
    intro r
    split
    · exact hset r
    · rfl
  cases hfind : t.find? k with
  | some r =>
      obtain ⟨hmem, hr⟩ := find?_eq_some.mp hfind
      exact find?_eq_some.mpr ⟨List.mem_map.mpr ⟨r, hmem, rfl⟩, (hkey r).trans hr⟩
  | none =>
      refine find?_eq_none.mpr fun r hmem => ?_
      obtain ⟨old, hold, rfl⟩ := List.mem_map.mp hmem
      rw [hkey]
      exact find?_eq_none.mp hfind old hold

theorem find?_insert {t t' : Table key} {r : ρ} (hinsert : t.insert r = some t') (k : κ) :
    t'.find? k = if key r = k then some r else t.find? k := by
  obtain ⟨hfresh, hrows⟩ := insert_eq_some.mp hinsert
  rw [find?, hrows, List.find?_append, List.find?_singleton]
  by_cases hk : key r = k
  · have hnone : t.rows.find? (fun r' => key r' = k) = none := by
      rw [List.find?_eq_none]
      intro r' hmem
      simpa [← hk] using hfresh r' hmem
    rw [hnone, if_pos hk, if_pos (by simpa using hk), Option.none_or]
  · rw [if_neg hk, if_neg (by simpa using hk), Option.or_none]
    rfl

/-- The row that was inserted is the first with its key. -/
theorem find?_of_insert {t t' : Table key} {r : ρ} (hinsert : t.insert r = some t') :
    t.find? (key r) = none ∧ t'.find? (key r) = some r := by
  refine ⟨find?_eq_none.mpr (insert_eq_some.mp hinsert).1, ?_⟩
  rw [find?_insert hinsert, if_pos rfl]

/-- An insertion leaves the other rows alone. -/
theorem find?_insert_of_some {t t' : Table key} {r r' : ρ} {k : κ}
    (hinsert : t.insert r = some t') (hfind : t.find? k = some r') : t'.find? k = some r' := by
  rw [find?_insert hinsert, if_neg, hfind]
  rintro rfl
  rw [(find?_of_insert hinsert).1] at hfind
  cases hfind

/-- Three rows inserted one after the other: no key had a row before, and each has its own
afterwards. -/
theorem find?_of_insert_three {t t₁ t₂ t₃ : Table key} {a b c : ρ} (ha : t.insert a = some t₁)
    (hb : t₁.insert b = some t₂) (hc : t₂.insert c = some t₃) :
    ∀ r ∈ [a, b, c], t.find? (key r) = none ∧ t₃.find? (key r) = some r := by
  have hback : ∀ {t t' : Table key} {r : ρ} {k : κ}, t.insert r = some t' → t'.find? k = none →
      t.find? k = none := by
    intro t t' r k hinsert hnone
    cases hfind : t.find? k with
    | none => rfl
    | some r' =>
        rw [find?_insert_of_some hinsert hfind] at hnone
        cases hnone
  obtain ⟨hanone, hasome⟩ := find?_of_insert ha
  obtain ⟨hbnone, hbsome⟩ := find?_of_insert hb
  obtain ⟨hcnone, hcsome⟩ := find?_of_insert hc
  simp only [List.forall_mem_cons, List.not_mem_nil, false_implies, implies_true, and_true]
  exact ⟨⟨hanone, find?_insert_of_some hc (find?_insert_of_some hb hasome)⟩,
    ⟨hback ha hbnone, find?_insert_of_some hc hbsome⟩,
    ⟨hback ha (hback hb hcnone), hcsome⟩⟩

/-! ## How a table changes -/

section Changes

variable {β : Type*} {f : ρ → β} {t t' t'' : Table key}

/-- Every key has a row with the same part `f` as before. -/
def Keeps (f : ρ → β) (t t' : Table key) : Prop :=
  ∀ k r, t.find? k = some r → ∃ r', t'.find? k = some r' ∧ f r' = f r

theorem Keeps.refl (f : ρ → β) (t : Table key) : t.Keeps f t :=
  fun _ r hfind => ⟨r, hfind, rfl⟩

theorem Keeps.trans (hfirst : t.Keeps f t') (hsecond : t'.Keeps f t'') : t.Keeps f t'' := by
  intro k r hfind
  obtain ⟨r', hfind', hr'⟩ := hfirst k r hfind
  obtain ⟨r'', hfind'', hr''⟩ := hsecond k r' hfind'
  exact ⟨r'', hfind'', hr''.trans hr'⟩

theorem keeps_insert {new : ρ} (hinsert : t.insert new = some t') : t.Keeps f t' := by
  intro k r hfind
  exact ⟨r, find?_insert_of_some hinsert hfind, rfl⟩

theorem keeps_update {p : ρ → Bool} {set : ρ → ρ} (hset : ∀ r, key (set r) = key r)
    (hf : ∀ r, f (set r) = f r) : t.Keeps f (t.update p set hset) := by
  intro k r hfind
  rw [find?_update, hfind]
  refine ⟨if p r then set r else r, rfl, ?_⟩
  by_cases hp : p r = true
  · rw [if_pos hp, hf]
  · rw [if_neg hp]

variable {τ : Type*} [LE τ] {time : ρ → τ} {start : τ}

/-- Every key has the same row as before, or one with the time `start` or later. -/
def StampedFrom (time : ρ → τ) (start : τ) (t t' : Table key) : Prop :=
  ∀ k, t'.find? k = t.find? k ∨ ∃ r, t'.find? k = some r ∧ start ≤ time r

theorem StampedFrom.refl (time : ρ → τ) (start : τ) (t : Table key) :
    t.StampedFrom time start t :=
  fun _ => Or.inl rfl

theorem StampedFrom.trans (hfirst : t.StampedFrom time start t')
    (hsecond : t'.StampedFrom time start t'') : t.StampedFrom time start t'' := by
  intro k
  rcases hsecond k with hsame | hstamped
  · rw [hsame]
    exact hfirst k
  · exact Or.inr hstamped

theorem stampedFrom_insert {new : ρ} (hinsert : t.insert new = some t')
    (hnew : start ≤ time new) : t.StampedFrom time start t' := by
  intro k
  rw [find?_insert hinsert]
  by_cases hk : key new = k
  · exact Or.inr ⟨new, if_pos hk, hnew⟩
  · exact Or.inl (if_neg hk)

theorem stampedFrom_update {p : ρ → Bool} {set : ρ → ρ} (hset : ∀ r, key (set r) = key r)
    (hnew : ∀ r, start ≤ time (set r)) : t.StampedFrom time start (t.update p set hset) := by
  intro k
  rw [find?_update]
  cases hfind : t.find? k with
  | none => exact Or.inl rfl
  | some r =>
      by_cases hp : p r = true
      · exact Or.inr ⟨set r, by rw [Option.map_some, if_pos hp], hnew r⟩
      · exact Or.inl (by rw [Option.map_some, if_neg hp])

end Changes

end Table

/-! ## Joins -/

section Joins

variable {σ : Type*} [DecidableEq κ]

/-- `LEFT JOIN`. -/
def leftJoin (on : σ → ρ → Bool) (rows : List σ) (others : List ρ) : List (σ × Option ρ) :=
  rows.flatMap fun s =>
    match others.filter (on s) with
    | [] => [(s, none)]
    | matching => matching.map fun r => (s, some r)

/-- A row has at most one partner under a key. -/
theorem filter_key {key : ρ → κ} (t : Table key) (k : κ) :
    t.rows.filter (fun r => key r = k) = (t.find? k).toList := by
  obtain ⟨rows, hnodup⟩ := t
  unfold Table.find?
  induction rows with
  | nil => rfl
  | cons r rows ih =>
      rw [List.map_cons, List.nodup_cons] at hnodup
      by_cases hk : key r = k
      · have hnone : rows.filter (fun r' => key r' = k) = [] := by
          rw [List.filter_eq_nil_iff]
          intro r' hmem hr'
          refine hnodup.1 (List.mem_map.mpr ⟨r', hmem, ?_⟩)
          rw [hk]
          exact of_decide_eq_true hr'
        rw [List.filter_cons_of_pos (by simpa using hk), hnone,
          List.find?_cons_of_pos (by simpa using hk), Option.toList_some]
      · rw [List.filter_cons_of_neg (by simpa using hk), List.find?_cons_of_neg (by simpa using hk)]
        exact ih hnodup.2

/-- A join on a key pairs each row with what the other table has under it. -/
theorem leftJoin_key {key : ρ → κ} (foreign : σ → κ) (rows : List σ) (t : Table key) :
    leftJoin (fun s r => decide (key r = foreign s)) rows t.rows =
      rows.map fun s => (s, t.find? (foreign s)) := by
  rw [leftJoin, List.map_eq_flatMap]
  congr 1
  funext s
  rw [filter_key]
  cases t.find? (foreign s) with
  | none => rfl
  | some r => rfl

end Joins

/-! ## `GREATEST` -/

section Greatest

variable {β : Type*} [LinearOrder β]

/-- `GREATEST` of a value and of others that may be null. -/
def greatest (first : β) (others : List (Option β)) : β :=
  (others.filterMap id).foldl (· ⊔ ·) first

@[simp] theorem greatest_nil (first : β) : greatest first [] = first := rfl

@[simp] theorem greatest_none (first : β) (others : List (Option β)) :
    greatest first (none :: others) = greatest first others := rfl

@[simp] theorem greatest_some (first b : β) (others : List (Option β)) :
    greatest first (some b :: others) = greatest (first ⊔ b) others := rfl

theorem greatest_le_iff {first bound : β} {others : List (Option β)} :
    greatest first others ≤ bound ↔ first ≤ bound ∧ ∀ b, some b ∈ others → b ≤ bound := by
  induction others generalizing first with
  | nil => simp
  | cons other others ih =>
      cases other with
      | none => simp [ih]
      | some b => simp [ih, and_assoc]

theorem le_greatest (first : β) (others : List (Option β)) : first ≤ greatest first others :=
  (greatest_le_iff.mp le_rfl).1

theorem le_greatest_of_mem {first b : β} {others : List (Option β)} (hmem : some b ∈ others) :
    b ≤ greatest first others :=
  (greatest_le_iff.mp le_rfl).2 b hmem

end Greatest

end BbMonitor
