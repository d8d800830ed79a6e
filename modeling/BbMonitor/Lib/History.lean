import Mathlib.Data.List.Basic

/-!
# Histories of keyed records

A history is a list of records, oldest first.  Two things are read off it: the
last record that satisfies a predicate (`lastWhere`), and the subsequence of the
records with a given key, the *stream* of that key.  Two histories with the same
streams (`SameStreams`) are two interleavings of one family of sequences, as
when the streams come from different partitions of a log.

A predicate that pins the key cannot tell two interleavings apart
(`SameStreams.lastWhere_eq`).  One that does not can: `moveToEnd` delays a whole
stream, so that its records become the last ones (`lastWhere_moveToEnd`).
-/

namespace BbMonitor.History

variable {ρ κ : Type*}

/-! ## The last record with a property -/

/-- The last record of the history that satisfies `p`. -/
def lastWhere (p : ρ → Bool) (records : List ρ) : Option ρ :=
  (records.filter p).getLast?

@[simp] theorem lastWhere_nil (p : ρ → Bool) : lastWhere p [] = none := rfl

theorem lastWhere_concat (p : ρ → Bool) (records : List ρ) (r : ρ) :
    lastWhere p (records ++ [r]) = if p r then some r else lastWhere p records := by
  by_cases hp : p r <;> simp [lastWhere, hp]

theorem mem_of_lastWhere {p : ρ → Bool} {records : List ρ} {r : ρ}
    (hlast : lastWhere p records = some r) : r ∈ records ∧ p r = true :=
  List.mem_filter.mp (List.mem_of_getLast? hlast)

theorem lastWhere_eq_none {p : ρ → Bool} {records : List ρ} :
    lastWhere p records = none ↔ ∀ r ∈ records, p r = false := by
  rw [lastWhere, List.getLast?_eq_none_iff, List.filter_eq_nil_iff]
  simp

theorem exists_lastWhere {p : ρ → Bool} {records : List ρ} {r : ρ} (hmem : r ∈ records)
    (hp : p r = true) : ∃ last, lastWhere p records = some last := by
  cases hlast : lastWhere p records with
  | none => simp [lastWhere_eq_none.mp hlast r hmem] at hp
  | some last => exact ⟨last, rfl⟩

/-- The last part of the history that has a record satisfying `p` decides. -/
theorem lastWhere_append_of_some {p : ρ → Bool} (older : List ρ) {newer : List ρ} {r : ρ}
    (hlast : lastWhere p newer = some r) : lastWhere p (older ++ newer) = some r := by
  simp only [lastWhere, List.filter_append] at hlast ⊢
  rw [List.getLast?_append, hlast, Option.some_or]

/-! ## What a history records -/

/-- What is read off one more record comes last. -/
theorem filterMap_concat {σ : Type*} (f : ρ → Option σ) (records : List ρ) (r : ρ) :
    (records ++ [r]).filterMap f = records.filterMap f ++ (f r).toList := by
  rw [List.filterMap_append, List.filterMap_cons]
  cases f r <;> rfl

/-- The last thing that was read off is that of the last record, if it gives one. -/
theorem getLastD_filterMap_concat {σ : Type*} (f : ρ → Option σ) (records : List ρ) (r : ρ)
    (before : σ) :
    ((records ++ [r]).filterMap f).getLastD before =
      (f r).getD ((records.filterMap f).getLastD before) := by
  rw [filterMap_concat]
  cases f r with
  | none => simp
  | some s => simp [List.getLastD_eq_getLast?]

/-! ## Interleavings -/

section Streams

variable [DecidableEq κ] (key : ρ → κ)

/-- The records with key `k`, in their order. -/
def stream (k : κ) (records : List ρ) : List ρ :=
  records.filter fun r => key r = k

/-- The two histories interleave the same streams. -/
def SameStreams (first second : List ρ) : Prop :=
  ∀ k, stream key k first = stream key k second

/-- The history in which the stream of `k` comes after everything else. -/
def moveToEnd (k : κ) (records : List ρ) : List ρ :=
  records.filter (fun r => key r ≠ k) ++ stream key k records

variable {key}

theorem mem_stream {k : κ} {records : List ρ} {r : ρ} :
    r ∈ stream key k records ↔ r ∈ records ∧ key r = k := by
  simp [stream]

theorem SameStreams.mem_iff {first second : List ρ} (hsame : SameStreams key first second)
    (r : ρ) : r ∈ first ↔ r ∈ second := by
  have hstream : r ∈ stream key (key r) first ↔ r ∈ stream key (key r) second := by
    rw [hsame (key r)]
  simpa [mem_stream] using hstream

/-- A predicate that holds only of records with key `k` reads the stream of `k`
alone. -/
theorem lastWhere_stream {p : ρ → Bool} {k : κ} (hkey : ∀ r, p r = true → key r = k)
    (records : List ρ) : lastWhere p (stream key k records) = lastWhere p records := by
  have hfilter : (fun r => p r && decide (key r = k)) = p := by
    funext r
    cases hp : p r with
    | false => rfl
    | true => simp [hkey r hp]
  rw [lastWhere, lastWhere, stream, List.filter_filter, hfilter]

/-- Interleavings agree on every predicate that pins the key. -/
theorem SameStreams.lastWhere_eq {first second : List ρ} (hsame : SameStreams key first second)
    {p : ρ → Bool} {k : κ} (hkey : ∀ r, p r = true → key r = k) :
    lastWhere p first = lastWhere p second := by
  rw [← lastWhere_stream hkey first, hsame k, lastWhere_stream hkey second]

theorem sameStreams_moveToEnd (k : κ) (records : List ρ) :
    SameStreams key records (moveToEnd key k records) := by
  intro k'
  by_cases hk : k' = k
  · subst hk
    simp [stream, moveToEnd, List.filter_filter]
  · have hnone : stream key k' (stream key k records) = [] := by
      simp only [stream, List.filter_filter, List.filter_eq_nil_iff]
      intro r _
      simp only [Bool.and_eq_true, decide_eq_true_eq, not_and]
      rintro rfl
      exact fun h => hk h
    have hkeep : stream key k' (records.filter fun r => key r ≠ k) = stream key k' records := by
      simp only [stream, List.filter_filter]
      congr 1
      funext r
      by_cases hr : key r = k'
      · subst hr
        simp [hk]
      · simp [hr]
    have happend : stream key k' (moveToEnd key k records) =
        stream key k' (records.filter fun r => key r ≠ k) ++
          stream key k' (stream key k records) := by
      simp [stream, moveToEnd]
    rw [happend, hnone, hkeep, List.append_nil]

/-- Once the stream of `k` is moved to the end, the last record with a property
that the stream has at all is one of the stream. -/
theorem lastWhere_moveToEnd {p : ρ → Bool} {k : κ} {records : List ρ} {r : ρ}
    (hmem : r ∈ records) (hkey : key r = k) (hp : p r = true) :
    ∃ last, lastWhere p (moveToEnd key k records) = some last ∧ key last = k := by
  obtain ⟨last, hlast⟩ := exists_lastWhere (mem_stream.mpr ⟨hmem, hkey⟩) hp
  refine ⟨last, lastWhere_append_of_some _ hlast, ?_⟩
  exact (mem_stream.mp (mem_of_lastWhere hlast).1).2

end Streams

end BbMonitor.History
