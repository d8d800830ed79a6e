import BbMonitor.DdLogProxy.HandleLine

/-!
# Lines that make `handle_line` throw

`handle_line` cuts its line with `substr`, which throws when the start lies beyond
the end of the line.  A start that comes from a search is in range, for what was
found lies in the line.  Two starts do not: the values of `ddsource` and of
`ddsourcecategory` are taken at a fixed distance, 13 and 21, from where the name was
found, as if `="` had to follow it.

`handleLine_in_range_iff` says which lines these are.  Each call of the chain is
treated by one rule: a search that fails ends the call, and a `substr` has to be in
range.
-/

namespace BbMonitor.DdLogProxy

/-! ## Computations that avoid a failure -/

variable {α β : Type}

/-- The computation does not end in this failure. -/
def Avoids (failure : Failure) (x : OptionT (Except Failure) α) : Prop :=
  x.run ≠ .error failure

variable {failure : Failure} {line : Bytes}

theorem avoids_pure (value : α) : Avoids failure (pure value) := by
  intro heq
  cases heq

theorem avoids_orReturn_bind (pos : Option ℕ) (f : ℕ → OptionT (Except Failure) β) :
    Avoids failure (orReturn pos >>= f) ↔ ∀ p, pos = some p → Avoids failure (f p) := by
  cases pos with
  | none =>
      have hreturned : (orReturn none >>= f).run = .ok none := rfl
      simp [Avoids, hreturned]
  | some p =>
      have hfound : (orReturn (some p) >>= f).run = (f p).run := rfl
      simp [Avoids, hfound]

theorem avoids_lift_bind (x : Except Failure α) (f : α → OptionT (Except Failure) β) :
    Avoids failure ((liftM x : OptionT (Except Failure) α) >>= f) ↔
      x ≠ .error failure ∧ ∀ value, x = .ok value → Avoids failure (f value) := by
  cases x with
  | error other =>
      have hfailed : ((liftM (Except.error other : Except Failure α) : OptionT (Except Failure) α)
          >>= f).run = .error other := rfl
      simp [Avoids, hfailed]
  | ok value =>
      have hvalue : ((liftM (Except.ok value : Except Failure α) : OptionT (Except Failure) α)
          >>= f).run = (f value).run := rfl
      simp [Avoids, hvalue]

theorem substr_ne_outOfRange_iff {s : Bytes} {pos n : ℕ} :
    substr s pos n ≠ .error .outOfRange ↔ pos ≤ s.length := by
  unfold substr
  split <;> simp <;> omega

theorem substr_ne_endless (s : Bytes) (pos n : ℕ) : substr s pos n ≠ .error .endless := by
  unfold substr
  split <;> simp

theorem avoids_substr_bind (s : Bytes) (pos n : ℕ) (f : Bytes → OptionT (Except Failure) β) :
    Avoids .outOfRange ((liftM (substr s pos n) : OptionT (Except Failure) Bytes) >>= f) ↔
      pos ≤ s.length ∧ Avoids .outOfRange (f ((s.drop pos).take n)) := by
  rw [avoids_lift_bind, substr_ne_outOfRange_iff]
  refine and_congr_right fun hpos => ?_
  simp [substr_of_le hpos]

/-! ## The lines -/

/-- The position of the blank with this number, counted from 0. -/
def blank (line : Bytes) : ℕ → Option ℕ
  | 0 => findFirstOf line [space] 0
  | n + 1 => (blank line n).bind fun p => findFirstOf line [space] (p + 1)

/-- After the seventh blank, there are 13 bytes from the first `dd ddsource` on, and
21 bytes from the first `dd ddsourcecategory` on. -/
def Long (line : Bytes) : Prop :=
  ∀ endOfUnknown2, blank line 6 = some endOfUnknown2 →
    ∀ beginDdsource, find line (bytes "dd ddsource") (endOfUnknown2 + 1) = some beginDdsource →
      beginDdsource + 13 ≤ line.length ∧
        ∀ beginDdsourcecategory,
          find line (bytes "dd ddsourcecategory") (endOfUnknown2 + 1) = some beginDdsourcecategory →
            beginDdsourcecategory + 21 ≤ line.length

theorem blank_six_eq_some {p : ℕ} :
    blank line 6 = some p ↔
      ∃ p₀ p₁ p₂ p₃ p₄ p₅, findFirstOf line [space] 0 = some p₀ ∧
        findFirstOf line [space] (p₀ + 1) = some p₁ ∧ findFirstOf line [space] (p₁ + 1) = some p₂ ∧
        findFirstOf line [space] (p₂ + 1) = some p₃ ∧ findFirstOf line [space] (p₃ + 1) = some p₄ ∧
        findFirstOf line [space] (p₄ + 1) = some p₅ ∧
        findFirstOf line [space] (p₅ + 1) = some p := by
  simp only [blank, Option.bind_eq_some_iff]
  constructor
  · rintro ⟨p₅, ⟨p₄, ⟨p₃, ⟨p₂, ⟨p₁, ⟨p₀, h₀, h₁⟩, h₂⟩, h₃⟩, h₄⟩, h₅⟩, h₆⟩
    exact ⟨p₀, p₁, p₂, p₃, p₄, p₅, h₀, h₁, h₂, h₃, h₄, h₅, h₆⟩
  · rintro ⟨p₀, p₁, p₂, p₃, p₄, p₅, h₀, h₁, h₂, h₃, h₄, h₅, h₆⟩
    exact ⟨p₅, ⟨p₄, ⟨p₃, ⟨p₂, ⟨p₁, ⟨p₀, h₀, h₁⟩, h₂⟩, h₃⟩, h₄⟩, h₅⟩, h₆⟩

/-- What follows `ddtags=` is cut at positions that were found. -/
theorem avoids_tags (tags : Bytes) {endDdtags : ℕ} (hend : endDdtags < line.length)
    (f : ℤ × List Kv → Bytes → Parts) :
    Avoids .outOfRange (do
      let found ← ddKvParser.kvMatch tags
      let text ← substr line (endDdtags + 1) npos
      return f found text) := by
  rw [avoids_lift_bind]
  refine ⟨ddKvParser.kvMatch_ne_outOfRange tags, fun found _ => ?_⟩
  rw [avoids_substr_bind]
  exact ⟨hend, avoids_pure _⟩

/-- The seven fields are cut where blanks were found; the rest decides. -/
theorem avoids_parts_iff (line : Bytes) : Avoids .outOfRange (parts line) ↔ Long line := by
  simp only [parts, avoids_orReturn_bind, avoids_substr_bind]
  constructor
  · intro havoids endOfUnknown2 hblank beginDdsource hddsource
    obtain ⟨p₀, p₁, p₂, p₃, p₄, p₅, h₀, h₁, h₂, h₃, h₄, h₅, h₆⟩ := blank_six_eq_some.mp hblank
    have hsource := ((((((havoids p₀ h₀).2 p₁ h₁ p₂ h₂).2 p₃ h₃).2 p₄ h₄).2 p₅ h₅).2
      endOfUnknown2 h₆).2 beginDdsource hddsource
    exact ⟨hsource.1, fun beginDdsourcecategory hcategory =>
      (hsource.2 beginDdsourcecategory hcategory).1⟩
  · intro hlong p₀ h₀
    refine ⟨Nat.zero_le _, fun p₁ h₁ p₂ h₂ => ⟨(findFirstOf_bounds h₁).2, fun p₃ h₃ =>
      ⟨(findFirstOf_bounds h₂).2, fun p₄ h₄ => ⟨(findFirstOf_bounds h₃).2, fun p₅ h₅ =>
      ⟨(findFirstOf_bounds h₄).2, fun endOfUnknown2 h₆ => ⟨(findFirstOf_bounds h₅).2, ?_⟩⟩⟩⟩⟩⟩
    intro beginDdsource hddsource
    have hblank : blank line 6 = some endOfUnknown2 :=
      blank_six_eq_some.mpr ⟨p₀, p₁, p₂, p₃, p₄, p₅, h₀, h₁, h₂, h₃, h₄, h₅, h₆⟩
    obtain ⟨hsource, hcategory⟩ := hlong endOfUnknown2 hblank beginDdsource hddsource
    refine ⟨hsource, fun beginDdsourcecategory hfound =>
      ⟨hcategory beginDdsourcecategory hfound, fun beginDdtags _ endDdtags hend => ?_⟩⟩
    obtain ⟨hle, hlt⟩ := findFirstOf_bounds hend
    exact ⟨Nat.le_trans hle (Nat.le_of_lt hlt), avoids_tags _ hlt _⟩

theorem length_le_of_substr {s piece : Bytes} {pos n : ℕ} (hsubstr : substr s pos n = .ok piece) :
    piece.length ≤ s.length := by
  unfold substr at hsubstr
  split at hsubstr
  · cases hsubstr
  · cases hsubstr
    rw [List.length_take, List.length_drop]
    omega

/-- On a line that an `int` can index, the search for the tags ends. -/
theorem avoids_endless {line : Bytes} (hsize : line.length < 2 ^ 31) :
    Avoids .endless (parts line) := by
  simp only [parts, avoids_orReturn_bind, avoids_lift_bind, ne_eq, substr_ne_endless,
    not_false_eq_true, true_and, avoids_pure, implies_true, and_true]
  -- all that is left is the call of `match`
  intros
  rename_i ddtags hddtags
  have hshort : ddtags.length < 2 ^ 31 :=
    Nat.lt_of_le_of_lt (length_le_of_substr hddtags) hsize
  obtain ⟨found, hfound⟩ := ddKvParser.exists_kvMatch hshort
  simp [hfound]

/-! ## When `handle_line` returns -/

section

variable (md5Uuid : Bytes → Bytes) (now : Int64) (line : Bytes)

theorem handleLine_eq_error_iff :
    handleLine md5Uuid now line = .error failure ↔ ¬ Avoids failure (parts line) := by
  unfold handleLine Avoids
  cases (parts line).run with
  | error other => simp
  | ok found => simp

theorem exists_handleLine_iff :
    (∃ inserted, handleLine md5Uuid now line = .ok inserted) ↔
      Avoids .outOfRange (parts line) ∧ Avoids .endless (parts line) := by
  unfold handleLine Avoids
  cases (parts line).run with
  | error other => cases other <;> simp
  | ok found => simp

/-- `handle_line` keeps all its `substr` calls in range exactly when the line does
not end too soon after `dd ddsource` and `dd ddsourcecategory`; and it returns then,
if an `int` can index the line. -/
theorem handleLine_in_range_iff :
    (handleLine md5Uuid now line ≠ .error .outOfRange ↔ Long line) ∧
      (line.length < 2 ^ 31 →
        ((∃ inserted, handleLine md5Uuid now line = .ok inserted) ↔ Long line)) := by
  refine ⟨?_, fun hsize => ?_⟩
  · rw [ne_eq, handleLine_eq_error_iff, not_not, avoids_parts_iff]
  · rw [exists_handleLine_iff, avoids_parts_iff]
    exact and_iff_left (avoids_endless hsize)

end

/-- A line that ends with the name `dd ddsource`. -/
def truncatedLine : Bytes := bytes "key <46>0 2018-07-31T09:27:41Z host syslog - - [dd ddsource"

theorem truncatedLine_out_of_range :
    ¬ ∀ line, handleLine uuidOfMd5 0 line ≠ .error .outOfRange := by
  intro hall
  have hfailed : (parts truncatedLine).run = .error .outOfRange := by decide +kernel
  exact hall truncatedLine (by rw [handleLine, hfailed]; rfl)

end BbMonitor.DdLogProxy
