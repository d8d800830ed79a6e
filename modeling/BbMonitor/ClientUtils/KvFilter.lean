import BbMonitor.Strings

/-!
# Key/value filters

A `kv_filter` finds the pairs `key, separator, value` in a text in which terms
are set apart by other separators.

The cursor of `match` is an `int`, so that a position beyond `2 ^ 31` wraps
around.  A round depends on the cursor alone; hence a scan that needs more rounds
than there are cursors in the text never ends.
-/

namespace BbMonitor

structure Kv where
  key : Bytes
  val : Bytes
deriving DecidableEq, Repr

structure KvFilter where
  kvSeparator : UInt8
  separators : Bytes

/-- The constructor of `kv_filter`. -/
def kvFilter (termSeparators : Bytes) (kvSeparator : UInt8) : KvFilter where
  kvSeparator := kvSeparator
  separators := termSeparators ++ [kvSeparator]

/-- The loop of `kv_filter::match`. -/
def KvFilter.scan (filter : KvFilter) (s : Bytes) :
    ℕ → Int32 → List Kv → Except Failure (List Kv)
  | 0, _, _ => .error .endless
  | rounds + 1, cursor, result =>
      let begin := toSizeT cursor.toInt
      match findFirstOf s filter.separators begin with
      | none => .ok result
      | some firstPos =>
          if s[firstPos]? = some filter.kvSeparator then do
            let key ← substr s begin (firstPos - begin)
            match findFirstOf s filter.separators (firstPos + 1) with
            | none => do
                let val ← substr s (firstPos + 1) npos
                return result ++ [⟨key, val⟩]
            | some secondPos => do
                let val ← substr s (firstPos + 1) (secondPos - (firstPos + 1))
                filter.scan s rounds (Int32.ofNat (secondPos + 1)) (result ++ [⟨key, val⟩])
          else filter.scan s rounds (Int32.ofNat (firstPos + 1)) result

/-- `kv_filter::match`: the value it returns and the pairs it has found.  A cursor
that finds a separator is at most the length of `s`. -/
def KvFilter.kvMatch (filter : KvFilter) (s : Bytes) : Except Failure (ℤ × List Kv) := do
  let result ← filter.scan s (s.length + 2) 0 []
  return (if result.length = 0 then 1 else 0, result)

/-! ## `match` returns -/

theorem toSizeT_ofNat {n : ℕ} (hn : n < 2 ^ 31) : toSizeT (Int32.ofNat n).toInt = n := by
  rw [Int32.toInt_ofNat_of_lt hn, toSizeT]
  omega

/-- Every round moves the cursor on, so that the rounds are used up no sooner than
the text. -/
theorem KvFilter.exists_scan (filter : KvFilter) {s : Bytes} (hsize : s.length < 2 ^ 31)
    (rounds cursor : ℕ) (hcursor : cursor ≤ s.length) (hrounds : s.length < rounds + cursor)
    (result : List Kv) :
    ∃ found, filter.scan s rounds (Int32.ofNat cursor) result = .ok found := by
  induction rounds generalizing cursor result with
  | zero => omega
  | succ rounds ih =>
      rw [KvFilter.scan]
      simp only [toSizeT_ofNat (Nat.lt_of_le_of_lt hcursor hsize)]
      cases hfirst : findFirstOf s filter.separators cursor with
      | none => exact ⟨result, rfl⟩
      | some first =>
          obtain ⟨hle, hlt⟩ := findFirstOf_bounds hfirst
          simp only [substr_of_le hcursor, substr_of_le (Nat.succ_le_of_lt hlt)]
          split
          · cases hsecond : findFirstOf s filter.separators (first + 1) with
            | none => exact ⟨_, rfl⟩
            | some second =>
                obtain ⟨hle', hlt'⟩ := findFirstOf_bounds hsecond
                exact ih (second + 1) hlt' (by omega) _
          · exact ih (first + 1) hlt (by omega) result

/-- `match` returns on every text that an `int` can index. -/
theorem KvFilter.exists_kvMatch (filter : KvFilter) {s : Bytes} (hsize : s.length < 2 ^ 31) :
    ∃ found, filter.kvMatch s = .ok found := by
  obtain ⟨result, hscan⟩ := filter.exists_scan hsize (s.length + 2) 0 (Nat.zero_le _) (by omega) []
  have hzero : Int32.ofNat 0 = 0 := rfl
  rw [hzero] at hscan
  refine ⟨(if result.length = 0 then 1 else 0, result), ?_⟩
  rw [KvFilter.kvMatch, hscan]
  rfl

/-! ## `match` does not throw -/

/-- A cursor that finds a separator is in range, whatever it wrapped around to. -/
theorem KvFilter.scan_ne_outOfRange (filter : KvFilter) (s : Bytes) (rounds : ℕ) (cursor : Int32)
    (result : List Kv) : filter.scan s rounds cursor result ≠ .error .outOfRange := by
  induction rounds generalizing cursor result with
  | zero => simp [KvFilter.scan]
  | succ rounds ih =>
      rw [KvFilter.scan]
      cases hfirst : findFirstOf s filter.separators (toSizeT cursor.toInt) with
      | none => simp
      | some first =>
          obtain ⟨hle, hlt⟩ := findFirstOf_bounds hfirst
          have hbegin : toSizeT cursor.toInt ≤ s.length := by omega
          simp only [substr_of_le hbegin, substr_of_le (Nat.succ_le_of_lt hlt)]
          split
          · cases hsecond : findFirstOf s filter.separators (first + 1) with
            | none =>
                intro heq
                cases heq
            | some second => exact ih _ _
          · exact ih _ _

theorem KvFilter.kvMatch_ne_outOfRange (filter : KvFilter) (s : Bytes) :
    filter.kvMatch s ≠ .error .outOfRange := by
  have hscan := filter.scan_ne_outOfRange s (s.length + 2) 0 []
  rw [KvFilter.kvMatch]
  cases hresult : filter.scan s (s.length + 2) 0 [] with
  | error failure =>
      rw [hresult] at hscan
      intro heq
      cases heq
      exact hscan rfl
  | ok result =>
      intro heq
      cases heq

end BbMonitor
