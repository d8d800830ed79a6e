import Mathlib.Data.List.Basic
import Mathlib.Data.List.Induction

/-!
# Cutting a stream into lines

A stream arrives in reads.  Its lines are the pieces that end in a delimiter `d`;
what follows the last delimiter is no line.  A `Framer` appends each read to what
is pending and then hands over at most one line, and it stops at a line whose
handling fails.  Since one read can bring several delimiters, the framer can fall
behind: `backlog` counts the lines that wait, as a queue with one departure per
read.

`Framer.handled_eq_lines_iff` says when the framer has handed over every line of
the stream: the backlog is empty, that is, no stretch of reads at the end brought
more delimiters than it has reads, and only the last line may have failed.
-/

namespace BbMonitor

variable {α : Type*} [DecidableEq α] {d : α} {text first rest : List α}

/-! ## Lines -/

/-- The pieces of the text that end in `d`, without it. -/
def lines (d : α) (text : List α) : List (List α) :=
  (text.splitOn d).dropLast

theorem lines_of_notMem (hmem : d ∉ text) : lines d text = [] := by
  rw [lines, List.splitOn_eq_singleton hmem, List.dropLast_singleton]

theorem lines_append_cons (hfirst : d ∉ first) (rest : List α) :
    lines d (first ++ d :: rest) = first :: lines d rest := by
  rw [lines, List.splitOn_append_cons_self_of_not_mem hfirst,
    List.dropLast_cons_of_ne_nil (List.splitOn_ne_nil d rest), lines]

/-- The first line and what follows it. -/
def cut (d : α) (text : List α) : Option (List α × List α) :=
  (text.idxOf? d).map fun i => (text.take i, text.drop (i + 1))

theorem cut_of_notMem (hmem : d ∉ text) : cut d text = none := by
  rw [cut, List.idxOf?_eq_none_iff.mpr hmem, Option.map_none]

theorem idxOf?_append_cons (hfirst : d ∉ first) (rest : List α) :
    (first ++ d :: rest).idxOf? d = some first.length := by
  refine List.idxOf?_eq_some_iff.mpr ⟨by simp, by simp, ?_⟩
  intro j hj
  rw [List.getElem_append_left hj]
  intro heq
  exact hfirst (heq ▸ List.getElem_mem hj)

omit [DecidableEq α] in
theorem drop_append_cons (first : List α) (d : α) (rest : List α) :
    (first ++ d :: rest).drop (first.length + 1) = rest := by
  rw [← List.drop_drop, List.drop_left, List.drop_one, List.tail_cons]

theorem cut_append_cons (hfirst : d ∉ first) (rest : List α) :
    cut d (first ++ d :: rest) = some (first, rest) := by
  rw [cut, idxOf?_append_cons hfirst, Option.map_some, List.take_left, drop_append_cons]

/-- Every text either has no delimiter or begins with a line. -/
theorem notMem_or_exists_line (d : α) (text : List α) :
    d ∉ text ∨ ∃ first rest, text = first ++ d :: rest ∧ d ∉ first := by
  by_cases hmem : d ∈ text
  · exact Or.inr (List.eq_append_cons_of_mem hmem)
  · exact Or.inl hmem

theorem lines_eq_nil_iff : lines d text = [] ↔ d ∉ text := by
  rcases notMem_or_exists_line d text with hmem | ⟨first, rest, rfl, hfirst⟩
  · simp [lines_of_notMem hmem, hmem]
  · simp [lines_append_cons hfirst]

/-- The text that consists of these lines. -/
def terminated (d : α) (handled : List (List α)) : List α :=
  handled.flatMap fun line => line ++ [d]

theorem lines_terminated_append {handled : List (List α)} (hclean : ∀ line ∈ handled, d ∉ line)
    (pending : List α) :
    lines d (terminated d handled ++ pending) = handled ++ lines d pending := by
  induction handled with
  | nil => simp [terminated]
  | cons line more ih =>
      have hline : d ∉ line := hclean line (List.mem_cons_self ..)
      have hmore := ih fun l hl => hclean l (List.mem_cons_of_mem _ hl)
      have hsplit : terminated d (line :: more) ++ pending =
          line ++ d :: (terminated d more ++ pending) := by simp [terminated]
      rw [hsplit, lines_append_cons hline, hmore, List.cons_append]

/-- A text that ends in the delimiter consists of lines. -/
theorem exists_eq_terminated (hend : text = [] ∨ text.getLast? = some d) :
    ∃ handled, (∀ line ∈ handled, d ∉ line) ∧ text = terminated d handled := by
  induction hlength : text.length using Nat.strongRecOn generalizing text with
  | ind n ih =>
      rcases notMem_or_exists_line d text with hmem | ⟨first, rest, rfl, hfirst⟩
      · rcases hend with rfl | hlast
        · exact ⟨[], by simp, rfl⟩
        · exact absurd (List.mem_of_getLast? hlast) hmem
      · have hrest : rest = [] ∨ rest.getLast? = some d := by
          rcases hend with hnil | hlast
          · simp at hnil
          · rw [List.getLast?_append_cons] at hlast
            cases rest with
            | nil => exact Or.inl rfl
            | cons c rest => exact Or.inr (by rwa [List.getLast?_cons_cons] at hlast)
        have hshorter : rest.length < n := by
          rw [← hlength, List.length_append, List.length_cons]
          omega
        obtain ⟨more, hclean, hmore⟩ := ih rest.length hshorter hrest rfl
        refine ⟨first :: more, ?_, ?_⟩
        · intro line hline
          rcases List.mem_cons.mp hline with rfl | hmem
          · exact hfirst
          · exact hclean line hmem
        · rw [hmore]
          simp [terminated]

/-- Behind a text that consists of lines, the lines are counted anew. -/
theorem lines_append (hend : text = [] ∨ text.getLast? = some d) (rest : List α) :
    lines d (text ++ rest) = lines d text ++ lines d rest := by
  obtain ⟨handled, hclean, rfl⟩ := exists_eq_terminated hend
  have hlines := lines_terminated_append hclean []
  rw [List.append_nil, lines_of_notMem (List.not_mem_nil), List.append_nil] at hlines
  rw [lines_terminated_append hclean, hlines]

/-! ## The backlog -/

/-- The lines that wait when every read brings its delimiters and then one line
departs. -/
def backlog (d : α) (reads : List (List α)) : ℕ :=
  reads.foldl (fun waiting data => waiting + data.count d - 1) 0

theorem backlog_concat (d : α) (reads : List (List α)) (data : List α) :
    backlog d (reads ++ [data]) = backlog d reads + data.count d - 1 := by
  simp [backlog]

/-- The longest queue is built up by the reads since some moment. -/
theorem backlog_le_iff (d : α) (reads : List (List α)) (bound : ℕ) :
    backlog d reads ≤ bound ↔
      ∀ n, (reads.drop n).flatten.count d ≤ (reads.drop n).length + bound := by
  induction reads using List.reverseRecOn generalizing bound with
  | nil => simp [backlog]
  | append_singleton reads data ih =>
      have hlast : ∀ n, ((reads ++ [data]).drop n).flatten.count d ≤
          ((reads ++ [data]).drop n).length + bound ↔
          (n ≤ reads.length → (reads.drop n).flatten.count d + data.count d ≤
            (reads.drop n).length + 1 + bound) := by
        intro n
        by_cases hn : n ≤ reads.length
        · rw [List.drop_append_of_le_length hn]
          simp [hn]
        · rw [List.drop_eq_nil_of_le (by simp; omega)]
          simp [hn]
      rw [backlog_concat]
      simp only [hlast]
      constructor
      · intro hle n _
        have hbefore := (ih (bound + 1 - data.count d)).mp (by omega) n
        omega
      · intro hall
        have hnow := hall reads.length (Nat.le_refl _)
        simp only [List.drop_length, List.flatten_nil, List.count_nil, List.length_nil] at hnow
        have hbefore : backlog d reads ≤ bound + 1 - data.count d := by
          refine (ih _).mpr fun n => ?_
          by_cases hn : n ≤ reads.length
          · have hdrop := hall n hn
            omega
          · rw [List.drop_eq_nil_of_le (by omega)]
            simp
        omega

theorem backlog_eq_zero_iff (d : α) (reads : List (List α)) :
    backlog d reads = 0 ↔ ∀ n, (reads.drop n).flatten.count d ≤ (reads.drop n).length := by
  have hiff := backlog_le_iff d reads 0
  rwa [Nat.le_zero] at hiff

/-! ## The framer -/

structure Framer (α : Type*) where
  handled : List (List α)
  pending : List α
  stopped : Bool

namespace Framer

def start : Framer α where
  handled := []
  pending := []
  stopped := false

/-- Take a read in and hand over the first line, if there is one. -/
def feed (d : α) (fails : List α → Bool) (f : Framer α) (data : List α) : Framer α :=
  if f.stopped then { f with pending := f.pending ++ data }
  else
    match cut d (f.pending ++ data) with
    | none => { f with pending := f.pending ++ data }
    | some (line, rest) =>
        { handled := f.handled ++ [line], pending := rest, stopped := fails line }

variable {fails : List α → Bool} {f : Framer α} {data : List α} {reads : List (List α)}

theorem feed_of_stopped (hstopped : f.stopped = true) :
    f.feed d fails data = { f with pending := f.pending ++ data } := by
  simp [feed, hstopped]

theorem feed_of_notMem (hmem : d ∉ f.pending ++ data) :
    f.feed d fails data = { f with pending := f.pending ++ data } := by
  rw [feed, cut_of_notMem hmem]
  exact ite_self _

theorem feed_of_line (hstopped : f.stopped = false) (htext : f.pending ++ data = first ++ d :: rest)
    (hfirst : d ∉ first) :
    f.feed d fails data =
      { handled := f.handled ++ [first], pending := rest, stopped := fails first } := by
  simp [feed, hstopped, htext, cut_append_cons hfirst]

/-- What the framer has done with the reads. -/
structure Accounts (d : α) (fails : List α → Bool) (reads : List (List α)) (f : Framer α) :
    Prop where
  text : reads.flatten = terminated d f.handled ++ f.pending
  clean : ∀ line ∈ f.handled, d ∉ line
  backlog_le : backlog d reads ≤ f.pending.count d
  running : f.stopped = false →
    f.pending.count d = backlog d reads ∧ ∀ line ∈ f.handled, fails line = false
  failed : f.stopped = true →
    ∃ before line, f.handled = before ++ [line] ∧ fails line = true ∧
      ∀ earlier ∈ before, fails earlier = false

theorem accounts_start (d : α) (fails : List α → Bool) : Accounts d fails [] start where
  text := rfl
  clean := by simp [start]
  backlog_le := by simp [backlog]
  running := by simp [start, backlog]
  failed := by simp [start]

/-- A read that completes no line, or comes after the end. -/
theorem Accounts.wait (hacc : Accounts d fails reads f) (data : List α)
    (hmem : f.stopped = false → d ∉ f.pending ++ data) :
    Accounts d fails (reads ++ [data]) { f with pending := f.pending ++ data } where
  text := by simp [hacc.text]
  clean := hacc.clean
  backlog_le := by
    have hle := hacc.backlog_le
    rw [backlog_concat, List.count_append]
    omega
  running := by
    intro hstopped
    have hzero := List.count_eq_zero.mpr (hmem hstopped)
    refine ⟨?_, (hacc.running hstopped).2⟩
    have hle := hacc.backlog_le
    rw [List.count_append] at hzero
    rw [backlog_concat, List.count_append]
    omega
  failed := hacc.failed

theorem Accounts.line (hacc : Accounts d fails reads f) (hstopped : f.stopped = false)
    (htext : f.pending ++ data = first ++ d :: rest) (hfirst : d ∉ first) :
    Accounts d fails (reads ++ [data])
      { handled := f.handled ++ [first], pending := rest, stopped := fails first } := by
  obtain ⟨hcount, hgood⟩ := hacc.running hstopped
  have hrest : rest.count d = backlog d (reads ++ [data]) := by
    have htotal : (f.pending ++ data).count d = rest.count d + 1 := by
      rw [htext, List.count_append, List.count_cons_self, List.count_eq_zero.mpr hfirst]
      omega
    rw [List.count_append] at htotal
    rw [backlog_concat]
    omega
  refine ⟨?_, ?_, Nat.le_of_eq hrest.symm, ?_, ?_⟩
  · have hflatten : (reads ++ [data]).flatten = terminated d f.handled ++ (f.pending ++ data) := by
      simp [hacc.text]
    rw [hflatten, htext]
    simp [terminated]
  · intro line hmem
    rcases List.mem_append.mp hmem with hold | hnew
    · exact hacc.clean line hold
    · rwa [List.mem_singleton.mp hnew]
  · intro hgoes
    refine ⟨hrest, fun line hmem => ?_⟩
    rcases List.mem_append.mp hmem with hold | hnew
    · exact hgood line hold
    · rwa [List.mem_singleton.mp hnew]
  · intro hfails
    exact ⟨f.handled, first, rfl, hfails, hgood⟩

theorem Accounts.feed (hacc : Accounts d fails reads f) (data : List α) :
    Accounts d fails (reads ++ [data]) (f.feed d fails data) := by
  cases hstopped : f.stopped with
  | true =>
      rw [feed_of_stopped hstopped]
      exact hacc.wait data (by simp [hstopped])
  | false =>
      rcases notMem_or_exists_line d (f.pending ++ data) with hmem | ⟨first, rest, htext, hfirst⟩
      · rw [feed_of_notMem hmem]
        exact hacc.wait data fun _ => hmem
      · rw [feed_of_line hstopped htext hfirst]
        exact hacc.line hstopped htext hfirst

theorem accounts_foldl (d : α) (fails : List α → Bool) (reads : List (List α)) :
    Accounts d fails reads (reads.foldl (Framer.feed d fails) start) := by
  induction reads using List.reverseRecOn with
  | nil => exact accounts_start d fails
  | append_singleton reads data ih =>
      rw [List.foldl_concat]
      exact ih.feed data

theorem Accounts.lines_eq (hacc : Accounts d fails reads f) :
    lines d reads.flatten = f.handled ++ lines d f.pending := by
  rw [hacc.text, lines_terminated_append hacc.clean]

theorem Accounts.handled_eq_iff (hacc : Accounts d fails reads f) :
    f.handled = lines d reads.flatten ↔ d ∉ f.pending := by
  rw [hacc.lines_eq, List.self_eq_append_right, lines_eq_nil_iff]

/-- Only the last line that was handed over may have failed. -/
theorem Accounts.fails_of_mem_dropLast (hacc : Accounts d fails reads f) :
    ∀ line ∈ f.handled.dropLast, fails line = false := by
  intro line hline
  cases hstopped : f.stopped with
  | false => exact (hacc.running hstopped).2 line ((List.dropLast_sublist _).subset hline)
  | true =>
      obtain ⟨before, bad, hhandled, -, hgood⟩ := hacc.failed hstopped
      rw [hhandled, List.dropLast_concat] at hline
      exact hgood line hline

theorem Accounts.notMem_pending (hacc : Accounts d fails reads f) (hempty : backlog d reads = 0)
    (hgood : ∀ line ∈ (lines d reads.flatten).dropLast, fails line = false) : d ∉ f.pending := by
  cases hstopped : f.stopped with
  | false =>
      have hcount := (hacc.running hstopped).1
      exact List.count_eq_zero.mp (hcount.trans hempty)
  | true =>
      -- a pending line would come after the one that failed
      obtain ⟨before, bad, hhandled, hbad, -⟩ := hacc.failed hstopped
      intro hmem
      have hpending : lines d f.pending ≠ [] := fun hnil => lines_eq_nil_iff.mp hnil hmem
      have hdrop : bad ∈ (lines d reads.flatten).dropLast := by
        rw [hacc.lines_eq, hhandled, List.dropLast_append_of_ne_nil hpending]
        simp
      rw [hgood bad hdrop] at hbad
      cases hbad

/-- The framer has handed over all lines of the stream exactly when the reads at
the end bring no more delimiters than there are reads, and no line but the last
fails. -/
theorem handled_eq_lines_iff (d : α) (fails : List α → Bool) (reads : List (List α)) :
    (reads.foldl (Framer.feed d fails) start).handled = lines d reads.flatten ↔
      (∀ n, (reads.drop n).flatten.count d ≤ (reads.drop n).length) ∧
        ∀ line ∈ (lines d reads.flatten).dropLast, fails line = false := by
  have hacc := accounts_foldl d fails reads
  rw [← backlog_eq_zero_iff]
  constructor
  · intro hall
    have hzero := List.count_eq_zero.mpr (hacc.handled_eq_iff.mp hall)
    refine ⟨Nat.le_zero.mp (hzero ▸ hacc.backlog_le), ?_⟩
    rw [← hall]
    exact hacc.fails_of_mem_dropLast
  · rintro ⟨hempty, hgood⟩
    exact hacc.handled_eq_iff.mpr (hacc.notMem_pending hempty hgood)

end Framer

end BbMonitor
