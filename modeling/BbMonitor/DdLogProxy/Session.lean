import BbMonitor.DdLogProxy.HandleLine
import BbMonitor.Lib.Framing
import BbMonitor.Lib.Machine

/-!
# A session of the datadog proxy

`session::handle_read` runs when bytes have come in.  It looks for a line feed in
its buffer of fixed size.  If there is none, the contents move to `line_`;
otherwise the line is completed and handled, and what follows the line feed is
moved to the front of the buffer, where the next read goes on.  Each call handles
one line at most, so that lines stay behind when a read brings several, and they
wait for bytes to come in again.

A `handle_line` that does not return ends the service: an exception leaves
`io_service.run`.  From then on nothing is read.

The buffer is not initialised, hence a session starts with any contents.
-/

namespace BbMonitor.DdLogProxy

/-! ## The session -/

def maxLength : ℕ := 1024 * 64

/-- `char buffer_[max_length]`. -/
abbrev Buffer := { contents : Bytes // contents.length = maxLength }

theorem length_store {buffer input : Bytes} {index : ℕ}
    (hfit : index + input.length ≤ buffer.length) :
    (store buffer index input).length = buffer.length := by
  simp only [store, List.length_append, List.length_take, List.length_drop]
  omega

def Buffer.store (buffer : Buffer) (index : ℕ) (input : Bytes)
    (hfit : index + input.length ≤ maxLength) : Buffer :=
  ⟨BbMonitor.store buffer.val index input, by rw [length_store] <;> simp [buffer.property, hfit]⟩

/-- `memmove(buffer_, &buffer_[index], n)`. -/
def Buffer.moveToFront (buffer : Buffer) (index n : ℕ) (hfit : n ≤ maxLength) : Buffer :=
  buffer.store 0 ((buffer.val.drop index).take n) (by simp; omega)

/-- What `append(buffer_, 0, n)` appends.  The array is converted to a
`std::string`, which ends at the first NUL.  Without one the conversion reads
past the end of the array; this changes none of the first `max_length` bytes. -/
def Buffer.text (buffer : Buffer) (n : ℕ) : Bytes :=
  (buffer.val.takeWhile (· ≠ 0)).take n

structure Session where
  remaining : ℕ
  buffer : Buffer
  line : Bytes
  -- What was inserted into `_stream`.
  inserted : List LogLine
  -- The lines for which `handle_line` was called.
  handled : List Bytes
  -- `handle_line` did not return.
  stopped : Bool
  remaining_lt : remaining < maxLength

def Session.start (buffer : Buffer) : Session where
  remaining := 0
  buffer := buffer
  line := []
  inserted := []
  handled := []
  stopped := false
  remaining_lt := by decide

/-- The bytes that a read brings, and the clock when `handle_line` reads it. -/
structure Read where
  data : Bytes
  now : Int64

variable (md5Uuid : Bytes → Bytes)

/-- `handle_line(); line_.erase();` with the buffer as it then is. -/
def Session.endLine (s : Session) (now : Int64) (line : Bytes) (buffer : Buffer) (remaining : ℕ)
    (hremaining : remaining < maxLength) : Session :=
  match handleLine md5Uuid now line with
  | .ok inserted =>
      { remaining := remaining
        buffer := buffer
        line := []
        inserted := s.inserted ++ inserted.toList
        handled := s.handled ++ [line]
        stopped := false
        remaining_lt := hremaining }
  | .error _ =>
      { remaining := remaining
        buffer := buffer
        line := line
        inserted := s.inserted
        handled := s.handled ++ [line]
        stopped := true
        remaining_lt := hremaining }

theorem lt_maxLength_of_fit {len bytesToCopy : ℕ} (hfit : len ≤ maxLength) :
    len - bytesToCopy - 1 < maxLength := by
  have hpos : 0 < maxLength := by decide
  omega

def Session.handleRead (s : Session) (r : Read) (hfit : s.remaining + r.data.length ≤ maxLength) :
    Session :=
  let buffer := s.buffer.store s.remaining r.data hfit
  let len := s.remaining + r.data.length
  match (buffer.val.take len).idxOf? lineFeed with
  | none =>
      { s with
        buffer := buffer
        line := s.line ++ buffer.text len
        remaining := 0
        remaining_lt := by decide }
  | some bytesToCopy =>
      let line := s.line ++ buffer.text bytesToCopy
      let remaining := len - bytesToCopy - 1
      -- nothing is moved when nothing remains
      let moved := buffer.moveToFront (bytesToCopy + 1) remaining (lt_maxLength_of_fit hfit).le
      s.endLine md5Uuid r.now line moved remaining (lt_maxLength_of_fit hfit)

/-- The size of the next read. -/
def Session.maxBytesToRead (s : Session) : ℕ :=
  maxLength - s.remaining

/-- A read brings at least one byte and at most as many as were asked for. -/
def step (s : Session) (r : Read) : Option Session :=
  if s.stopped then some s
  else if h : 0 < r.data.length ∧ r.data.length ≤ s.maxBytesToRead then
    some (s.handleRead md5Uuid r
      (by have := s.remaining_lt; have := h.2; unfold Session.maxBytesToRead at this; omega))
  else none

def machine (buffer : Buffer) : Machine Session Read where
  init := Session.start buffer
  step := step md5Uuid

/-! ## The contents of the buffer -/

variable {md5Uuid}

/-- What is in the buffer and has not been looked at. -/
def Session.unread (s : Session) : Bytes :=
  s.buffer.val.take s.remaining

theorem Buffer.take_store (buffer : Buffer) {index : ℕ} {input : Bytes}
    (hfit : index + input.length ≤ maxLength) :
    (buffer.store index input hfit).val.take (index + input.length) =
      buffer.val.take index ++ input := by
  have hindex : (buffer.val.take index).length = index := by
    rw [List.length_take, buffer.property]
    omega
  have hlength : (buffer.val.take index ++ input).length = index + input.length := by
    rw [List.length_append, hindex]
  show (buffer.val.take index ++ input ++ _).take _ = _
  rw [List.take_append_of_le_length hlength.ge, ← hlength, List.take_length]

theorem Buffer.take_moveToFront (buffer : Buffer) {index n : ℕ} (hfit : n ≤ maxLength)
    (hsource : index + n ≤ maxLength) :
    (buffer.moveToFront index n hfit).val.take n = (buffer.val.drop index).take n := by
  have hlength : ((buffer.val.drop index).take n).length = n := by
    rw [List.length_take, List.length_drop, buffer.property]
    omega
  show (buffer.val.take 0 ++ (buffer.val.drop index).take n ++ _).take n = _
  rw [List.take_zero, List.nil_append, List.take_append_of_le_length hlength.ge, List.take_take,
    Nat.min_self]

/-- Without a NUL the bytes of the buffer are appended as they are. -/
theorem Buffer.text_eq {buffer : Buffer} {n : ℕ} (hn : n ≤ maxLength)
    (hnul : 0 ∉ buffer.val.take n) : buffer.text n = buffer.val.take n := by
  have hlength : (buffer.val.take n).length = n := by
    rw [List.length_take, buffer.property]
    omega
  have hall : ∀ c ∈ buffer.val.take n, decide (c ≠ 0) = true := by
    intro c hmem
    exact decide_eq_true fun heq => hnul (heq ▸ hmem)
  have hsplit : buffer.val.takeWhile (· ≠ 0) =
      buffer.val.take n ++ (buffer.val.drop n).takeWhile (· ≠ 0) := by
    conv_lhs => rw [← List.take_append_drop n buffer.val]
    exact List.takeWhile_append_of_pos hall
  rw [Buffer.text, hsplit, List.take_append_of_le_length hlength.ge, List.take_take, Nat.min_self]

/-! ## What a read does -/

variable {s t : Session} {r : Read} {hfit : s.remaining + r.data.length ≤ maxLength}
  {first rest : Bytes}

theorem Session.take_store (s : Session) (r : Read)
    (hfit : s.remaining + r.data.length ≤ maxLength) :
    (s.buffer.store s.remaining r.data hfit).val.take (s.remaining + r.data.length) =
      s.unread ++ r.data :=
  Buffer.take_store s.buffer hfit

/-- A read that completes no line. -/
theorem Session.handleRead_of_notMem (hnul : 0 ∉ s.unread ++ r.data)
    (hmem : lineFeed ∉ s.unread ++ r.data) :
    s.handleRead md5Uuid r hfit =
      { s with
        buffer := s.buffer.store s.remaining r.data hfit
        line := s.line ++ (s.unread ++ r.data)
        remaining := 0
        remaining_lt := by decide } := by
  have hcontents := s.take_store r hfit
  have hindex : (s.unread ++ r.data).idxOf? lineFeed = none := List.idxOf?_eq_none_iff.mpr hmem
  have htext : (s.buffer.store s.remaining r.data hfit).text (s.remaining + r.data.length) =
      s.unread ++ r.data := by
    rw [Buffer.text_eq hfit (by rwa [hcontents]), hcontents]
  unfold Session.handleRead
  simp only [hcontents, hindex, htext]

theorem Session.endLine_spec (md5Uuid : Bytes → Bytes) (s : Session) (now : Int64)
    (line : Bytes) (buffer : Buffer)
    {remaining : ℕ} (hremaining : remaining < maxLength) :
    (s.endLine md5Uuid now line buffer remaining hremaining).handled = s.handled ++ [line] ∧
      (s.endLine md5Uuid now line buffer remaining hremaining).stopped = fails line ∧
      (s.endLine md5Uuid now line buffer remaining hremaining).unread = buffer.val.take remaining ∧
      (fails line = false →
        (s.endLine md5Uuid now line buffer remaining hremaining).line = []) := by
  cases hfails : fails line with
  | true =>
      obtain ⟨failure, hline⟩ := handleLine_of_fails hfails md5Uuid now
      simp [Session.endLine, Session.unread, hline]
  | false =>
      obtain ⟨inserted, hline⟩ := handleLine_of_not_fails hfails md5Uuid now
      simp [Session.endLine, Session.unread, hline]

/-- A read that completes a line: the line is handled, and what follows it
remains in the buffer. -/
theorem Session.handleRead_of_line (md5Uuid : Bytes → Bytes)
    (hfit : s.remaining + r.data.length ≤ maxLength) (hnul : 0 ∉ s.unread ++ r.data)
    (hcontents : s.unread ++ r.data = first ++ lineFeed :: rest) (hfirst : lineFeed ∉ first) :
    ∃ (buffer : Buffer) (remaining : ℕ) (hremaining : remaining < maxLength),
      buffer.val.take remaining = rest ∧
        s.handleRead md5Uuid r hfit =
          s.endLine md5Uuid r.now (s.line ++ first) buffer remaining hremaining := by
  have hstored := s.take_store r hfit
  rw [hcontents] at hstored hnul
  have hlength : s.remaining + r.data.length = first.length + 1 + rest.length := by
    have hsize := congrArg List.length hstored
    rw [List.length_take, (s.buffer.store _ _ hfit).property, Nat.min_eq_left hfit,
      List.length_append, List.length_cons] at hsize
    omega
  have hindex := idxOf?_append_cons hfirst rest
  unfold Session.handleRead
  simp only [hstored, hindex]
  generalize s.buffer.store s.remaining r.data hfit = buffer at hstored
  have htake : buffer.val.take first.length = first := by
    have hinitial := congrArg (List.take first.length) hstored
    rwa [List.take_take, Nat.min_eq_left (by omega), List.take_left] at hinitial
  have hline : buffer.text first.length = first := by
    rw [Buffer.text_eq (by omega), htake]
    rw [htake]
    exact fun hmem => hnul (List.mem_append_left _ hmem)
  have hdrop : (buffer.val.drop (first.length + 1)).take rest.length = rest := by
    have hfinal := congrArg (List.drop (first.length + 1)) hstored
    rwa [List.drop_take, hlength, Nat.add_sub_cancel_left, drop_append_cons] at hfinal
  refine ⟨_, _, lt_maxLength_of_fit hfit, ?_, by rw [hline]⟩
  have hremaining : s.remaining + r.data.length - first.length - 1 = rest.length := by omega
  rw [Buffer.take_moveToFront _ _ (by omega), hremaining, hdrop]

/-! ## The session is a framer -/

/-- The session has handled the lines of the framer, and between `line_` and the
buffer it keeps what is pending. -/
structure Simulates (s : Session) (f : Framer UInt8) : Prop where
  handled : f.handled = s.handled
  stopped : f.stopped = s.stopped
  pending : s.stopped = false → f.pending = s.line ++ s.unread
  clean : s.stopped = false → lineFeed ∉ s.line
  noNul : s.stopped = false → 0 ∉ s.unread

theorem simulates_start (buffer : Buffer) : Simulates (Session.start buffer) Framer.start := by
  refine ⟨rfl, rfl, fun _ => ?_, fun _ => ?_, fun _ => ?_⟩ <;>
    simp [Session.start, Session.unread, Framer.start]

theorem simulates_of_notMem {f : Framer UInt8} (hsim : Simulates s f)
    (hrunning : s.stopped = false) (hnul : 0 ∉ s.unread ++ r.data)
    (hmem : lineFeed ∉ s.unread ++ r.data) :
    Simulates (s.handleRead md5Uuid r hfit) (f.feed lineFeed fails r.data) := by
  have hpending := hsim.pending hrunning
  have hclean := hsim.clean hrunning
  have hnone : lineFeed ∉ f.pending ++ r.data := by
    rw [hpending, List.append_assoc, List.mem_append]
    exact not_or.mpr ⟨hclean, hmem⟩
  rw [Session.handleRead_of_notMem hnul hmem, Framer.feed_of_notMem hnone]
  refine ⟨hsim.handled, hsim.stopped, fun _ => ?_, fun _ => ?_, fun _ => ?_⟩
  · simp [Session.unread, hpending]
  · rw [List.mem_append]
    exact not_or.mpr ⟨hclean, hmem⟩
  · simp [Session.unread]

theorem simulates_of_line {f : Framer UInt8} (hsim : Simulates s f)
    (hrunning : s.stopped = false) (hnul : 0 ∉ s.unread ++ r.data)
    (hcontents : s.unread ++ r.data = first ++ lineFeed :: rest) (hfirst : lineFeed ∉ first) :
    Simulates (s.handleRead md5Uuid r hfit) (f.feed lineFeed fails r.data) := by
  have hsplit : f.pending ++ r.data = (s.line ++ first) ++ lineFeed :: rest := by
    rw [hsim.pending hrunning, List.append_assoc, hcontents, List.append_assoc]
  have hline : lineFeed ∉ s.line ++ first := by
    rw [List.mem_append]
    exact not_or.mpr ⟨hsim.clean hrunning, hfirst⟩
  obtain ⟨buffer, remaining, hremaining, hrest, hread⟩ :=
    Session.handleRead_of_line md5Uuid hfit hnul hcontents hfirst
  obtain ⟨hhandled, hfails, hunread, hempty⟩ :=
    s.endLine_spec md5Uuid r.now (s.line ++ first) buffer hremaining
  rw [hread, Framer.feed_of_line (hsim.stopped.trans hrunning) hsplit hline]
  refine ⟨?_, hfails.symm, fun hgoes => ?_, fun hgoes => ?_, fun _ => ?_⟩
  · rw [hhandled, hsim.handled]
  · rw [hempty (hfails.symm.trans hgoes), hunread, hrest, List.nil_append]
  · rw [hempty (hfails.symm.trans hgoes)]
    exact List.not_mem_nil
  · rw [hunread, hrest]
    rw [hcontents] at hnul
    exact fun hmem => hnul (List.mem_append_right _ (List.mem_cons_of_mem _ hmem))

theorem simulates_handleRead {f : Framer UInt8} (hsim : Simulates s f)
    (hrunning : s.stopped = false) (hnul : 0 ∉ r.data) :
    Simulates (s.handleRead md5Uuid r hfit) (f.feed lineFeed fails r.data) := by
  have hcontents : 0 ∉ s.unread ++ r.data := by
    rw [List.mem_append]
    exact not_or.mpr ⟨hsim.noNul hrunning, hnul⟩
  rcases notMem_or_exists_line lineFeed (s.unread ++ r.data) with hmem | ⟨first, rest, heq, hfirst⟩
  · exact simulates_of_notMem hsim hrunning hcontents hmem
  · exact simulates_of_line hsim hrunning hcontents heq hfirst

theorem simulates_step {f : Framer UInt8} (hsim : Simulates s f)
    (hstep : step md5Uuid s r = some t) (hnul : 0 ∉ r.data) :
    Simulates t (f.feed lineFeed fails r.data) := by
  unfold step at hstep
  cases hstopped : s.stopped with
  | true =>
      rw [hstopped, if_pos rfl, Option.some.injEq] at hstep
      subst hstep
      rw [Framer.feed_of_stopped (hsim.stopped.trans hstopped)]
      refine ⟨hsim.handled, hsim.stopped, ?_, ?_, ?_⟩ <;> simp [hstopped]
  | false =>
      rw [hstopped, if_neg (by simp)] at hstep
      split at hstep
      · cases hstep
        exact simulates_handleRead hsim hstopped hnul
      · cases hstep

/-- The bytes of the reads. -/
def stream (reads : List Read) : Bytes :=
  (reads.map Read.data).flatten

theorem simulates_exec {buffer : Buffer} {reads : List Read}
    (hexec : (machine md5Uuid buffer).exec (Session.start buffer) reads = some s)
    (hnul : 0 ∉ stream reads) :
    Simulates s ((reads.map Read.data).foldl (Framer.feed lineFeed fails) Framer.start) := by
  refine Machine.exec_induction (M := machine md5Uuid buffer) (P := fun reads s =>
    0 ∉ stream reads →
      Simulates s ((reads.map Read.data).foldl (Framer.feed lineFeed fails) Framer.start))
    (fun _ => simulates_start buffer) ?_ hexec hnul
  intro done s r t _ ih hstep hnul
  simp only [stream, List.map_append, List.flatten_append, List.mem_append, not_or] at hnul
  rw [List.map_append, List.foldl_append]
  exact simulates_step (ih hnul.1) hstep (by simpa using hnul.2)

/-! ## When all lines are handled -/

/-- The session has called `handle_line` for all the lines of the stream, each
once and in order, exactly when the reads at the end bring no more line feeds than
there are reads, and `handle_line` returns for every line but the last. -/
theorem framing_iff (md5Uuid : Bytes → Bytes) (buffer : Buffer) (reads : List Read) (s : Session)
    (hexec : (machine md5Uuid buffer).exec (Session.start buffer) reads = some s)
    (hnul : 0 ∉ stream reads) :
    s.handled = lines lineFeed (stream reads) ↔
      (∀ n, (stream (reads.drop n)).count lineFeed ≤ (reads.drop n).length) ∧
        ∀ line ∈ (lines lineFeed (stream reads)).dropLast, fails line = false := by
  have hsim := simulates_exec hexec hnul
  have hiff := Framer.handled_eq_lines_iff lineFeed fails (reads.map Read.data)
  rw [hsim.handled] at hiff
  simpa [stream, List.map_drop] using hiff

/-! ## Where the bytes are -/

/-- Where `async_read_some` is to put the bytes, and how many at most. -/
structure ReadRequest where
  offset : ℕ
  size : ℕ

/-- The read that `handle_read` asks for before it returns. -/
def Session.nextRead (s : Session) : ReadRequest where
  offset := s.remaining
  size := s.maxBytesToRead

/-- Once `handle_read` has returned, the bytes received are the lines handled,
`line_` and the front of the buffer, in this order, and there is room for the next
read behind them. -/
theorem received_eq_handled_line_unread (md5Uuid : Bytes → Bytes) (buffer : Buffer)
    (reads : List Read) (s : Session)
    (hexec : (machine md5Uuid buffer).exec (Session.start buffer) reads = some s)
    (hnul : 0 ∉ stream reads) (hreturned : s.stopped = false) :
    terminated lineFeed s.handled ++ s.line ++ s.buffer.val.take s.remaining = stream reads ∧
      lineFeed ∉ s.line ∧ s.remaining < maxLength ∧
      s.nextRead.offset = s.remaining ∧ 1 ≤ s.nextRead.size ∧
      s.nextRead.offset + s.nextRead.size ≤ maxLength := by
  have hsim := simulates_exec hexec hnul
  have htext := (Framer.accounts_foldl lineFeed fails (reads.map Read.data)).text
  rw [hsim.handled, hsim.pending hreturned, ← List.append_assoc] at htext
  have hlt := s.remaining_lt
  refine ⟨htext.symm, hsim.clean hreturned, hlt, rfl, ?_, ?_⟩ <;>
    simp only [Session.nextRead, Session.maxBytesToRead] <;> omega

/-! ## One stream, two ways to cut it -/

theorem exists_step (md5Uuid : Bytes → Bytes) (s : Session) (r : Read) (hpos : 0 < r.data.length)
    (hfits : r.data.length ≤ s.maxBytesToRead) : ∃ t, step md5Uuid s r = some t := by
  unfold step
  split
  · exact ⟨s, rfl⟩
  · rw [dif_pos ⟨hpos, hfits⟩]
    exact ⟨_, rfl⟩

/-- Every byte on its own. -/
def byteReads (text : Bytes) : List Read :=
  text.map fun c => ⟨[c], 0⟩

/-- There is always room for a byte. -/
theorem exists_exec_byteReads (md5Uuid : Bytes → Bytes) (buffer : Buffer) (text : Bytes)
    (s : Session) :
    ∃ t, (machine md5Uuid buffer).exec s (byteReads text) = some t := by
  induction text generalizing s with
  | nil => exact ⟨s, rfl⟩
  | cons c rest ih =>
      have hroom : 1 ≤ s.maxBytesToRead := by
        have hlt := s.remaining_lt
        unfold Session.maxBytesToRead
        omega
      obtain ⟨u, hstep⟩ := exists_step md5Uuid s ⟨[c], 0⟩ Nat.one_pos hroom
      obtain ⟨t, hexec⟩ := ih u
      exact ⟨t, Machine.exec_cons hstep hexec⟩

theorem stream_byteReads_drop (text : Bytes) (n : ℕ) :
    stream ((byteReads text).drop n) = text.drop n := by
  induction text generalizing n with
  | nil => simp [byteReads, stream]
  | cons c rest ih =>
      cases n with
      | zero => simpa [byteReads, stream] using ih 0
      | succ n => simpa [byteReads] using ih n

/-- Two short lines. -/
def twoLines : Bytes := bytes "a\nb\n"

def zeroBuffer : Buffer := ⟨List.replicate maxLength 0, List.length_replicate⟩

/-- Byte by byte, both lines are handled. -/
theorem twoLines_by_bytes :
    ∃ s, (machine uuidOfMd5 zeroBuffer).exec (Session.start zeroBuffer) (byteReads twoLines) =
        some s ∧
      s.handled = lines lineFeed (stream (byteReads twoLines)) := by
  obtain ⟨s, hexec⟩ := exists_exec_byteReads uuidOfMd5 zeroBuffer twoLines
    (Session.start zeroBuffer)
  refine ⟨s, hexec, (framing_iff uuidOfMd5 zeroBuffer _ s hexec (by decide)).mpr ⟨?_, ?_⟩⟩
  · intro n
    rw [stream_byteReads_drop]
    refine List.count_le_length.trans ?_
    simp [byteReads]
  · decide +kernel

/-- After two lines that came byte by byte, all bytes are in the lines handled. -/
theorem twoLines_received :
    ∃ s, (machine uuidOfMd5 zeroBuffer).exec (Session.start zeroBuffer) (byteReads twoLines) =
        some s ∧
      terminated lineFeed s.handled ++ s.line ++ s.buffer.val.take s.remaining = twoLines := by
  obtain ⟨s, hexec⟩ := exists_exec_byteReads uuidOfMd5 zeroBuffer twoLines
    (Session.start zeroBuffer)
  have hnul : 0 ∉ stream (byteReads twoLines) := by decide
  have hreturned : s.stopped = false := by
    rw [← (simulates_exec hexec hnul).stopped]
    decide +kernel
  exact ⟨s, hexec,
    (received_eq_handled_line_unread uuidOfMd5 zeroBuffer _ s hexec hnul hreturned).1⟩

/-- In one read, the second line stays behind. -/
theorem twoLines_in_one_read :
    ¬ ∀ (md5Uuid : Bytes → Bytes) (buffer : Buffer) (reads : List Read) (s : Session),
        (machine md5Uuid buffer).exec (Session.start buffer) reads = some s →
        0 ∉ stream reads → s.handled = lines lineFeed (stream reads) := by
  intro hall
  obtain ⟨s, hstep⟩ := exists_step uuidOfMd5 (Session.start zeroBuffer) ⟨twoLines, 0⟩ (by decide)
    (by decide)
  have hexec : (machine uuidOfMd5 zeroBuffer).exec (Session.start zeroBuffer) [⟨twoLines, 0⟩] =
      some s := Machine.exec_cons hstep rfl
  have hnul : 0 ∉ stream [⟨twoLines, 0⟩] := by decide
  have hhandled : s.handled = [bytes "a"] := by
    rw [← (simulates_exec hexec hnul).handled]
    decide +kernel
  have hlines := hall uuidOfMd5 zeroBuffer _ s hexec hnul
  rw [hhandled] at hlines
  revert hlines
  decide

end BbMonitor.DdLogProxy
