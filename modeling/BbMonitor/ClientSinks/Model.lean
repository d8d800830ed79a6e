import BbMonitor.Lib.Machine
import BbMonitor.Strings

/-!
# The client sinks

`bb_metric_sink`, `bb_log_sink` and `bb_intake_sink` run the same loop in
`_thread`: take a batch from `_queue` into `in_rpc`, send it, and either put the
batch back (the RPC failed) or hand it over to `_pending_for_delete`, which
`process` empties.  They differ in the batch size, and the metric sink drops the
oldest events of `_queue` while it waits for the next try.

The loop is modelled step by step.  Each step touches one of the two shared
queues at most once; `in_rpc`, the bundle and the event that is being moved
belong to the thread alone, so nothing is lost by moving an event from one queue
to another in a single step.  Upstream enqueues and the iterations of `process`
may come between any two steps.

Events are numbered in order of arrival.  The last fields of the state record
what happened and are read by no step.
-/

namespace BbMonitor.ClientSinks

/-! ## Data -/

/-- An event: its number, and the value of its record, which may be null. -/
structure Event (V : Type*) where
  arrival : ℕ
  value : Option V
deriving DecidableEq, Repr

/-- A value in a bundle, with the number of the event it was copied from. -/
abbrev Item (V : Type*) := ℕ × V

/-- What is added to the bundle for an event. -/
def Event.item {V : Type*} (e : Event V) : Option (Item V) :=
  e.value.map fun v => (e.arrival, v)

/-- Where the thread stands in its loop. -/
inductive Phase where
  -- At the head of `while (!_exit)`.
  | top
  -- After the test `_queue.size() > _max_queue`.
  | purgeSize
  -- In the purge loop, with the number of events still to drop.
  | purging (items : ℕ)
  -- In the loop that fills the bundle.
  | building
  -- Waiting for the RPC.
  | inFlight
  -- In the loop that puts the batch back.
  | puttingBack
  -- In the loop that hands events over to `_pending_for_delete`.
  | handingOver
  -- Behind the loop.
  | exited
deriving DecidableEq, Repr

structure State (V : Type*) where
  queue : List (Event V)
  inRpc : List (Event V)
  pendingForDelete : List (Event V)
  bundle : List (Item V)
  phase : Phase
  exit : Bool
  nextRetryAt : ℤ
  nextPurgeAt : ℤ
  -- All events, in order of arrival.
  enqueued : List (Event V)
  -- The events that `process` has released.
  released : List (Event V)
  -- The events that were purged.
  purged : List (Event V)
  -- The bundles whose RPC returned OK.
  delivered : List (List (Item V))
  -- The queue as it was when the current batch was begun, and what arrived since.
  taken : List (Event V)
deriving DecidableEq, Repr

/-- What the three sinks differ in. -/
structure Config where
  batchSize : ℕ
  -- `_max_queue`, for the sink that purges.
  maxQueue : Option ℤ

def bbMetricSink (maxQueue : ℤ) : Config := ⟨5000, some maxQueue⟩

def bbLogSink : Config := ⟨1000, none⟩

def bbIntakeSink : Config := ⟨1000, none⟩

variable {V : Type*}

def State.init : State V where
  queue := []
  inRpc := []
  pendingForDelete := []
  bundle := []
  phase := .top
  exit := false
  nextRetryAt := 0
  nextPurgeAt := 0
  enqueued := []
  released := []
  purged := []
  delivered := []
  taken := []

/-- `eof`: both queues that other threads can see are empty.  The source reads their sizes
one after the other; here both are read in one state. -/
def State.eof (s : State V) : Bool :=
  s.queue.length = 0 && s.pendingForDelete.length = 0

/-! ## Steps -/

/-- The steps, each named after the piece of code it is one round of. -/
inductive Action (V : Type*) where
  -- An upstream processor appends an event.
  | enqueue (value : Option V)
  -- One round of the loop in `process`.
  | process
  -- The destructor sets `_exit`.
  | setExit
  -- The head of the loop, up to the first bundle; the clock is read up to three times.
  | top (now₁ now₂ now₃ : ℤ)
  -- `items_to_purge = _queue.size() - _max_queue`.
  | countPurge
  -- One round of the purge loop.
  | purge
  -- One round of the loop that fills the bundle.
  | build
  -- The RPC returns.
  | outcome (ok : Bool)
  -- One round of the loop that puts the batch back; the clock is read after the last.
  | putBack (now : ℤ)
  -- One round of the loop that hands events over.
  | handOver
deriving DecidableEq, Repr

namespace State

variable (s : State V)

def enqueue (value : Option V) : State V :=
  let e : Event V := ⟨s.enqueued.length, value⟩
  { s with queue := s.queue ++ [e], enqueued := s.enqueued ++ [e], taken := s.taken ++ [e] }

def process : State V :=
  match s.pendingForDelete with
  | [] => s
  | e :: rest => { s with pendingForDelete := rest, released := s.released ++ [e] }

/-- The part of the loop that runs while a retry is due later.  Only the metric
sink has it. -/
def considerPurge (config : Config) (now₂ now₃ : ℤ) : State V :=
  match config.maxQueue with
  | none => s
  | some maxQueue =>
      if now₂ > s.nextPurgeAt then
        if s.queue.length > toSizeT maxQueue then
          { s with nextPurgeAt := now₃ + 10000, phase := .purgeSize }
        else { s with nextPurgeAt := now₃ + 10000 }
      else s

def top (config : Config) (now₁ now₂ now₃ : ℤ) : State V :=
  if s.exit then { s with phase := .exited }
  else if s.queue.isEmpty then s
  else if s.nextRetryAt > 0 ∧ now₁ < s.nextRetryAt then s.considerPurge config now₂ now₃
  else { s with nextRetryAt := 0, bundle := [], phase := .building, taken := s.queue }

def countPurge (config : Config) : State V :=
  { s with phase := .purging (s.queue.length - toSizeT (config.maxQueue.getD 0)) }

/-- A round of the purge loop with `items` events to go.  There is always one
in the queue then, by `purge_isSome`. -/
def purge (items : ℕ) : Option (State V) :=
  match items, s.queue with
  | 0, _ => some { s with phase := .top }
  | _ + 1, [] => none
  | items + 1, e :: rest =>
      some { s with queue := rest, purged := s.purged ++ [e], phase := .purging items }

/-- `if (bundle.metrics_size() > 0)`. -/
def endBuild : State V :=
  if s.bundle.length > 0 then { s with phase := .inFlight } else { s with phase := .top }

def build (config : Config) : State V :=
  match s.queue with
  | e :: rest =>
      if s.bundle.length < config.batchSize then
        { s with queue := rest, inRpc := s.inRpc ++ [e],
                 bundle := s.bundle ++ e.item.toList }
      else s.endBuild
  | [] => s.endBuild

def outcome (ok : Bool) : State V :=
  if ok then { s with phase := .handingOver, delivered := s.delivered ++ [s.bundle] }
  else { s with phase := .puttingBack }

/-- `_queue.push_front(in_rpc.pop_front_and_get())`. -/
def putBack (now : ℤ) : State V :=
  match s.inRpc with
  | e :: rest => { s with inRpc := rest, queue := e :: s.queue }
  | [] => { s with nextRetryAt := now + 60000, phase := .handingOver }

def handOver : State V :=
  match s.inRpc with
  | e :: rest => { s with inRpc := rest, pendingForDelete := s.pendingForDelete ++ [e] }
  | [] => { s with phase := .top }

end State

def step (config : Config) (s : State V) : Action V → Option (State V)
  | .enqueue value => some (s.enqueue value)
  | .process => some s.process
  | .setExit => some { s with exit := true }
  | .top now₁ now₂ now₃ => if s.phase = .top then some (s.top config now₁ now₂ now₃) else none
  | .countPurge => if s.phase = .purgeSize then some (s.countPurge config) else none
  | .purge =>
      match s.phase with
      | .purging items => s.purge items
      | _ => none
  | .build => if s.phase = .building then some (s.build config) else none
  | .outcome ok => if s.phase = .inFlight then some (s.outcome ok) else none
  | .putBack now => if s.phase = .puttingBack then some (s.putBack now) else none
  | .handOver => if s.phase = .handingOver then some s.handOver else none

def machine (V : Type*) (config : Config) : Machine (State V) (Action V) where
  init := State.init
  step := step config

end BbMonitor.ClientSinks
