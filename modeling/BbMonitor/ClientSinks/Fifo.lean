import BbMonitor.ClientSinks.Conservation

/-!
# Order of arrival

The loop that puts a failed batch back moves the events one at a time from the
front of `in_rpc` to the front of `_queue`, so the batch ends up reversed.  With
a single event there is nothing to reverse, and then everything is in order:
what waits, what is delivered and what is purged.

`fifo_iff` makes this an equivalence for every run.  The direction that finds
the disorder looks at one step: moving the first of two events behind the other
puts them in the wrong order at once.  For the other direction the invariant is
`InOrder`; its field `batch` remembers what a batch was taken from, up to null
events that were left in `in_rpc` by earlier rounds.
-/

namespace BbMonitor.ClientSinks

variable {V : Type*} {config : Config} {s t u : State V} {a : Action V}

/-- The events are in order of arrival. -/
def Ordered (events : List (Event V)) : Prop :=
  events.Pairwise fun e e' => e.arrival < e'.arrival

/-- First in, first out. -/
structure Fifo (s : State V) : Prop where
  -- what waits is in order of arrival
  waiting : Ordered (s.inRpc ++ s.queue)
  -- a failed batch has been put back where it was
  restored : s.phase = .puttingBack → s.inRpc = [] → s.queue = s.taken
  -- the bundles are delivered in order of arrival
  delivered : s.delivered.flatten.Pairwise fun x y => x.1 < y.1
  -- the oldest events are purged
  purged : ∀ e ∈ s.purged, ∀ e' ∈ s.inRpc ++ s.queue, e.arrival < e'.arrival

/-! ## The invariant -/

/-- The events that have not been delivered. -/
def State.ahead (s : State V) : List (Event V) :=
  if s.phase = .handingOver then s.queue else s.inRpc ++ s.queue

/-- The events in `in_rpc` and `_queue` are those the batch was taken from, behind
null events that earlier rounds left. -/
def State.TakenFrom (s : State V) : Prop :=
  ∃ left : List (Event V), (∀ e ∈ left, e.value = none) ∧ s.inRpc ++ s.queue = left ++ s.taken

/-- Where the current batch came from, by where the thread stands. -/
def State.Batch (s : State V) : Prop :=
  match s.phase with
  | .building => s.TakenFrom
  | .inFlight => s.TakenFrom ∧ ∃ e ∈ s.inRpc, e.value ≠ none
  | .puttingBack =>
      (s.inRpc = [] ∧ s.queue = s.taken) ∨ (s.TakenFrom ∧ ∃ e ∈ s.inRpc, e.value ≠ none)
  | _ => True

/-- The invariant of the runs that never reverse a batch. -/
structure InOrder (s : State V) : Prop where
  waiting : Ordered (s.inRpc ++ s.queue)
  purged : ∀ e ∈ s.purged, ∀ e' ∈ s.inRpc ++ s.queue, e.arrival < e'.arrival
  delivered : s.delivered.flatten.Pairwise fun x y => x.1 < y.1
  ahead : ∀ x ∈ s.delivered.flatten, ∀ e ∈ s.ahead, x.1 < e.arrival
  batch : s.Batch

theorem InOrder.fifo (horder : InOrder s) : Fifo s := by
  refine ⟨horder.waiting, ?_, horder.delivered, horder.purged⟩
  intro hphase hempty
  have hbatch := horder.batch
  simp only [State.Batch, hphase] at hbatch
  rcases hbatch with ⟨-, hqueue⟩ | ⟨-, e, hmem, -⟩
  · exact hqueue
  · rw [hempty] at hmem
    cases hmem

theorem inOrder_init : InOrder (State.init : State V) := by
  refine ⟨List.Pairwise.nil, ?_, List.Pairwise.nil, ?_, trivial⟩
  · intro e hmem
    cases hmem
  · intro x hmem
    cases hmem

/-- A step that keeps what waits, what is purged and what is delivered keeps the
order, if it leaves the batch well described. -/
theorem InOrder.keep (horder : InOrder s) (hwaiting : u.inRpc ++ u.queue = s.inRpc ++ s.queue)
    (hpurged : u.purged = s.purged) (hdelivered : u.delivered = s.delivered)
    (hahead : ∀ e ∈ u.ahead, e ∈ s.ahead) (hbatch : u.Batch) : InOrder u := by
  refine ⟨?_, ?_, ?_, ?_, hbatch⟩
  · rw [hwaiting]
    exact horder.waiting
  · rw [hwaiting, hpurged]
    exact horder.purged
  · rw [hdelivered]
    exact horder.delivered
  · rw [hdelivered]
    intro x hx e he
    exact horder.ahead x hx e (hahead e he)

/-! ## New events are younger than all others -/

theorem arrival_lt_of_mem_places (hcons : Conserved s) {e : Event V} (hmem : e ∈ s.places) :
    e.arrival < s.enqueued.length := by
  have hnumber : e.arrival ∈ s.enqueued.map Event.arrival :=
    List.mem_map_of_mem (hcons.perm.mem_iff.mp hmem)
  rw [hcons.numbered] at hnumber
  exact List.mem_range.mp hnumber

theorem arrival_lt_of_delivered (hreach : (machine V config).Reachable s) {x : Item V}
    (hx : x ∈ s.delivered.flatten) : x.1 < s.enqueued.length := by
  obtain ⟨bundle, hbundle, hmem⟩ := List.mem_flatten.mp hx
  obtain ⟨e, hhandled, he⟩ := deliveredFromHandled_of_reachable hreach bundle hbundle x hmem
  rw [← item_arrival he]
  refine arrival_lt_of_mem_places (conserved_of_reachable hreach) ?_
  simp only [State.handled, State.places, List.mem_append] at hhandled ⊢
  split at hhandled
  · tauto
  · simp only [List.not_mem_nil, or_false] at hhandled
    tauto

theorem ordered_concat {events : List (Event V)} {e : Event V} (hordered : Ordered events)
    (hyoung : ∀ e' ∈ events, e'.arrival < e.arrival) : Ordered (events ++ [e]) := by
  refine List.pairwise_append.mpr ⟨hordered, List.pairwise_singleton _ _, ?_⟩
  intro e' hmem x hx
  rw [List.mem_singleton.mp hx]
  exact hyoung e' hmem

theorem ahead_enqueue (s : State V) (value : Option V) :
    (s.enqueue value).ahead = s.ahead ++ [⟨s.enqueued.length, value⟩] := by
  by_cases hphase : s.phase = .handingOver <;> simp [State.ahead, State.enqueue, hphase]

theorem TakenFrom.enqueue (hfrom : s.TakenFrom) (value : Option V) :
    (s.enqueue value).TakenFrom := by
  obtain ⟨left, hnull, heq⟩ := hfrom
  refine ⟨left, hnull, ?_⟩
  simp only [State.enqueue]
  rw [← List.append_assoc, heq, List.append_assoc]

theorem inOrder_enqueue (hreach : (machine V config).Reachable s) (horder : InOrder s)
    (value : Option V) : InOrder (s.enqueue value) := by
  have hcons := conserved_of_reachable hreach
  have hwaiting : (s.enqueue value).inRpc ++ (s.enqueue value).queue =
      (s.inRpc ++ s.queue) ++ [⟨s.enqueued.length, value⟩] := by
    simp [State.enqueue]
  have hyoung : ∀ e ∈ s.inRpc ++ s.queue, e.arrival < s.enqueued.length := by
    intro e hmem
    refine arrival_lt_of_mem_places hcons ?_
    rcases List.mem_append.mp hmem with h | h <;> simp [State.places, h]
  refine ⟨?_, ?_, horder.delivered, ?_, ?_⟩
  · rw [hwaiting]
    exact ordered_concat horder.waiting hyoung
  · rw [hwaiting]
    intro e hmem e' hmem'
    rcases List.mem_append.mp hmem' with hold | hnew
    · exact horder.purged e hmem e' hold
    · rw [List.mem_singleton.mp hnew]
      exact arrival_lt_of_mem_places hcons (List.mem_append_right _ hmem)
  · rw [ahead_enqueue]
    intro x hx e he
    rcases List.mem_append.mp he with hold | hnew
    · exact horder.ahead x hx e hold
    · rw [List.mem_singleton.mp hnew]
      exact arrival_lt_of_delivered hreach hx
  · have hbatch := horder.batch
    have hphase : (s.enqueue value).phase = s.phase := rfl
    cases hcases : s.phase with
    | building =>
        simp only [State.Batch, hphase, hcases] at hbatch ⊢
        exact TakenFrom.enqueue hbatch value
    | inFlight =>
        simp only [State.Batch, hphase, hcases] at hbatch ⊢
        exact ⟨TakenFrom.enqueue hbatch.1 value, hbatch.2⟩
    | puttingBack =>
        simp only [State.Batch, hphase, hcases] at hbatch ⊢
        rcases hbatch with ⟨hempty, hqueue⟩ | ⟨hfrom, hvalue⟩
        · exact Or.inl ⟨hempty, by simp [State.enqueue, hqueue]⟩
        · exact Or.inr ⟨TakenFrom.enqueue hfrom value, hvalue⟩
    | _ => simp only [State.Batch, hphase, hcases]

/-! ## One step -/

/-- The values of ordered events are ordered. -/
theorem pairwise_filterMap_item {events : List (Event V)} (hordered : Ordered events) :
    (events.filterMap Event.item).Pairwise fun x y => x.1 < y.1 := by
  refine List.pairwise_filterMap.mpr (hordered.imp fun {e e'} hlt x hx y hy => ?_)
  rw [← item_arrival hx, ← item_arrival hy]
  exact hlt

theorem inOrder_succeed (hset : Settlement s) (horder : InOrder s) (hphase : s.phase = .inFlight) :
    InOrder { s with phase := .handingOver, delivered := s.delivered ++ [s.bundle] } := by
  have hbundle : s.bundle = s.inRpc.filterMap Event.item := by
    have hmatches := hset.inRpc
    simp only [State.InRpcMatches, hphase] at hmatches
    exact hmatches.1
  have hsplit := List.pairwise_append.mp horder.waiting
  have hahead : s.ahead = s.inRpc ++ s.queue := by simp [State.ahead, hphase]
  have hflatten : (s.delivered ++ [s.bundle]).flatten = s.delivered.flatten ++ s.bundle := by
    simp
  refine ⟨horder.waiting, horder.purged, ?_, ?_, trivial⟩
  · rw [hflatten]
    refine List.pairwise_append.mpr ⟨horder.delivered, ?_, ?_⟩
    · rw [hbundle]
      exact pairwise_filterMap_item hsplit.1
    · intro x hx y hy
      rw [hbundle] at hy
      obtain ⟨e, hmem, hitem⟩ := List.mem_filterMap.mp hy
      rw [← item_arrival hitem]
      exact horder.ahead x hx e (by simp [hahead, hmem])
  · rw [hflatten]
    intro x hx e he
    have hqueue : e ∈ s.queue := by simpa [State.ahead] using he
    rcases List.mem_append.mp hx with hold | hnew
    · exact horder.ahead x hold e (by simp [hahead, hqueue])
    · rw [hbundle] at hnew
      obtain ⟨e', hmem, hitem⟩ := List.mem_filterMap.mp hnew
      rw [← item_arrival hitem]
      exact hsplit.2.2 e' hmem e hqueue

/-- Putting back the only event restores the queue. -/
theorem inOrder_putBackOne (horder : InOrder s) (hphase : s.phase = .puttingBack)
    {e : Event V} (hinRpc : s.inRpc = [e]) :
    InOrder { s with inRpc := [], queue := e :: s.queue } := by
  refine horder.keep (by simp [hinRpc]) rfl rfl ?_ ?_
  · intro e' he'
    simpa [State.ahead, hphase, hinRpc] using he'
  · have hbatch := horder.batch
    simp only [State.Batch, hphase] at hbatch ⊢
    refine Or.inl ⟨trivial, ?_⟩
    rcases hbatch with ⟨hempty, -⟩ | ⟨⟨left, hnull, heq⟩, e', hmem, hvalue⟩
    · rw [hinRpc] at hempty
      cases hempty
    · have he' : e' = e := by simpa [hinRpc] using hmem
      subst he'
      -- the event has a value, so no null event was left before it
      cases left with
      | nil => simpa [hinRpc] using heq
      | cons first rest =>
          simp only [hinRpc, List.cons_append, List.nil_append, List.cons.injEq] at heq
          exact absurd (hnull first (List.mem_cons_self ..)) (heq.1 ▸ hvalue)

theorem inOrder_purgeOne (hset : Settlement s) (horder : InOrder s) {items : ℕ} {e : Event V}
    {rest : List (Event V)} (hphase : s.phase = .purging (items + 1))
    (hqueue : s.queue = e :: rest) :
    InOrder { s with queue := rest, purged := s.purged ++ [e], phase := .purging items } := by
  have hempty : s.inRpc = [] := by
    have hmatches := hset.inRpc
    simpa only [State.InRpcMatches, hphase] using hmatches
  have hordered : (e :: rest).Pairwise fun e e' => e.arrival < e'.arrival := by
    have hwaiting := horder.waiting
    rwa [hempty, hqueue, List.nil_append] at hwaiting
  rw [List.pairwise_cons] at hordered
  refine ⟨?_, ?_, horder.delivered, ?_, trivial⟩
  · show Ordered (s.inRpc ++ rest)
    rw [hempty]
    exact hordered.2
  · intro e' hmem e'' hmem''
    have hrest : e'' ∈ rest := by simpa [hempty] using hmem''
    rcases List.mem_append.mp hmem with hold | hnew
    · exact horder.purged e' hold e'' (by simp [hempty, hqueue, hrest])
    · rw [List.mem_singleton.mp hnew]
      exact hordered.1 e'' hrest
  · intro x hx e' he'
    have hrest : e' ∈ rest := by simpa [State.ahead, hempty] using he'
    exact horder.ahead x hx e' (by simp [State.ahead, hphase, hempty, hqueue, hrest])

theorem inOrder_handOverOne (horder : InOrder s) (hphase : s.phase = .handingOver) {e : Event V}
    {rest : List (Event V)} (hinRpc : s.inRpc = e :: rest) :
    InOrder { s with inRpc := rest, pendingForDelete := s.pendingForDelete ++ [e] } := by
  have hsub : ∀ e', e' ∈ rest ++ s.queue → e' ∈ s.inRpc ++ s.queue := by
    intro e' hmem
    rw [hinRpc]
    exact List.mem_cons_of_mem _ hmem
  refine ⟨?_, ?_, horder.delivered, ?_, ?_⟩
  · have hwaiting := horder.waiting
    rw [hinRpc] at hwaiting
    exact (List.pairwise_cons.mp hwaiting).2
  · intro e' hmem e'' hmem''
    exact horder.purged e' hmem e'' (hsub e'' hmem'')
  · intro x hx e' he'
    refine horder.ahead x hx e' ?_
    simpa [State.ahead, hphase] using he'
  · simp only [State.Batch, hphase]

theorem inOrder_step (hreach : (machine V config).Reachable s) (horder : InOrder s)
    (hgood : ∀ now, a = .putBack now → s.inRpc.length ≤ 1) (hstep : Step config s a t) :
    InOrder t := by
  have hset := settlement_of_reachable hreach
  have hmatches := hset.inRpc
  have hbatch := horder.batch
  cases hstep with
  | enqueue value => exact inOrder_enqueue hreach horder value
  | purgeOne hphase hqueue => exact inOrder_purgeOne hset horder hphase hqueue
  | succeed hphase => exact inOrder_succeed hset horder hphase
  | handOverOne hphase hinRpc => exact inOrder_handOverOne horder hphase hinRpc
  | @putBackOne now e rest hphase hinRpc =>
      have hlength := hgood now rfl
      have hrest : rest = [] := by
        rw [hinRpc, List.length_cons] at hlength
        exact List.length_eq_zero_iff.mp (by omega)
      subst hrest
      exact inOrder_putBackOne horder hphase hinRpc
  | beginBatch hphase =>
      refine horder.keep rfl rfl rfl (fun e he => ?_) ?_
      · simpa [State.ahead, hphase] using he
      · simp only [State.InRpcMatches, hphase] at hmatches
        exact ⟨s.inRpc, hmatches.1, rfl⟩
  | take hphase hqueue =>
      refine horder.keep (by simp [hqueue]) rfl rfl (fun e he => ?_) ?_
      · simpa [State.ahead, hphase, hqueue] using he
      · simp only [State.Batch, hphase] at hbatch ⊢
        obtain ⟨left, hnull, heq⟩ := hbatch
        exact ⟨left, hnull, by simpa [hqueue] using heq⟩
  | send hphase hbundle =>
      refine horder.keep rfl rfl rfl (fun e he => ?_) ?_
      · simpa [State.ahead, hphase] using he
      · simp only [State.Batch, hphase] at hbatch
        simp only [State.InRpcMatches, hphase] at hmatches
        refine ⟨hbatch, ?_⟩
        -- a bundle that is not empty has a value from `in_rpc`
        by_contra hnone
        push Not at hnone
        have hempty : s.bundle = [] := by
          rw [hmatches.1, List.filterMap_eq_nil_iff]
          exact fun e hmem => item_eq_none.mpr (hnone e hmem)
        rw [hempty] at hbundle
        cases hbundle
  | fail hphase =>
      refine horder.keep rfl rfl rfl (fun e he => ?_) ?_
      · simpa [State.ahead, hphase] using he
      · simp only [State.Batch, hphase] at hbatch
        exact Or.inr hbatch
  | countPurge hphase =>
      exact horder.keep rfl rfl rfl
        (fun e he => by simpa [State.ahead, State.countPurge, hphase] using he) trivial
  | leave hphase | beginPurge hphase | purgeDone hphase | skip hphase =>
      exact horder.keep rfl rfl rfl (fun e he => by simpa [State.ahead, hphase] using he) trivial
  | putBackDone hphase hinRpc | handOverDone hphase hinRpc =>
      exact horder.keep rfl rfl rfl
        (fun e he => by simpa [State.ahead, hphase, hinRpc] using he) trivial
  | _ => exact horder.keep rfl rfl rfl (fun _ he => he) hbatch

/-! ## The statement -/

/-- Putting back the first of two events puts them in the wrong order. -/
theorem length_le_one_of_ordered {now : ℤ} (hbefore : Ordered (s.inRpc ++ s.queue))
    (hafter : Ordered (t.inRpc ++ t.queue)) (hstep : Step config s (.putBack now) t) :
    s.inRpc.length ≤ 1 := by
  cases hstep with
  | putBackDone _ hempty => simp [hempty]
  | @putBackOne _ e rest _ hinRpc =>
      cases rest with
      | nil => simp [hinRpc]
      | cons e' rest =>
          rw [hinRpc] at hbefore
          have hlt := (List.pairwise_cons.mp hbefore).1 e' (by simp)
          have hgt := (List.pairwise_cons.mp hafter).1 e (by simp)
          omega

/-- A run keeps first in, first out in all the states it visits exactly when it
puts no event back while `in_rpc` holds more than one. -/
theorem fifo_iff (config : Config) (actions : List (Action V)) :
    (∀ s, (machine V config).Visits actions s → Fifo s) ↔
      ∀ s now t, (machine V config).Takes actions s (.putBack now) t → s.inRpc.length ≤ 1 := by
  constructor
  · intro hfifo s now t htakes
    have hbefore := hfifo s htakes.visits_before
    have hafter := hfifo t htakes.visits_after
    obtain ⟨_, _, _, hstep⟩ := htakes
    have hbranch : Step config s (.putBack now) t := step_branches hstep
    exact length_le_one_of_ordered hbefore.waiting hafter.waiting hbranch
  · intro hgood s hvisits
    refine InOrder.fifo (Machine.visits_of_guarded
      (G := fun s a => ∀ now, a = .putBack now → s.inRpc.length ≤ 1) inOrder_init ?_ ?_ hvisits)
    · intro s a t hreach horder hlength hstep
      have hbranch : Step config s a t := step_branches hstep
      exact inOrder_step hreach horder hlength hbranch
    · rintro s a t htakes now rfl
      exact hgood s now t htakes

/-! ## A batch of two is reversed -/

/-- Two events are sent, the RPC fails and they are put back. -/
def reversedBatch : List (Action ℕ) :=
  [.enqueue (some 5), .enqueue (some 6), .top 0 0 0, .build, .build, .build, .outcome false,
    .putBack 0, .putBack 0]

theorem exec_reversedBatch :
    ∀ config ∈ [bbMetricSink 1000, bbLogSink, bbIntakeSink],
      ((machine ℕ config).exec State.init reversedBatch).map (fun s => (s.inRpc, s.queue)) =
        some ([], [⟨1, some 6⟩, ⟨0, some 5⟩]) := by
  decide

theorem not_fifo_of_reversed {actions : List (Action ℕ)}
    (hrun : ((machine ℕ config).exec State.init actions).map (fun s => (s.inRpc, s.queue)) =
      some ([], [⟨1, some 6⟩, ⟨0, some 5⟩])) :
    ¬ ∀ s, (machine ℕ config).Visits actions s → Fifo s := by
  intro hfifo
  obtain ⟨s, hexec, hstate⟩ := Option.map_eq_some_iff.mp hrun
  obtain ⟨hinRpc, hqueue⟩ := Prod.mk.inj hstate
  have hwaiting := (hfifo s (Machine.visits_of_exec hexec)).waiting
  rw [hinRpc, hqueue] at hwaiting
  simp [Ordered] at hwaiting

/-- After the batch has been put back the younger event comes first, in each of
the three sinks. -/
theorem reversedBatch_not_fifo :
    (¬ ∀ s, (machine ℕ (bbMetricSink 1000)).Visits reversedBatch s → Fifo s) ∧
      (¬ ∀ s, (machine ℕ bbLogSink).Visits reversedBatch s → Fifo s) ∧
      ¬ ∀ s, (machine ℕ bbIntakeSink).Visits reversedBatch s → Fifo s := by
  refine ⟨not_fifo_of_reversed ?_, not_fifo_of_reversed ?_, not_fifo_of_reversed ?_⟩ <;>
    exact exec_reversedBatch _ (by simp)

end BbMonitor.ClientSinks
