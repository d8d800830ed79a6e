import BbMonitor.IngestionServer.Dispatch

/-!
# The life cycle of the unary handlers

While the server runs, each method has one handler that waits for the next call.
A call is replied to in the round in which it arrives, records are pushed for it
only if its credentials get a sink, and its handler is deleted in the round in
which the reply has gone out, successfully or not.

`life_cycle` is about the states between two rounds of the loop: within a round a
method has no waiting handler until the successor is constructed.
-/

namespace BbMonitor.IngestionServer

open Ingestion Authorizer

variable {labels : Labels} {actions : List Action} {s t : State}

/-! ## One waiting handler for each method -/

/-- The handler is in `START`. -/
def State.Starting (s : State) (method : SinkKind) (id : ℕ) : Prop :=
  ∃ h, s.heap id = some h ∧ h.method = method ∧ h.status = .start

/-- The handler is in `START` and waits for a call. -/
def State.Armed (s : State) (method : SinkKind) (id : ℕ) : Prop :=
  s.Starting method id ∧ (id, .request) ∈ s.pending

theorem State.Staged.armed_of_starting (hstaged : s.Staged) {method : SinkKind} {id : ℕ}
    (hstarting : s.Starting method id) : s.Armed method id := by
  refine ⟨hstarting, ?_⟩
  obtain ⟨h, hheap, -, hstatus⟩ := hstarting
  obtain ⟨stage, hat⟩ := hstaged id
  have hstage : stage = .armed := by
    have hfound := hat.status
    rw [hheap, Option.map_some, hstatus] at hfound
    cases stage <;> simp [Stage.status] at hfound ⊢
  have hcount := hat.pending .request
  rw [hstage] at hcount
  apply List.count_pos_iff.mp
  rw [hcount]
  decide

theorem starting_construct (hfree : s.heap s.constructed = none) (method method' : SinkKind)
    (id : ℕ) : (s.construct method).Starting method' id ↔
      (id = s.constructed ∧ method = method') ∨ s.Starting method' id := by
  unfold State.Starting State.construct
  by_cases hid : id = s.constructed
  · simp [hid, hfree]
  · simp [hid]

theorem starting_init (labels : Labels) (method : SinkKind) :
    ∃! id, (State.init labels).Starting method id := by
  have hempty : ∀ id, ¬ (State.blank labels).Starting method id := by
    rintro id ⟨h, hheap, -⟩
    cases hheap
  have hstarting : ∀ id, (State.init labels).Starting method id ↔
      (id = 2 ∧ SinkKind.log = method) ∨ (id = 1 ∧ SinkKind.intake = method) ∨
        (id = 0 ∧ SinkKind.metrics = method) := by
    intro id
    rw [State.init, starting_construct rfl, starting_construct rfl, starting_construct rfl,
      or_iff_left (hempty id)]
    rfl
  simp only [hstarting]
  cases method with
  | metrics => exact ⟨0, by simp, by simp⟩
  | log => exact ⟨2, by simp, by simp⟩
  | intake => exact ⟨1, by simp, by simp⟩

/-- When a handler has got its call, its successor waits in its place. -/
theorem starting_request {id : ℕ} {h : Handler} (hstaged : s.Staged) (hat : s.At id .armed)
    (hheap : s.heap id = some h) {method : SinkKind} (hone : ∃! id, s.Starting method id)
    {u : State} (hu : ∀ id', u.Starting method id' ↔
      id' ≠ id ∧ (s.construct h.method).Starting method id') :
    ∃! id, u.Starting method id := by
  obtain ⟨id₀, hstarting, hunique⟩ := hone
  have hfree : s.heap s.constructed = none :=
    Option.map_eq_none_iff.mp hstaged.at_constructed.status
  have hborn : id < s.constructed := hat.born.mpr (by simp)
  have hstatus : h.status = .start := by
    have hfound := hat.status
    rw [hheap] at hfound
    exact Option.some.inj hfound
  have hid : s.Starting h.method id := ⟨h, hheap, rfl, hstatus⟩
  simp only [starting_construct hfree] at hu
  by_cases hmethod : h.method = method
  · refine ⟨s.constructed, (hu _).mpr ⟨by omega, Or.inl ⟨rfl, hmethod⟩⟩, ?_⟩
    intro id' hid'
    obtain ⟨hne, ⟨hnew, -⟩ | hold⟩ := (hu id').mp hid'
    · exact hnew
    · have hsame : id = id₀ := hunique id (hmethod ▸ hid)
      exact absurd (hunique id' hold) (hsame ▸ hne)
  · have hne : id₀ ≠ id := by
      intro hsame
      obtain ⟨h', hheap', hmethod', -⟩ := hstarting
      rw [hsame, hheap, Option.some.injEq] at hheap'
      exact hmethod (hheap' ▸ hmethod')
    refine ⟨id₀, (hu id₀).mpr ⟨hne, Or.inr hstarting⟩, ?_⟩
    intro id' hid'
    obtain ⟨-, ⟨-, hsame⟩ | hold⟩ := (hu id').mp hid'
    · exact absurd hsame hmethod
    · exact hunique id' hold

theorem starting_step {a : Action} (hstaged : s.Staged)
    (hone : ∀ method, ∃! id, s.Starting method id) (hstep : Step s a t) (method : SinkKind) :
    ∃! id, t.Starting method id := by
  cases hstep with
  | outside | drained => exact hone method
  | @request id ok call h hat hheap =>
      refine starting_request hstaged hat hheap (hone method) fun id' => ?_
      unfold State.Starting State.construct
      by_cases hid : id' = id
      · simp [hid, served_status]
      · simp [hid]
  | @finish id ok hat =>
      obtain ⟨id₀, hstarting, hunique⟩ := hone method
      have ht : ∀ id', State.Starting { s with heap := Function.update s.heap id none }
          method id' ↔ id' ≠ id ∧ s.Starting method id' := by
        intro id'
        unfold State.Starting
        by_cases hid : id' = id
        · simp [hid]
        · simp [hid]
      have hne : id₀ ≠ id := by
        intro hsame
        obtain ⟨h, hheap, -, hstatus⟩ := hstarting
        have hfound := hat.status
        rw [← hsame, hheap, Option.map_some, hstatus] at hfound
        cases hfound
      exact ⟨id₀, (ht id₀).mpr ⟨hne, hstarting⟩, fun id' hid' => hunique id' ((ht id').mp hid').2⟩

/-! ## Replies and deletions -/

/-- Handlers are deleted when their replies come back, and only then. -/
theorem deleted_eq_finished (hreach : (machine labels).Reachable s) : s.deleted = s.finished := by
  refine reachable_of_branches (P := fun s => s.deleted = s.finished) rfl ?_ hreach
  intro s a t _ hdeleted hstep
  cases hstep with
  | finish => simp [hdeleted]
  | outside | request | drained => exact hdeleted

/-- While the server runs, the calls that arrived are the calls that were replied to. -/
theorem replies_eq_admitted (hserving : ∀ a ∈ actions, a.Serving)
    (hvisits : (machine labels).Visits actions s) : s.replies.map Prod.fst = s.admitted := by
  refine Machine.visits_of_guarded (P := fun s => s.replies.map Prod.fst = s.admitted)
    (G := fun _ a => a.Serving) rfl ?_ ?_ hvisits
  · intro s a t hreach hreplies ha hstep
    cases step_branches (staged_of_reachable hreach) hstep with
    | @request id ok call h =>
        have hok : ok = true := ha
        simp [hreplies, hok]
    | outside | finish | drained => exact hreplies
  · intro s a t htakes
    exact hserving a htakes.mem_actions

/-- A handler is replied to at most once and deleted at most once. -/
theorem State.Staged.nodup (hstaged : s.Staged) :
    (s.replies.map Prod.fst).Nodup ∧ s.deleted.Nodup := by
  refine ⟨List.nodup_iff_count_le_one.mpr fun id => ?_,
    List.nodup_iff_count_le_one.mpr fun id => ?_⟩
  · obtain ⟨stage, hat⟩ := hstaged id
    rw [hat.replies]
    cases stage <;> decide
  · obtain ⟨stage, hat⟩ := hstaged id
    rw [hat.deletions]
    cases stage <;> decide

/-- A deleted handler is not in memory any more, and no operation can bring it back. -/
theorem State.Staged.gone_of_deleted (hstaged : s.Staged) {id : ℕ} (hmem : id ∈ s.deleted) :
    s.heap id = none ∧ ∀ operation, (id, operation) ∉ s.pending := by
  obtain ⟨stage, hat⟩ := hstaged id
  have hcount : 0 < s.deleted.count id := List.count_pos_iff.mpr hmem
  rw [hat.deletions] at hcount
  have hstage : stage = .gone := by
    cases stage <;> simp [Stage.deletions] at hcount ⊢
  rw [hstage] at hat
  refine ⟨Option.map_eq_none_iff.mp hat.status, ?_⟩
  intro operation hpending
  have hpos : 0 < s.pending.count (id, operation) := List.count_pos_iff.mpr hpending
  rw [hat.pending] at hpos
  cases operation <;> simp [Stage.operations] at hpos

/-! ## The statement -/

/-- What holds between two rounds of the loop. -/
structure LifeCycle (s : State) : Prop where
  /-- One handler of each method waits for a call. -/
  armed : ∀ method, ∃! id, s.Armed method id
  /-- The replies are those to the calls that arrived, one for each. -/
  answered : s.replies.map Prod.fst = s.admitted
  answeredOnce : s.admitted.Nodup
  /-- A handler is deleted when its reply comes back, and once. -/
  deleted : s.deleted = s.finished
  deletedOnce : s.deleted.Nodup
  /-- A deleted handler is not in memory and no operation with it is pending. -/
  gone : ∀ id ∈ s.deleted, s.heap id = none ∧ ∀ operation, (id, operation) ∉ s.pending
  /-- Every handler so far is waiting for a call, waiting for its reply to come back,
  or deleted. -/
  accounted : ∀ id < s.constructed, (∃ method, s.Armed method id) ∨
    (id ∈ s.admitted ∧ (id, .finish) ∈ s.pending) ∨ (id ∈ s.admitted ∧ id ∈ s.deleted)
  /-- `process_state` was only called on handlers that were there. -/
  untouched : ∀ i ∈ s.invocations, i.found.isSome

/-- What a call leads to in the round in which it arrives: one reply, and records
only if there is a sink for the credentials; there are none in any other step. -/
def ServesCall (s : State) (a : Action) (t : State) : Prop :=
  (∃ id call h, a = .next (.request id true call) ∧ s.heap id = some h ∧
    t.replies = s.replies ++ [(id, call.reply h.method (s.sinkFor h.method call).1)] ∧
    t.pushed = s.pushed ++ call.pushes id h.method (s.sinkFor h.method call).1) ∨
  (t.replies = s.replies ∧ t.pushed = s.pushed)

theorem State.Staged.accounted (hstaged : s.Staged) {id : ℕ} (hborn : id < s.constructed) :
    (∃ method, s.Armed method id) ∨
      (id ∈ s.replies.map Prod.fst ∧ (id, .finish) ∈ s.pending) ∨
        (id ∈ s.replies.map Prod.fst ∧ id ∈ s.deleted) := by
  obtain ⟨stage, hat⟩ := hstaged id
  have hreplied : stage.replies = 1 → id ∈ s.replies.map Prod.fst := by
    intro hone
    apply List.count_pos_iff.mp
    rw [hat.replies, hone]
    exact Nat.one_pos
  cases stage with
  | unborn => exact absurd rfl (hat.born.mp hborn)
  | armed =>
      obtain ⟨h, hheap, hstatus⟩ := Option.map_eq_some_iff.mp hat.status
      exact Or.inl ⟨h.method, hstaged.armed_of_starting ⟨h, hheap, rfl, hstatus⟩⟩
  | replying =>
      refine Or.inr (Or.inl ⟨hreplied rfl, List.count_pos_iff.mp ?_⟩)
      rw [hat.pending]
      exact Nat.one_pos
  | gone =>
      refine Or.inr (Or.inr ⟨hreplied rfl, List.count_pos_iff.mp ?_⟩)
      rw [hat.deletions]
      exact Nat.one_pos

theorem servesCall_of_step (hstaged : s.Staged) {a : Action} (hserving : a.Serving)
    (hstep : step s a = some t) : ServesCall s a t := by
  cases step_branches hstaged hstep with
  | @request id ok call h hat hheap =>
      have hok : ok = true := hserving
      subst hok
      exact Or.inl ⟨id, call, h, rfl, hheap, rfl, rfl⟩
  | outside | finish | drained => exact Or.inr ⟨rfl, rfl⟩

/-- In a run of the server in which `Next` always returns an event and every request
comes back with a call, the handlers keep to their life cycle, in whatever order the
events come. -/
theorem life_cycle (hserving : ∀ a ∈ actions, a.Serving) :
    (∀ s, (machine labels).Visits actions s → LifeCycle s) ∧
      ∀ s a t, (machine labels).Takes actions s a t → ServesCall s a t := by
  constructor
  · intro s hvisits
    have hstaged := staged_of_reachable hvisits.reachable
    have hstarting : ∀ method, ∃! id, s.Starting method id :=
      reachable_of_branches (P := fun s => ∀ method, ∃! id, s.Starting method id)
        (starting_init labels) (fun _ _ _ hs hone ht => starting_step hs hone ht)
        hvisits.reachable
    have hanswered := replies_eq_admitted hserving hvisits
    obtain ⟨hrepliesOnce, hdeletedOnce⟩ := hstaged.nodup
    refine
      { armed := ?_
        answered := hanswered
        answeredOnce := hanswered ▸ hrepliesOnce
        deleted := deleted_eq_finished hvisits.reachable
        deletedOnce := hdeletedOnce
        gone := fun id hmem => hstaged.gone_of_deleted hmem
        accounted := fun id hborn => hanswered ▸ hstaged.accounted hborn
        untouched := ?_ }
    · intro method
      obtain ⟨id, hid, hunique⟩ := hstarting method
      exact ⟨id, hstaged.armed_of_starting hid, fun id' hid' => hunique id' hid'.1⟩
    · obtain ⟨done, hdone, hexec⟩ := hvisits
      rw [invocations_eq hexec, List.forall_mem_filterMap]
      intro a hmem
      have ha : a.Serving := hserving a (hdone.subset hmem)
      cases a with
      | next outcome =>
          obtain ⟨status, hfound, -⟩ := (invocation_safe_iff outcome).mpr ha
          simp [Action.invocation, hfound]
      | _ => simp [Action.invocation]
  · intro s a t htakes
    have hstaged := staged_of_reachable htakes.visits_before.reachable
    have ha : a.Serving := hserving a htakes.mem_actions
    obtain ⟨done, -, -, hstep⟩ := htakes
    exact servesCall_of_step hstaged ha hstep

/-- A metrics call that is granted and one that is not; the reply to the second goes
out first. -/
def crossedRun : List Action :=
  [.record (writer 1 7 (bytes "first") (bytes "shared")).avro, .loop,
    .next (.request 0 true
      ⟨bytes "first", bytes "secret", [⟨[], bytes "up", [], .longValue 1, 5⟩], [], []⟩),
    .loop,
    .next (.request 3 true
      ⟨bytes "other", bytes "secret", [⟨[], bytes "up", [], .longValue 1, 5⟩], [], []⟩),
    .loop, .next (.finish 3 false), .loop, .next (.finish 0 true)]

theorem crossedRun_serving : ∀ a ∈ crossedRun, a.Serving := by
  simp [crossedRun, Action.Serving, Outcome.Serving]

theorem crossedRun_life_cycle :
    ∃ s, (machine ∅).exec (State.init ∅) crossedRun = some s ∧
      s.deleted = [3, 0] ∧ s.pushed.map (fun p => (p.id, p.sink.topic)) = [(0, bytes "shared")] ∧
      (∀ u, (machine ∅).Visits crossedRun u → LifeCycle u) ∧
      ∀ u a t, (machine ∅).Takes crossedRun u a t → ServesCall u a t := by
  have hrun : ((machine ∅).exec (State.init ∅) crossedRun).map
      (fun s => (s.deleted, s.pushed.map fun p => (p.id, p.sink.topic))) =
        some ([3, 0], [(0, bytes "shared")]) := by
    decide +kernel
  obtain ⟨s, hexec, hplaces⟩ := Option.map_eq_some_iff.mp hrun
  obtain ⟨hdeleted, hpushed⟩ := Prod.mk.inj hplaces
  exact ⟨s, hexec, hdeleted, hpushed, life_cycle crossedRun_serving⟩

end BbMonitor.IngestionServer
