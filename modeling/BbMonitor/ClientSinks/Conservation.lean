import Mathlib.Data.List.Nodup
import Mathlib.Data.List.Perm.Basic
import BbMonitor.ClientSinks.Steps

/-!
# Nothing is lost, duplicated or released early

Every event that was enqueued is at each moment in exactly one place: in
`_queue`, in `in_rpc`, in `_pending_for_delete`, released by `process`, or
purged (`Conserved`).

An event reaches `_pending_for_delete` only when it is *settled*: its value is
null, or a bundle with its value was delivered.  The reason is a tie between
`in_rpc` and the bundle that depends on where the thread stands
(`InRpcMatches`).  Null events may stay in `in_rpc` over several rounds, while
their bundle is empty; but at the head of the loop nothing else is there, so the
bundle under construction always holds exactly the values in `in_rpc`.  After a
failure everything is put back first, so the code that hands over finds `in_rpc`
empty.
-/

namespace BbMonitor.ClientSinks

variable {V : Type*} {config : Config} {s t : State V} {a : Action V}

/-! ## Conservation -/

/-- All the places an event can be in. -/
def State.places (s : State V) : List (Event V) :=
  s.queue ++ s.inRpc ++ s.pendingForDelete ++ s.released ++ s.purged

/-- The places together hold the events that were enqueued, each as often as it
was enqueued, which is once: the events are numbered. -/
structure Conserved (s : State V) : Prop where
  perm : s.places.Perm s.enqueued
  numbered : s.enqueued.map Event.arrival = List.range s.enqueued.length

theorem Conserved.nodup_enqueued (hcons : Conserved s) : s.enqueued.Nodup := by
  refine List.Nodup.of_map Event.arrival ?_
  rw [hcons.numbered]
  exact List.nodup_range

theorem conserved_init : Conserved (State.init : State V) :=
  ⟨List.Perm.nil, rfl⟩

theorem perm_enqueue (value : Option V) (hperm : s.places.Perm s.enqueued) :
    (s.enqueue value).places.Perm (s.enqueue value).enqueued := by
  classical
  rw [List.perm_iff_count] at hperm ⊢
  intro e
  have hcount := hperm e
  simp only [State.places, State.enqueue, List.count_append] at hcount ⊢
  omega

/-- One step moves an event from one place to another, or adds a new one. -/
theorem conserved_step (hcons : Conserved s) (hstep : Step config s a t) : Conserved t := by
  classical
  -- moving an event does not change how often it occurs
  have hmove : ∀ u : State V, u.enqueued = s.enqueued →
      (∀ e, u.places.count e = s.places.count e) → Conserved u := by
    intro u henqueued hcount
    refine ⟨?_, by rw [henqueued]; exact hcons.numbered⟩
    rw [henqueued]
    exact (List.perm_iff_count.mpr hcount).trans hcons.perm
  cases hstep with
  | enqueue value =>
      refine ⟨perm_enqueue value hcons.perm, ?_⟩
      simp only [State.enqueue, List.map_append, List.map_cons, List.map_nil, List.length_append,
        List.length_cons, List.length_nil, List.range_succ, hcons.numbered]
  | processOne hpending =>
      refine hmove _ rfl fun x => ?_
      simp only [State.places, hpending, List.count_append, List.count_cons, List.count_nil]
      omega
  | purgeOne _ hqueue =>
      refine hmove _ rfl fun x => ?_
      simp only [State.places, hqueue, List.count_append, List.count_cons, List.count_nil]
      omega
  | take _ hqueue =>
      refine hmove _ rfl fun x => ?_
      simp only [State.places, hqueue, List.count_append, List.count_cons, List.count_nil]
      omega
  | putBackOne _ hinRpc =>
      refine hmove _ rfl fun x => ?_
      simp only [State.places, hinRpc, List.count_append, List.count_cons]
      omega
  | handOverOne _ hinRpc =>
      refine hmove _ rfl fun x => ?_
      simp only [State.places, hinRpc, List.count_append, List.count_cons, List.count_nil]
      omega
  | _ => exact hmove _ rfl fun _ => rfl

theorem conserved_of_reachable (hreach : (machine V config).Reachable s) : Conserved s :=
  reachable_of_branches conserved_init (fun _ _ _ => conserved_step) hreach

/-! ## Settlement -/

/-- The value of the event was in a bundle whose RPC returned OK. -/
def State.Delivered (s : State V) (e : Event V) : Prop :=
  ∃ bundle ∈ s.delivered, ∃ v, e.value = some v ∧ (e.arrival, v) ∈ bundle

/-- The event needs no further care. -/
def State.Settled (s : State V) (e : Event V) : Prop :=
  e.value = none ∨ s.Delivered e

/-- What is in `in_rpc`, by where the thread stands. -/
def State.InRpcMatches (s : State V) : Prop :=
  match s.phase with
  | .top => (∀ e ∈ s.inRpc, e.value = none) ∧ (0 < s.nextRetryAt → s.inRpc = [])
  | .purgeSize => s.inRpc = []
  | .purging _ => s.inRpc = []
  | .building => s.bundle = s.inRpc.filterMap Event.item ∧ s.nextRetryAt = 0
  | .inFlight => s.bundle = s.inRpc.filterMap Event.item ∧ s.nextRetryAt = 0
  | .puttingBack => True
  | .handingOver => (∀ e ∈ s.inRpc, s.Settled e) ∧ (0 < s.nextRetryAt → s.inRpc = [])
  | .exited => ∀ e ∈ s.inRpc, e.value = none

/-- The invariant behind the hand-over. -/
structure Settlement (s : State V) : Prop where
  handled : ∀ e ∈ s.pendingForDelete ++ s.released, s.Settled e
  inRpc : s.InRpcMatches

theorem item_eq_none {e : Event V} : e.item = none ↔ e.value = none := by
  simp [Event.item]

theorem item_arrival {e : Event V} {x : Item V} (hitem : e.item = some x) :
    e.arrival = x.1 := by
  obtain ⟨v, -, hv⟩ := Option.map_eq_some_iff.mp hitem
  rw [← hv]

theorem values_none_of_filterMap_item {events : List (Event V)}
    (hnil : events.filterMap Event.item = []) : ∀ e ∈ events, e.value = none := by
  intro e hmem
  exact item_eq_none.mp (List.filterMap_eq_nil_iff.mp hnil e hmem)

/-- An event whose value is in the bundle is delivered with it. -/
theorem settled_of_mem_filterMap {events : List (Event V)} {e : Event V} (hmem : e ∈ events)
    (hdelivered : events.filterMap Event.item ∈ s.delivered) : s.Settled e := by
  cases hvalue : e.value with
  | none => exact Or.inl hvalue
  | some v =>
      refine Or.inr ⟨_, hdelivered, v, hvalue, ?_⟩
      exact List.mem_filterMap.mpr ⟨e, hmem, by simp [Event.item, hvalue]⟩

theorem settlement_init : Settlement (State.init : State V) := by
  refine ⟨?_, ?_, ?_⟩ <;> simp [State.init]

/-- The bundle is delivered, and with it everything in `in_rpc`. -/
theorem settlement_succeed (hset : Settlement s) (hphase : s.phase = .inFlight) :
    Settlement { s with phase := .handingOver, delivered := s.delivered ++ [s.bundle] } := by
  have hinRpc := hset.inRpc
  simp only [State.InRpcMatches, hphase] at hinRpc
  refine ⟨?_, ?_, ?_⟩
  · intro e hmem
    rcases hset.handled e hmem with hnull | ⟨bundle, hbundle, hvalue⟩
    · exact Or.inl hnull
    · exact Or.inr ⟨bundle, List.mem_append_left _ hbundle, hvalue⟩
  · intro e hmem
    refine settled_of_mem_filterMap hmem ?_
    rw [← hinRpc.1]
    simp
  · intro hretry
    exact absurd hinRpc.2 (Int.ne_of_gt hretry)

theorem settlement_handOverOne (hset : Settlement s) (hphase : s.phase = .handingOver)
    {e : Event V} {rest : List (Event V)} (hhead : s.inRpc = e :: rest) :
    Settlement { s with inRpc := rest, pendingForDelete := s.pendingForDelete ++ [e] } := by
  have hinRpc := hset.inRpc
  simp only [State.InRpcMatches, hphase, hhead] at hinRpc
  refine ⟨?_, ?_⟩
  · intro e' hmem
    simp only [List.mem_append, List.mem_cons, List.not_mem_nil, or_false] at hmem
    rcases hmem with (hold | rfl) | hold
    · exact hset.handled e' (List.mem_append_left _ hold)
    · exact hinRpc.1 e' (List.mem_cons_self ..)
    · exact hset.handled e' (List.mem_append_right _ hold)
  · simp only [State.InRpcMatches, hphase]
    refine ⟨fun e' hmem => hinRpc.1 e' (List.mem_cons_of_mem _ hmem), ?_⟩
    intro hretry
    cases hinRpc.2 hretry

theorem settlement_step (hset : Settlement s) (hstep : Step config s a t) : Settlement t := by
  obtain ⟨hhandled, hinRpc⟩ := hset
  cases hstep with
  | enqueue | processNothing | setExit | idle | postponePurge => exact ⟨hhandled, hinRpc⟩
  | processOne hpending =>
      refine ⟨?_, hinRpc⟩
      intro e hmem
      refine hhandled e ?_
      simp only [hpending, List.mem_append, List.mem_cons, List.not_mem_nil, or_false] at hmem ⊢
      tauto
  | leave hphase =>
      simp only [State.InRpcMatches, hphase] at hinRpc
      exact ⟨hhandled, hinRpc.1⟩
  | beginPurge hphase hretry _ _ =>
      simp only [State.InRpcMatches, hphase] at hinRpc
      exact ⟨hhandled, hinRpc.2 hretry⟩
  | beginBatch hphase =>
      simp only [State.InRpcMatches, hphase] at hinRpc
      refine ⟨hhandled, ?_, rfl⟩
      symm
      exact List.filterMap_eq_nil_iff.mpr fun e hmem => item_eq_none.mpr (hinRpc.1 e hmem)
  | countPurge hphase | purgeOne hphase | send hphase =>
      simp only [State.InRpcMatches, hphase] at hinRpc
      exact ⟨hhandled, hinRpc⟩
  | purgeDone hphase =>
      simp only [State.InRpcMatches, hphase] at hinRpc
      refine ⟨hhandled, ?_, fun _ => hinRpc⟩
      intro e hmem
      rw [hinRpc] at hmem
      cases hmem
  | @take e rest hphase _ =>
      simp only [State.InRpcMatches, hphase] at hinRpc
      refine ⟨hhandled, ?_⟩
      simp only [State.InRpcMatches, hphase]
      refine ⟨?_, hinRpc.2⟩
      rw [List.filterMap_append, hinRpc.1]
      cases hitem : e.item <;> simp [hitem]
  | skip hphase hbundle =>
      simp only [State.InRpcMatches, hphase] at hinRpc
      refine ⟨hhandled, ?_, ?_⟩
      · exact values_none_of_filterMap_item (hinRpc.1.symm.trans hbundle)
      · intro hretry
        exact absurd hinRpc.2 (Int.ne_of_gt hretry)
  | succeed hphase => exact settlement_succeed ⟨hhandled, hinRpc⟩ hphase
  | fail _ => exact ⟨hhandled, trivial⟩
  | putBackOne hphase _ =>
      refine ⟨hhandled, ?_⟩
      simp only [State.InRpcMatches, hphase]
  | handOverOne hphase hhead => exact settlement_handOverOne ⟨hhandled, hinRpc⟩ hphase hhead
  | putBackDone _ hempty | handOverDone _ hempty =>
      refine ⟨hhandled, ?_, fun _ => hempty⟩
      intro e hmem
      rw [hempty] at hmem
      cases hmem

theorem settlement_of_reachable (hreach : (machine V config).Reachable s) : Settlement s :=
  reachable_of_branches settlement_init (fun _ _ _ => settlement_step) hreach

/-! ## Where delivered values come from -/

/-- The events that the thread has handed over or is handing over. -/
def State.handled (s : State V) : List (Event V) :=
  s.pendingForDelete ++ s.released ++ if s.phase = .handingOver then s.inRpc else []

/-- Every delivered value was copied from an event that has left `_queue` for good. -/
def DeliveredFromHandled (s : State V) : Prop :=
  ∀ bundle ∈ s.delivered, ∀ item ∈ bundle, ∃ e ∈ s.handled, e.item = some item

theorem deliveredFromHandled_step (hset : Settlement s) (hfrom : DeliveredFromHandled s)
    (hstep : Step config s a t) : DeliveredFromHandled t := by
  -- nothing new is delivered, and no handled event is lost
  have hkeep : ∀ u : State V, u.delivered = s.delivered → (∀ e ∈ s.handled, e ∈ u.handled) →
      DeliveredFromHandled u := by
    intro u hdelivered hhandled bundle hbundle item hitem
    rw [hdelivered] at hbundle
    obtain ⟨e, hmem, he⟩ := hfrom bundle hbundle item hitem
    exact ⟨e, hhandled e hmem, he⟩
  cases hstep with
  | processOne hpending =>
      refine hkeep _ rfl fun x hx => ?_
      simp only [State.handled, hpending, List.mem_append, List.mem_cons] at hx ⊢
      tauto
  | succeed hphase =>
      have hbundle : s.bundle = s.inRpc.filterMap Event.item := by
        have hmatches := hset.inRpc
        simp only [State.InRpcMatches, hphase] at hmatches
        exact hmatches.1
      intro bundle hmem item hitem
      rcases List.mem_append.mp hmem with hold | hnew
      · obtain ⟨e, he, hitem'⟩ := hfrom bundle hold item hitem
        refine ⟨e, ?_, hitem'⟩
        simp only [State.handled, hphase, List.mem_append] at he ⊢
        simp only [reduceCtorEq, if_false, List.not_mem_nil, or_false] at he
        exact Or.inl he
      · rw [List.mem_singleton.mp hnew, hbundle] at hitem
        obtain ⟨e, he, hitem'⟩ := List.mem_filterMap.mp hitem
        exact ⟨e, by simp [State.handled, he], hitem'⟩
  | putBackOne hphase | take hphase =>
      refine hkeep _ rfl fun x hx => ?_
      simpa [State.handled, hphase] using hx
  | handOverOne hphase hinRpc =>
      refine hkeep _ rfl fun x hx => ?_
      simp only [State.handled, hphase, hinRpc, if_true, List.mem_append, List.mem_cons] at hx ⊢
      tauto
  | handOverDone hphase hinRpc =>
      refine hkeep _ rfl fun x hx => ?_
      simpa [State.handled, hphase, hinRpc] using hx
  | countPurge hphase =>
      exact hkeep _ rfl fun x hx => by simpa [State.handled, State.countPurge, hphase] using hx
  | leave hphase | beginPurge hphase | beginBatch hphase | purgeDone hphase | purgeOne hphase
  | send hphase | skip hphase | fail hphase =>
      exact hkeep _ rfl fun x hx => by simpa [State.handled, hphase] using hx
  | putBackDone hphase hinRpc =>
      exact hkeep _ rfl fun x hx => by simpa [State.handled, hphase, hinRpc] using hx
  | _ => exact hkeep _ rfl fun _ hx => hx

theorem deliveredFromHandled_of_reachable (hreach : (machine V config).Reachable s) :
    DeliveredFromHandled s := by
  have hboth : Settlement s ∧ DeliveredFromHandled s := by
    refine reachable_of_branches (P := fun s => Settlement s ∧ DeliveredFromHandled s)
      ⟨settlement_init, ?_⟩ ?_ hreach
    · intro bundle hbundle
      cases hbundle
    · intro s a t h hstep
      exact ⟨settlement_step h.1 hstep, deliveredFromHandled_step h.1 h.2 hstep⟩
  exact hboth.2

/-! ## The statement -/

/-- In every reachable state each event enqueued so far is in exactly one of the
five places and nothing else is, and whatever has entered `_pending_for_delete`,
released since or not, is null or was delivered. -/
theorem exactly_one_place (hreach : (machine V config).Reachable s) :
    (s.queue ++ s.inRpc ++ s.pendingForDelete ++ s.released ++ s.purged).Perm s.enqueued ∧
      s.enqueued.Nodup ∧
      ∀ e ∈ s.pendingForDelete ++ s.released, e.value = none ∨ s.Delivered e := by
  have hcons := conserved_of_reachable hreach
  exact ⟨hcons.perm, hcons.nodup_enqueued, (settlement_of_reachable hreach).handled⟩

/-- A null event and a value are sent in one bundle; both are handed over, one of
them is released. -/
def nullRun : List (Action ℕ) :=
  [.enqueue none, .enqueue (some 5), .top 0 0 0, .build, .build, .build, .outcome true,
    .handOver, .enqueue (some 6), .handOver, .handOver, .process]

theorem nullRun_exactly_one_place :
    ∃ s, (machine ℕ bbLogSink).Reachable s ∧ s.released = [⟨0, none⟩] ∧
      s.pendingForDelete = [⟨1, some 5⟩] ∧
      (s.queue ++ s.inRpc ++ s.pendingForDelete ++ s.released ++ s.purged).Perm s.enqueued ∧
      s.enqueued.Nodup ∧
      ∀ e ∈ s.pendingForDelete ++ s.released, e.value = none ∨ s.Delivered e := by
  have hrun : ((machine ℕ bbLogSink).exec State.init nullRun).map
      (fun s => (s.released, s.pendingForDelete)) = some ([⟨0, none⟩], [⟨1, some 5⟩]) := by
    decide
  obtain ⟨s, hexec, hplaces⟩ := Option.map_eq_some_iff.mp hrun
  obtain ⟨hreleased, hpending⟩ := Prod.mk.inj hplaces
  exact ⟨s, ⟨nullRun, hexec⟩, hreleased, hpending, exactly_one_place ⟨nullRun, hexec⟩⟩

end BbMonitor.ClientSinks
