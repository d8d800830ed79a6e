import BbMonitor.ClientSinks.Bundles
import BbMonitor.Delivery.AtLeastOnce
import BbMonitor.Lib.Positions

/-!
# How often the value of an event is stored

A failed RPC may have been served, or may be served later; its bundle is sent again.  So
an event can be stored once for each RPC that failed with it and once more, and no more
often: no call is served twice, no handler serves two calls, and the sink does not send
again what was delivered (`stored_copies`).
-/

namespace BbMonitor.Delivery

open Ingestion IngestionServer
open ClientSinks (Item numbers)

variable {client : Client} {labels : Labels} {s t : State client}

/-! ## The bundles that were sent -/

/-- Every bundle that was sent was delivered, has failed, or is on its way. -/
structure Accounted (s : State client) : Prop where
  sent : s.sent.Perm (s.sink.delivered ++ s.failed ++
    if s.sink.phase = .inFlight then [s.sink.bundle] else [])
  distinct : ∀ bundle ∈ s.sent, (numbers bundle).Nodup

theorem accounted_of_reachable (hreach : (machine client labels).Reachable s) :
    Accounted s := by
  apply Machine.reachable_induction (P := fun s : State client => Accounted s)
    ⟨List.Perm.nil, List.forall_mem_nil _⟩ ?_ hreach
  intro s a t hs hacc hstep
  have hsent := hacc.sent
  cases step_branches hstep with
  | server | arrive => exact ⟨hsent, hacc.distinct⟩
  | @sink a sink hsink hdelivered hphase hbundle =>
      refine ⟨?_, hacc.distinct⟩
      show s.sent.Perm (sink.delivered ++ s.failed ++
        if sink.phase = .inFlight then [sink.bundle] else [])
      rw [hdelivered]
      by_cases hflight : sink.phase = .inFlight
      · rw [if_pos hflight, hbundle hflight]
        rwa [if_pos (hphase.mp hflight)] at hsent
      · rw [if_neg hflight]
        rwa [if_neg fun hbefore => hflight (hphase.mpr hbefore)] at hsent
  | @start sink hsink hdelivered hbuilding hphase =>
      refine ⟨?_, ?_⟩
      · show (s.sent ++ [sink.bundle]).Perm (sink.delivered ++ s.failed ++
          if sink.phase = .inFlight then [sink.bundle] else [])
        rw [hdelivered, if_pos hphase]
        rw [hbuilding, if_neg nofun, List.append_nil] at hsent
        exact hsent.append_right _
      · refine List.forall_mem_append.mpr ⟨hacc.distinct, List.forall_mem_singleton.mpr ?_⟩
        exact ClientSinks.nodup_numbers_of_inFlight (sink_reachable (hs.step hstep)) hphase
  | succeed hphase =>
      refine ⟨?_, hacc.distinct⟩
      rw [if_pos hphase] at hsent
      show s.sent.Perm ((s.sink.delivered ++ [s.sink.bundle]) ++ s.failed ++ [])
      rw [List.append_nil, List.append_assoc]
      rw [List.append_assoc] at hsent
      exact hsent.trans (List.perm_append_comm.append_left _)
  | fail hphase =>
      refine ⟨?_, hacc.distinct⟩
      rw [if_pos hphase] at hsent
      show s.sent.Perm (s.sink.delivered ++ (s.failed ++ [s.sink.bundle]) ++ [])
      rw [List.append_nil, ← List.append_assoc]
      exact hsent

/-! ## The calls that arrived -/

/-- A call is taken by one handler, and a handler takes one call. -/
theorem arrived_one_to_one (hreach : (machine client labels).Reachable s) :
    (s.arrived.map Prod.fst).Nodup ∧ (s.arrived.map Prod.snd).Nodup := by
  apply Machine.reachable_induction (M := machine client labels) (P := fun s =>
    (s.arrived.map Prod.fst).Nodup ∧ (s.arrived.map Prod.snd).Nodup)
    ⟨List.nodup_nil, List.nodup_nil⟩ ?_ hreach
  intro s a t hs hnodup hstep
  cases step_branches hstep with
  | sink | start | server | succeed | fail => exact hnodup
  | @arrive rpc id bundle server h hbundle hfirst hheap hmethod hserver =>
      have hnew : id ∉ s.arrived.map Prod.fst := by
        intro hmem
        obtain ⟨p, hp, rfl⟩ := List.mem_map.mp hmem
        obtain ⟨bundle', sink, -, hsettled⟩ := (connected_of_reachable hs).served p hp
        exact hsettled.ne_of_request (server_reachable hs) hserver rfl
      simp only [List.map_append, List.map_cons, List.map_nil]
      exact ⟨hnodup.1.append (List.nodup_singleton id) (by simpa using hnew),
        hnodup.2.append (List.nodup_singleton rpc) (by simpa using hfirst)⟩

/-! ## The statement -/

/-- The bundle carries the value of an event. -/
def carries (k : ℕ) (bundle : client.Bundle) : Bool :=
  k ∈ numbers bundle

/-- The handlers at which a bundle with the value of an event has arrived. -/
def State.handlersOf (s : State client) (k : ℕ) : List ℕ :=
  (s.arrived.filter fun p => (s.sent[p.2]?).any (carries k)).map Prod.fst

theorem length_handlersOf_le (hreach : (machine client labels).Reachable s) (k : ℕ) :
    (s.handlersOf k).length ≤ s.sent.countP (carries k) := by
  have hpositions := countP_positions_le (carries k) s.sent (arrived_one_to_one hreach).2
  rw [List.countP_map, List.countP_eq_length_filter] at hpositions
  rw [State.handlersOf, List.length_map]
  exact hpositions

/-- Of the bundles that carry an event one at most has not failed. -/
theorem countP_sent_le (hreach : (machine client labels).Reachable s) (k : ℕ) :
    s.sent.countP (carries k) ≤ s.failed.countP (carries k) + 1 := by
  have honce := ClientSinks.countP_onceSent_le (sink_reachable hreach) k
  calc s.sent.countP (carries k)
      = (s.sink.delivered ++ s.failed ++
          if s.sink.phase = .inFlight then [s.sink.bundle] else []).countP (carries k) :=
        (accounted_of_reachable hreach).sent.countP_eq _
    _ = s.sink.onceSent.countP (carries k) + s.failed.countP (carries k) := by
        simp only [ClientSinks.State.onceSent, List.countP_append]
        omega
    _ ≤ s.failed.countP (carries k) + 1 := by
        rw [add_comm]
        exact Nat.add_le_add_left honce _

/-- No handler takes two calls, and no call is taken by two handlers; no number occurs twice
in a bundle; the handler of a call has stored nothing or all of its bundle, once and in
order, in one sink; and the handlers at which the value of an event arrived are one more, at
most, than the RPCs that failed with it. -/
theorem stored_copies (hreach : (machine client labels).Reachable s) :
    (s.arrived.map Prod.fst).Nodup ∧ (s.arrived.map Prod.snd).Nodup ∧
      (∀ bundle ∈ s.sent, (numbers bundle).Nodup) ∧
      (∀ p ∈ s.arrived, ∃ bundle, s.sent[p.2]? = some bundle ∧
        (s.server.pushedBy p.1 = [] ∨ ∃ sink, s.server.pushedBy p.1 =
          (client.records bundle).map (fun r => ⟨p.1, sink, r.1, r.2⟩))) ∧
      ∀ k, (s.handlersOf k).length ≤ s.failed.countP (carries k) + 1 := by
  obtain ⟨hhandlers, hcalls⟩ := arrived_one_to_one hreach
  refine ⟨hhandlers, hcalls, (accounted_of_reachable hreach).distinct, ?_, ?_⟩
  · intro p hmem
    obtain ⟨bundle, sink, hbundle, hsettled⟩ := (connected_of_reachable hreach).served p hmem
    refine ⟨bundle, hbundle, ?_⟩
    rw [hsettled.pushes]
    cases sink with
    | none => exact Or.inl rfl
    | some sink => exact Or.inr ⟨sink, by rw [Call.pushes, due_call]⟩
  · intro k
    exact (length_handlersOf_le hreach k).trans (countP_sent_le hreach k)

/-- After one failure the event has arrived at two handlers. -/
theorem lateRun_copies :
    ∃ s, (machine intakeClient ∅).Reachable s ∧
      s.handlersOf 0 = [1, 3] ∧ s.failed.countP (carries 0) = 1 ∧
      (s.arrived.map Prod.fst).Nodup ∧ (s.arrived.map Prod.snd).Nodup ∧
      (∀ bundle ∈ s.sent, (numbers bundle).Nodup) ∧
      (∀ p ∈ s.arrived, ∃ bundle, s.sent[p.2]? = some bundle ∧
        (s.server.pushedBy p.1 = [] ∨ ∃ sink, s.server.pushedBy p.1 =
          (intakeClient.records bundle).map (fun r => ⟨p.1, sink, r.1, r.2⟩))) ∧
      ∀ k, (s.handlersOf k).length ≤ s.failed.countP (carries k) + 1 := by
  have hrun : ((machine intakeClient ∅).exec (machine intakeClient ∅).init lateRun).map
      (fun s => (s.handlersOf 0, s.failed.countP (carries 0))) = some ([1, 3], 1) := by
    decide +kernel
  obtain ⟨s, hexec, hstate⟩ := Option.map_eq_some_iff.mp hrun
  obtain ⟨hhandlers, hfailed⟩ := Prod.mk.inj hstate
  exact ⟨s, ⟨lateRun, hexec⟩, hhandlers, hfailed, stored_copies ⟨lateRun, hexec⟩⟩

end BbMonitor.Delivery
