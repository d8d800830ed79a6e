import BbMonitor.ClientSinks.Smooth
import BbMonitor.Delivery.Copies

/-!
# Exactly once and in order, while no RPC fails

As long as no RPC has failed, the calls arrive in the order in which they were sent, each is
answered before the next is sent, and what the server stores for the sink is the events in
order of arrival: nothing is missing in between, nothing comes twice
(`stored_in_order`).  How far the server is depends on the RPC that is on its way, but it is
never behind what was delivered.
-/

namespace BbMonitor.Delivery

open Ingestion IngestionServer
open ClientSinks (Item Event)

variable {client : Client} {labels : Labels} {s t : State client}

/-! ## What is stored for a sink -/

def keyedRecord (p : Push) : Bytes × Record :=
  (p.key, p.value)

/-- What the server has stored for the calls of the sink, in the order in which it did. -/
def State.stored (s : State client) : List (Bytes × Record) :=
  (s.server.pushed.filter fun p => p.id ∈ s.arrived.map Prod.fst).map keyedRecord

/-- What one handler has stored. -/
def State.storedBy (s : State client) (id : ℕ) : List (Bytes × Record) :=
  (s.server.pushedBy id).map keyedRecord

theorem filter_pushed_of_notMem {ids : List ℕ} {id : ℕ} (hid : id ∉ ids)
    (call : IngestionServer.Call) (method : SinkKind) (sink : Option KafkaSink) :
    (call.pushes id method sink).filter (fun p => p.id ∈ ids) = [] := by
  rw [List.filter_eq_nil_iff]
  intro p hmem
  cases sink with
  | none => cases hmem
  | some sink =>
      obtain ⟨r, -, rfl⟩ := List.mem_map.mp hmem
      simpa using hid

/-- The server stores the calls one after another, as they arrive. -/
theorem stored_eq (hreach : (machine client labels).Reachable s) :
    s.stored = s.arrived.flatMap fun p => s.storedBy p.1 := by
  apply Machine.reachable_induction (P := fun s : State client =>
    s.stored = s.arrived.flatMap fun p => s.storedBy p.1) rfl ?_ hreach
  intro s a t hs hstored hstep
  have hconn := connected_of_reachable hs
  -- no step of the server changes what earlier calls have stored
  have hearlier : ∀ {b server}, IngestionServer.step s.server b = some server →
      ∀ p ∈ s.arrived, server.pushedBy p.1 = s.server.pushedBy p.1 := by
    intro b server hserver p hmem
    obtain ⟨bundle, sink, -, hsettled⟩ := hconn.served p hmem
    rw [hsettled.pushes, (settled_step (server_reachable hs) hserver hsettled).pushes]
  cases step_branches hstep with
  | sink | start | succeed | fail => exact hstored
  | @server b server hserver =>
      have hsame : ({ s with server } : State client).stored = s.stored := by
        rcases pushed_of_step (server_reachable hs) hserver with
          hpushed | ⟨id, call, method, sink, hat, hpushed⟩
        · rw [State.stored, hpushed]
          rfl
        · have hid : id ∉ s.arrived.map Prod.fst := by
            intro hmem
            obtain ⟨p, hp, rfl⟩ := List.mem_map.mp hmem
            obtain ⟨bundle, sink', -, hsettled⟩ := hconn.served p hp
            exact hsettled.ne_of_armed hat rfl
          rw [State.stored, hpushed, List.filter_append, filter_pushed_of_notMem hid,
            List.append_nil]
          rfl
      rw [hsame, hstored]
      refine List.flatMap_congr fun p hmem => ?_
      rw [State.storedBy, State.storedBy, hearlier hserver p hmem]
  | @arrive rpc id bundle server h hbundle hfirst hheap hmethod hserver =>
      obtain ⟨hat, hpushed⟩ := armed_of_request (server_reachable hs) hheap hserver
      have hnone : s.server.pushedBy id = [] :=
        pushersReplied_of_reachable (server_reachable hs) id hat.repliesBy_eq_nil
      have hbefore : s.server.pushed.filter
          (fun p => p.id ∈ (s.arrived ++ [(id, rpc)]).map Prod.fst) =
            s.server.pushed.filter fun p => p.id ∈ s.arrived.map Prod.fst := by
        refine List.filter_congr fun p hmem => ?_
        have hne : p.id ≠ id := by
          simpa using List.filter_eq_nil_iff.mp hnone p hmem
        simp [hne]
      have hnew : ∀ p ∈ server.pushedBy id,
          decide (p.id ∈ (s.arrived ++ [(id, rpc)]).map Prod.fst) = true := by
        intro p hmem
        have hid : p.id = id := by simpa using (List.mem_filter.mp hmem).2
        simp [hid]
      have hby : server.pushedBy id = (client.call bundle).pushes id h.method
          (s.server.sinkFor h.method (client.call bundle)).1 := by
        rw [IngestionServer.State.pushedBy, hpushed, List.filter_append, pushedBy_pushes_self]
        rw [IngestionServer.State.pushedBy] at hnone
        rw [hnone, List.nil_append]
      rw [← hby] at hpushed
      show (server.pushed.filter _).map keyedRecord =
        (s.arrived ++ [(id, rpc)]).flatMap fun p => (server.pushedBy p.1).map keyedRecord
      rw [hpushed, List.filter_append, hbefore, List.filter_eq_self.mpr hnew, List.map_append,
        List.flatMap_append, List.flatMap_singleton]
      refine congrArg (· ++ (server.pushedBy id).map keyedRecord) (hstored.trans ?_)
      refine List.flatMap_congr fun p hmem => ?_
      rw [State.storedBy, hearlier hserver p hmem]

/-! ## The invariant -/

/-- What holds while no RPC has failed. -/
structure InTurn (s : State client) : Prop where
  smooth : ClientSinks.Smooth s.sink
  sent : s.sent = s.sink.onceSent
  arrived : s.arrived.map Prod.snd = List.range s.arrived.length
  answered : ∀ i < s.sink.delivered.length, s.Answered i

theorem length_onceSent_le {V : Type} (sink : ClientSinks.State V) :
    sink.onceSent.length ≤ sink.delivered.length + 1 := by
  unfold ClientSinks.State.onceSent
  split <;> simp

/-- Every call that was answered has arrived. -/
theorem InTurn.delivered_le (hturn : InTurn s) :
    s.sink.delivered.length ≤ s.arrived.length := by
  by_contra hlt
  obtain ⟨p, hp, hrpc, -⟩ := hturn.answered s.arrived.length (not_le.mp hlt)
  have hmem : s.arrived.length ∈ s.arrived.map Prod.snd := List.mem_map.mpr ⟨p, hp, hrpc⟩
  rw [hturn.arrived] at hmem
  exact absurd (List.mem_range.mp hmem) (lt_irrefl _)

/-- The call that arrives is the one behind those that have. -/
theorem InTurn.arrive_eq (hturn : InTurn s) {rpc : ℕ} {bundle : client.Bundle}
    (hbundle : s.sent[rpc]? = some bundle) (hfirst : rpc ∉ s.arrived.map Prod.snd) :
    rpc = s.arrived.length := by
  obtain ⟨hlt, -⟩ := List.getElem?_eq_some_iff.mp hbundle
  rw [hturn.arrived, List.mem_range, not_lt] at hfirst
  rw [hturn.sent] at hlt
  have hle := length_onceSent_le s.sink
  have hdelivered := hturn.delivered_le
  omega

theorem onceSent_of_inFlight {V : Type} {sink : ClientSinks.State V}
    (hphase : sink.phase = .inFlight) : sink.onceSent = sink.delivered ++ [sink.bundle] := by
  rw [ClientSinks.State.onceSent, if_pos hphase]

theorem onceSent_of_ne {V : Type} {sink : ClientSinks.State V} (hphase : sink.phase ≠ .inFlight) :
    sink.onceSent = sink.delivered := by
  rw [ClientSinks.State.onceSent, if_neg hphase, List.append_nil]

/-- Failures are not forgotten. -/
theorem failed_nil_of_step (hstep : Step s t) (hnone : t.failed = []) : s.failed = [] := by
  cases hstep with
  | fail => exact absurd hnone (List.append_ne_nil_of_right_ne_nil _ (List.cons_ne_nil _ _))
  | _ => exact hnone

theorem InTurn.step (hreach : (machine client labels).Reachable s) (hturn : InTurn s)
    (hstep : Step s t) (hnone : t.failed = []) : InTurn t := by
  cases hstep with
  | fail => exact absurd hnone (List.append_ne_nil_of_right_ne_nil _ (List.cons_ne_nil _ _))
  | @sink a sink hsink hdelivered hphase hbundle =>
      have ha : a ≠ .outcome false := by
        rintro rfl
        obtain ⟨hflight, hsink⟩ := Option.ite_none_right_eq_some.mp hsink
        cases hsink
        cases hphase.mpr hflight
      refine ⟨ClientSinks.smooth_step (sink_reachable hreach) ha hturn.smooth hsink, ?_,
        hturn.arrived, ?_⟩
      · show s.sent = sink.onceSent
        rw [hturn.sent]
        by_cases hflight : sink.phase = .inFlight
        · rw [onceSent_of_inFlight hflight, onceSent_of_inFlight (hphase.mp hflight), hdelivered,
            hbundle hflight]
        · rw [onceSent_of_ne hflight, onceSent_of_ne fun h => hflight (hphase.mpr h), hdelivered]
      · show ∀ i < sink.delivered.length, s.Answered i
        rw [hdelivered]
        exact hturn.answered
  | @start sink hsink hdelivered hbuilding hphase =>
      have ha : (.build : ClientSinks.Action (Value client.kind)) ≠ .outcome false := nofun
      refine ⟨ClientSinks.smooth_step (sink_reachable hreach) ha hturn.smooth hsink, ?_,
        hturn.arrived, ?_⟩
      · show s.sent ++ [sink.bundle] = sink.onceSent
        rw [hturn.sent, onceSent_of_inFlight hphase,
          onceSent_of_ne (by rw [hbuilding]; exact nofun), hdelivered]
      · show ∀ i < sink.delivered.length, s.Answered i
        rw [hdelivered]
        exact hturn.answered
  | @server b server hserver =>
      refine ⟨hturn.smooth, hturn.sent, hturn.arrived, fun i hi => ?_⟩
      obtain ⟨p, hp, hrpc, r, hr, hreply⟩ := hturn.answered i hi
      exact ⟨p, hp, hrpc, r, replies_subset_of_step (server_reachable hreach) hserver hr, hreply⟩
  | @arrive rpc id bundle server h hbundle hfirst hheap hmethod hserver =>
      obtain rfl := hturn.arrive_eq hbundle hfirst
      refine ⟨hturn.smooth, hturn.sent, ?_, fun i hi => ?_⟩
      · show (s.arrived ++ [_]).map Prod.snd = List.range (s.arrived ++ [_]).length
        rw [List.map_append, hturn.arrived, List.length_append, List.length_singleton,
          List.range_succ]
        rfl
      · obtain ⟨p, hp, hrpc, r, hr, hreply⟩ := hturn.answered i hi
        exact ⟨p, List.mem_append_left _ hp, hrpc, r,
          replies_subset_of_step (server_reachable hreach) hserver hr, hreply⟩
  | succeed hphase hanswered =>
      have hsent := hturn.sent
      rw [onceSent_of_inFlight hphase] at hsent
      refine ⟨ClientSinks.smooth_step (a := .outcome true) (sink_reachable hreach) nofun
        hturn.smooth (if_pos hphase), ?_, hturn.arrived, ?_⟩
      · rw [onceSent_of_ne (by rintro ⟨⟩)]
        exact hsent
      · intro i hi
        rcases Nat.lt_succ_iff_lt_or_eq.mp (by simpa [ClientSinks.State.outcome] using hi) with
          hold | rfl
        · exact hturn.answered i hold
        · have hcurrent : s.current = s.sink.delivered.length := by
            rw [State.current, hsent, List.length_append, List.length_singleton,
              Nat.add_sub_cancel]
          exact hcurrent ▸ hanswered

theorem inTurn_of_reachable (hreach : (machine client labels).Reachable s)
    (hnone : s.failed = []) : InTurn s := by
  apply Machine.reachable_induction (M := machine client labels)
    (P := fun s => s.failed = [] → InTurn s) ?_ ?_ hreach hnone
  · intro _
    exact ⟨ClientSinks.smooth_init, rfl, rfl, fun i hi => absurd hi (Nat.not_lt_zero i)⟩
  intro s a t hs hturn hstep hnone
  have hbranch := step_branches hstep
  exact (hturn (failed_nil_of_step hbranch hnone)).step hs hbranch hnone

/-! ## The statement -/

theorem records_append (first second : client.Bundle) :
    client.records (first ++ second) = client.records first ++ client.records second := by
  rw [Client.records, List.map_append, List.filterMap_append]
  rfl

theorem records_flatten (bundles : List client.Bundle) :
    client.records bundles.flatten = bundles.flatMap client.records := by
  induction bundles with
  | nil => rfl
  | cons bundle rest ih => rw [List.flatten_cons, records_append, ih, List.flatMap_cons]

/-- A call that has arrived was denied, or its bundle is stored. -/
theorem storedBy_eq (hreach : (machine client labels).Reachable s) {p : ℕ × ℕ}
    (hp : p ∈ s.arrived) :
    ∃ bundle, s.sent[p.2]? = some bundle ∧
      (s.storedBy p.1 = client.records bundle ∨
        s.storedBy p.1 = [] ∧ ∀ r ∈ s.server.repliesBy p.1, isOk r = false) := by
  obtain ⟨bundle, sink, hbundle, hsettled⟩ := (connected_of_reachable hreach).served p hp
  refine ⟨bundle, hbundle, ?_⟩
  rw [State.storedBy, hsettled.pushes, hsettled.replies]
  cases sink with
  | none => exact Or.inr ⟨rfl, List.forall_mem_singleton.mpr rfl⟩
  | some sink =>
      refine Or.inl ?_
      rw [Call.pushes, due_call, List.map_map]
      exact List.map_id _

theorem InTurn.numbers_take (hturn : InTurn s) :
    (s.arrived.take s.sink.delivered.length).map Prod.snd =
      List.range s.sink.delivered.length := by
  rw [List.map_take, hturn.arrived, List.take_range, Nat.min_eq_left hturn.delivered_le]

/-- The bundles that were delivered have been stored by the first calls that arrived. -/
theorem InTurn.stored_delivered (hreach : (machine client labels).Reachable s)
    (hturn : InTurn s) :
    (s.arrived.take s.sink.delivered.length).map (fun p => s.storedBy p.1) =
      s.sink.delivered.map client.records := by
  have hby : ∀ p ∈ s.arrived.take s.sink.delivered.length, s.storedBy p.1 =
      ((s.sink.delivered[p.2]?).map client.records).getD [] := by
    intro p hmem
    have hlt : p.2 < s.sink.delivered.length := by
      have hrange := List.mem_map_of_mem (f := Prod.snd) hmem
      rwa [hturn.numbers_take, List.mem_range] at hrange
    have hp := List.mem_of_mem_take hmem
    obtain ⟨bundle, hbundle, hstored⟩ := storedBy_eq hreach hp
    have hdelivered : s.sink.delivered[p.2]? = some bundle := by
      rw [hturn.sent, ClientSinks.State.onceSent, List.getElem?_append_left hlt] at hbundle
      exact hbundle
    rw [hdelivered]
    rcases hstored with hstored | ⟨-, hdenied⟩
    · exact hstored
    · -- the call with this number was answered with OK
      obtain ⟨q, hq, hrpc, r, hr, hid, hok⟩ := hturn.answered p.2 hlt
      obtain rfl : q = p :=
        List.inj_on_of_nodup_map (arrived_one_to_one hreach).2 hq hp hrpc
      have hmem : r.2 ∈ s.server.repliesBy q.1 :=
        List.mem_map.mpr ⟨r, List.mem_filter.mpr ⟨hr, by simpa using hid⟩, rfl⟩
      rw [hdenied r.2 hmem] at hok
      cases hok
  calc (s.arrived.take s.sink.delivered.length).map (fun p => s.storedBy p.1)
      = (List.range s.sink.delivered.length).map
          (fun i => ((s.sink.delivered[i]?).map client.records).getD []) := by
        rw [List.map_congr_left hby, ← hturn.numbers_take, List.map_map]
        rfl
    _ = ((List.range s.sink.delivered.length).map (fun i => s.sink.delivered[i]?)).map
          (fun bundle => (bundle.map client.records).getD []) := by
        rw [List.map_map]
        rfl
    _ = s.sink.delivered.map client.records := by
        rw [map_getElem?_range, List.map_map]
        rfl

/-- What else has been stored is the bundle that is on its way, or nothing. -/
theorem InTurn.stored_ahead (hreach : (machine client labels).Reachable s)
    (hturn : InTurn s) :
    ((s.arrived.drop s.sink.delivered.length).flatMap fun p => s.storedBy p.1) <+:
      client.records (s.sink.ahead.filterMap Event.item) := by
  have hnodup : ((s.arrived.take s.sink.delivered.length).map Prod.snd ++
      (s.arrived.drop s.sink.delivered.length).map Prod.snd).Nodup := by
    rw [← List.map_append, List.take_append_drop]
    exact (arrived_one_to_one hreach).2
  rw [hturn.numbers_take] at hnodup
  -- a call behind the first ones can only be the one on its way
  have hlast : ∀ p ∈ s.arrived.drop s.sink.delivered.length,
      p.2 = s.sink.delivered.length ∧ s.storedBy p.1 <+:
        client.records (s.sink.ahead.filterMap Event.item) := by
    intro p hmem
    have hge : s.sink.delivered.length ≤ p.2 := by
      rw [← not_lt, ← List.mem_range]
      exact fun hrange => hnodup.disjoint hrange (List.mem_map_of_mem hmem)
    obtain ⟨bundle, hbundle, hstored⟩ := storedBy_eq hreach (List.mem_of_mem_drop hmem)
    obtain ⟨hlt, -⟩ := List.getElem?_eq_some_iff.mp hbundle
    have hphase : s.sink.phase = .inFlight := by
      by_contra hne
      rw [hturn.sent, onceSent_of_ne hne] at hlt
      exact absurd hge (not_le.mpr hlt)
    rw [hturn.sent, onceSent_of_inFlight hphase] at hbundle hlt
    have hnumber : p.2 = s.sink.delivered.length := by
      rw [List.length_append, List.length_singleton] at hlt
      omega
    rw [hnumber, List.getElem?_concat_length, Option.some_inj] at hbundle
    refine ⟨hnumber, ?_⟩
    rcases hstored with hstored | ⟨hstored, -⟩
    · rw [hstored, ← hbundle, ClientSinks.bundle_of_inFlight (sink_reachable hreach) hphase,
        ClientSinks.ahead_of_ne (by rw [hphase]; exact nofun), List.filterMap_append,
        records_append]
      exact List.prefix_append _ _
    · rw [hstored]
      exact List.nil_prefix
  cases hrest : s.arrived.drop s.sink.delivered.length with
  | nil => exact List.nil_prefix
  | cons p others =>
      rw [hrest] at hlast hnodup
      obtain ⟨hp, hothers⟩ := List.forall_mem_cons.mp hlast
      have hnone : others = [] := by
        by_contra hne
        obtain ⟨q, rest, rfl⟩ := List.exists_cons_of_ne_nil hne
        have hq := (hothers q List.mem_cons_self).1
        have hdistinct := (List.nodup_append.mp hnodup).2.1
        simp [hp.1, hq] at hdistinct
      rw [hnone, List.flatMap_singleton]
      exact hp.2

/-- While no RPC has failed, the server has stored the events of the sink from the first on,
each once and in order of arrival, and at least all those that were delivered. -/
theorem stored_in_order (hreach : (machine client labels).Reachable s) (hnone : s.failed = []) :
    client.records s.sink.delivered.flatten <+: s.stored ∧
      s.stored <+: client.records (s.sink.enqueued.filterMap Event.item) := by
  have hturn := inTurn_of_reachable hreach hnone
  have hsplit : s.stored = client.records s.sink.delivered.flatten ++
      (s.arrived.drop s.sink.delivered.length).flatMap fun p => s.storedBy p.1 := by
    calc s.stored
        = s.arrived.flatMap fun p => s.storedBy p.1 := stored_eq hreach
      _ = ((s.arrived.take s.sink.delivered.length).flatMap fun p => s.storedBy p.1) ++
            (s.arrived.drop s.sink.delivered.length).flatMap fun p => s.storedBy p.1 := by
          rw [← List.flatMap_append, List.take_append_drop]
      _ = _ := by
          rw [List.flatMap_def, hturn.stored_delivered hreach, records_flatten,
            List.flatMap_def (f := client.records)]
  rw [hsplit]
  refine ⟨List.prefix_append _ _, ?_⟩
  rw [← hturn.smooth.order, records_append, List.prefix_append_right_inj]
  exact hturn.stored_ahead hreach

/-- Two events, in an RPC each; the second RPC has been served and is not yet over. -/
def promptRun : List (Action intakeClient) :=
  [.server (.record intakeWriter.avro), .server .loop, .sink (.enqueue (some beat)),
    .sink (.top 0 0 0), .sink .build, .sink .build, .arrive 0 1, .succeed, .sink .handOver,
    .sink .handOver, .sink (.enqueue (some beat)), .sink (.top 1 0 0), .sink .build,
    .sink .build, .server .loop, .arrive 1 3]

theorem promptRun_in_order :
    ∃ s, (machine intakeClient ∅).Reachable s ∧ s.sink.delivered.length = 1 ∧
      s.stored.length = 2 ∧ intakeClient.records s.sink.delivered.flatten <+: s.stored ∧
      s.stored <+: intakeClient.records (s.sink.enqueued.filterMap Event.item) := by
  have hrun : ((machine intakeClient ∅).exec (machine intakeClient ∅).init promptRun).map
      (fun s => (s.failed.length, s.sink.delivered.length, s.stored.length)) =
        some (0, 1, 2) := by
    decide +kernel
  obtain ⟨s, hexec, hcounts⟩ := Option.map_eq_some_iff.mp hrun
  obtain ⟨hfailed, hcounts⟩ := Prod.mk.inj hcounts
  obtain ⟨hdelivered, hstored⟩ := Prod.mk.inj hcounts
  exact ⟨s, ⟨promptRun, hexec⟩, hdelivered, hstored,
    stored_in_order ⟨promptRun, hexec⟩ (List.length_eq_zero_iff.mp hfailed)⟩

end BbMonitor.Delivery
