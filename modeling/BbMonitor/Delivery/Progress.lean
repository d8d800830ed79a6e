import BbMonitor.ClientSinks.Bundles
import BbMonitor.ClientSinks.Progress
import BbMonitor.Delivery.AtLeastOnce

/-!
# Nothing is stuck

As long as the thread of the sink and the loop of the server run, the server accepts the
credentials and the channel transmits the bundles, there is a way to store everything: from
every reachable state some run of the two stores all that was enqueued, but for what had to
be purged, and empties the sink.

A call that the server has refused cannot succeed any more; its RPC fails and is followed by
another.  Otherwise the sink is brought forward step by step; where it waits for an RPC, the
call arrives at the handler that waits for one, and is answered.
-/

namespace BbMonitor.Delivery

open Ingestion IngestionServer
open ClientSinks (Item Event numbers)

variable {client : Client} {labels : Labels} {s t : State client}

/-- The RPC that the sink waits for can succeed. -/
def State.Hopeful (s : State client) : Prop :=
  s.sink.phase = .inFlight → s.current ∉ s.arrived.map Prod.snd ∨ s.Answered s.current

/-- Every bundle that can be made of the events so far is transmitted. -/
def State.Transmissible (s : State client) : Prop :=
  ∀ bundle : client.Bundle, bundle ⊆ s.sink.enqueued.filterMap ClientSinks.Event.item →
    (numbers bundle).Nodup → bundle.length ≤ client.config.batchSize →
      client.transmits (client.call bundle) = true

/-- Both sides are up, the server accepts the credentials, and the bundles get through. -/
structure Up (labels : Labels) (s : State client) : Prop where
  reach : (machine client labels).Reachable s
  sink : s.sink.Running
  server : s.server.Up
  accepts : s.server.Accepts client.kind client.apiKey client.apiSecret
  transmissible : s.Transmissible

/-- What gets through depends on the events alone. -/
theorem State.Transmissible.of_enqueued (hs : s.Transmissible)
    (henqueued : t.sink.enqueued = s.sink.enqueued) : t.Transmissible := by
  intro bundle hsubset
  rw [henqueued] at hsubset
  exact hs bundle hsubset

/-- The bundle that is on its way gets through. -/
theorem Up.transmits (hup : Up labels s) (hphase : s.sink.phase = .inFlight) :
    client.transmits (client.call s.sink.bundle) = true := by
  have hreach := sink_reachable hup.reach
  exact hup.transmissible s.sink.bundle (ClientSinks.bundle_subset_of_inFlight hreach hphase)
    (ClientSinks.nodup_numbers_of_inFlight hreach hphase) (ClientSinks.length_bundle_le hreach)

/-- The sink was brought forward. -/
structure Forward (labels : Labels) (s t : State client) : Prop where
  up : Up labels t
  hopeful : t.Hopeful
  enqueued : t.sink.enqueued = s.sink.enqueued
  variant : ClientSinks.variant t.sink < ClientSinks.variant s.sink

theorem reachable_step (hreach : (machine client labels).Reachable s) {a : Action client}
    (hstep : step s a = some t) : (machine client labels).Reachable t :=
  hreach.step hstep

/-- Some run of the two in which the authorizer consumes nothing leads from `s` to `t`. -/
def Leads (labels : Labels) (s t : State client) : Prop :=
  ∃ actions, (∀ a ∈ actions, isRecord a = false) ∧
    (machine client labels).exec s actions = some t

theorem leads_refl (labels : Labels) (s : State client) : Leads labels s s :=
  ⟨[], List.forall_mem_nil _, rfl⟩

theorem Leads.next {u : State client} (hleads : Leads labels s u) {a : Action client}
    (ha : isRecord a = false) (hstep : step u a = some t) : Leads labels s t := by
  obtain ⟨actions, hactions, hexec⟩ := hleads
  exact ⟨actions ++ [a], List.forall_mem_append.mpr ⟨hactions, List.forall_mem_singleton.mpr ha⟩,
    Machine.exec_concat_eq_some.mpr ⟨u, hexec, hstep⟩⟩

/-- The RPCs that calls have arrived for were started. -/
theorem lt_of_arrived (hreach : (machine client labels).Reachable s) {rpc : ℕ}
    (hmem : rpc ∈ s.arrived.map Prod.snd) : rpc < s.sent.length := by
  obtain ⟨p, hp, rfl⟩ := List.mem_map.mp hmem
  obtain ⟨bundle, sink, hbundle, -⟩ := (connected_of_reachable hreach).served p hp
  exact (List.getElem?_eq_some_iff.mp hbundle).1

/-- The sink goes on by itself. -/
theorem forward_of_sink (hup : Up labels s) (hhopeful : s.Hopeful)
    {a : ClientSinks.Action (Value client.kind)} (ha : ∀ ok, a ≠ .outcome ok)
    {sink : ClientSinks.State (Value client.kind)}
    (hstep : ClientSinks.step client.config s.sink a = some sink) (hrunning : sink.Running)
    (henqueued : sink.enqueued = s.sink.enqueued)
    (hvariant : ClientSinks.variant sink < ClientSinks.variant s.sink) :
    ∃ t, step s (.sink a) = some t ∧ Forward labels s t := by
  have hproduct : step s (.sink a) = stepSink s a := by
    cases a with
    | outcome ok => exact absurd rfl (ha ok)
    | _ => rfl
  have hsome : stepSink s a = some
      { s with
        sink
        sent := if s.sink.phase = .building ∧ sink.phase = .inFlight then
          s.sent ++ [sink.bundle] else s.sent } := by
    rw [stepSink, hstep]
    rfl
  refine ⟨_, hproduct.trans hsome, ?_⟩
  have hreach := reachable_step hup.reach (hproduct.trans hsome)
  refine ⟨⟨hreach, hrunning, hup.server, hup.accepts, hup.transmissible.of_enqueued henqueued⟩,
    ?_, henqueued, hvariant⟩
  by_cases hstart : s.sink.phase = .building ∧ sink.phase = .inFlight
  · -- no call has arrived for a new RPC
    intro _
    refine Or.inl fun hmem => ?_
    have hlt := lt_of_arrived hup.reach hmem
    simp only [State.current, if_pos hstart, List.length_append, List.length_singleton] at hlt
    omega
  · rw [if_neg hstart]
    intro hflight
    exact hhopeful ((inFlight_iff hstep ha hstart).mp hflight)

/-- The RPC succeeds. -/
theorem forward_of_answered (hup : Up labels s) (hphase : s.sink.phase = .inFlight)
    (hanswered : s.Answered s.current) :
    ∃ t, step s .succeed = some t ∧ Forward labels s t := by
  have hsink : ClientSinks.step client.config s.sink (.outcome true) =
      some (s.sink.outcome true) := if_pos hphase
  have hstep : step s .succeed = some { s with sink := s.sink.outcome true } := by
    rw [step, if_pos hanswered, hsink]
    rfl
  refine ⟨_, hstep, ?_⟩
  refine ⟨⟨reachable_step hup.reach hstep, ⟨hup.sink.1, by rintro ⟨⟩⟩, hup.server, hup.accepts,
    hup.transmissible.of_enqueued rfl⟩, by rintro ⟨⟩, rfl, ClientSinks.variant_outcome hphase⟩

/-- The call arrives at a server that waits, and is answered. -/
theorem exists_answered_of_waiting (hup : Up labels s) (hphase : s.sink.phase = .inFlight)
    (hfirst : s.current ∉ s.arrived.map Prod.snd) (hwaiting : s.server.phase = .waiting) :
    ∃ id t, step s (.arrive s.current id) = some t ∧ Up labels t ∧ t.sink = s.sink ∧
      t.Answered t.current := by
  have hbundle : s.sent[s.current]? = some s.sink.bundle := by
    have hlast := (connected_of_reachable hup.reach).current hphase
    rwa [List.getLast?_eq_getElem?] at hlast
  have hcall : s.server.Accepts client.kind (client.call s.sink.bundle).apiKey
      (client.call s.sink.bundle).apiSecret := by
    rw [client.apiKey_call, client.apiSecret_call]
    exact hup.accepts
  obtain ⟨id, h, server, sink, hheap, hmethod, hserver, hsettled, hserverUp, hauthorizer⟩ :=
    exists_served (server_reachable hup.reach) hup.server hwaiting client.kind hcall
  have hstep : step s (.arrive s.current id) =
      some { s with server, arrived := s.arrived ++ [(id, s.current)] } := by
    have hkind : (s.server.heap id).map Handler.method = some client.kind := by
      rw [hheap, Option.map_some, hmethod]
    have hserverStep : IngestionServer.step s.server
        (.next (.request id true (client.call s.sink.bundle))) = some server := hserver
    show Delivery.arrive s s.current id = _
    simp only [Delivery.arrive, hbundle]
    rw [if_pos ⟨hfirst, hup.transmits hphase, hkind⟩, hserverStep]
    rfl
  refine ⟨id, _, hstep, ⟨reachable_step hup.reach hstep, hup.sink, hserverUp, ?_,
    hup.transmissible.of_enqueued rfl⟩, rfl, ?_⟩
  · have haccepts := hup.accepts
    unfold State.Accepts at haccepts ⊢
    rwa [hauthorizer]
  · have hreply : (client.call s.sink.bundle).reply client.kind (some sink) ∈
        server.repliesBy id := by
      rw [hsettled.replies]
      exact List.mem_singleton_self _
    obtain ⟨r, hr, hreply⟩ := List.mem_map.mp hreply
    obtain ⟨hmem, hid⟩ := List.mem_filter.mp hr
    refine ⟨(id, s.current), List.mem_append_right _ (List.mem_singleton_self _), rfl, r, hmem,
      by simpa using hid, ?_⟩
    rw [hreply]
    rfl

/-- The call arrives and is answered. -/
theorem exists_answered (hup : Up labels s) (hphase : s.sink.phase = .inFlight)
    (hfirst : s.current ∉ s.arrived.map Prod.snd) :
    ∃ t, Leads labels s t ∧ Up labels t ∧ t.sink = s.sink ∧ t.Answered t.current := by
  rcases hup.server.2 with hhead | hwaiting
  · -- the server goes to wait first
    have hstep : step s (.server .loop) =
        some { s with server := { s.server with phase := .waiting } } := by
      have hloop : IngestionServer.step s.server .loop =
          some { s.server with phase := .waiting } := by
        rw [IngestionServer.step, if_pos hhead, if_pos hup.server.1]
      rw [step, hloop]
      rfl
    have hupLoop : Up labels { s with server := { s.server with phase := .waiting } } :=
      ⟨reachable_step hup.reach hstep, hup.sink, ⟨hup.server.1, Or.inr rfl⟩, hup.accepts,
        hup.transmissible.of_enqueued rfl⟩
    obtain ⟨id, t, harrive, ht, hsink, hanswered⟩ :=
      exists_answered_of_waiting hupLoop hphase hfirst rfl
    exact ⟨t, ((leads_refl labels s).next rfl hstep).next rfl harrive, ht, hsink, hanswered⟩
  · obtain ⟨id, t, harrive, ht, hsink, hanswered⟩ :=
      exists_answered_of_waiting hup hphase hfirst hwaiting
    exact ⟨t, (leads_refl labels s).next rfl harrive, ht, hsink, hanswered⟩

theorem exists_forward (hbatchSize : 1 ≤ client.config.batchSize) (hup : Up labels s)
    (hhopeful : s.Hopeful) (hdone : ¬ s.sink.Done) :
    ∃ t, Leads labels s t ∧ Forward labels s t := by
  obtain ⟨a, sink, hcalm, hstep, hrunning, henqueued, hvariant⟩ :=
    ClientSinks.advances hbatchSize (sink_reachable hup.reach) hup.sink hdone
  by_cases houtcome : ∃ ok, a = .outcome ok
  · obtain ⟨ok, rfl⟩ := houtcome
    have hphase : s.sink.phase = .inFlight := (Option.ite_none_right_eq_some.mp hstep).1
    by_cases hanswered : s.Answered s.current
    · obtain ⟨t, ht, hforward⟩ := forward_of_answered hup hphase hanswered
      exact ⟨t, (leads_refl labels s).next rfl ht, hforward⟩
    · have hfirst := (hhopeful hphase).resolve_right hanswered
      obtain ⟨u, hleads, hu, hsink, hanswered⟩ := exists_answered hup hphase hfirst
      obtain ⟨t, ht, hforward⟩ := forward_of_answered hu (hsink ▸ hphase) hanswered
      refine ⟨t, hleads.next rfl ht, ?_⟩
      exact ⟨hforward.up, hforward.hopeful, hsink ▸ hforward.enqueued, hsink ▸ hforward.variant⟩
  · push Not at houtcome
    obtain ⟨t, ht, hforward⟩ :=
      forward_of_sink hup hhopeful houtcome hstep hrunning henqueued hvariant
    exact ⟨t, (leads_refl labels s).next rfl ht, hforward⟩

/-- After an RPC that was refused has failed, all RPCs can succeed. -/
theorem exists_hopeful (hup : Up labels s) :
    ∃ t, Leads labels s t ∧ Up labels t ∧ t.Hopeful ∧ t.sink.enqueued = s.sink.enqueued := by
  by_cases hphase : s.sink.phase = .inFlight
  · have hsink : ClientSinks.step client.config s.sink (.outcome false) =
        some (s.sink.outcome false) := if_pos hphase
    have hstep : step s .fail = some
        { s with sink := s.sink.outcome false, failed := s.failed ++ [s.sink.bundle] } := by
      rw [step, hsink]
      rfl
    refine ⟨_, (leads_refl labels s).next rfl hstep, ?_, by rintro ⟨⟩, rfl⟩
    exact ⟨reachable_step hup.reach hstep, ⟨hup.sink.1, by rintro ⟨⟩⟩, hup.server, hup.accepts,
      hup.transmissible.of_enqueued rfl⟩
  · exact ⟨s, leads_refl labels s, hup, fun hflight => absurd hflight hphase, rfl⟩

theorem exists_emptied (hup : Up labels s) (hbatchSize : 1 ≤ client.config.batchSize) :
    ∃ t, Leads labels s t ∧ Up labels t ∧ t.sink.eof = true ∧
      t.sink.enqueued = s.sink.enqueued ∧
      ∀ e ∈ s.sink.enqueued, ∀ v, e.value = some v →
        e ∈ t.sink.purged ∨ ∃ bundle ∈ t.sink.delivered, (e.arrival, v) ∈ bundle := by
  obtain ⟨u, ⟨first, hfirst, hu⟩, hupu, hhopeful, henqueued⟩ := exists_hopeful hup
  obtain ⟨rest, t, hrest, ht, ⟨hupt, -, hsame⟩, hdone⟩ :=
    Machine.exists_exec_of_rounds (M := machine client labels) (A := fun a => isRecord a = false)
      (I := fun t => Up labels t ∧ t.Hopeful ∧ t.sink.enqueued = s.sink.enqueued)
      (D := fun t => t.sink.Done) (fun t => ClientSinks.variant t.sink) (by
        intro v ⟨hv, hvhopeful, hvsame⟩ hnot
        obtain ⟨w, ⟨actions, hactions, hexec⟩, hforward⟩ :=
          exists_forward hbatchSize hv hvhopeful hnot
        exact ⟨actions, w, hactions, hexec,
          ⟨hforward.up, hforward.hopeful, hforward.enqueued.trans hvsame⟩, hforward.variant⟩)
      ⟨hupu, hhopeful, henqueued⟩
  refine ⟨t, ⟨first ++ rest, List.forall_mem_append.mpr ⟨hfirst, hrest⟩, ?_⟩, hupt,
    ClientSinks.eof_eq_true.mpr hdone.2, hsame, ?_⟩
  · rw [Machine.exec_append hu, ht]
  · intro e hmem v hvalue
    have hsettled := ClientSinks.settled_of_done (sink_reachable hupt.reach) hdone
      (hsame.symm ▸ hmem)
    rcases hsettled with (hnull | ⟨bundle, hdelivered, v', hvalue', hitem⟩) | hpurged
    · rw [hvalue] at hnull
      cases hnull
    · rw [hvalue] at hvalue'
      cases hvalue'
      exact Or.inr ⟨bundle, hdelivered, hitem⟩
    · exact Or.inl hpurged

end BbMonitor.Delivery
