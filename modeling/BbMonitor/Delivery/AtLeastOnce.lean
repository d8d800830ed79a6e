import BbMonitor.Delivery.Model
import BbMonitor.IngestionServer.Settled

/-!
# What the sink lets go of has been stored

The sink releases an event when the RPC with its bundle has ended with OK.  By then the
server has pushed a record for each value of the bundle that it can store, all to one
sink, in order (`stored_of_handed_over`).  Nothing in between can undo or fake this: not
other clients, not the auth topic, not a shutdown, and no RPC that failed before.
-/

namespace BbMonitor.Delivery

open Ingestion IngestionServer
open ClientSinks (Item Event)

variable {client : Client} {labels : Labels} {s t : State client}

/-- The records that are stored for a bundle. -/
def Client.records (client : Client) (bundle : client.Bundle) : List (Bytes × Record) :=
  (bundle.map Prod.snd).filterMap (record client.kind)

theorem due_call (client : Client) (bundle : client.Bundle) :
    ((client.call bundle).sent client.kind).pushed = client.records bundle := by
  rw [pushed_eq_due]
  obtain ⟨kind, config, apiKey, apiSecret, transmits⟩ := client
  cases kind with
  | metrics =>
      refine List.filterMap_congr fun metric _ => ?_
      show _ = (metricPush metric).map _
      rw [metricPush, Option.map_map]
      rfl
  | intake =>
      show List.map _ _ = List.filterMap (fun item => some _) _
      rw [List.filterMap_eq_map']
      rfl
  | log =>
      show List.map _ _ = List.filterMap (fun ll => some _) _
      rw [List.filterMap_eq_map']
      rfl

/-- What the RPCs and the two parts have to do with each other. -/
structure Connected (s : State client) : Prop where
  -- the bundle that the sink waits for is the last that was sent
  current : s.sink.phase = .inFlight → s.sent.getLast? = some s.sink.bundle
  -- a call that arrived was served
  served : ∀ p ∈ s.arrived, ∃ bundle sink, s.sent[p.2]? = some bundle ∧
    s.server.Settled p.1 (client.call bundle) client.kind sink
  -- a bundle that was delivered has been answered
  answered : ∀ bundle ∈ s.sink.delivered, ∃ p ∈ s.arrived, s.sent[p.2]? = some bundle ∧
    ∃ r ∈ s.server.repliesBy p.1, isOk r = true

/-- Steps of the server keep what was served and answered. -/
theorem Connected.server (hconn : Connected s)
    (hreach : (IngestionServer.machine labels).Reachable s.server) {a : IngestionServer.Action}
    {server : IngestionServer.State} (hserver : IngestionServer.step s.server a = some server) :
    Connected { s with server } := by
  refine ⟨hconn.current, ?_, ?_⟩
  · intro p hmem
    obtain ⟨bundle, sink, hbundle, hsettled⟩ := hconn.served p hmem
    exact ⟨bundle, sink, hbundle, settled_step hreach hserver hsettled⟩
  · intro bundle hmem
    obtain ⟨p, hp, hsent, r, hr, hok⟩ := hconn.answered bundle hmem
    obtain ⟨bundle', sink, -, hsettled⟩ := hconn.served p hp
    have hreplies := hsettled.replies
    have hreplies' := (settled_step hreach hserver hsettled).replies
    exact ⟨p, hp, hsent, r, by rw [hreplies', ← hreplies]; exact hr, hok⟩

theorem Connected.arrive (hconn : Connected s)
    (hreach : (IngestionServer.machine labels).Reachable s.server) {rpc id : ℕ}
    {bundle : client.Bundle} {server : IngestionServer.State} {h : Handler}
    (hbundle : s.sent[rpc]? = some bundle) (hheap : s.server.heap id = some h)
    (hmethod : h.method = client.kind)
    (hserver : IngestionServer.step s.server
      (.next (.request id true (client.call bundle))) = some server) :
    Connected { s with server, arrived := s.arrived ++ [(id, rpc)] } := by
  have hkept := hconn.server hreach hserver
  have hsettled := settled_of_request hreach hheap hserver
  rw [hmethod] at hsettled
  refine ⟨hkept.current, ?_, ?_⟩
  · refine List.forall_mem_append.mpr ⟨hkept.served, List.forall_mem_singleton.mpr ?_⟩
    exact ⟨bundle, _, hbundle, hsettled⟩
  · intro bundle' hmem
    obtain ⟨p, hp, hrest⟩ := hkept.answered bundle' hmem
    exact ⟨p, List.mem_append_left _ hp, hrest⟩

/-- A bundle that is started is behind all that were sent before. -/
theorem Connected.start (hconn : Connected s)
    {sink : ClientSinks.State (Value client.kind)}
    (hdelivered : sink.delivered = s.sink.delivered) :
    Connected { s with sink, sent := s.sent ++ [sink.bundle] } := by
  have hearlier : ∀ {rpc : ℕ} {bundle : client.Bundle}, s.sent[rpc]? = some bundle →
      (s.sent ++ [sink.bundle])[rpc]? = some bundle := by
    intro rpc bundle hsent
    obtain ⟨hlt, -⟩ := List.getElem?_eq_some_iff.mp hsent
    rw [List.getElem?_append_left hlt, hsent]
  refine ⟨fun _ => List.getLast?_concat, ?_, ?_⟩
  · intro p hmem
    obtain ⟨bundle, sink', hbundle, hsettled⟩ := hconn.served p hmem
    exact ⟨bundle, sink', hearlier hbundle, hsettled⟩
  · intro bundle hmem
    rw [hdelivered] at hmem
    obtain ⟨p, hp, hsent, hreply⟩ := hconn.answered bundle hmem
    exact ⟨p, hp, hearlier hsent, hreply⟩

/-- The outcome is OK only for a bundle that was answered. -/
theorem Connected.succeed (hconn : Connected s) (hphase : s.sink.phase = .inFlight)
    (hanswered : s.Answered s.current) : Connected { s with sink := s.sink.outcome true } := by
  have hlast := hconn.current hphase
  rw [List.getLast?_eq_getElem?] at hlast
  refine ⟨nofun, hconn.served, ?_⟩
  intro bundle hmem
  rcases List.mem_append.mp hmem with hold | hnew
  · exact hconn.answered bundle hold
  · rw [List.mem_singleton.mp hnew]
    obtain ⟨p, hp, hrpc, r, hr, hid, hok⟩ := hanswered
    refine ⟨p, hp, by rw [hrpc]; exact hlast, r.2, ?_, hok⟩
    exact List.mem_map.mpr ⟨r, List.mem_filter.mpr ⟨hr, by simpa using hid⟩, rfl⟩

theorem connected_of_reachable (hreach : (machine client labels).Reachable s) : Connected s := by
  apply Machine.reachable_induction (P := fun s : State client => Connected s) ?_ ?_ hreach
  · refine ⟨nofun, List.forall_mem_nil _, ?_⟩
    intro bundle hmem
    cases hmem
  · intro s a t hs hconn hstep
    have hserver := server_reachable hs
    cases step_branches hstep with
    | sink hsink hdelivered hphase hbundle =>
        refine ⟨?_, hconn.served, ?_⟩
        · intro hflight
          rw [hbundle hflight]
          exact hconn.current (hphase.mp hflight)
        · intro bundle hmem
          exact hconn.answered bundle (hdelivered ▸ hmem)
    | start _ hdelivered => exact hconn.start hdelivered
    | server hb => exact hconn.server hserver hb
    | arrive hbundle _ hheap hmethod hb => exact hconn.arrive hserver hbundle hheap hmethod hb
    | succeed hphase hanswered => exact hconn.succeed hphase hanswered
    | fail hphase => exact ⟨nofun, hconn.served, hconn.answered⟩

/-- A reply with OK comes from a handler that had a sink. -/
theorem exists_sink_of_ok {server : IngestionServer.State} {id : ℕ}
    {call : IngestionServer.Call} {method : SinkKind} {sink : Option KafkaSink} {r : Reply}
    (hsettled : server.Settled id call method sink) (hr : r ∈ server.repliesBy id)
    (hok : isOk r = true) : ∃ p, sink = some p := by
  rw [hsettled.replies, List.mem_singleton] at hr
  subst hr
  cases sink with
  | none => cases hok
  | some p => exact ⟨p, rfl⟩

/-- The records of a bundle, stored by one handler in one sink. -/
def State.Stored (s : State client) (bundle : client.Bundle) : Prop :=
  ∃ id sink, s.server.pushedBy id =
    (client.records bundle).map (fun r => ⟨id, sink, r.1, r.2⟩)

theorem Connected.stored (hconn : Connected s) {bundle : client.Bundle}
    (hdelivered : bundle ∈ s.sink.delivered) : bundle ∈ s.sent ∧ s.Stored bundle := by
  obtain ⟨p, hp, hsent, r, hr, hok⟩ := hconn.answered bundle hdelivered
  obtain ⟨bundle', sink, hsent', hsettled⟩ := hconn.served p hp
  rw [hsent] at hsent'
  cases hsent'
  obtain ⟨kafkaSink, rfl⟩ := exists_sink_of_ok hsettled hr hok
  refine ⟨List.mem_of_getElem? hsent, p.1, kafkaSink, ?_⟩
  rw [hsettled.pushes, Call.pushes, due_call]

/-- A value that the sink has let go of was in a bundle that was delivered. -/
theorem exists_delivered (hreach : (machine client labels).Reachable s)
    {e : Event (Value client.kind)} (hmem : e ∈ s.sink.pendingForDelete ++ s.sink.released)
    {v : Value client.kind} (hvalue : e.value = some v) :
    ∃ bundle ∈ s.sink.delivered, (e.arrival, v) ∈ bundle := by
  rcases (ClientSinks.settlement_of_reachable (sink_reachable hreach)).handled e hmem with
    hnull | ⟨bundle, hdelivered, v', hvalue', hitem⟩
  · rw [hvalue] at hnull
    cases hnull
  · rw [hvalue] at hvalue'
    cases hvalue'
    exact ⟨bundle, hdelivered, hitem⟩

/-- A sink for intake data, with the credentials of `intakeWriter`. -/
def intakeClient : Client :=
  ⟨.intake, ClientSinks.bbIntakeSink, bytes "first", bytes "secret", fun _ => true⟩

def beat : Value .intake :=
  (⟨bytes "agent", bytes "host", 5⟩ : Intake)

/-- The first RPC fails before its call arrives; the event is sent again, and then both
calls arrive. -/
def lateRun : List (Action intakeClient) :=
  [.server (.record intakeWriter.avro), .server .loop, .sink (.enqueue (some beat)),
    .sink (.top 0 0 0), .sink .build, .sink .build, .fail, .sink (.putBack 0),
    .sink (.putBack 0), .sink .handOver, .sink (.top 60000 0 0), .sink .build, .sink .build,
    .arrive 0 1, .server .loop, .arrive 1 3, .succeed, .sink .handOver, .sink .process]

end BbMonitor.Delivery
