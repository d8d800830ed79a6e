import BbMonitor.Delivery.AtLeastOnce
import BbMonitor.Deployment.Access

/-!
# The service as a whole

Everything between a client and the kafka topics: the tables and the auth topic of
`Deployment`, the ingestion server with its handlers, and a client sink that sends to it as
in `Delivery`.  The parts share the factory of the sinks.  The authorizer consumes no
records but those of the auth topic; apart from this, each part makes its steps whenever it
can, and other clients are among the steps of the server.

`calls` records the calls that handlers have taken, and is read by no step.

A run of the whole is a run of the client with the server (`delivery_reachable`), and a run
of the tables with the factory (`exists_system`), so that what was shown about these holds
here.
-/

namespace BbMonitor.Saas

open Sql Ingestion
open Deployment (System avro)
open Delivery (Client)

/-! ## The machine -/

/-- A call, and the handler that has taken it. -/
structure Taken where
  id : ℕ
  method : SinkKind
  call : IngestionServer.Call

/-- The call that a step of the server is about. -/
def taken (server : IngestionServer.State) : IngestionServer.Action → List Taken
  | .next (.request id _ call) => ((server.heap id).map fun h => ⟨id, h.method, call⟩).toList
  | _ => []

structure State (client : Client) where
  db : Db
  /-- The auth topic from where the authorizer is, the oldest record first. -/
  pending : List TopicAuth
  consumed : List TopicAuth
  delivery : Delivery.State client
  -- The calls that handlers have taken.
  calls : List Taken

inductive Action (client : Client) where
  | transaction (now : ℤ) (statement : Statement)
  -- The row of an id is copied to the auth topic.
  | publish (id : Int32)
  -- The authorizer consumes the oldest record of an id.
  | consume (id : Int32)
  -- A step of the client or of the server.
  | delivery (a : Delivery.Action client)

variable {client : Client}

/-- What the server does in a step of the client and the server. -/
def serverAction (s : Delivery.State client) :
    Delivery.Action client → Option IngestionServer.Action
  | .server a => some a
  | .arrive rpc id =>
      s.sent[rpc]?.map fun bundle => .next (.request id true (client.call bundle))
  | .sink _ => none
  | .succeed => none
  | .fail => none

def step (s : State client) : Action client → Option (State client)
  | .transaction now statement =>
      (s.db.transaction now statement).map fun db => { s with db }
  | .publish id =>
      (s.db.topicAuthView.find? fun row => row.id = id).map fun row =>
        { s with pending := s.pending ++ [row] }
  | .consume id =>
      (s.pending.find? fun row => row.id = id).bind fun row =>
        (Delivery.step s.delivery (.server (.record (avro row)))).map fun delivery =>
          { s with
            pending := s.pending.eraseP fun row => row.id = id
            consumed := s.consumed ++ [row]
            delivery }
  | .delivery a =>
      -- records arrive by `consume` only
      if Delivery.isRecord a then none
      else (Delivery.step s.delivery a).map fun delivery =>
        { s with
          delivery
          calls := s.calls ++ (serverAction s.delivery a).elim [] (taken s.delivery.server) }

def machine (client : Client) (labels : Labels) : Machine (State client) (Action client) where
  init := ⟨Db.empty, [], [], (Delivery.machine client labels).init, []⟩
  step := step

/-! ## The steps, branch by branch -/

inductive Step (s : State client) : State client → Prop where
  | transaction {now : ℤ} {statement : Statement} {db : Db}
      (htransaction : s.db.transaction now statement = some db) : Step s { s with db }
  | publish {id : Int32} {row : TopicAuth}
      (hrow : (s.db.topicAuthView.find? fun row => row.id = id) = some row) :
      Step s { s with pending := s.pending ++ [row] }
  | consume {id : Int32} {row : TopicAuth} {server : IngestionServer.State}
      (hrow : (s.pending.find? fun row => row.id = id) = some row)
      (hserver : IngestionServer.step s.delivery.server (.record (avro row)) = some server) :
      Step s
        { s with
          pending := s.pending.eraseP fun row => row.id = id
          consumed := s.consumed ++ [row]
          delivery := { s.delivery with server } }
  | client {sink : ClientSinks.State (Delivery.Value client.kind)}
      {sent failed : List client.Bundle}
      (hsent : s.delivery.sent <+: sent) :
      Step s { s with delivery := { s.delivery with sink, sent, failed } }
  | server {a : IngestionServer.Action} {server : IngestionServer.State}
      (ha : ∀ r, a ≠ .record r)
      (hserver : IngestionServer.step s.delivery.server a = some server) :
      Step s
        { s with
          delivery := { s.delivery with server }
          calls := s.calls ++ taken s.delivery.server a }
  | arrive {rpc id : ℕ} {bundle : client.Bundle} {server : IngestionServer.State}
      (hbundle : s.delivery.sent[rpc]? = some bundle)
      (hserver : IngestionServer.step s.delivery.server
        (.next (.request id true (client.call bundle))) = some server)
      (htaken : taken s.delivery.server (.next (.request id true (client.call bundle))) =
        [⟨id, client.kind, client.call bundle⟩]) :
      Step s
        { s with
          delivery := { s.delivery with server, arrived := s.delivery.arrived ++ [(id, rpc)] }
          calls := s.calls ++ [⟨id, client.kind, client.call bundle⟩] }

theorem step_branches {s t : State client} {a : Action client} (hstep : step s a = some t) :
    Step s t := by
  cases a with
  | transaction now statement =>
      obtain ⟨db, htransaction, rfl⟩ := Option.map_eq_some_iff.mp hstep
      exact .transaction htransaction
  | publish id =>
      obtain ⟨row, hrow, rfl⟩ := Option.map_eq_some_iff.mp hstep
      exact .publish hrow
  | consume id =>
      obtain ⟨row, hrow, hrest⟩ := Option.bind_eq_some_iff.mp hstep
      obtain ⟨delivery, hdelivery, rfl⟩ := Option.map_eq_some_iff.mp hrest
      obtain ⟨server, hserver, rfl⟩ := Option.map_eq_some_iff.mp hdelivery
      exact .consume hrow hserver
  | delivery a =>
      obtain ⟨hrecord, hrest⟩ := Option.ite_none_left_eq_some.mp hstep
      obtain ⟨delivery, hdelivery, rfl⟩ := Option.map_eq_some_iff.mp hrest
      cases a with
      | sink a =>
          have hsink : Delivery.stepSink s.delivery a = some delivery := by
            cases a with
            | outcome ok => cases hdelivery
            | _ => exact hdelivery
          obtain ⟨sink, -, rfl⟩ := Option.map_eq_some_iff.mp hsink
          rw [serverAction, Option.elim_none, List.append_nil]
          refine .client ?_
          split
          · exact List.prefix_append _ _
          · exact List.prefix_rfl
      | server a =>
          obtain ⟨server, hserver, rfl⟩ := Option.map_eq_some_iff.mp hdelivery
          refine .server ?_ hserver
          rintro r rfl
          exact hrecord rfl
      | arrive rpc id =>
          obtain ⟨bundle, server, h, hbundle, -, hheap, hkind, hserver, rfl⟩ :=
            Delivery.arrive_eq_some hdelivery
          have htaken : taken s.delivery.server (.next (.request id true (client.call bundle))) =
              [⟨id, client.kind, client.call bundle⟩] := by
            rw [taken, hheap, Option.map_some, hkind]
            rfl
          rw [serverAction, hbundle, Option.map_some, Option.elim_some, htaken]
          exact .arrive hbundle hserver htaken
      | succeed =>
          obtain ⟨-, hsucceed⟩ := Option.ite_none_right_eq_some.mp hdelivery
          obtain ⟨sink, -, rfl⟩ := Option.map_eq_some_iff.mp hsucceed
          rw [serverAction, Option.elim_none, List.append_nil]
          exact .client List.prefix_rfl
      | fail =>
          obtain ⟨sink, -, rfl⟩ := Option.map_eq_some_iff.mp hdelivery
          rw [serverAction, Option.elim_none, List.append_nil]
          exact .client List.prefix_rfl

/-! ## The server -/

/-- What a request does to the server. -/
structure Request (s t : IngestionServer.State) (c : Taken) : Prop where
  armed : s.At c.id .armed
  factory : t.factory = (s.sinkFor c.method c.call).2
  pushed : t.pushed = s.pushed ++ c.call.pushes c.id c.method (s.sinkFor c.method c.call).1
  settled : t.Settled c.id c.call c.method (s.sinkFor c.method c.call).1

/-- What the server can do in a step in which it consumes no record. -/
theorem server_step_cases {labels : Labels} {s t : IngestionServer.State}
    {a : IngestionServer.Action} (hreach : (IngestionServer.machine labels).Reachable s)
    (ha : ∀ r, a ≠ .record r) (hstep : IngestionServer.step s a = some t) :
    (taken s a = [] ∧ t.factory = s.factory ∧ t.pushed = s.pushed ∧ t.replies = s.replies) ∨
      ∃ c, taken s a = [c] ∧ Request s t c := by
  cases a with
  | record r => exact absurd rfl (ha r)
  | sigterm | shutdown =>
      cases hstep
      exact Or.inl ⟨rfl, rfl, rfl, rfl⟩
  | loop =>
      obtain ⟨-, ht⟩ := Option.ite_none_right_eq_some.mp hstep
      cases ht
      exact Or.inl ⟨rfl, rfl, rfl, rfl⟩
  | next outcome =>
      have hbranch :=
        IngestionServer.step_branches (IngestionServer.staged_of_reachable hreach) hstep
      cases hbranch with
      | outside hnext => exact absurd rfl (hnext _)
      | @request id ok call h hat hheap =>
          have htaken : taken s (.next (.request id ok call)) = [⟨id, h.method, call⟩] := by
            rw [taken, hheap]
            rfl
          exact Or.inr ⟨_, htaken, hat, rfl, rfl,
            IngestionServer.settled_of_request hreach hheap hstep⟩
      | finish | drained => exact Or.inl ⟨rfl, rfl, rfl, rfl⟩

/-! ## The parts -/

section Parts

variable {labels : Labels} {s : State client}

theorem delivery_reachable (hreach : (machine client labels).Reachable s) :
    (Delivery.machine client labels).Reachable s.delivery := by
  apply Machine.Simulates.reachable_part (f := State.delivery) ⟨rfl, ?_⟩ hreach
  rintro s a t _ - - rfl hstep
  cases a with
  | transaction now statement =>
      obtain ⟨db, -, rfl⟩ := Option.map_eq_some_iff.mp hstep
      exact Or.inl rfl
  | publish id =>
      obtain ⟨row, -, rfl⟩ := Option.map_eq_some_iff.mp hstep
      exact Or.inl rfl
  | consume id =>
      obtain ⟨row, -, hrest⟩ := Option.bind_eq_some_iff.mp hstep
      obtain ⟨delivery, hdelivery, rfl⟩ := Option.map_eq_some_iff.mp hrest
      exact Or.inr ⟨.server (.record (avro row)), delivery, hdelivery, rfl⟩
  | delivery a =>
      obtain ⟨-, hrest⟩ := Option.ite_none_left_eq_some.mp hstep
      obtain ⟨delivery, hdelivery, rfl⟩ := Option.map_eq_some_iff.mp hrest
      exact Or.inr ⟨a, delivery, hdelivery, rfl⟩

theorem server_reachable (hreach : (machine client labels).Reachable s) :
    (IngestionServer.machine labels).Reachable s.delivery.server :=
  Delivery.server_reachable (delivery_reachable hreach)

/-- The tables and the factory, with the calls for sinks so far. -/
def State.system (s : State client) (calls : List Ingestion.Call) : System :=
  ⟨s.db, s.pending, s.consumed, (s.delivery.server.factory, calls)⟩

theorem system_step_of_server {calls : List Ingestion.Call} {t : State client}
    {a : IngestionServer.Action} (hreach : (machine client labels).Reachable s)
    (ha : ∀ r, a ≠ .record r)
    (hserver : IngestionServer.step s.delivery.server a = some t.delivery.server)
    (hsame : (t.db, t.pending, t.consumed) = (s.db, s.pending, s.consumed)) :
    (∃ calls', s.system calls = t.system calls') ∨
      ∃ b u, (Deployment.machine labels).step (s.system calls) b = some u ∧
        ∃ calls', u = t.system calls' := by
  simp only [Prod.mk.injEq] at hsame
  obtain ⟨hdb, hpending, hconsumed⟩ := hsame
  rcases server_step_cases (server_reachable hreach) ha hserver with
    ⟨-, hfactory, -, -⟩ | ⟨c, -, hrequest⟩
  · refine Or.inl ⟨calls, ?_⟩
    simp only [State.system, hdb, hpending, hconsumed, hfactory]
  · refine Or.inr ⟨.call c.method c.call.apiKey c.call.apiSecret, _, rfl, ?_⟩
    simp only [State.system, hdb, hpending, hconsumed, hrequest.factory]
    exact ⟨_, rfl⟩

theorem exists_system (hreach : (machine client labels).Reachable s) :
    ∃ calls, (Deployment.machine labels).Reachable (s.system calls) := by
  have hsim : Machine.Simulates (machine client labels) (Deployment.machine labels)
      fun s u => ∃ calls, u = s.system calls := by
    refine ⟨⟨[], rfl⟩, ?_⟩
    rintro s a t _ hs - ⟨calls, rfl⟩ hstep
    cases step_branches hstep with
    | @transaction now statement db htransaction =>
        refine Or.inr ⟨.transaction now statement, { s.system calls with db }, ?_, calls, rfl⟩
        show (s.db.transaction now statement).map _ = _
        rw [htransaction]
        rfl
    | @publish id row hrow =>
        refine Or.inr ⟨.publish id, { s.system calls with pending := s.pending ++ [row] }, ?_,
          calls, rfl⟩
        show (s.db.topicAuthView.find? _).map _ = _
        rw [hrow]
        rfl
    | @consume id row server hrow hserver =>
        obtain ⟨authorizer, hvisit, rfl⟩ := Option.map_eq_some_iff.mp hserver
        refine Or.inr ⟨.consume id, _, ?_, calls, rfl⟩
        show (s.pending.find? _).bind _ = _
        rw [hrow, Option.bind_some]
        show ((Authorizer.visitor s.delivery.server.factory.authorizer (avro row)).map _).map _ = _
        rw [hvisit]
        rfl
    | client => exact Or.inl ⟨calls, rfl⟩
    | server ha hserver => exact system_step_of_server hs ha hserver rfl
    | arrive _ hserver => exact system_step_of_server hs (by rintro r ⟨⟩) hserver rfl
  obtain ⟨u, hu, calls, rfl⟩ := hsim.reachable hreach
  exact ⟨calls, hu⟩

end Parts

end BbMonitor.Saas
