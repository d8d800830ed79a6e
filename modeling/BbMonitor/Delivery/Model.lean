import BbMonitor.ClientSinks.Conservation
import BbMonitor.IngestionServer.ReplyCounts

/-!
# From a client sink to the ingestion server

A client sink and the server it sends its bundles to, with the network in between.  The
sink starts one RPC at a time and waits for its outcome.  What gRPC does with an RPC is
nondeterministic: the call arrives at a handler of the method once or not at all, and never
if its message cannot be transmitted; the outcome is OK only if the server has started a
reply with OK; and it may be a failure at any time, also after the call was served, and a call
may arrive after its RPC has failed.

The machine is the product of the two machines of `ClientSinks` and `IngestionServer`.
Everything else that the server goes through (records of the auth topic, other clients,
shutdown) is among its own steps.  `sent`, `arrived` and `failed` record which RPCs there
were; `sent` also is what the network carries.
-/

namespace BbMonitor.Delivery

open Ingestion IngestionServer
open ClientSinks (Item)

/-! ## Bundles -/

/-- The value of an event, by the kind of the sink. -/
def Value : SinkKind → Type
  | .metrics => Metric
  | .intake => Intake
  | .log => DdLogProxy.LogLine

/-- The call that carries a bundle. -/
def call (apiKey apiSecret : Bytes) :
    (kind : SinkKind) → List (Value kind) → IngestionServer.Call
  | .metrics, values => ⟨apiKey, apiSecret, values, [], []⟩
  | .intake, values => ⟨apiKey, apiSecret, [], values, []⟩
  | .log, values => ⟨apiKey, apiSecret, [], [], values⟩

/-- The key and the record that a value is to be stored under; a metric without a
measurement has none. -/
def record : (kind : SinkKind) → Value kind → Option (Bytes × Record)
  | .metrics, metric => (metricPush metric).map fun r => (r.1, .metric r.2)
  | .intake, item => some ([], .intake (avroIntake item))
  | .log, ll => some (ll.id, .logline (avroLogline ll))

/-! ## The machine -/

/-- What a sink is constructed with. -/
structure Client where
  kind : SinkKind
  config : ClientSinks.Config
  apiKey : Bytes
  apiSecret : Bytes
  /-- Whether the channel transmits a message.  A string that is not UTF-8 cannot be
  serialized, and the server takes messages up to a certain length. -/
  transmits : IngestionServer.Call → Bool

/-- A bundle of the client. -/
abbrev Client.Bundle (client : Client) := List (Item (Value client.kind))

def Client.call (client : Client) (bundle : client.Bundle) : IngestionServer.Call :=
  Delivery.call client.apiKey client.apiSecret client.kind (bundle.map Prod.snd)

@[simp] theorem Client.apiKey_call (client : Client) (bundle : client.Bundle) :
    (client.call bundle).apiKey = client.apiKey := by
  obtain ⟨kind, config, apiKey, apiSecret, transmits⟩ := client
  cases kind <;> rfl

@[simp] theorem Client.apiSecret_call (client : Client) (bundle : client.Bundle) :
    (client.call bundle).apiSecret = client.apiSecret := by
  obtain ⟨kind, config, apiKey, apiSecret, transmits⟩ := client
  cases kind <;> rfl

structure State (client : Client) where
  sink : ClientSinks.State (Value client.kind)
  server : IngestionServer.State
  -- The bundles of the RPCs, in the order in which these were started.
  sent : List client.Bundle
  -- The handlers at which calls of the sink have arrived, with the number of the RPC.
  arrived : List (ℕ × ℕ)
  -- The bundles of the RPCs that failed.
  failed : List client.Bundle

inductive Action (client : Client) where
  -- A step of the sink, other than the end of an RPC.
  | sink (a : ClientSinks.Action (Value client.kind))
  -- A step of the server that has nothing to do with the sink.
  | server (a : IngestionServer.Action)
  -- The call of an RPC arrives at a handler.
  | arrive (rpc id : ℕ)
  -- The RPC ends with OK.
  | succeed
  -- The RPC ends with a failure.
  | fail

variable {client : Client}

/-- The authorizer of the server consumes a record. -/
def isRecord : Action client → Bool
  | .server (.record _) => true
  | _ => false

/-- The RPC that the sink waits for. -/
def State.current (s : State client) : ℕ := s.sent.length - 1

def isOk : Reply → Bool
  | .ok _ => true
  | .unauthenticated _ => false

/-- The server has started a reply with OK to the call of an RPC. -/
def State.Answered (s : State client) (rpc : ℕ) : Prop :=
  ∃ p ∈ s.arrived, p.2 = rpc ∧ ∃ r ∈ s.server.replies, r.1 = p.1 ∧ isOk r.2 = true

instance (s : State client) (rpc : ℕ) : Decidable (s.Answered rpc) :=
  inferInstanceAs (Decidable (∃ _ ∈ _, _))

/-- A step of the sink; the call of an RPC is started when the bundle is complete. -/
def stepSink (s : State client) (a : ClientSinks.Action (Value client.kind)) :
    Option (State client) :=
  (ClientSinks.step client.config s.sink a).map fun sink =>
    { s with
      sink
      sent := if s.sink.phase = .building ∧ sink.phase = .inFlight then s.sent ++ [sink.bundle]
        else s.sent }

/-- The call arrives once, if it is transmitted, and at a handler of the method. -/
def arrive (s : State client) (rpc id : ℕ) : Option (State client) :=
  match s.sent[rpc]? with
  | none => none
  | some bundle =>
      if rpc ∉ s.arrived.map Prod.snd ∧ client.transmits (client.call bundle) = true ∧
          (s.server.heap id).map Handler.method = some client.kind then
        (IngestionServer.step s.server (.next (.request id true (client.call bundle)))).map
          fun server => { s with server, arrived := s.arrived ++ [(id, rpc)] }
      else none

def step (s : State client) : Action client → Option (State client)
  | .sink (.outcome _) => none
  | .sink a => stepSink s a
  | .server a => (IngestionServer.step s.server a).map fun server => { s with server }
  | .arrive rpc id => arrive s rpc id
  | .succeed =>
      if s.Answered s.current then
        (ClientSinks.step client.config s.sink (.outcome true)).map fun sink => { s with sink }
      else none
  | .fail =>
      (ClientSinks.step client.config s.sink (.outcome false)).map fun sink =>
        { s with sink, failed := s.failed ++ [s.sink.bundle] }

def machine (client : Client) (labels : Labels) : Machine (State client) (Action client) where
  init :=
    { sink := ClientSinks.State.init, server := IngestionServer.State.init labels
      sent := [], arrived := [], failed := [] }
  step := step

/-! ## The steps, branch by branch -/

inductive Step (s : State client) : State client → Prop where
  | sink {a : ClientSinks.Action (Value client.kind)}
      {sink : ClientSinks.State (Value client.kind)}
      (hsink : ClientSinks.step client.config s.sink a = some sink)
      (hdelivered : sink.delivered = s.sink.delivered)
      (hphase : sink.phase = .inFlight ↔ s.sink.phase = .inFlight)
      (hbundle : sink.phase = .inFlight → sink.bundle = s.sink.bundle) :
      Step s { s with sink }
  | start {sink : ClientSinks.State (Value client.kind)}
      (hsink : ClientSinks.step client.config s.sink .build = some sink)
      (hdelivered : sink.delivered = s.sink.delivered)
      (hbuilding : s.sink.phase = .building) (hphase : sink.phase = .inFlight) :
      Step s { s with sink, sent := s.sent ++ [sink.bundle] }
  | server {a : IngestionServer.Action} {server : IngestionServer.State}
      (hserver : IngestionServer.step s.server a = some server) : Step s { s with server }
  | arrive {rpc id : ℕ} {bundle : client.Bundle} {server : IngestionServer.State} {h : Handler}
      (hbundle : s.sent[rpc]? = some bundle) (hfirst : rpc ∉ s.arrived.map Prod.snd)
      (hheap : s.server.heap id = some h) (hmethod : h.method = client.kind)
      (hserver : IngestionServer.step s.server
        (.next (.request id true (client.call bundle))) = some server) :
      Step s { s with server, arrived := s.arrived ++ [(id, rpc)] }
  | succeed (hphase : s.sink.phase = .inFlight) (hanswered : s.Answered s.current) :
      Step s { s with sink := s.sink.outcome true }
  | fail (hphase : s.sink.phase = .inFlight) :
      Step s { s with sink := s.sink.outcome false, failed := s.failed ++ [s.sink.bundle] }

variable {s t : State client}

/-- Other steps neither start an RPC nor end one. -/
theorem inFlight_iff {V : Type} {config : ClientSinks.Config} {u v : ClientSinks.State V}
    {a : ClientSinks.Action V} (hstep : ClientSinks.step config u a = some v)
    (ha : ∀ ok, a ≠ .outcome ok) (hstart : ¬ (u.phase = .building ∧ v.phase = .inFlight)) :
    v.phase = .inFlight ↔ u.phase = .inFlight := by
  cases ClientSinks.step_branches hstep with
  | enqueue | processNothing | processOne | setExit => exact Iff.rfl
  | send hphase => exact absurd ⟨hphase, rfl⟩ hstart
  | succeed => exact absurd rfl (ha true)
  | fail => exact absurd rfl (ha false)
  | idle hphase | leave hphase | postponePurge hphase | beginPurge hphase
  | beginBatch hphase | countPurge hphase | purgeDone hphase | purgeOne hphase | take hphase
  | skip hphase | putBackOne hphase | putBackDone hphase | handOverOne hphase
  | handOverDone hphase =>
      simp [hphase, ClientSinks.State.countPurge]

/-- What a step of the sink other than an outcome does to the RPCs. -/
theorem stepSink_branches {a : ClientSinks.Action (Value client.kind)}
    (ha : ∀ ok, a ≠ .outcome ok) (hstep : stepSink s a = some t) : Step s t := by
  obtain ⟨sink, hsink, rfl⟩ := Option.map_eq_some_iff.mp hstep
  have hbranch := ClientSinks.step_branches hsink
  by_cases hstart : s.sink.phase = .building ∧ sink.phase = .inFlight
  · rw [if_pos hstart]
    have hbuild : a = .build ∧ sink.delivered = s.sink.delivered := by
      obtain ⟨hbuilding, hflight⟩ := hstart
      cases hbranch with
      | take | send | skip => exact ⟨rfl, rfl⟩
      | enqueue | processNothing | processOne | setExit =>
          simp [ClientSinks.State.enqueue, hbuilding] at hflight
      | succeed => exact absurd rfl (ha true)
      | fail => exact absurd rfl (ha false)
      | idle hphase | leave hphase | postponePurge hphase | beginPurge hphase | beginBatch hphase
      | countPurge hphase | purgeDone hphase | purgeOne hphase | putBackOne hphase
      | putBackDone hphase | handOverOne hphase | handOverDone hphase =>
          rw [hbuilding] at hphase
          cases hphase
    obtain ⟨rfl, hdelivered⟩ := hbuild
    exact .start hsink hdelivered hstart.1 hstart.2
  · rw [if_neg hstart]
    refine .sink hsink ?_ ?_ ?_
    · cases hbranch with
      | succeed => exact absurd rfl (ha true)
      | _ => rfl
    · exact inFlight_iff hsink ha hstart
    · intro hflight
      cases hbranch with
      | enqueue | processNothing | processOne | setExit => rfl
      | send hphase => exact absurd ⟨hphase, rfl⟩ hstart
      | succeed => exact absurd rfl (ha true)
      | fail => exact absurd rfl (ha false)
      | idle hphase | postponePurge hphase | take hphase | putBackOne hphase
      | handOverOne hphase =>
          simp [hphase] at hflight
      | leave | beginPurge | beginBatch | countPurge | purgeDone | purgeOne | skip
      | putBackDone | handOverDone => cases hflight

theorem arrive_eq_some {rpc id : ℕ} (harrive : arrive s rpc id = some t) :
    ∃ bundle server h, s.sent[rpc]? = some bundle ∧ rpc ∉ s.arrived.map Prod.snd ∧
      s.server.heap id = some h ∧ h.method = client.kind ∧
      IngestionServer.step s.server (.next (.request id true (client.call bundle))) =
        some server ∧
      t = { s with server, arrived := s.arrived ++ [(id, rpc)] } := by
  unfold Delivery.arrive at harrive
  split at harrive
  · cases harrive
  · rename_i bundle hbundle
    obtain ⟨⟨hfirst, -, hmethod⟩, hserve⟩ := Option.ite_none_right_eq_some.mp harrive
    obtain ⟨server, hserver, rfl⟩ := Option.map_eq_some_iff.mp hserve
    obtain ⟨h, hheap, hkind⟩ := Option.map_eq_some_iff.mp hmethod
    exact ⟨bundle, server, h, hbundle, hfirst, hheap, hkind, hserver, rfl⟩

theorem step_branches {a : Action client} (hstep : step s a = some t) : Step s t := by
  cases a with
  | sink a =>
      by_cases houtcome : ∃ ok, a = .outcome ok
      · obtain ⟨ok, rfl⟩ := houtcome
        cases hstep
      · push Not at houtcome
        refine stepSink_branches houtcome ?_
        cases a with
        | outcome ok => exact absurd rfl (houtcome ok)
        | _ => exact hstep
  | server a =>
      obtain ⟨server, hserver, rfl⟩ := Option.map_eq_some_iff.mp hstep
      exact .server hserver
  | arrive rpc id =>
      obtain ⟨bundle, server, h, hbundle, hfirst, hheap, hkind, hserver, rfl⟩ :=
        arrive_eq_some hstep
      exact .arrive hbundle hfirst hheap hkind hserver
  | succeed =>
      obtain ⟨hanswered, hsucceed⟩ := Option.ite_none_right_eq_some.mp hstep
      obtain ⟨sink, hsink, rfl⟩ := Option.map_eq_some_iff.mp hsucceed
      obtain ⟨hphase, hsink⟩ := Option.ite_none_right_eq_some.mp hsink
      cases hsink
      exact .succeed hphase hanswered
  | fail =>
      obtain ⟨sink, hsink, rfl⟩ := Option.map_eq_some_iff.mp hstep
      obtain ⟨hphase, hsink⟩ := Option.ite_none_right_eq_some.mp hsink
      cases hsink
      exact .fail hphase

/-! ## The parts -/

theorem sink_reachable {labels : Labels} (hreach : (machine client labels).Reachable s) :
    (ClientSinks.machine (Value client.kind) client.config).Reachable s.sink := by
  apply Machine.Simulates.reachable_part (f := State.sink) ⟨rfl, ?_⟩ hreach
  rintro s a t _ - - rfl hstep
  cases step_branches hstep with
  | sink hsink => exact Or.inr ⟨_, _, hsink, rfl⟩
  | start hsink => exact Or.inr ⟨.build, _, hsink, rfl⟩
  | server | arrive => exact Or.inl rfl
  | succeed hphase => exact Or.inr ⟨.outcome true, _, if_pos hphase, rfl⟩
  | fail hphase => exact Or.inr ⟨.outcome false, _, if_pos hphase, rfl⟩

theorem server_reachable {labels : Labels} (hreach : (machine client labels).Reachable s) :
    (IngestionServer.machine labels).Reachable s.server := by
  apply Machine.Simulates.reachable_part (f := State.server) ⟨rfl, ?_⟩ hreach
  rintro s a t _ - - rfl hstep
  cases step_branches hstep with
  | sink | start | succeed | fail => exact Or.inl rfl
  | server hserver => exact Or.inr ⟨_, _, hserver, rfl⟩
  | @arrive rpc id bundle server h _ _ _ _ hserver =>
      exact Or.inr ⟨.next (.request id true (client.call bundle)), server, hserver, rfl⟩

end BbMonitor.Delivery
