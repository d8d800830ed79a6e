import BbMonitor.Saas.Model

/-!
# What is stored belongs to the tenant that sent it

Every record that any handler ever pushed came with a call that presented the api key of a
tenant, and went to a kafka topic named after this tenant.  So the records in a topic are
all from callers with one api key (`stored_for_tenant`); and what a client lets go of is in
the topic of the tenant whose api key the client was constructed with
(`stored_with_tenant`).

The handler asks the factory when the call arrives, so that what was granted then is what
counts.  A tenant keeps its api key, and rows that were consumed stay consumed: what is
shown of a call when it arrives stays true (`Entitled.grows`, `NoCollision.mono`).
-/

namespace BbMonitor.Saas

open Sql Ingestion
open Deployment (records Ordinary Owned)
open Delivery (Client)

variable {client : Client} {labels : Labels} {s t : State client}

/-- The sink belongs to the tenant whose credentials the call presents. -/
structure Entitled (db : Db) (c : Taken) (sink : KafkaSink) : Prop where
  topic : Owned db c.method (sink.topic, sink.customerId)
  tenant : ∃ tenant, db.bbTenant.find? sink.customerId = some tenant ∧
    tenant.apiKey = some c.call.apiKey
  secret : md5 c.call.apiSecret = md5 []

theorem Entitled.grows {db db' : Db} {c : Taken} {sink : KafkaSink}
    (hentitled : Entitled db c sink) (hgrows : Grows db db') : Entitled db' c sink := by
  obtain ⟨tenant, hfind, hkey⟩ := hentitled.tenant
  obtain ⟨tenant', hfind', hsame⟩ := hgrows.bbTenant _ tenant hfind
  exact ⟨hentitled.topic.grows hgrows, ⟨tenant', hfind', hsame.trans hkey⟩, hentitled.secret⟩

/-- The digest that is looked up for the call is that of no other credentials among those
announced in the rows. -/
def NoCollision (consumed : List TopicAuth) (c : Taken) : Prop :=
  ∀ r ∈ records consumed,
    r.indexKey = Authorizer.queryKey c.call.apiKey c.call.apiSecret c.method.logicalTopic →
      r.data.credential = Authorizer.credentialString c.method.logicalTopic c.call.apiKey
        (md5 c.call.apiSecret)

instance (consumed : List TopicAuth) (c : Taken) : Decidable (NoCollision consumed c) :=
  inferInstanceAs (Decidable (∀ _ ∈ _, _))

theorem NoCollision.mono {rows rows' : List TopicAuth} {c : Taken} (hno : NoCollision rows' c)
    (hsubset : rows ⊆ rows') : NoCollision rows c := by
  intro r hmem
  obtain ⟨row, hrow, hrecord⟩ := List.mem_filterMap.mp hmem
  exact hno r (List.mem_filterMap.mpr ⟨row, hsubset hrow, hrecord⟩)

/-! ## The invariant -/

/-- The call was served, with a sink that it was entitled to. -/
def State.Served (s : State client) (c : Taken) : Prop :=
  ∃ sink, s.delivery.server.Settled c.id c.call c.method sink ∧
    ∀ p, sink = some p → NoCollision s.consumed c → Entitled s.db c p

structure Guarded (s : State client) : Prop where
  served : ∀ c ∈ s.calls, s.Served c
  once : (s.calls.map Taken.id).Nodup
  pushed : ∀ p ∈ s.delivery.server.pushed, p.id ∈ s.calls.map Taken.id
  -- the calls of the client are among those that were taken
  arrived : ∀ p ∈ s.delivery.arrived, ∃ bundle, s.delivery.sent[p.2]? = some bundle ∧
    ⟨p.1, client.kind, client.call bundle⟩ ∈ s.calls

/-- What a call gets when it arrives is what it is entitled to. -/
theorem entitled_of_request (hreach : (machine client labels).Reachable s) {c : Taken}
    {p : KafkaSink} (hsink : (s.delivery.server.sinkFor c.method c.call).1 = some p)
    (hno : NoCollision s.consumed c) : Entitled s.db c p := by
  obtain ⟨calls, hsystem⟩ := exists_system hreach
  have hs : Ordinary (s.system calls) := Deployment.ordinary_of_reachable hsystem
  have hp : (s.system calls).sink c.method c.call.apiKey c.call.apiSecret = some p := hsink
  obtain ⟨-, hcustomer, htopic, howned⟩ := hs.grant_of_sink hp
  obtain ⟨htenant, hsecret⟩ := hs.credentials_of_sink hno hp
  refine ⟨?_, htenant, hsecret⟩
  rw [htopic, hcustomer]
  exact howned

/-- A step that leaves the calls alone keeps the invariant. -/
theorem Guarded.keep (hs : Guarded s) (hgrows : Grows s.db t.db)
    (hconsumed : s.consumed ⊆ t.consumed) (hcalls : t.calls = s.calls)
    (hpushed : t.delivery.server.pushed = s.delivery.server.pushed)
    (hreplies : t.delivery.server.replies = s.delivery.server.replies)
    (harrived : t.delivery.arrived = s.delivery.arrived)
    (hsent : s.delivery.sent <+: t.delivery.sent) : Guarded t := by
  refine ⟨?_, hcalls ▸ hs.once, ?_, ?_⟩
  · intro c hmem
    obtain ⟨sink, hsettled, hentitled⟩ := hs.served c (hcalls ▸ hmem)
    refine ⟨sink, ⟨?_, ?_⟩, fun p hp hno => ?_⟩
    · rw [IngestionServer.State.pushedBy, hpushed]
      exact hsettled.pushes
    · rw [IngestionServer.State.repliesBy, hreplies]
      exact hsettled.replies
    · exact (hentitled p hp (hno.mono hconsumed)).grows hgrows
  · rw [hpushed, hcalls]
    exact hs.pushed
  · rw [harrived, hcalls]
    intro p hmem
    obtain ⟨bundle, hbundle, hcall⟩ := hs.arrived p hmem
    refine ⟨bundle, ?_, hcall⟩
    obtain ⟨more, hmore⟩ := hsent
    obtain ⟨hlt, -⟩ := List.getElem?_eq_some_iff.mp hbundle
    rw [← hmore, List.getElem?_append_left hlt, hbundle]

/-- A call that a handler takes, beside the other parts of the state. -/
theorem Guarded.take (hs : Guarded s) (hreach : (machine client labels).Reachable s) {c : Taken}
    {a : IngestionServer.Action} {server : IngestionServer.State} {arrived : List (ℕ × ℕ)}
    (hserver : IngestionServer.step s.delivery.server a = some server)
    (hrequest : Request s.delivery.server server c)
    (harrived : ∀ p ∈ arrived, ∃ bundle, s.delivery.sent[p.2]? = some bundle ∧
      ⟨p.1, client.kind, client.call bundle⟩ ∈ s.calls ++ [c]) :
    Guarded
      { s with delivery := { s.delivery with server, arrived }, calls := s.calls ++ [c] } := by
  have hreachable := server_reachable hreach
  refine ⟨?_, ?_, ?_, harrived⟩
  · refine List.forall_mem_append.mpr ⟨?_, List.forall_mem_singleton.mpr ?_⟩
    · intro c' hmem
      obtain ⟨sink, hsettled, hentitled⟩ := hs.served c' hmem
      exact ⟨sink, IngestionServer.settled_step hreachable hserver hsettled, hentitled⟩
    · exact ⟨_, hrequest.settled, fun p hp hno => entitled_of_request hreach hp hno⟩
  · have hnew : c.id ∉ s.calls.map Taken.id := by
      intro hmem
      obtain ⟨c', hc', hid⟩ := List.mem_map.mp hmem
      obtain ⟨sink, hsettled, -⟩ := hs.served c' hc'
      exact hsettled.ne_of_armed hrequest.armed hid.symm
    rw [List.map_append]
    exact hs.once.append (List.nodup_singleton _) (by simpa using hnew)
  · show ∀ p ∈ server.pushed, p.id ∈ (s.calls ++ [c]).map Taken.id
    rw [hrequest.pushed, List.map_append]
    refine List.forall_mem_append.mpr ⟨fun p hmem => ?_, fun p hmem => ?_⟩
    · exact List.mem_append_left _ (hs.pushed p hmem)
    · rw [IngestionServer.id_of_mem_pushes hmem]
      exact List.mem_append_right _ (List.mem_singleton_self _)

theorem guarded_of_reachable (hreach : (machine client labels).Reachable s) : Guarded s := by
  apply Machine.reachable_induction (P := fun s : State client => Guarded s) ?_ ?_ hreach
  · exact ⟨List.forall_mem_nil _, List.nodup_nil, List.forall_mem_nil _, List.forall_mem_nil _⟩
  intro s a t hreach hs hstep
  have hsubset := List.Subset.refl s.consumed
  have hgrows := Grows.refl s.db
  cases step_branches hstep with
  | transaction htransaction =>
      exact hs.keep (grows_transaction htransaction) hsubset rfl rfl rfl rfl List.prefix_rfl
  | publish => exact hs.keep hgrows hsubset rfl rfl rfl rfl List.prefix_rfl
  | consume _ hserver =>
      obtain ⟨authorizer, -, rfl⟩ := Option.map_eq_some_iff.mp hserver
      exact hs.keep hgrows (List.subset_append_left _ _) rfl rfl rfl rfl List.prefix_rfl
  | client hsent => exact hs.keep hgrows hsubset rfl rfl rfl rfl hsent
  | server ha hserver =>
      rcases server_step_cases (server_reachable hreach) ha hserver with
        ⟨htaken, -, hpushed, hreplies⟩ | ⟨c, htaken, hrequest⟩
      · exact hs.keep hgrows hsubset (by rw [htaken, List.append_nil]) hpushed hreplies rfl
          List.prefix_rfl
      · rw [htaken]
        refine hs.take hreach hserver hrequest fun p hmem => ?_
        obtain ⟨bundle, hbundle, hcall⟩ := hs.arrived p hmem
        exact ⟨bundle, hbundle, List.mem_append_left _ hcall⟩
  | @arrive rpc id bundle server hbundle hserver htaken =>
      rcases server_step_cases (server_reachable hreach) (by rintro r ⟨⟩) hserver with
        ⟨hnone, -⟩ | ⟨c, hone, hrequest⟩
      · rw [htaken] at hnone
        cases hnone
      · rw [htaken] at hone
        cases hone
        refine hs.take hreach hserver hrequest ?_
        refine List.forall_mem_append.mpr ⟨fun p hmem => ?_, List.forall_mem_singleton.mpr ?_⟩
        · obtain ⟨bundle', hbundle', hcall⟩ := hs.arrived p hmem
          exact ⟨bundle', hbundle', List.mem_append_left _ hcall⟩
        · exact ⟨bundle, hbundle, List.mem_append_right _ (List.mem_singleton_self _)⟩

/-! ## The statements -/

/-- What was pushed for a handler is of the call that it has taken, and in a sink that the
call was entitled to. -/
theorem Guarded.pushed_for (hs : Guarded s) {p : IngestionServer.Push}
    (hmem : p ∈ s.delivery.server.pushed) :
    ∃ c ∈ s.calls, c.id = p.id ∧ (p.key, p.value) ∈ (c.call.sent c.method).pushed ∧
      (NoCollision s.consumed c → Entitled s.db c p.sink) := by
  obtain ⟨c, hc, hid⟩ := List.mem_map.mp (hs.pushed p hmem)
  obtain ⟨sink, hsettled, hentitled⟩ := hs.served c hc
  have hby : p ∈ s.delivery.server.pushedBy c.id :=
    List.mem_filter.mpr ⟨hmem, by simpa using hid.symm⟩
  rw [hsettled.pushes] at hby
  cases sink with
  | none => cases hby
  | some sink =>
      obtain ⟨r, hr, rfl⟩ := List.mem_map.mp hby
      exact ⟨c, hc, rfl, hr, hentitled sink rfl⟩

/-- After any run, however far the authorizer is behind the tables: each record that was
pushed is one of a call that presented the api key of a tenant, and is in a topic named
after this tenant; and two records in one topic are of calls with one api key. -/
theorem stored_for_tenant (hreach : (machine client labels).Reachable s)
    (hdigest : ∀ c ∈ s.calls, NoCollision s.consumed c) :
    (∀ p ∈ s.delivery.server.pushed, ∃ c ∈ s.calls, c.id = p.id ∧
      (p.key, p.value) ∈ (c.call.sent c.method).pushed ∧ Entitled s.db c p.sink) ∧
      ∀ p ∈ s.delivery.server.pushed, ∀ p' ∈ s.delivery.server.pushed,
        p.sink.topic = p'.sink.topic → ∀ c ∈ s.calls, ∀ c' ∈ s.calls, c.id = p.id →
          c'.id = p'.id → c.call.apiKey = c'.call.apiKey := by
  have hs := guarded_of_reachable hreach
  have hfor : ∀ p ∈ s.delivery.server.pushed, ∃ c ∈ s.calls, c.id = p.id ∧
      (p.key, p.value) ∈ (c.call.sent c.method).pushed ∧ Entitled s.db c p.sink := by
    intro p hmem
    obtain ⟨c, hc, hid, hsent, hentitled⟩ := hs.pushed_for hmem
    exact ⟨c, hc, hid, hsent, hentitled (hdigest c hc)⟩
  refine ⟨hfor, ?_⟩
  have hkey : ∀ p ∈ s.delivery.server.pushed, ∀ c ∈ s.calls, c.id = p.id →
      Entitled s.db c p.sink := by
    intro p hmem c hc hid
    obtain ⟨c', hc', hid', -, hentitled⟩ := hfor p hmem
    have hsame : c = c' := List.inj_on_of_nodup_map hs.once hc hc' (hid.trans hid'.symm)
    exact hsame ▸ hentitled
  intro p hmem p' hmem' htopic c hc c' hc' hid hid'
  have hentitled := hkey p hmem c hc hid
  have hentitled' := hkey p' hmem' c' hc' hid'
  have howned := hentitled.topic
  have htenant : p.sink.customerId = p'.sink.customerId := by
    rw [htopic] at howned
    exact howned.tenant_eq hentitled'.topic
  obtain ⟨tenant, hfind, hapi⟩ := hentitled.tenant
  obtain ⟨tenant', hfind', hapi'⟩ := hentitled'.tenant
  rw [htenant, hfind'] at hfind
  cases hfind
  rw [hapi] at hapi'
  exact Option.some.inj hapi'

/-- A client for intake data of tenant 7. -/
def tenantClient : Client :=
  ⟨.intake, ClientSinks.bbIntakeSink, bytes "key", [], fun _ => true⟩

/-- The tenant is created, its rows reach the authorizer, and then the client sends an event,
which is answered and released. -/
def tenantRun : List (Action tenantClient) :=
  [.transaction 1 (.createTenant 7 (bytes "DEV") (bytes "account") (bytes "mail") (bytes "key")
      (bytes "admin") (bytes "hash"))] ++
    [1, 2, 3, 4, 5, 6].map .publish ++ [2, 1, 3, 4, 5, 6].map .consume ++
    [.server .loop, .sink (.enqueue (some Delivery.beat)), .sink (.top 0 0 0), .sink .build,
      .sink .build, .arrive 0 1, .succeed, .sink .handOver, .sink .process].map .delivery

theorem exec_tenantRun : ((machine tenantClient ∅).exec (machine tenantClient ∅).init
    tenantRun).any (fun s => decide ((∀ c ∈ s.calls, NoCollision s.consumed c) ∧
      s.delivery.server.pushed.map (fun p => p.sink.customerId) = [7] ∧
      s.delivery.sink.released.map (fun e => (e.arrival, e.value.isSome)) = [(0, true)])) =
        true := by
  decide +kernel

theorem exists_reachable_tenantRun :
    ∃ s, (machine tenantClient ∅).Reachable s ∧ (∀ c ∈ s.calls, NoCollision s.consumed c) ∧
      s.delivery.server.pushed.map (fun p => p.sink.customerId) = [7] ∧
      s.delivery.sink.released.map (fun e => (e.arrival, e.value.isSome)) = [(0, true)] := by
  obtain ⟨s, hexec, hfacts⟩ := (Option.any_eq_true _ _).mp exec_tenantRun
  exact ⟨s, ⟨tenantRun, hexec⟩, of_decide_eq_true hfacts⟩

theorem tenantRun_for_tenant :
    ∃ s, (machine tenantClient ∅).Reachable s ∧ s.delivery.server.pushed.length = 1 ∧
      (∀ p ∈ s.delivery.server.pushed, ∃ c ∈ s.calls, c.id = p.id ∧
        (p.key, p.value) ∈ (c.call.sent c.method).pushed ∧ Entitled s.db c p.sink) ∧
      ∀ p ∈ s.delivery.server.pushed, ∀ p' ∈ s.delivery.server.pushed,
        p.sink.topic = p'.sink.topic → ∀ c ∈ s.calls, ∀ c' ∈ s.calls, c.id = p.id →
          c'.id = p'.id → c.call.apiKey = c'.call.apiKey := by
  obtain ⟨s, hreach, hdigest, hpushed, -⟩ := exists_reachable_tenantRun
  refine ⟨s, hreach, ?_, stored_for_tenant hreach hdigest⟩
  simpa using congrArg List.length hpushed

/-- What was delivered has been stored, in a sink that the client was entitled to. -/
theorem Guarded.stored (hs : Guarded s)
    (hdelivery : (Delivery.machine client labels).Reachable s.delivery) {bundle : client.Bundle}
    (hdelivered : bundle ∈ s.delivery.sink.delivered) :
    bundle ∈ s.delivery.sent ∧ ∃ id sink,
      s.delivery.server.pushedBy id =
        (client.records bundle).map (fun r => ⟨id, sink, r.1, r.2⟩) ∧
      ⟨id, client.kind, client.call bundle⟩ ∈ s.calls ∧
      (NoCollision s.consumed ⟨id, client.kind, client.call bundle⟩ →
        Entitled s.db ⟨id, client.kind, client.call bundle⟩ sink) := by
  obtain ⟨p, hp, hsent, r, hr, hok⟩ :=
    (Delivery.connected_of_reachable hdelivery).answered bundle hdelivered
  -- the handler that has answered has taken this bundle
  obtain ⟨bundle', hsent', hcall⟩ := hs.arrived p hp
  rw [hsent] at hsent'
  cases hsent'
  obtain ⟨sink, hsettled, hentitled⟩ := hs.served _ hcall
  obtain ⟨kafkaSink, rfl⟩ := Delivery.exists_sink_of_ok hsettled hr hok
  refine ⟨List.mem_of_getElem? hsent, p.1, kafkaSink, ?_, hcall, hentitled kafkaSink rfl⟩
  rw [hsettled.pushes, IngestionServer.Call.pushes, Delivery.due_call]

/-- What a client lets go of has been stored, in a topic of the tenant whose api key the
client has. -/
theorem stored_with_tenant (hreach : (machine client labels).Reachable s)
    (hdigest : ∀ c ∈ s.calls, NoCollision s.consumed c) :
    ∀ e ∈ s.delivery.sink.pendingForDelete ++ s.delivery.sink.released, ∀ v, e.value = some v →
      ∃ bundle ∈ s.delivery.sent, (e.arrival, v) ∈ bundle ∧ ∃ id sink,
        s.delivery.server.pushedBy id =
          (client.records bundle).map (fun r => ⟨id, sink, r.1, r.2⟩) ∧
        Entitled s.db ⟨id, client.kind, client.call bundle⟩ sink := by
  have hdelivery := delivery_reachable hreach
  have hs := guarded_of_reachable hreach
  intro e hmem v hvalue
  obtain ⟨bundle, hdelivered, hitem⟩ := Delivery.exists_delivered hdelivery hmem hvalue
  obtain ⟨hsent, id, sink, hpushes, hcall, hentitled⟩ := hs.stored hdelivery hdelivered
  exact ⟨bundle, hsent, hitem, id, sink, hpushes, hentitled (hdigest _ hcall)⟩

theorem tenantRun_with_tenant :
    ∃ s, (machine tenantClient ∅).Reachable s ∧
      s.delivery.sink.released.map (fun e => (e.arrival, e.value.isSome)) = [(0, true)] ∧
      ∀ e ∈ s.delivery.sink.pendingForDelete ++ s.delivery.sink.released, ∀ v,
        e.value = some v → ∃ bundle ∈ s.delivery.sent, (e.arrival, v) ∈ bundle ∧ ∃ id sink,
          s.delivery.server.pushedBy id =
            (tenantClient.records bundle).map (fun r => ⟨id, sink, r.1, r.2⟩) ∧
          Entitled s.db ⟨id, tenantClient.kind, tenantClient.call bundle⟩ sink := by
  obtain ⟨s, hreach, hdigest, -, hreleased⟩ := exists_reachable_tenantRun
  exact ⟨s, hreach, hreleased, stored_with_tenant hreach hdigest⟩

end BbMonitor.Saas
