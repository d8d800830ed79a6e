import BbMonitor.Delivery.Progress
import BbMonitor.Deployment.Service
import BbMonitor.Saas.Isolation

/-!
# A tenant can have its data stored

From every reachable state of the service some run that leaves the tables as they are
stores all that the client has enqueued in the topic of its tenant, but for what had to be
purged (`exists_stored_with_tenant`).  The tenant has to be in good standing, the threads of
the client and of the server have to run, and the bundles have to get through; it does not
matter how far the authorizer is behind.

First every row of the view is copied to the auth topic and everything in it is consumed
(`exists_caught_up`).  The records of one id keep their order, and the row as it is now
comes last, so that the authorizer is up to date whatever it consumed before.  Then it
accepts the credentials, and the client and the server go on by themselves.
-/

namespace BbMonitor.Saas

open Sql Ingestion
open Deployment (records Ordinary Owned)
open Delivery (Client)

variable {client : Client} {labels : Labels} {s t u : State client}

/-! ## The auth topic -/

section View

variable {db : Db} (hids : SerialIds db) {row : TopicAuth} (hrow : row ∈ db.topicAuthView)

include hids hrow

/-- The rows of the view have ids that differ. -/
theorem eq_of_id_eq {r : TopicAuth} (hr : r ∈ db.topicAuthView) (hid : r.id = row.id) :
    r = row := by
  have hnodup : (db.topicAuthView.map TopicAuth.id).Nodup := by
    rw [topicAuthView_eq, List.map_map]
    exact hids.nodup
  exact List.inj_on_of_nodup_map hnodup hr hrow hid

theorem find?_topicAuthView :
    (db.topicAuthView.find? fun r => r.id = row.id) = some row := by
  have hsome := List.find?_isSome (p := fun r : TopicAuth => r.id = row.id).mpr
    ⟨row, hrow, decide_eq_true rfl⟩
  obtain ⟨r, hr⟩ := Option.isSome_iff_exists.mp hsome
  have hid : r.id = row.id := by simpa using List.find?_some hr
  rw [hr, eq_of_id_eq hids hrow (List.mem_of_find?_eq_some hr) hid]

theorem lastWhere_topicAuthView :
    History.lastWhere (fun r => r.id = row.id) db.topicAuthView = some row := by
  obtain ⟨last, hlast⟩ := History.exists_lastWhere hrow (p := fun r => decide (r.id = row.id))
    (decide_eq_true rfl)
  obtain ⟨hmem, hid⟩ := History.mem_of_lastWhere hlast
  rw [hlast, eq_of_id_eq hids hrow hmem (of_decide_eq_true hid)]

end View

/-- Only the auth topic and the tables of the authorizer have changed. -/
structure Aside (s t : State client) : Prop where
  db : t.db = s.db
  sink : t.delivery.sink = s.delivery.sink
  server : ∃ authorizer, t.delivery.server =
    { s.delivery.server with factory := { s.delivery.server.factory with authorizer } }

theorem Aside.refl (s : State client) : Aside s s :=
  ⟨rfl, rfl, s.delivery.server.factory.authorizer, rfl⟩

theorem Aside.trans (hfirst : Aside s t) (hsecond : Aside t u) : Aside s u := by
  obtain ⟨_, hserver⟩ := hfirst.server
  obtain ⟨authorizer, hserver'⟩ := hsecond.server
  refine ⟨hsecond.db.trans hfirst.db, hsecond.sink.trans hfirst.sink, authorizer, ?_⟩
  rw [hserver', hserver]

theorem Aside.up (haside : Aside s t) (hup : s.delivery.server.Up) : t.delivery.server.Up := by
  obtain ⟨_, hserver⟩ := haside.server
  rw [hserver]
  exact hup

theorem exec_publish (labels : Labels) (rows : List TopicAuth)
    (hrows : ∀ row ∈ rows, (s.db.topicAuthView.find? fun r => r.id = row.id) = some row) :
    (machine client labels).exec s (rows.map fun row => .publish row.id) =
      some { s with pending := s.pending ++ rows } := by
  induction rows generalizing s with
  | nil => rw [List.append_nil]; rfl
  | cons row rest ih =>
      obtain ⟨hrow, hrest⟩ := List.forall_mem_cons.mp hrows
      have hstep : step s (.publish row.id) = some { s with pending := s.pending ++ [row] } := by
        show (s.db.topicAuthView.find? _).map _ = _
        rw [hrow]
        rfl
      have hexec := ih (s := { s with pending := s.pending ++ [row] }) hrest
      rw [List.append_assoc, List.singleton_append] at hexec
      exact Machine.exec_cons hstep hexec

/-- The oldest record of the auth topic is consumed. -/
theorem exists_consume {row : TopicAuth} {rest : List TopicAuth}
    (hpending : s.pending = row :: rest) :
    ∃ t, step s (.consume row.id) = some t ∧ Aside s t ∧ t.pending = rest ∧
      t.consumed = s.consumed ++ [row] := by
  have hfind : (s.pending.find? fun r => r.id = row.id) = some row := by
    rw [hpending]
    exact List.find?_cons_of_pos (by simp)
  have herase : (s.pending.eraseP fun r => r.id = row.id) = rest := by
    rw [hpending]
    exact List.eraseP_cons_of_pos (by simp)
  obtain ⟨authorizer, hvisit⟩ : ∃ authorizer,
      Authorizer.visitor s.delivery.server.factory.authorizer (Deployment.avro row) =
        some authorizer := ⟨_, Deployment.visitor_avro _ row⟩
  refine ⟨{ s with
    pending := s.pending.eraseP fun r => r.id = row.id
    consumed := s.consumed ++ [row]
    delivery := { s.delivery with server :=
      { s.delivery.server with factory := { s.delivery.server.factory with authorizer } } } },
    ?_, ⟨rfl, rfl, authorizer, rfl⟩, herase, rfl⟩
  show (s.pending.find? _).bind _ = _
  rw [hfind, Option.bind_some]
  show (((Authorizer.visitor s.delivery.server.factory.authorizer
    (Deployment.avro row)).map _).map _).map _ = _
  rw [hvisit]
  rfl

theorem exists_consumed (labels : Labels) (s : State client) :
    ∃ actions t, (machine client labels).exec s actions = some t ∧ Aside s t ∧ t.pending = [] ∧
      t.consumed = s.consumed ++ s.pending := by
  induction hpending : s.pending generalizing s with
  | nil => exact ⟨[], s, rfl, Aside.refl s, hpending, (List.append_nil _).symm⟩
  | cons row rest ih =>
      obtain ⟨u, hstep, haside, hrest, hconsumed⟩ := exists_consume hpending
      obtain ⟨actions, t, hexec, haside', hnil, hall⟩ := ih u hrest
      refine ⟨.consume row.id :: actions, t, Machine.exec_cons hstep hexec, haside.trans haside',
        hnil, ?_⟩
      rw [hall, hconsumed, List.append_assoc, List.singleton_append]

/-- The authorizer catches up with the tables. -/
theorem exists_caught_up (hreach : (machine client labels).Reachable s) :
    ∃ actions t, (machine client labels).exec s actions = some t ∧ Aside s t ∧
      t.consumed = s.consumed ++ s.pending ++ s.db.topicAuthView ∧
      ∀ row ∈ t.db.topicAuthView,
        History.lastWhere (fun r => r.id = row.id) t.consumed = some row := by
  obtain ⟨calls, hsystem⟩ := exists_system hreach
  have hids := (Deployment.ordinary_of_reachable hsystem).roles.ids
  have hpublish := exec_publish (s := s) labels s.db.topicAuthView fun row hrow =>
    find?_topicAuthView hids hrow
  obtain ⟨actions, t, hexec, haside, -, hconsumed⟩ :=
    exists_consumed labels { s with pending := s.pending ++ s.db.topicAuthView }
  refine ⟨_, t, (Machine.exec_append hpublish).trans hexec, ⟨haside.db, haside.sink, haside.server⟩,
    by rw [hconsumed, List.append_assoc], ?_⟩
  intro row hrow
  rw [haside.db] at hrow
  -- what was copied last is the row as it is now
  rw [hconsumed, ← List.append_assoc]
  exact History.lastWhere_append_of_some _ (lastWhere_topicAuthView hids hrow)

/-! ## The client and the server -/

/-- A run of the client and the server in which no record is consumed. -/
theorem exists_exec_delivery {actions : List (Delivery.Action client)}
    {delivery : Delivery.State client} (hactions : ∀ a ∈ actions, Delivery.isRecord a = false)
    (hexec : (Delivery.machine client labels).exec s.delivery actions = some delivery) :
    ∃ t, (machine client labels).exec s (actions.map .delivery) = some t ∧
      t.delivery = delivery ∧ t.db = s.db ∧ t.consumed = s.consumed := by
  induction actions generalizing s with
  | nil =>
      cases hexec
      exact ⟨s, rfl, rfl, rfl, rfl⟩
  | cons a rest ih =>
      obtain ⟨ha, hrest⟩ := List.forall_mem_cons.mp hactions
      obtain ⟨next, hnext, hthen⟩ := Option.bind_eq_some_iff.mp hexec
      have hstep : step s (.delivery a) = some
          { s with
            delivery := next
            calls := s.calls ++
              (serverAction s.delivery a).elim [] (taken s.delivery.server) } := by
        have hdelivery : Delivery.step s.delivery a = some next := hnext
        rw [step, if_neg (by rw [ha]; decide), hdelivery]
        rfl
      obtain ⟨t, hexec, hdelivery, hdb, hconsumed⟩ := ih (s := { s with
        delivery := next
        calls := s.calls ++ (serverAction s.delivery a).elim [] (taken s.delivery.server) })
        hrest hthen
      exact ⟨t, Machine.exec_cons hstep hexec, hdelivery, hdb, hconsumed⟩

/-! ## The statement -/

/-- An authorizer that is up to date accepts the credentials of the client. -/
theorem accepts_of_tenant (hreach : (machine client labels).Reachable s)
    (huptodate : ∀ row ∈ s.db.topicAuthView,
      History.lastWhere (fun r => r.id = row.id) s.consumed = some row)
    {tenantId : Int32} {tenant : BbTenant}
    (htenant : s.db.bbTenant.find? tenantId = some tenant) (hzero : tenantId ≠ 0)
    (hkey : tenant.apiKey = some client.apiKey) (hsecret : client.apiSecret = [])
    (hlive : ∀ row ∈ s.db.topicAuthView, row.tenantId = tenantId →
      row.isDisabled = false ∧ row.isDeleted = false)
    (hunique : ∀ t' tenant', s.db.bbTenant.find? t' = some tenant' →
      tenant'.apiKey = some client.apiKey → t' = tenantId)
    (hmark : hashMark ∉ client.apiKey)
    (hdigest : ∀ id bundle, NoCollision s.consumed ⟨id, client.kind, client.call bundle⟩) :
    s.delivery.server.Accepts client.kind client.apiKey client.apiSecret := by
  obtain ⟨calls, hsystem⟩ := exists_system hreach
  have hno : (s.system calls).NoCollision client.kind client.apiKey [] := by
    have hcall := hdigest 0 []
    simp only [NoCollision, Client.apiKey_call, Client.apiSecret_call, hsecret] at hcall
    exact hcall
  have hgrant := (Deployment.ordinary_of_reachable hsystem).grant_of_tenant huptodate htenant hkey
    hlive hunique hmark client.kind hno
  rw [IngestionServer.State.Accepts, hsecret]
  show (Authorizer.authorizeWrite (s.system calls).served.1.authorizer client.apiKey []
    client.kind.logicalTopic).2 ≠ 0
  rw [hgrant]
  exact hzero

/-- From any state after any run: once the tenant is in good standing, with an api key of
its own, the client and the server run, and the bundles get through, some run stores every
value so far in the topic that this tenant has in `bb_topic`, unless its event was purged. -/
theorem exists_stored_with_tenant (hreach : (machine client labels).Reachable s)
    (hbatchSize : 1 ≤ client.config.batchSize) (hsink : s.delivery.sink.Running)
    (hup : s.delivery.server.Up) (htransmissible : s.delivery.Transmissible)
    {tenantId : Int32} {tenant : BbTenant}
    (htenant : s.db.bbTenant.find? tenantId = some tenant) (hzero : tenantId ≠ 0)
    (hkey : tenant.apiKey = some client.apiKey) (hsecret : client.apiSecret = [])
    (hlive : ∀ row ∈ s.db.topicAuthView, row.tenantId = tenantId →
      row.isDisabled = false ∧ row.isDeleted = false)
    (hunique : ∀ t' tenant', s.db.bbTenant.find? t' = some tenant' →
      tenant'.apiKey = some client.apiKey → t' = tenantId)
    (hmark : hashMark ∉ client.apiKey)
    (hdigest : ∀ id bundle, NoCollision (s.consumed ++ s.pending ++ s.db.topicAuthView)
      ⟨id, client.kind, client.call bundle⟩) :
    ∃ actions t, (machine client labels).exec s actions = some t ∧ t.db = s.db ∧
      t.delivery.sink.eof = true ∧ t.delivery.sink.enqueued = s.delivery.sink.enqueued ∧
      ∀ e ∈ s.delivery.sink.enqueued, ∀ v, e.value = some v →
        e ∈ t.delivery.sink.purged ∨
          ∃ bundle ∈ t.delivery.sent, (e.arrival, v) ∈ bundle ∧ ∃ id sink,
            t.delivery.server.pushedBy id =
              (client.records bundle).map (fun r => ⟨id, sink, r.1, r.2⟩) ∧
            sink.customerId = tenantId ∧ Owned s.db client.kind (sink.topic, tenantId) := by
  obtain ⟨first, u, hfirst, haside, hconsumed, huptodate⟩ := exists_caught_up hreach
  have hu := hreach.exec hfirst
  have haccepts : u.delivery.server.Accepts client.kind client.apiKey client.apiSecret := by
    rw [← hconsumed] at hdigest
    rw [← haside.db] at htenant hlive hunique
    exact accepts_of_tenant hu huptodate htenant hzero hkey hsecret hlive hunique hmark hdigest
  have hboth : Delivery.Up labels u.delivery :=
    ⟨delivery_reachable hu, haside.sink ▸ hsink, haside.up hup, haccepts,
      htransmissible.of_enqueued (congrArg _ haside.sink)⟩
  obtain ⟨delivery, ⟨rest, hrest, hexec⟩, -, heof, hsame, hall⟩ :=
    Delivery.exists_emptied hboth hbatchSize
  obtain ⟨t, hsecond, rfl, hdb, hrows⟩ := exists_exec_delivery hrest hexec
  have ht := hu.exec hsecond
  rw [haside.sink] at hsame hall
  refine ⟨first ++ rest.map .delivery, t, (Machine.exec_append hfirst).trans hsecond,
    hdb.trans haside.db, heof, hsame, ?_⟩
  intro e hmem v hvalue
  rcases hall e hmem v hvalue with hpurged | ⟨bundle, hdelivered, hitem⟩
  · exact Or.inl hpurged
  · obtain ⟨hsent, id, sink, hpushes, -, hentitled⟩ :=
      (guarded_of_reachable ht).stored (delivery_reachable ht) hdelivered
    have hno := hdigest id bundle
    rw [← hconsumed, ← hrows] at hno
    obtain ⟨howned, ⟨owner, howner, hapi⟩, -⟩ := hentitled hno
    -- the tenant with the api key of the client
    have hcustomer : sink.customerId = tenantId := by
      rw [hdb, haside.db] at howner
      rw [client.apiKey_call] at hapi
      exact hunique _ owner howner hapi
    rw [hdb, haside.db, hcustomer] at howned
    exact Or.inr ⟨bundle, hsent, hitem, id, sink, hpushes, hcustomer, howned⟩

/-- The tenant was created and the client has an event, but the authorizer has heard nothing
of the tenant yet. -/
def newcomerRun : List (Action tenantClient) :=
  [.transaction 1 (.createTenant 7 (bytes "DEV") (bytes "account") (bytes "mail") (bytes "key")
      (bytes "admin") (bytes "hash")),
    .delivery (.sink (.enqueue (some Delivery.beat)))]

theorem exec_newcomerRun : ((machine tenantClient ∅).exec (machine tenantClient ∅).init
    newcomerRun).any (fun s => decide (
      NoCollision (s.consumed ++ s.pending ++ s.db.topicAuthView)
        ⟨0, tenantClient.kind, tenantClient.call []⟩ ∧
      (∀ row ∈ s.db.topicAuthView, row.isDisabled = false ∧ row.isDeleted = false) ∧
      s.db.bbTenant.rows.map (fun r : BbTenant => (r.tenantId, r.apiKey)) =
        [(7, some (bytes "key"))] ∧
      (s.delivery.sink.exit, s.delivery.sink.phase, s.delivery.server.run,
        s.delivery.server.phase) = (false, .top, true, .head) ∧
      s.consumed = [] ∧ s.delivery.sink.enqueued.length = 1)) = true := by
  decide +kernel

theorem newcomerRun_exists_stored :
    ∃ s, (machine tenantClient ∅).Reachable s ∧ s.consumed = [] ∧
      s.delivery.sink.enqueued.length = 1 ∧
      ∃ actions t, (machine tenantClient ∅).exec s actions = some t ∧ t.db = s.db ∧
        t.delivery.sink.eof = true ∧ t.delivery.sink.enqueued = s.delivery.sink.enqueued ∧
        ∀ e ∈ s.delivery.sink.enqueued, ∀ v, e.value = some v →
          e ∈ t.delivery.sink.purged ∨
            ∃ bundle ∈ t.delivery.sent, (e.arrival, v) ∈ bundle ∧ ∃ id sink,
              t.delivery.server.pushedBy id =
                (tenantClient.records bundle).map (fun r => ⟨id, sink, r.1, r.2⟩) ∧
              sink.customerId = 7 ∧ Owned s.db .intake (sink.topic, 7) := by
  obtain ⟨s, hexec, hfacts⟩ := (Option.any_eq_true _ _).mp exec_newcomerRun
  obtain ⟨hdigest, hlive, htenants, hstate, hconsumed, hlength⟩ := of_decide_eq_true hfacts
  simp only [Prod.mk.injEq] at hstate
  obtain ⟨hexit, hphase, hrunning, hhead⟩ := hstate
  obtain ⟨⟨tenant, htenant, hkey⟩, honly⟩ := Deployment.sole_tenant htenants
  refine ⟨s, ⟨newcomerRun, hexec⟩, hconsumed, hlength, exists_stored_with_tenant
    ⟨newcomerRun, hexec⟩ (by decide) ⟨hexit, ?_⟩ ⟨hrunning, Or.inl hhead⟩ (fun _ _ _ _ => rfl)
    htenant (by decide) hkey rfl (fun row hrow _ => hlive row hrow)
    (fun t tenant hfind _ => honly t tenant hfind) (by decide) fun id bundle => ?_⟩
  · rw [hphase]
    rintro ⟨⟩
  · simp only [NoCollision, Client.apiKey_call, Client.apiSecret_call] at hdigest ⊢
    exact hdigest

end BbMonitor.Saas
