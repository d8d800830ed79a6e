import BbMonitor.Authorizer.Soundness
import BbMonitor.Ingestion.SinkFactory
import BbMonitor.Sql.Roles

/-!
# From the tables to the sinks

The whole path of an authorization.  Transactions change the tables; rows of
`topic_auth_view` are copied to the auth topic, in the state in which they are at that
moment; the authorizer of the ingestion server consumes the topic; and calls ask its sink
factory for sinks.  None of these waits for another.  A record may be consumed long after
the row has changed, and only the records of one id keep their order.

The machine below is the product of the tables with the machine of the factory: `served`
makes the steps of `Ingestion.machine`.  `consumed` records what was consumed, for the
statements.
-/

namespace BbMonitor.Deployment

open Authorizer Ingestion Sql

/-! ## Records -/

/-- A row of the view as a record of the auth topic. -/
def avro (row : TopicAuth) : AvroRecord where
  id := some row.id
  tenantId := some row.tenantId
  isDisabled := some row.isDisabled
  isDeleted := some row.isDeleted
  apiKey := row.apiKey
  secretAccessKeyHash := row.secretAccessKeyHash
  readAccess := some row.readAccess
  writeAccess := some row.writeAccess
  topicName := some row.topicName
  kafkaTopic := row.kafkaTopic

/-- What the authorizer makes of a row; without a security group, nothing. -/
def authRecord (row : TopicAuth) : Option AuthRecord :=
  match row.apiKey, row.secretAccessKeyHash with
  | some apiKey, some secretAccessKeyHash =>
      some
        { data :=
            { id := row.id, tenantId := row.tenantId, apiKey, secretAccessKeyHash,
              readAccess := row.readAccess, writeAccess := row.writeAccess,
              topicName := row.topicName, kafkaTopic := row.kafkaTopic.getD [] }
          isDisabled := row.isDisabled
          isDeleted := row.isDeleted }
  | _, _ => none

/-- The records among the rows. -/
def records (rows : List TopicAuth) : List AuthRecord :=
  rows.filterMap authRecord

/-- The visitor dereferences no empty optional, whatever row of the view it gets. -/
theorem visitor_avro (st : State) (row : TopicAuth) :
    visitor st (avro row) = some ((authRecord row).elim st st.visit) := by
  unfold visitor avro authRecord
  cases hkey : row.apiKey with
  | none => rfl
  | some apiKey =>
      cases hhash : row.secretAccessKeyHash with
      | none => rfl
      | some secretAccessKeyHash =>
          simp only [Option.elim_some, State.visit_eq, AuthRecord.live]
          by_cases hremove : (row.isDisabled || row.isDeleted) = true
          · simp [hremove, AuthRecord.id]
          · simp [hremove, AuthRecord.indexKey, AuthData.credential]

theorem load_records_concat (rows : List TopicAuth) (row : TopicAuth) :
    load (records (rows ++ [row])) =
      (authRecord row).elim (load (records rows)) (load (records rows)).visit := by
  rw [records, History.filterMap_concat]
  cases authRecord row with
  | none => rw [Option.toList_none, List.append_nil]; rfl
  | some r =>
      rw [Option.toList_some, load_concat]
      rfl

theorem authRecord_eq_some {row : TopicAuth} {r : AuthRecord} (hrecord : authRecord row = some r) :
    row.apiKey = some r.data.apiKey ∧ row.secretAccessKeyHash = some r.data.secretAccessKeyHash ∧
      r.id = row.id ∧ r.data.tenantId = row.tenantId ∧ r.data.topicName = row.topicName ∧
      r.data.writeAccess = row.writeAccess ∧ r.data.kafkaTopic = row.kafkaTopic.getD [] ∧
      r.isDisabled = row.isDisabled ∧ r.isDeleted = row.isDeleted := by
  unfold authRecord at hrecord
  split at hrecord
  · cases hrecord
    exact ⟨by assumption, by assumption, rfl, rfl, rfl, rfl, rfl, rfl, rfl⟩
  · cases hrecord

/-! ## The machine -/

structure System where
  db : Db
  /-- The auth topic from where the authorizer is, the oldest record first. -/
  pending : List TopicAuth
  consumed : List TopicAuth
  served : SinkFactory × List Call

inductive Action where
  | transaction (now : ℤ) (statement : Statement)
  -- The row of an id is copied to the auth topic.
  | publish (id : Int32)
  -- The authorizer consumes the oldest record of an id.
  | consume (id : Int32)
  | call (kind : SinkKind) (apiKey secretApiKey : Bytes)

def machine (labels : Labels) : Machine System Action where
  init := ⟨Db.empty, [], [], (Ingestion.machine labels).init⟩
  step := fun s action =>
    match action with
    | .transaction now statement =>
        (s.db.transaction now statement).map fun db => { s with db }
    | .publish id =>
        (s.db.topicAuthView.find? fun row => row.id = id).map fun row =>
          { s with pending := s.pending ++ [row] }
    | .consume id =>
        (s.pending.find? fun row => row.id = id).bind fun row =>
          ((Ingestion.machine labels).step s.served (.record (avro row))).map fun served =>
            { s with
              pending := s.pending.eraseP fun row => row.id = id
              consumed := s.consumed ++ [row]
              served }
    | .call kind apiKey secretApiKey =>
        ((Ingestion.machine labels).step s.served (.call kind apiKey secretApiKey)).map
          fun served => { s with served }

/-- The sink that a call gets. -/
def System.sink (s : System) (kind : SinkKind) (apiKey secretApiKey : Bytes) :
    Option KafkaSink :=
  (SinkFactory.getSink kind s.served.1 apiKey secretApiKey).1

/-- The authorizer has consumed every row of the view as it is now. -/
def System.UpToDate (s : System) : Prop :=
  ∀ row ∈ s.db.topicAuthView, History.lastWhere (fun r => r.id = row.id) s.consumed = some row

instance (s : System) : Decidable s.UpToDate :=
  inferInstanceAs (Decidable (∀ _ ∈ _, _))

/-- Of the records consumed so far, those filed under the digest that the query looks up
were announced with the credentials of the query. -/
def System.NoCollision (s : System) (kind : SinkKind) (apiKey secretApiKey : Bytes) : Prop :=
  ∀ r ∈ records s.consumed, r.indexKey = queryKey apiKey secretApiKey kind.logicalTopic →
    r.data.credential = credentialString kind.logicalTopic apiKey (md5 secretApiKey)

instance (s : System) (kind : SinkKind) (apiKey secretApiKey : Bytes) :
    Decidable (s.NoCollision kind apiKey secretApiKey) :=
  inferInstanceAs (Decidable (∀ _ ∈ _, _))

/-! ## The invariant -/

/-- The row was made of what the tables still have, but for flags and times. -/
structure Known (db : Db) (row : TopicAuth) (tsg : TopicSecurityGroup) : Prop where
  mem : tsg ∈ db.topicSecurityGroup
  id : tsg.id = row.id
  tenantId : tsg.tenantId = row.tenantId
  topicName : tsg.topicName = row.topicName
  writeAccess : tsg.writeAccess = row.writeAccess
  kafkaTopic : ∃ topic, db.bbTopic.find? (tsg.tenantId, tsg.topicName) = some topic ∧
    row.kafkaTopic = some topic.kafkaTopic
  credentials : ∀ apiKey, row.apiKey = some apiKey →
    ∃ sg, db.bbSecurityGroup.find? (tsg.tenantId, tsg.securityGroupName) = some sg ∧
      sg.apiKey = apiKey ∧ row.secretAccessKeyHash = some sg.secretAccessKeyHash

theorem known_topicAuth {db : Db} (hroles : Roles db) {tsg : TopicSecurityGroup}
    (hmem : tsg ∈ db.topicSecurityGroup) : Known db (db.topicAuth tsg) tsg := by
  obtain ⟨topic, htopic⟩ := hroles.topic tsg hmem
  refine ⟨hmem, rfl, rfl, rfl, rfl, ⟨topic, htopic, ?_⟩, ?_⟩
  · simp only [Db.topicAuth, TopicAuth.select, htopic, Option.map_some]
  · intro apiKey hkey
    obtain ⟨sg, hsg, hsgkey⟩ := Option.map_eq_some_iff.mp hkey
    refine ⟨sg, hsg, hsgkey, ?_⟩
    simp only [Db.topicAuth, TopicAuth.select, hsg, Option.map_some]

theorem Known.grows {db db' : Db} {row : TopicAuth} {tsg : TopicSecurityGroup}
    (hknown : Known db row tsg) (hgrows : Grows db db') : ∃ tsg', Known db' row tsg' := by
  obtain ⟨tsg', hmem, hrole⟩ := hgrows.topicSecurityGroup tsg hknown.mem
  simp only [TopicSecurityGroup.role, Prod.mk.injEq] at hrole
  obtain ⟨hid, htenant, htopic, hgroup, -, hwrite⟩ := hrole
  refine ⟨tsg', hmem, hid.trans hknown.id, htenant.trans hknown.tenantId,
    htopic.trans hknown.topicName, hwrite.trans hknown.writeAccess, ?_, ?_⟩
  · obtain ⟨topic, hfind, hkafka⟩ := hknown.kafkaTopic
    obtain ⟨topic', hfind', hkept⟩ := hgrows.bbTopic _ topic hfind
    rw [htenant, htopic]
    exact ⟨topic', hfind', by rw [hkafka, hkept]⟩
  · intro apiKey hkey
    obtain ⟨sg, hfind, hsgkey, hhash⟩ := hknown.credentials apiKey hkey
    obtain ⟨sg', hfind', hkept⟩ := hgrows.bbSecurityGroup _ sg hfind
    obtain ⟨hkept₁, hkept₂⟩ := Prod.mk.inj hkept
    rw [htenant, hgroup]
    exact ⟨sg', hfind', hkept₁.trans hsgkey, by rw [hhash, hkept₂]⟩

/-- A kafka topic and a tenant: the tenant has the topic in `bb_topic`, for this kind of
data, and the topic has the number of the tenant in its name. -/
def Owned (db : Db) (kind : SinkKind) (grant : Bytes × Int32) : Prop :=
  ∃ topic topicPrefix, db.bbTopic.find? (grant.2, kind.logicalTopic) = some topic ∧
    topic.kafkaTopic = grant.1 ∧ grant.1 = defaultTopic grant.2 topicPrefix kind.logicalTopic

theorem Owned.grows {db db' : Db} {kind : SinkKind} {grant : Bytes × Int32}
    (howned : Owned db kind grant) (hgrows : Grows db db') : Owned db' kind grant := by
  obtain ⟨topic, topicPrefix, hfind, hkafka, hname⟩ := howned
  obtain ⟨topic', hfind', hkept⟩ := hgrows.bbTopic _ topic hfind
  exact ⟨topic', topicPrefix, hfind', hkept.trans hkafka, hname⟩

structure Ordinary (s : System) : Prop where
  roles : Roles s.db
  pending : ∀ row ∈ s.pending, ∃ tsg, Known s.db row tsg
  consumed : ∀ row ∈ s.consumed, ∃ tsg, Known s.db row tsg
  loaded : s.served.1.authorizer = load (records s.consumed)
  consistent : Consistent s.served
  owned : ∀ c ∈ s.served.2, c.granted = true → Owned s.db c.kind c.grant

end BbMonitor.Deployment
