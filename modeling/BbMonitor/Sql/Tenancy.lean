import BbMonitor.Lib.Tables
import BbMonitor.Sql.TextId
import BbMonitor.SrvUtils.Md5

/-!
# Tenants, topics and who may use them

The part of the database schema that decides who may write to which kafka topic: the
tables, the two procedures that fill them (`create_tenant` and `map_custom_topic`, with
the `dev_create_*` they call), the flags that take a row out of use, and the view
`topic_auth_view` that the auth topic is made from.

A procedure runs in one transaction.  `none` is an error, after which the tables are as
before; the values drawn from the sequences are lost all the same, which is what
`Sequence.skip` is for.  An argument that is null violates a `NOT NULL`, and is left out.
-/

namespace BbMonitor.Sql

/-! ## Tables -/

structure BbTenant where
  tenantId : Int32
  tenantTextId : Bytes
  accountName : Bytes
  primaryEmail : Bytes
  adminApiKey : Bytes
  adminSecretAccessKeyHash : Bytes
  apiKey : Option Bytes
  apiWSecret : Option Bytes
  apiRSecret : Option Bytes
  ts : ℤ
  isDisabled : Bool
  isDeleted : Bool
deriving DecidableEq

structure BbSecurityGroup where
  id : Int64
  tenantId : Int32
  securityGroupName : Bytes
  apiKey : Bytes
  secretAccessKey : Bytes
  secretAccessKeyHash : Bytes
  ts : ℤ
  isDisabled : Bool
  isDeleted : Bool
deriving DecidableEq

structure BbTopic where
  id : Int32
  tenantId : Int32
  topicName : Bytes
  kafkaTopic : Bytes
  retentionTimeMs : Option Int64
  compactedSegmentMs : Option Int64
  ts : ℤ
  isDisabled : Bool
  isDeleted : Bool
deriving DecidableEq

structure TopicSecurityGroup where
  id : Int32
  tenantId : Int32
  topicName : Bytes
  securityGroupName : Bytes
  readAccess : Bool
  writeAccess : Bool
  ts : ℤ
  isDisabled : Bool
  isDeleted : Bool
deriving DecidableEq

structure ApiSecurityGroup where
  id : Int32
  tenantId : Int32
  apiName : Bytes
  securityGroupName : Bytes
  readAccess : Bool
  writeAccess : Bool
  ts : ℤ
  isDisabled : Bool
  isDeleted : Bool
deriving DecidableEq

/-- The primary key of `bb_tenant`. -/
def BbTenant.key (r : BbTenant) : Int32 := r.tenantId

/-- The primary key `bb_security_group_pk`. -/
def BbSecurityGroup.key (r : BbSecurityGroup) : Int32 × Bytes := (r.tenantId, r.securityGroupName)

/-- The primary key `bb_topic_pk`. -/
def BbTopic.key (r : BbTopic) : Int32 × Bytes := (r.tenantId, r.topicName)

/-- How many values each `SERIAL` column has drawn. -/
structure Sequences where
  bbSecurityGroup : ℕ
  bbTopic : ℕ
  topicSecurityGroup : ℕ
  apiSecurityGroup : ℕ

/-- The tables.  Two of them have no primary key. -/
structure Db where
  bbTenant : Table BbTenant.key
  bbSecurityGroup : Table BbSecurityGroup.key
  bbTopic : Table BbTopic.key
  topicSecurityGroup : List TopicSecurityGroup
  apiSecurityGroup : List ApiSecurityGroup
  sequences : Sequences

def Db.empty : Db where
  bbTenant := Table.empty _
  bbSecurityGroup := Table.empty _
  bbTopic := Table.empty _
  topicSecurityGroup := []
  apiSecurityGroup := []
  sequences := ⟨0, 0, 0, 0⟩

/-- The next value of a sequence that ends at `bound`. -/
def nextval (bound given : ℕ) : Option ℕ :=
  if given < bound then some (given + 1) else none

/-- The last value of a `SERIAL`. -/
def serialBound : ℕ := 2 ^ 31 - 1

/-- The last value of a `BIGSERIAL`. -/
def bigserialBound : ℕ := 2 ^ 63 - 1

/-- The conversion of an integer to text, as `||` does it. -/
def intText (n : Int32) : Bytes := bytes (toString n.toInt)

/-! ## Procedures

`now` is the time of the transaction, the default of every `ts`. -/

/-- `INSERT INTO bb_tenant`, with the trigger that assigns the text id. -/
def Db.insertTenant (db : Db) (now : ℤ) (tenantId : Int32)
    (accountName primaryEmail apiKey adminApiKey adminSecretAccessKeyHash : Bytes) :
    Option Db := do
  let tenantTextId ← tenantTextId tenantId
  let bbTenant ← db.bbTenant.insert
    { tenantId, tenantTextId, accountName, primaryEmail, adminApiKey, adminSecretAccessKeyHash,
      apiKey := some apiKey, apiWSecret := none, apiRSecret := none, ts := now,
      isDisabled := false, isDeleted := false }
  return { db with bbTenant }

/-- `INSERT INTO bb_security_group`. -/
def Db.insertSecurityGroup (db : Db) (now : ℤ) (tenantId : Int32)
    (securityGroupName apiKey secretAccessKey secretAccessKeyHash : Bytes) : Option Db := do
  let id ← nextval bigserialBound db.sequences.bbSecurityGroup
  let bbSecurityGroup ← db.bbSecurityGroup.insert
    { id := Int64.ofNat id, tenantId, securityGroupName, apiKey, secretAccessKey,
      secretAccessKeyHash, ts := now, isDisabled := false, isDeleted := false }
  return { db with bbSecurityGroup, sequences := { db.sequences with bbSecurityGroup := id } }

/-- `INSERT INTO bb_topic`. -/
def Db.insertTopic (db : Db) (now : ℤ) (tenantId : Int32) (topicName kafkaTopic : Bytes)
    (retentionTimeMs : Option Int64) : Option Db := do
  let id ← nextval serialBound db.sequences.bbTopic
  let bbTopic ← db.bbTopic.insert
    { id := Int32.ofNat id, tenantId, topicName, kafkaTopic, retentionTimeMs,
      compactedSegmentMs := none, ts := now, isDisabled := false, isDeleted := false }
  return { db with bbTopic, sequences := { db.sequences with bbTopic := id } }

def Db.devCreateTopicSecurityGroup (db : Db) (now : ℤ) (tenantId : Int32)
    (topicName securityGroupName : Bytes) (readAccess writeAccess : Bool) : Option Db := do
  let id ← nextval serialBound db.sequences.topicSecurityGroup
  return { db with
    topicSecurityGroup := db.topicSecurityGroup ++
      [{ id := Int32.ofNat id, tenantId, topicName, securityGroupName, readAccess, writeAccess,
         ts := now, isDisabled := false, isDeleted := false }]
    sequences := { db.sequences with topicSecurityGroup := id } }

def Db.devCreateApiSecurityGroup (db : Db) (now : ℤ) (tenantId : Int32)
    (apiName securityGroupName : Bytes) (readAccess writeAccess : Bool) : Option Db := do
  let id ← nextval serialBound db.sequences.apiSecurityGroup
  return { db with
    apiSecurityGroup := db.apiSecurityGroup ++
      [{ id := Int32.ofNat id, tenantId, apiName, securityGroupName, readAccess, writeAccess,
         ts := now, isDisabled := false, isDeleted := false }]
    sequences := { db.sequences with apiSecurityGroup := id } }

/-- `'BB_MONITOR_C' || tenant_id || '_' || topic_prefix || '_' || topic_name`. -/
def defaultTopic (tenantId : Int32) (topicPrefix topicName : Bytes) : Bytes :=
  bytes "BB_MONITOR_C" ++ intText tenantId ++ bytes "_" ++ topicPrefix ++ bytes "_" ++ topicName

def Db.devCreateDefaultTopic (db : Db) (now : ℤ) (tenantId : Int32)
    (topicName topicPrefix : Bytes) (retentionTimeMs : Option Int64) : Option Db :=
  db.insertTopic now tenantId topicName (defaultTopic tenantId topicPrefix topicName)
    retentionTimeMs

def Db.mapCustomTopic (db : Db) (now : ℤ) (tenantId : Int32) (topicName kafkaTopic : Bytes) :
    Option Db := do
  let db ← db.insertTopic now tenantId topicName kafkaTopic none
  db.devCreateTopicSecurityGroup now tenantId topicName (bytes "default-read") true false

def Db.createTenant (db : Db) (now : ℤ) (tenantId : Int32)
    (topicPrefix accountName primaryEmail apiKey adminApiKey adminSecretAccessKeyHash : Bytes) :
    Option Db := do
  let db ← db.insertTenant now tenantId accountName primaryEmail apiKey adminApiKey
    adminSecretAccessKeyHash
  let db ← db.insertSecurityGroup now tenantId (bytes "default-write") apiKey [] (md5 [])
  let db ← db.insertSecurityGroup now tenantId (bytes "default-read") apiKey
    (bytes "dummy-key") (md5 (bytes "dummy-key"))
  let db ← db.devCreateDefaultTopic now tenantId (bytes "metrics") topicPrefix (some 2592000000)
  let db ← db.devCreateDefaultTopic now tenantId (bytes "logs") topicPrefix (some 2592000000)
  let db ← db.devCreateDefaultTopic now tenantId (bytes "intake") topicPrefix (some 2592000000)
  let db ← db.devCreateApiSecurityGroup now tenantId (bytes "KAFKA-GRPC-PROXY") (bytes "default")
    true false
  let db ← db.devCreateApiSecurityGroup now tenantId (bytes "METRICS-SINK") (bytes "default")
    true true
  let db ← db.devCreateApiSecurityGroup now tenantId (bytes "NAGIOS-ADMIN-API") (bytes "default")
    true true
  let db ← db.devCreateApiSecurityGroup now tenantId (bytes "NAGIOS-CONTROL") (bytes "default")
    true false
  let db ← db.devCreateTopicSecurityGroup now tenantId (bytes "metrics") (bytes "default-write")
    false true
  let db ← db.devCreateTopicSecurityGroup now tenantId (bytes "logs") (bytes "default-write")
    false true
  let db ← db.devCreateTopicSecurityGroup now tenantId (bytes "intake") (bytes "default-write")
    false true
  let db ← db.devCreateTopicSecurityGroup now tenantId (bytes "metrics") (bytes "default-read")
    true false
  let db ← db.devCreateTopicSecurityGroup now tenantId (bytes "logs") (bytes "default-read")
    true false
  db.devCreateTopicSecurityGroup now tenantId (bytes "intake") (bytes "default-read") true false

/-! ## Flags -/

/-- `UPDATE … SET is_disabled = …, is_deleted = …` on the rows that meet a condition, with
the trigger `update_ts_column`. -/
inductive Flagged where
  | tenants (p : BbTenant → Bool)
  | securityGroups (p : BbSecurityGroup → Bool)
  | topics (p : BbTopic → Bool)
  | topicSecurityGroups (p : TopicSecurityGroup → Bool)

def Db.setFlags (db : Db) (now : ℤ) (isDisabled isDeleted : Bool) : Flagged → Db
  | .tenants p =>
      { db with
        bbTenant := db.bbTenant.update p
          (fun r => { r with isDisabled, isDeleted, ts := now }) fun _ => rfl }
  | .securityGroups p =>
      { db with
        bbSecurityGroup := db.bbSecurityGroup.update p
          (fun r => { r with isDisabled, isDeleted, ts := now }) fun _ => rfl }
  | .topics p =>
      { db with
        bbTopic := db.bbTopic.update p
          (fun r => { r with isDisabled, isDeleted, ts := now }) fun _ => rfl }
  | .topicSecurityGroups p =>
      { db with
        topicSecurityGroup := db.topicSecurityGroup.map fun r =>
          if p r then { r with isDisabled, isDeleted, ts := now } else r }

/-! ## Transactions -/

inductive Sequence where
  | bbSecurityGroup
  | bbTopic
  | topicSecurityGroup
  | apiSecurityGroup
deriving DecidableEq

/-- A value is drawn by a transaction that fails. -/
def Sequences.skip (sequences : Sequences) : Sequence → Sequences
  | .bbSecurityGroup => { sequences with bbSecurityGroup := sequences.bbSecurityGroup + 1 }
  | .bbTopic => { sequences with bbTopic := sequences.bbTopic + 1 }
  | .topicSecurityGroup =>
      { sequences with topicSecurityGroup := sequences.topicSecurityGroup + 1 }
  | .apiSecurityGroup => { sequences with apiSecurityGroup := sequences.apiSecurityGroup + 1 }

/-- What can be done to the tables. -/
inductive Statement where
  | createTenant (tenantId : Int32)
      (topicPrefix accountName primaryEmail apiKey adminApiKey adminSecretAccessKeyHash : Bytes)
  | mapCustomTopic (tenantId : Int32) (topicName kafkaTopic : Bytes)
  | setFlags (flagged : Flagged) (isDisabled isDeleted : Bool)
  | skip (sequence : Sequence)

def Db.transaction (db : Db) (now : ℤ) : Statement → Option Db
  | .createTenant tenantId topicPrefix accountName primaryEmail apiKey adminApiKey
      adminSecretAccessKeyHash =>
      db.createTenant now tenantId topicPrefix accountName primaryEmail apiKey adminApiKey
        adminSecretAccessKeyHash
  | .mapCustomTopic tenantId topicName kafkaTopic =>
      db.mapCustomTopic now tenantId topicName kafkaTopic
  | .setFlags flagged isDisabled isDeleted => some (db.setFlags now isDisabled isDeleted flagged)
  | .skip sequence => some { db with sequences := db.sequences.skip sequence }

/-! ## The view -/

/-- A row of `topic_auth_view`. -/
structure TopicAuth where
  id : Int32
  tenantId : Int32
  topicName : Bytes
  kafkaTopic : Option Bytes
  apiKey : Option Bytes
  secretAccessKeyHash : Option Bytes
  readAccess : Bool
  writeAccess : Bool
  ts : ℤ
  isDisabled : Bool
  isDeleted : Bool
deriving DecidableEq

-- flags are compared as the booleans they are, false before true
attribute [local instance] Bool.linearOrder

/-- The columns of the view, from a row and its partners. -/
def TopicAuth.select (tsg : TopicSecurityGroup) (sg : Option BbSecurityGroup)
    (topic : Option BbTopic) (tenant : Option BbTenant) : TopicAuth where
  id := tsg.id
  tenantId := tsg.tenantId
  topicName := tsg.topicName
  kafkaTopic := topic.map BbTopic.kafkaTopic
  apiKey := sg.map BbSecurityGroup.apiKey
  secretAccessKeyHash := sg.map BbSecurityGroup.secretAccessKeyHash
  readAccess := tsg.readAccess
  writeAccess := tsg.writeAccess
  ts := greatest tsg.ts
    [sg.map BbSecurityGroup.ts, topic.map BbTopic.ts, tenant.map BbTenant.ts]
  isDisabled := greatest tsg.isDisabled
    [sg.map BbSecurityGroup.isDisabled, topic.map BbTopic.isDisabled,
      tenant.map BbTenant.isDisabled]
  isDeleted := greatest tsg.isDeleted
    [sg.map BbSecurityGroup.isDeleted, topic.map BbTopic.isDeleted, tenant.map BbTenant.isDeleted]

/-- `topic_auth_view`, with its three joins. -/
def Db.topicAuthView (db : Db) : List TopicAuth :=
  let tsgSg := leftJoin
    (fun (tsg : TopicSecurityGroup) (sg : BbSecurityGroup) =>
      decide (sg.key = (tsg.tenantId, tsg.securityGroupName)))
    db.topicSecurityGroup db.bbSecurityGroup.rows
  let tsgSgTopic := leftJoin
    (fun (s : TopicSecurityGroup × Option BbSecurityGroup) (topic : BbTopic) =>
      decide (topic.key = (s.1.tenantId, s.1.topicName)))
    tsgSg db.bbTopic.rows
  let joined := leftJoin
    (fun (s : (TopicSecurityGroup × Option BbSecurityGroup) × Option BbTopic)
        (tenant : BbTenant) => decide (tenant.key = s.1.1.tenantId))
    tsgSgTopic db.bbTenant.rows
  joined.map fun s => TopicAuth.select s.1.1.1 s.1.1.2 s.1.2 s.2

/-- The row of the view for a row of `topic_security_group`. -/
def Db.topicAuth (db : Db) (tsg : TopicSecurityGroup) : TopicAuth :=
  TopicAuth.select tsg (db.bbSecurityGroup.find? (tsg.tenantId, tsg.securityGroupName))
    (db.bbTopic.find? (tsg.tenantId, tsg.topicName)) (db.bbTenant.find? tsg.tenantId)

/-- The joins are on primary keys: the view has one row for each row of
`topic_security_group`. -/
theorem topicAuthView_eq (db : Db) :
    db.topicAuthView = db.topicSecurityGroup.map db.topicAuth := by
  simp only [Db.topicAuthView]
  rw [leftJoin_key (fun tsg : TopicSecurityGroup => (tsg.tenantId, tsg.securityGroupName)),
    leftJoin_key (fun s : TopicSecurityGroup × Option BbSecurityGroup =>
      (s.1.tenantId, s.1.topicName)),
    leftJoin_key (fun s : (TopicSecurityGroup × Option BbSecurityGroup) × Option BbTopic =>
      s.1.1.tenantId),
    List.map_map, List.map_map, List.map_map]
  rfl

theorem mem_topicAuthView {db : Db} {row : TopicAuth} :
    row ∈ db.topicAuthView ↔ ∃ tsg ∈ db.topicSecurityGroup, db.topicAuth tsg = row := by
  rw [topicAuthView_eq, List.mem_map]

end BbMonitor.Sql
