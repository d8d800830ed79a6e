import BbMonitor.Sql.Tenancy

/-!
# What a transaction does to the tables

Whatever a transaction does to the tables it does one row at a time (`Inserts`), or by
setting flags.  What every insertion keeps is therefore kept by every procedure
(`createTenant_induction`, `mapCustomTopic_induction`), and three things are shown in
this way.

* The rows of `topic_security_group` have ids that differ (`SerialIds`).
* Nothing but the flags and the time of a row ever changes (`Grows`).
* A row that is new or changed has the time of the transaction on it (`StampedFrom`), and
  this carries over to the view: `mem_topicAuthView_of_transactions` says that a reader
  who asks the view for everything from some time on misses no change.
-/

namespace BbMonitor.Sql

/-! ## Insertions -/

/-- One row is inserted. -/
inductive Inserts (now : ℤ) (db db' : Db) : Prop where
  | tenant (tenantId accountName primaryEmail apiKey adminApiKey adminSecretAccessKeyHash)
      (hinsert : db.insertTenant now tenantId accountName primaryEmail apiKey adminApiKey
        adminSecretAccessKeyHash = some db')
  | securityGroup (tenantId securityGroupName apiKey secretAccessKey secretAccessKeyHash)
      (hinsert : db.insertSecurityGroup now tenantId securityGroupName apiKey secretAccessKey
        secretAccessKeyHash = some db')
  | topic (tenantId topicName kafkaTopic retentionTimeMs)
      (hinsert : db.insertTopic now tenantId topicName kafkaTopic retentionTimeMs = some db')
  | topicSecurityGroup (tenantId topicName securityGroupName readAccess writeAccess)
      (hinsert : db.devCreateTopicSecurityGroup now tenantId topicName securityGroupName
        readAccess writeAccess = some db')
  | apiSecurityGroup (tenantId apiName securityGroupName readAccess writeAccess)
      (hinsert : db.devCreateApiSecurityGroup now tenantId apiName securityGroupName readAccess
        writeAccess = some db')

theorem createTenant_induction {P : Db → Prop} {now : ℤ} {db db' : Db} {tenantId : Int32}
    {topicPrefix accountName primaryEmail apiKey adminApiKey adminSecretAccessKeyHash : Bytes}
    (hinserts : ∀ db db', Inserts now db db' → P db → P db') (hdb : P db)
    (hcreate : db.createTenant now tenantId topicPrefix accountName primaryEmail apiKey adminApiKey
      adminSecretAccessKeyHash = some db') : P db' := by
  simp only [Db.createTenant, Option.bind_eq_bind, Option.bind_eq_some_iff] at hcreate
  obtain ⟨_, h₁, _, h₂, _, h₃, _, h₄, _, h₅, _, h₆, _, h₇, _, h₈, _, h₉, _, h₁₀, _, h₁₁, _, h₁₂,
    _, h₁₃, _, h₁₄, _, h₁₅, h₁₆⟩ := hcreate
  have htenant := hinserts _ _ (.tenant _ _ _ _ _ _ h₁) hdb
  have hgroups := hinserts _ _ (.securityGroup _ _ _ _ _ h₃)
    (hinserts _ _ (.securityGroup _ _ _ _ _ h₂) htenant)
  have htopics := hinserts _ _ (.topic _ _ _ _ h₆)
    (hinserts _ _ (.topic _ _ _ _ h₅) (hinserts _ _ (.topic _ _ _ _ h₄) hgroups))
  have hapis := hinserts _ _ (.apiSecurityGroup _ _ _ _ _ h₁₀)
    (hinserts _ _ (.apiSecurityGroup _ _ _ _ _ h₉) (hinserts _ _ (.apiSecurityGroup _ _ _ _ _ h₈)
      (hinserts _ _ (.apiSecurityGroup _ _ _ _ _ h₇) htopics)))
  have hwriters := hinserts _ _ (.topicSecurityGroup _ _ _ _ _ h₁₃)
    (hinserts _ _ (.topicSecurityGroup _ _ _ _ _ h₁₂)
      (hinserts _ _ (.topicSecurityGroup _ _ _ _ _ h₁₁) hapis))
  exact hinserts _ _ (.topicSecurityGroup _ _ _ _ _ h₁₆)
    (hinserts _ _ (.topicSecurityGroup _ _ _ _ _ h₁₅)
      (hinserts _ _ (.topicSecurityGroup _ _ _ _ _ h₁₄) hwriters))

theorem mapCustomTopic_induction {P : Db → Prop} {now : ℤ} {db db' : Db} {tenantId : Int32}
    {topicName kafkaTopic : Bytes} (hinserts : ∀ db db', Inserts now db db' → P db → P db')
    (hdb : P db) (hmap : db.mapCustomTopic now tenantId topicName kafkaTopic = some db') :
    P db' := by
  simp only [Db.mapCustomTopic, Option.bind_eq_bind, Option.bind_eq_some_iff] at hmap
  obtain ⟨_, htopic, hgroup⟩ := hmap
  exact hinserts _ _ (.topicSecurityGroup _ _ _ _ _ hgroup)
    (hinserts _ _ (.topic _ _ _ _ htopic) hdb)

/-- What every insertion, every setting of flags and every lost value keeps is kept by
every transaction. -/
theorem transaction_induction {P : Db → Prop} {now : ℤ} {db db' : Db} {statement : Statement}
    (hinserts : ∀ db db', Inserts now db db' → P db → P db')
    (hflags : ∀ db isDisabled isDeleted flagged, P db →
      P (db.setFlags now isDisabled isDeleted flagged))
    (hskip : ∀ db sequence, P db → P { db with sequences := db.sequences.skip sequence })
    (hdb : P db) (htransaction : db.transaction now statement = some db') : P db' := by
  cases statement with
  | createTenant => exact createTenant_induction hinserts hdb htransaction
  | mapCustomTopic => exact mapCustomTopic_induction hinserts hdb htransaction
  | setFlags =>
      cases htransaction
      exact hflags _ _ _ _ hdb
  | skip =>
      cases htransaction
      exact hskip _ _ hdb

/-! ### What the insertions give -/

section Inserts

variable {now : ℤ} {db db' : Db}

theorem nextval_eq_some {bound given id : ℕ} :
    nextval bound given = some id ↔ given < bound ∧ id = given + 1 := by
  unfold nextval
  split <;> grind

theorem insertTenant_eq_some {tenantId : Int32}
    {accountName primaryEmail apiKey adminApiKey adminSecretAccessKeyHash : Bytes}
    (hinsert : db.insertTenant now tenantId accountName primaryEmail apiKey adminApiKey
      adminSecretAccessKeyHash = some db') :
    ∃ r t, r.tenantId = tenantId ∧ r.apiKey = some apiKey ∧ r.ts = now ∧ r.isDisabled = false ∧
      r.isDeleted = false ∧ db.bbTenant.insert r = some t ∧ db' = { db with bbTenant := t } := by
  simp only [Db.insertTenant, Option.bind_eq_bind, Option.bind_eq_some_iff] at hinsert
  obtain ⟨textId, -, t, ht, hdb'⟩ := hinsert
  exact ⟨_, t, rfl, rfl, rfl, rfl, rfl, ht, (Option.some.inj hdb').symm⟩

theorem insertSecurityGroup_eq_some {tenantId : Int32}
    {securityGroupName apiKey secretAccessKey secretAccessKeyHash : Bytes}
    (hinsert : db.insertSecurityGroup now tenantId securityGroupName apiKey secretAccessKey
      secretAccessKeyHash = some db') :
    ∃ r t id, r.tenantId = tenantId ∧ r.securityGroupName = securityGroupName ∧
      r.apiKey = apiKey ∧ r.secretAccessKeyHash = secretAccessKeyHash ∧ r.ts = now ∧
      r.isDisabled = false ∧ r.isDeleted = false ∧ db.bbSecurityGroup.insert r = some t ∧
      db' = { db with
        bbSecurityGroup := t, sequences := { db.sequences with bbSecurityGroup := id } } := by
  simp only [Db.insertSecurityGroup, Option.bind_eq_bind, Option.bind_eq_some_iff] at hinsert
  obtain ⟨id, -, t, ht, hdb'⟩ := hinsert
  exact ⟨_, t, id, rfl, rfl, rfl, rfl, rfl, rfl, rfl, ht, (Option.some.inj hdb').symm⟩

theorem insertTopic_eq_some {tenantId : Int32} {topicName kafkaTopic : Bytes}
    {retentionTimeMs : Option Int64}
    (hinsert : db.insertTopic now tenantId topicName kafkaTopic retentionTimeMs = some db') :
    ∃ r t id, r.tenantId = tenantId ∧ r.topicName = topicName ∧ r.kafkaTopic = kafkaTopic ∧
      r.ts = now ∧ r.isDisabled = false ∧ r.isDeleted = false ∧ db.bbTopic.insert r = some t ∧
      db' = { db with bbTopic := t, sequences := { db.sequences with bbTopic := id } } := by
  simp only [Db.insertTopic, Option.bind_eq_bind, Option.bind_eq_some_iff] at hinsert
  obtain ⟨id, -, t, ht, hdb'⟩ := hinsert
  exact ⟨_, t, id, rfl, rfl, rfl, rfl, rfl, rfl, ht, (Option.some.inj hdb').symm⟩

theorem devCreateTopicSecurityGroup_eq_some {tenantId : Int32}
    {topicName securityGroupName : Bytes} {readAccess writeAccess : Bool}
    (hinsert : db.devCreateTopicSecurityGroup now tenantId topicName securityGroupName readAccess
      writeAccess = some db') :
    ∃ r, r.id = Int32.ofNat (db.sequences.topicSecurityGroup + 1) ∧ r.tenantId = tenantId ∧
      r.topicName = topicName ∧ r.securityGroupName = securityGroupName ∧
      r.readAccess = readAccess ∧ r.writeAccess = writeAccess ∧ r.ts = now ∧
      r.isDisabled = false ∧ r.isDeleted = false ∧
      db.sequences.topicSecurityGroup < serialBound ∧
      db' = { db with
        topicSecurityGroup := db.topicSecurityGroup ++ [r]
        sequences := { db.sequences with
          topicSecurityGroup := db.sequences.topicSecurityGroup + 1 } } := by
  simp only [Db.devCreateTopicSecurityGroup, Option.bind_eq_bind, Option.bind_eq_some_iff]
    at hinsert
  obtain ⟨id, hid, hdb'⟩ := hinsert
  obtain ⟨hlt, rfl⟩ := nextval_eq_some.mp hid
  exact ⟨_, rfl, rfl, rfl, rfl, rfl, rfl, rfl, rfl, rfl, hlt, (Option.some.inj hdb').symm⟩

theorem devCreateApiSecurityGroup_eq_some {tenantId : Int32} {apiName securityGroupName : Bytes}
    {readAccess writeAccess : Bool}
    (hinsert : db.devCreateApiSecurityGroup now tenantId apiName securityGroupName readAccess
      writeAccess = some db') :
    ∃ rows id, db' = { db with
      apiSecurityGroup := rows, sequences := { db.sequences with apiSecurityGroup := id } } := by
  simp only [Db.devCreateApiSecurityGroup, Option.bind_eq_bind, Option.bind_eq_some_iff]
    at hinsert
  obtain ⟨id, -, hdb'⟩ := hinsert
  exact ⟨_, id, (Option.some.inj hdb').symm⟩

end Inserts

/-! ## The ids of `topic_security_group` -/

/-- The ids are values that the sequence has given out, each to one row. -/
structure SerialIds (db : Db) : Prop where
  drawn : ∀ r ∈ db.topicSecurityGroup, ∃ n, n ≤ db.sequences.topicSecurityGroup ∧
    n ≤ serialBound ∧ r.id = Int32.ofNat n
  nodup : (db.topicSecurityGroup.map TopicSecurityGroup.id).Nodup

theorem ofNat_serial_inj {m n : ℕ} (hm : m ≤ serialBound) (hn : n ≤ serialBound)
    (heq : Int32.ofNat m = Int32.ofNat n) : m = n := by
  have hint := congrArg Int32.toInt heq
  simp only [serialBound] at hm hn
  rw [Int32.toInt_ofNat_of_lt (by omega), Int32.toInt_ofNat_of_lt (by omega)] at hint
  exact Int.ofNat.inj hint

theorem SerialIds.inserts {now : ℤ} {db db' : Db} (hinserts : Inserts now db db')
    (hids : SerialIds db) : SerialIds db' := by
  cases hinserts with
  | tenant _ _ _ _ _ _ hinsert =>
      obtain ⟨r, t, -, -, -, -, -, -, rfl⟩ := insertTenant_eq_some hinsert
      exact ⟨hids.drawn, hids.nodup⟩
  | securityGroup _ _ _ _ _ hinsert =>
      obtain ⟨r, t, id, -, -, -, -, -, -, -, -, rfl⟩ := insertSecurityGroup_eq_some hinsert
      exact ⟨hids.drawn, hids.nodup⟩
  | topic _ _ _ _ hinsert =>
      obtain ⟨r, t, id, -, -, -, -, -, -, -, rfl⟩ := insertTopic_eq_some hinsert
      exact ⟨hids.drawn, hids.nodup⟩
  | apiSecurityGroup _ _ _ _ _ hinsert =>
      obtain ⟨rows, id, rfl⟩ := devCreateApiSecurityGroup_eq_some hinsert
      exact ⟨hids.drawn, hids.nodup⟩
  | topicSecurityGroup _ _ _ _ _ hinsert =>
      obtain ⟨r, hid, -, -, -, -, -, -, -, -, hlt, rfl⟩ :=
        devCreateTopicSecurityGroup_eq_some hinsert
      refine ⟨?_, ?_⟩
      · intro r' hmem
        rcases List.mem_append.mp hmem with hold | hnew
        · obtain ⟨n, hle, hbound, hn⟩ := hids.drawn r' hold
          exact ⟨n, Nat.le_succ_of_le hle, hbound, hn⟩
        · rw [List.mem_singleton.mp hnew]
          exact ⟨_, le_rfl, hlt, hid⟩
      · rw [List.map_append, List.map_singleton, List.nodup_append]
        refine ⟨hids.nodup, List.nodup_singleton _, ?_⟩
        intro a ha b hb
        obtain ⟨r', hmem, rfl⟩ := List.mem_map.mp ha
        obtain ⟨n, hle, hbound, hn⟩ := hids.drawn r' hmem
        rw [List.mem_singleton.mp hb, hn, hid]
        intro heq
        have hn' := ofNat_serial_inj hbound hlt heq
        omega

/-- Setting the flags leaves alone what tells the rows apart. -/
theorem map_setFlags {β : Type*} (f : TopicSecurityGroup → β) (db : Db) (now : ℤ)
    (isDisabled isDeleted : Bool) (flagged : Flagged)
    (hf : ∀ r : TopicSecurityGroup, f { r with isDisabled, isDeleted, ts := now } = f r) :
    (db.setFlags now isDisabled isDeleted flagged).topicSecurityGroup.map f =
      db.topicSecurityGroup.map f := by
  cases flagged with
  | topicSecurityGroups p =>
      rw [Db.setFlags, List.map_map]
      apply List.map_congr_left
      intro r _
      by_cases hp : p r = true
      · rw [Function.comp_apply, if_pos hp, hf]
      · rw [Function.comp_apply, if_neg hp]
  | _ => rfl

theorem SerialIds.setFlags {db : Db} (hids : SerialIds db) (now : ℤ) (isDisabled isDeleted : Bool)
    (flagged : Flagged) : SerialIds (db.setFlags now isDisabled isDeleted flagged) := by
  have hmap := map_setFlags TopicSecurityGroup.id db now isDisabled isDeleted flagged fun _ => rfl
  have hsequences : (db.setFlags now isDisabled isDeleted flagged).sequences = db.sequences := by
    cases flagged <;> rfl
  refine ⟨?_, hmap ▸ hids.nodup⟩
  intro r hmem
  have hid : r.id ∈ db.topicSecurityGroup.map TopicSecurityGroup.id := by
    rw [← hmap]
    exact List.mem_map.mpr ⟨r, hmem, rfl⟩
  obtain ⟨r', hmem', hr'⟩ := List.mem_map.mp hid
  rw [hsequences, ← hr']
  exact hids.drawn r' hmem'

theorem SerialIds.skip {db : Db} (hids : SerialIds db) (sequence : Sequence) :
    SerialIds { db with sequences := db.sequences.skip sequence } := by
  refine ⟨?_, hids.nodup⟩
  intro r hmem
  obtain ⟨n, hle, hbound, hn⟩ := hids.drawn r hmem
  refine ⟨n, hle.trans ?_, hbound, hn⟩
  cases sequence with
  | topicSecurityGroup => exact Nat.le_succ _
  | _ => exact le_rfl

theorem SerialIds.transaction {db db' : Db} {now : ℤ} {statement : Statement}
    (hids : SerialIds db) (htransaction : db.transaction now statement = some db') :
    SerialIds db' :=
  transaction_induction (fun _ _ => SerialIds.inserts)
    (fun _ _ _ _ hids => hids.setFlags _ _ _ _) (fun _ _ hids => hids.skip _) hids htransaction

/-! ## What never changes -/

/-- What stays of a row of `topic_security_group`. -/
def TopicSecurityGroup.role (r : TopicSecurityGroup) :
    Int32 × Int32 × Bytes × Bytes × Bool × Bool :=
  (r.id, r.tenantId, r.topicName, r.securityGroupName, r.readAccess, r.writeAccess)

/-- What stays of a row of `bb_security_group`. -/
def BbSecurityGroup.credentials (r : BbSecurityGroup) : Bytes × Bytes :=
  (r.apiKey, r.secretAccessKeyHash)

/-- Rows are added, and of the old ones only the flags and the time change. -/
structure Grows (db db' : Db) : Prop where
  bbTenant : db.bbTenant.Keeps BbTenant.apiKey db'.bbTenant
  bbSecurityGroup : db.bbSecurityGroup.Keeps BbSecurityGroup.credentials db'.bbSecurityGroup
  bbTopic : db.bbTopic.Keeps BbTopic.kafkaTopic db'.bbTopic
  topicSecurityGroup : ∀ r ∈ db.topicSecurityGroup, ∃ r' ∈ db'.topicSecurityGroup,
    r'.role = r.role

theorem Grows.refl (db : Db) : Grows db db :=
  ⟨.refl _ _, .refl _ _, .refl _ _, fun r hmem => ⟨r, hmem, rfl⟩⟩

theorem Grows.trans {db db' db'' : Db} (hfirst : Grows db db') (hsecond : Grows db' db'') :
    Grows db db'' := by
  refine ⟨hfirst.bbTenant.trans hsecond.bbTenant,
    hfirst.bbSecurityGroup.trans hsecond.bbSecurityGroup,
    hfirst.bbTopic.trans hsecond.bbTopic, ?_⟩
  intro r hmem
  obtain ⟨r', hmem', hr'⟩ := hfirst.topicSecurityGroup r hmem
  obtain ⟨r'', hmem'', hr''⟩ := hsecond.topicSecurityGroup r' hmem'
  exact ⟨r'', hmem'', hr''.trans hr'⟩

theorem grows_inserts {now : ℤ} {db db' : Db} (hinserts : Inserts now db db') : Grows db db' := by
  have hsame := Grows.refl db
  cases hinserts with
  | tenant _ _ _ _ _ _ hinsert =>
      obtain ⟨r, t, -, -, -, -, -, ht, rfl⟩ := insertTenant_eq_some hinsert
      exact { hsame with bbTenant := Table.keeps_insert ht }
  | securityGroup _ _ _ _ _ hinsert =>
      obtain ⟨r, t, id, -, -, -, -, -, -, -, ht, rfl⟩ := insertSecurityGroup_eq_some hinsert
      exact { hsame with bbSecurityGroup := Table.keeps_insert ht }
  | topic _ _ _ _ hinsert =>
      obtain ⟨r, t, id, -, -, -, -, -, -, ht, rfl⟩ := insertTopic_eq_some hinsert
      exact { hsame with bbTopic := Table.keeps_insert ht }
  | apiSecurityGroup _ _ _ _ _ hinsert =>
      obtain ⟨rows, id, rfl⟩ := devCreateApiSecurityGroup_eq_some hinsert
      exact { hsame with }
  | topicSecurityGroup _ _ _ _ _ hinsert =>
      obtain ⟨r, -, -, -, -, -, -, -, -, -, -, rfl⟩ := devCreateTopicSecurityGroup_eq_some hinsert
      refine { hsame with topicSecurityGroup := ?_ }
      exact fun r' hmem => ⟨r', List.mem_append_left _ hmem, rfl⟩

theorem grows_setFlags (db : Db) (now : ℤ) (isDisabled isDeleted : Bool) (flagged : Flagged) :
    Grows db (db.setFlags now isDisabled isDeleted flagged) := by
  have hsame := Grows.refl db
  cases flagged with
  | tenants p =>
      exact { hsame with bbTenant := Table.keeps_update (by exact fun _ => rfl) fun _ => rfl }
  | securityGroups p =>
      exact
        { hsame with bbSecurityGroup := Table.keeps_update (by exact fun _ => rfl) fun _ => rfl }
  | topics p =>
      exact { hsame with bbTopic := Table.keeps_update (by exact fun _ => rfl) fun _ => rfl }
  | topicSecurityGroups p =>
      refine { hsame with topicSecurityGroup := ?_ }
      intro r hmem
      refine ⟨_, List.mem_map.mpr ⟨r, hmem, rfl⟩, ?_⟩
      split <;> rfl

theorem grows_transaction {db db' : Db} {now : ℤ} {statement : Statement}
    (htransaction : db.transaction now statement = some db') : Grows db db' := by
  refine transaction_induction (P := Grows db) ?_ ?_ ?_ (Grows.refl db) htransaction
  · exact fun _ _ hinserts hgrows => hgrows.trans (grows_inserts hinserts)
  · exact fun _ _ _ _ hgrows => hgrows.trans (grows_setFlags _ _ _ _ _)
  · exact fun _ _ hgrows => { hgrows with }

/-! ## What a change leaves behind -/

/-- What is new or changed bears the time `start` or a later one. -/
structure StampedFrom (start : ℤ) (db db' : Db) : Prop where
  bbTenant : db.bbTenant.StampedFrom BbTenant.ts start db'.bbTenant
  bbSecurityGroup : db.bbSecurityGroup.StampedFrom BbSecurityGroup.ts start db'.bbSecurityGroup
  bbTopic : db.bbTopic.StampedFrom BbTopic.ts start db'.bbTopic
  topicSecurityGroup : ∀ r ∈ db'.topicSecurityGroup, r ∈ db.topicSecurityGroup ∨ start ≤ r.ts

theorem StampedFrom.refl (start : ℤ) (db : Db) : StampedFrom start db db :=
  ⟨.refl _ _ _, .refl _ _ _, .refl _ _ _, fun _ hmem => Or.inl hmem⟩

theorem StampedFrom.trans {start : ℤ} {db db' db'' : Db} (hfirst : StampedFrom start db db')
    (hsecond : StampedFrom start db' db'') : StampedFrom start db db'' := by
  refine ⟨hfirst.bbTenant.trans hsecond.bbTenant,
    hfirst.bbSecurityGroup.trans hsecond.bbSecurityGroup,
    hfirst.bbTopic.trans hsecond.bbTopic, ?_⟩
  intro r hmem
  rcases hsecond.topicSecurityGroup r hmem with hold | hstamped
  · exact hfirst.topicSecurityGroup r hold
  · exact Or.inr hstamped

theorem stampedFrom_inserts {start now : ℤ} (hnow : start ≤ now) {db db' : Db}
    (hinserts : Inserts now db db') : StampedFrom start db db' := by
  have hsame := StampedFrom.refl start db
  cases hinserts with
  | tenant _ _ _ _ _ _ hinsert =>
      obtain ⟨r, t, -, -, rfl, -, -, ht, rfl⟩ := insertTenant_eq_some hinsert
      exact { hsame with bbTenant := Table.stampedFrom_insert ht hnow }
  | securityGroup _ _ _ _ _ hinsert =>
      obtain ⟨r, t, id, -, -, -, -, rfl, -, -, ht, rfl⟩ := insertSecurityGroup_eq_some hinsert
      exact { hsame with bbSecurityGroup := Table.stampedFrom_insert ht hnow }
  | topic _ _ _ _ hinsert =>
      obtain ⟨r, t, id, -, -, -, rfl, -, -, ht, rfl⟩ := insertTopic_eq_some hinsert
      exact { hsame with bbTopic := Table.stampedFrom_insert ht hnow }
  | apiSecurityGroup _ _ _ _ _ hinsert =>
      obtain ⟨rows, id, rfl⟩ := devCreateApiSecurityGroup_eq_some hinsert
      exact { hsame with }
  | topicSecurityGroup _ _ _ _ _ hinsert =>
      obtain ⟨r, -, -, -, -, -, -, rfl, -, -, -, rfl⟩ :=
        devCreateTopicSecurityGroup_eq_some hinsert
      refine { hsame with topicSecurityGroup := ?_ }
      intro r' hmem
      rcases List.mem_append.mp hmem with hold | hnew
      · exact Or.inl hold
      · rw [List.mem_singleton.mp hnew]
        exact Or.inr hnow

theorem stampedFrom_setFlags {start now : ℤ} (hnow : start ≤ now) (db : Db)
    (isDisabled isDeleted : Bool) (flagged : Flagged) :
    StampedFrom start db (db.setFlags now isDisabled isDeleted flagged) := by
  have hsame := StampedFrom.refl start db
  cases flagged with
  | tenants p =>
      exact
        { hsame with bbTenant := Table.stampedFrom_update (by exact fun _ => rfl) fun _ => hnow }
  | securityGroups p =>
      exact
        { hsame with
          bbSecurityGroup := Table.stampedFrom_update (by exact fun _ => rfl) fun _ => hnow }
  | topics p =>
      exact { hsame with bbTopic := Table.stampedFrom_update (by exact fun _ => rfl) fun _ => hnow }
  | topicSecurityGroups p =>
      refine { hsame with topicSecurityGroup := ?_ }
      intro r hmem
      obtain ⟨old, hold, rfl⟩ := List.mem_map.mp hmem
      by_cases hp : p old = true
      · rw [if_pos hp]
        exact Or.inr hnow
      · rw [if_neg hp]
        exact Or.inl hold

theorem stampedFrom_transaction {start now : ℤ} (hnow : start ≤ now) {db db' : Db}
    {statement : Statement} (htransaction : db.transaction now statement = some db') :
    StampedFrom start db db' := by
  refine transaction_induction (P := StampedFrom start db) ?_ ?_ ?_ (.refl start db) htransaction
  · exact fun _ _ hinserts hstamped => hstamped.trans (stampedFrom_inserts hnow hinserts)
  · exact fun _ _ _ _ hstamped => hstamped.trans (stampedFrom_setFlags hnow _ _ _ _)
  · exact fun _ _ hstamped => { hstamped with }

/-- A row of the view that is new or changed bears the time as well: it takes the latest
of its parts. -/
theorem StampedFrom.mem_topicAuthView {start : ℤ} {db db' : Db}
    (hstamped : StampedFrom start db db') {row : TopicAuth} (hrow : row ∈ db'.topicAuthView) :
    row ∈ db.topicAuthView ∨ start ≤ row.ts := by
  obtain ⟨tsg, hmem, rfl⟩ := Sql.mem_topicAuthView.mp hrow
  rcases hstamped.bbSecurityGroup (tsg.tenantId, tsg.securityGroupName) with
    hgroup | ⟨sg, hsg, hle⟩
  · rcases hstamped.bbTopic (tsg.tenantId, tsg.topicName) with htopic | ⟨topic, htopic, hle⟩
    · rcases hstamped.bbTenant tsg.tenantId with htenant | ⟨tenant, htenant, hle⟩
      · rcases hstamped.topicSecurityGroup tsg hmem with hold | hle
        · left
          refine Sql.mem_topicAuthView.mpr ⟨tsg, hold, ?_⟩
          rw [Db.topicAuth, Db.topicAuth, hgroup, htopic, htenant]
        · exact Or.inr (hle.trans (le_greatest _ _))
      · refine Or.inr (hle.trans (le_greatest_of_mem ?_))
        simp [htenant]
    · refine Or.inr (hle.trans (le_greatest_of_mem ?_))
      simp [htopic]
  · refine Or.inr (hle.trans (le_greatest_of_mem ?_))
    simp [hsg]

/-- Transactions in a row, each with its time. -/
def Db.transactions : Db → List (ℤ × Statement) → Option Db
  | db, [] => some db
  | db, (now, statement) :: rest =>
      (db.transaction now statement).bind fun db => db.transactions rest

theorem stampedFrom_transactions {start : ℤ} {done : List (ℤ × Statement)} {db db' : Db}
    (htimes : ∀ p ∈ done, start ≤ p.1) (hdone : db.transactions done = some db') :
    StampedFrom start db db' := by
  induction done generalizing db with
  | nil =>
      cases hdone
      exact .refl start _
  | cons p rest ih =>
      obtain ⟨between, hfirst, hrest⟩ := Option.bind_eq_some_iff.mp hdone
      obtain ⟨hp, hlater⟩ := List.forall_mem_cons.mp htimes
      exact (stampedFrom_transaction hp hfirst).trans (ih hlater hrest)

/-- However many transactions are made from the time `start` on, a row of the view is the
one it was before, or is found by asking for the rows with that time or a later one. -/
theorem mem_topicAuthView_of_transactions {start : ℤ} {done : List (ℤ × Statement)} {db db' : Db}
    (htimes : ∀ p ∈ done, start ≤ p.1) (hdone : db.transactions done = some db') :
    ∀ row ∈ db'.topicAuthView, row ∉ db.topicAuthView → start ≤ row.ts := by
  intro row hrow hnew
  exact ((stampedFrom_transactions htimes hdone).mem_topicAuthView hrow).resolve_left hnew

/-- A topic is mapped and then disabled. -/
def mappedAndDisabled : List (ℤ × Statement) :=
  [(5, .mapCustomTopic 6 (bytes "logs") (bytes "LOGS")),
    (7, .setFlags (.topics fun _ => true) true false)]

theorem mappedAndDisabled_mem_topicAuthView :
    ∃ db', Db.empty.transactions mappedAndDisabled = some db' ∧
      db'.topicAuthView.map TopicAuth.ts = [7] ∧
      ∀ row ∈ db'.topicAuthView, row ∉ Db.empty.topicAuthView → 5 ≤ row.ts := by
  obtain ⟨db', hdone, hts⟩ : ∃ db', Db.empty.transactions mappedAndDisabled = some db' ∧
      db'.topicAuthView.map TopicAuth.ts = [7] := ⟨_, rfl, rfl⟩
  exact ⟨db', hdone, hts,
    mem_topicAuthView_of_transactions (by simp [mappedAndDisabled]) hdone⟩

end BbMonitor.Sql
