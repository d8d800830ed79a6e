import BbMonitor.Sql.Transactions

/-!
# Who may write to what

`create_tenant` gives a tenant three topics with its own number in their kafka names, and
its group `default-write` write access to them; `map_custom_topic` gives read access only.
`Roles` is what the tables satisfy as long as they are filled by these two procedures:

* every row of `topic_security_group` is about a topic that exists, and no two rows are
  about the same topic and group;
* write access is given only to `default-write`, and only to a topic whose kafka name
  carries the number of the tenant;
* the credentials of a group are those of its tenant: the api key is the same, and the
  digest is that of the empty secret or of `dummy-key`;
* every tenant has the group `default-write` with write access to the three topics.

`Roles.transaction` says that every transaction keeps this.
-/

namespace BbMonitor.Sql

/-- The topics that every tenant gets. -/
def defaultTopics : List Bytes := [bytes "metrics", bytes "logs", bytes "intake"]

def defaultWrite : Bytes := bytes "default-write"

def defaultRead : Bytes := bytes "default-read"

/-! ## What the procedures add -/

/-- What `create_tenant` adds. -/
structure Created (tenantId : Int32) (topicPrefix apiKey : Bytes) (db db' : Db) : Prop where
  tenant : ∃ r, db'.bbTenant.find? tenantId = some r ∧ r.apiKey = some apiKey ∧
    r.isDisabled = false ∧ r.isDeleted = false
  others : ∀ t, t ≠ tenantId → db'.bbTenant.find? t = db.bbTenant.find? t
  groups : ∃ w r, db'.bbSecurityGroup.rows = db.bbSecurityGroup.rows ++ [w, r] ∧
    w.key = (tenantId, defaultWrite) ∧ w.credentials = (apiKey, md5 []) ∧
    w.isDisabled = false ∧ w.isDeleted = false ∧
    r.key = (tenantId, defaultRead) ∧ r.credentials = (apiKey, md5 (bytes "dummy-key"))
  topics : ∀ name ∈ defaultTopics, db.bbTopic.find? (tenantId, name) = none ∧
    ∃ r, db'.bbTopic.find? (tenantId, name) = some r ∧
      r.kafkaTopic = defaultTopic tenantId topicPrefix name ∧ r.isDisabled = false ∧
      r.isDeleted = false
  roles : ∃ added : List TopicSecurityGroup,
    db'.topicSecurityGroup = db.topicSecurityGroup ++ added ∧
    added.map (fun r => (r.tenantId, r.topicName, r.securityGroupName, r.readAccess,
      r.writeAccess)) =
        defaultTopics.map (fun name => (tenantId, name, defaultWrite, false, true)) ++
          defaultTopics.map (fun name => (tenantId, name, defaultRead, true, false)) ∧
    ∀ r ∈ added, r.isDisabled = false ∧ r.isDeleted = false

theorem created_of_createTenant {now : ℤ} {db db' : Db} {tenantId : Int32}
    {topicPrefix accountName primaryEmail apiKey adminApiKey adminSecretAccessKeyHash : Bytes}
    (hcreate : db.createTenant now tenantId topicPrefix accountName primaryEmail apiKey adminApiKey
      adminSecretAccessKeyHash = some db') : Created tenantId topicPrefix apiKey db db' := by
  simp only [Db.createTenant, Option.bind_eq_bind, Option.bind_eq_some_iff] at hcreate
  obtain ⟨_, h₁, _, h₂, _, h₃, _, h₄, _, h₅, _, h₆, _, h₇, _, h₈, _, h₉, _, h₁₀, _, h₁₁, _, h₁₂,
    _, h₁₃, _, h₁₄, _, h₁₅, h₁₆⟩ := hcreate
  obtain ⟨tenant, _, htenant, hkey, -, hdisabled, hdeleted, hinsert, rfl⟩ :=
    insertTenant_eq_some h₁
  obtain ⟨w, _, _, hw₁, hw₂, hw₃, hw₄, -, hw₅, hw₆, hw, rfl⟩ := insertSecurityGroup_eq_some h₂
  obtain ⟨r, _, _, hr₁, hr₂, hr₃, hr₄, -, -, -, hr, rfl⟩ := insertSecurityGroup_eq_some h₃
  obtain ⟨m, _, _, hm₁, hm₂, hm₃, -, hm₄, hm₅, hm, rfl⟩ := insertTopic_eq_some h₄
  obtain ⟨l, _, _, hl₁, hl₂, hl₃, -, hl₄, hl₅, hl, rfl⟩ := insertTopic_eq_some h₅
  obtain ⟨i, _, _, hi₁, hi₂, hi₃, -, hi₄, hi₅, hi, rfl⟩ := insertTopic_eq_some h₆
  obtain ⟨_, _, rfl⟩ := devCreateApiSecurityGroup_eq_some h₇
  obtain ⟨_, _, rfl⟩ := devCreateApiSecurityGroup_eq_some h₈
  obtain ⟨_, _, rfl⟩ := devCreateApiSecurityGroup_eq_some h₉
  obtain ⟨_, _, rfl⟩ := devCreateApiSecurityGroup_eq_some h₁₀
  obtain ⟨a, -, a₁, a₂, a₃, a₄, a₅, -, a₆, a₇, -, rfl⟩ := devCreateTopicSecurityGroup_eq_some h₁₁
  obtain ⟨b, -, b₁, b₂, b₃, b₄, b₅, -, b₆, b₇, -, rfl⟩ := devCreateTopicSecurityGroup_eq_some h₁₂
  obtain ⟨c, -, c₁, c₂, c₃, c₄, c₅, -, c₆, c₇, -, rfl⟩ := devCreateTopicSecurityGroup_eq_some h₁₃
  obtain ⟨d, -, d₁, d₂, d₃, d₄, d₅, -, d₆, d₇, -, rfl⟩ := devCreateTopicSecurityGroup_eq_some h₁₄
  obtain ⟨e, -, e₁, e₂, e₃, e₄, e₅, -, e₆, e₇, -, rfl⟩ := devCreateTopicSecurityGroup_eq_some h₁₅
  obtain ⟨f, -, f₁, f₂, f₃, f₄, f₅, -, f₆, f₇, -, rfl⟩ := devCreateTopicSecurityGroup_eq_some h₁₆
  refine ⟨⟨tenant, ?_, hkey, hdisabled, hdeleted⟩, ?_, ⟨w, r, ?_, Prod.ext hw₁ hw₂,
    Prod.ext hw₃ hw₄, hw₅, hw₆, Prod.ext hr₁ hr₂, Prod.ext hr₃ hr₄⟩, ?_, ?_⟩
  · rw [← htenant]
    exact (Table.find?_of_insert hinsert).2
  · intro t ht
    rw [Table.find?_insert hinsert, if_neg]
    rintro rfl
    exact ht htenant
  · rw [(Table.insert_eq_some.mp hr).2, (Table.insert_eq_some.mp hw).2, List.append_assoc]
    rfl
  · have hmkey : m.key = (tenantId, bytes "metrics") := Prod.ext hm₁ hm₂
    have hlkey : l.key = (tenantId, bytes "logs") := Prod.ext hl₁ hl₂
    have hikey : i.key = (tenantId, bytes "intake") := Prod.ext hi₁ hi₂
    simp only [defaultTopics, List.forall_mem_cons, List.not_mem_nil, false_implies,
      implies_true, and_true]
    have hfind := Table.find?_of_insert_three hm hl hi
    simp only [List.forall_mem_cons, hmkey, hlkey, hikey] at hfind
    obtain ⟨⟨hmnone, hmsome⟩, ⟨hlnone, hlsome⟩, ⟨hinone, hisome⟩, -⟩ := hfind
    exact ⟨⟨hmnone, m, hmsome, hm₃, hm₄, hm₅⟩, ⟨hlnone, l, hlsome, hl₃, hl₄, hl₅⟩,
      ⟨hinone, i, hisome, hi₃, hi₄, hi₅⟩⟩
  · refine ⟨[a, b, c, d, e, f], ?_, ?_, ?_⟩
    · simp only [List.append_assoc, List.cons_append, List.nil_append]
    · simp only [List.map_cons, List.map_nil, a₁, a₂, a₃, a₄, a₅, b₁, b₂, b₃, b₄, b₅, c₁, c₂, c₃,
        c₄, c₅, d₁, d₂, d₃, d₄, d₅, e₁, e₂, e₃, e₄, e₅, f₁, f₂, f₃, f₄, f₅, defaultTopics,
        defaultWrite, defaultRead, List.cons_append, List.nil_append]
    · simp only [List.forall_mem_cons, List.not_mem_nil, false_implies, implies_true, and_true]
      exact ⟨⟨a₆, a₇⟩, ⟨b₆, b₇⟩, ⟨c₆, c₇⟩, ⟨d₆, d₇⟩, ⟨e₆, e₇⟩, ⟨f₆, f₇⟩⟩

/-- What `map_custom_topic` adds. -/
structure Mapped (tenantId : Int32) (topicName kafkaTopic : Bytes) (db db' : Db) : Prop where
  tenant : db'.bbTenant = db.bbTenant
  groups : db'.bbSecurityGroup = db.bbSecurityGroup
  topics : ∃ r, db.bbTopic.insert r = some db'.bbTopic ∧ r.key = (tenantId, topicName) ∧
    r.kafkaTopic = kafkaTopic
  roles : ∃ r, db'.topicSecurityGroup = db.topicSecurityGroup ++ [r] ∧ r.tenantId = tenantId ∧
    r.topicName = topicName ∧ r.securityGroupName = defaultRead ∧ r.writeAccess = false

theorem mapped_of_mapCustomTopic {now : ℤ} {db db' : Db} {tenantId : Int32}
    {topicName kafkaTopic : Bytes}
    (hmap : db.mapCustomTopic now tenantId topicName kafkaTopic = some db') :
    Mapped tenantId topicName kafkaTopic db db' := by
  simp only [Db.mapCustomTopic, Option.bind_eq_bind, Option.bind_eq_some_iff] at hmap
  obtain ⟨_, htopic, hgroup⟩ := hmap
  obtain ⟨r, _, _, hr₁, hr₂, hr₃, -, -, -, hr, rfl⟩ := insertTopic_eq_some htopic
  obtain ⟨a, -, a₁, a₂, a₃, -, a₅, -, -, -, -, rfl⟩ := devCreateTopicSecurityGroup_eq_some hgroup
  exact ⟨rfl, rfl, ⟨r, hr, Prod.ext hr₁ hr₂, hr₃⟩, ⟨a, rfl, a₁, a₂, a₃, a₅⟩⟩

/-! ## The invariant -/

/-- What a row of `topic_security_group` is about. -/
def TopicSecurityGroup.subject (r : TopicSecurityGroup) : Int32 × Bytes × Bytes :=
  (r.tenantId, r.topicName, r.securityGroupName)

structure Roles (db : Db) : Prop where
  ids : SerialIds db
  once : (db.topicSecurityGroup.map TopicSecurityGroup.subject).Nodup
  topic : ∀ r ∈ db.topicSecurityGroup, ∃ topic,
    db.bbTopic.find? (r.tenantId, r.topicName) = some topic
  writers : ∀ r ∈ db.topicSecurityGroup, r.writeAccess = true →
    r.securityGroupName = defaultWrite ∧ r.topicName ∈ defaultTopics ∧ ∃ topic topicPrefix,
      db.bbTopic.find? (r.tenantId, r.topicName) = some topic ∧
      topic.kafkaTopic = defaultTopic r.tenantId topicPrefix r.topicName
  groups : ∀ g ∈ db.bbSecurityGroup.rows,
    (∃ tenant, db.bbTenant.find? g.tenantId = some tenant ∧ tenant.apiKey = some g.apiKey) ∧
    ((g.securityGroupName = defaultWrite ∧ g.secretAccessKeyHash = md5 []) ∨
      (g.securityGroupName = defaultRead ∧ g.secretAccessKeyHash = md5 (bytes "dummy-key")))
  tenants : ∀ t tenant, db.bbTenant.find? t = some tenant →
    (∃ sg, db.bbSecurityGroup.find? (t, defaultWrite) = some sg) ∧
    ∀ name ∈ defaultTopics, ∃ r ∈ db.topicSecurityGroup,
      r.subject = (t, name, defaultWrite) ∧ r.writeAccess = true

theorem roles_empty : Roles Db.empty where
  ids := ⟨List.forall_mem_nil _, List.nodup_nil⟩
  once := List.nodup_nil
  topic := List.forall_mem_nil _
  writers := List.forall_mem_nil _
  groups := List.forall_mem_nil _
  tenants := by
    intro t tenant hfind
    cases hfind

variable {now : ℤ} {db db' : Db}

/-- The old rows keep their topics. -/
theorem Roles.topic_of_grows (hroles : Roles db) (hgrows : Grows db db') :
    ∀ r ∈ db.topicSecurityGroup, ∃ topic,
      db'.bbTopic.find? (r.tenantId, r.topicName) = some topic := by
  intro r hmem
  obtain ⟨topic, htopic⟩ := hroles.topic r hmem
  obtain ⟨topic', htopic', -⟩ := hgrows.bbTopic _ topic htopic
  exact ⟨topic', htopic'⟩

theorem Roles.writers_of_grows (hroles : Roles db) (hgrows : Grows db db') :
    ∀ r ∈ db.topicSecurityGroup, r.writeAccess = true →
      r.securityGroupName = defaultWrite ∧ r.topicName ∈ defaultTopics ∧ ∃ topic topicPrefix,
        db'.bbTopic.find? (r.tenantId, r.topicName) = some topic ∧
        topic.kafkaTopic = defaultTopic r.tenantId topicPrefix r.topicName := by
  intro r hmem hwrite
  obtain ⟨hgroup, hname, topic, topicPrefix, htopic, hkafka⟩ := hroles.writers r hmem hwrite
  obtain ⟨topic', htopic', hkept⟩ := hgrows.bbTopic _ topic htopic
  exact ⟨hgroup, hname, topic', topicPrefix, htopic', hkept.trans hkafka⟩

theorem Roles.groups_of_grows (hroles : Roles db) (hgrows : Grows db db') :
    ∀ g ∈ db.bbSecurityGroup.rows,
      (∃ tenant, db'.bbTenant.find? g.tenantId = some tenant ∧ tenant.apiKey = some g.apiKey) ∧
      ((g.securityGroupName = defaultWrite ∧ g.secretAccessKeyHash = md5 []) ∨
        (g.securityGroupName = defaultRead ∧
          g.secretAccessKeyHash = md5 (bytes "dummy-key"))) := by
  intro g hmem
  obtain ⟨⟨tenant, htenant, hkey⟩, hsecret⟩ := hroles.groups g hmem
  obtain ⟨tenant', htenant', hkept⟩ := hgrows.bbTenant _ tenant htenant
  exact ⟨⟨tenant', htenant', hkept.trans hkey⟩, hsecret⟩

theorem Roles.tenants_of_grows (hroles : Roles db) (hgrows : Grows db db') {t : Int32}
    {tenant : BbTenant} (htenant : db.bbTenant.find? t = some tenant) :
    (∃ sg, db'.bbSecurityGroup.find? (t, defaultWrite) = some sg) ∧
      ∀ name ∈ defaultTopics, ∃ r ∈ db'.topicSecurityGroup,
        r.subject = (t, name, defaultWrite) ∧ r.writeAccess = true := by
  obtain ⟨⟨sg, hsg⟩, hrows⟩ := hroles.tenants t tenant htenant
  obtain ⟨sg', hsg', -⟩ := hgrows.bbSecurityGroup _ sg hsg
  refine ⟨⟨sg', hsg'⟩, fun name hname => ?_⟩
  obtain ⟨r, hmem, hsubject, hwrite⟩ := hrows name hname
  obtain ⟨r', hmem', hrole⟩ := hgrows.topicSecurityGroup r hmem
  simp only [TopicSecurityGroup.role, Prod.mk.injEq] at hrole
  obtain ⟨-, htenant', htopic, hgroup, -, hwrite'⟩ := hrole
  refine ⟨r', hmem', ?_, hwrite'.trans hwrite⟩
  rw [← hsubject, TopicSecurityGroup.subject, TopicSecurityGroup.subject, htenant', htopic, hgroup]

/-- Rows about topics that did not exist before are about none of the old subjects. -/
theorem Roles.once_append (hroles : Roles db) {added : List TopicSecurityGroup}
    (hfresh : ∀ r ∈ added, db.bbTopic.find? (r.tenantId, r.topicName) = none)
    (honce : (added.map TopicSecurityGroup.subject).Nodup) :
    ((db.topicSecurityGroup ++ added).map TopicSecurityGroup.subject).Nodup := by
  rw [List.map_append, List.nodup_append]
  refine ⟨hroles.once, honce, ?_⟩
  rintro s hs s' hs' rfl
  obtain ⟨r, hmem, rfl⟩ := List.mem_map.mp hs
  obtain ⟨r', hmem', hsubject⟩ := List.mem_map.mp hs'
  obtain ⟨topic, htopic⟩ := hroles.topic r hmem
  have hnone := hfresh r' hmem'
  simp only [TopicSecurityGroup.subject, Prod.mk.injEq] at hsubject
  rw [hsubject.1, hsubject.2.1, htopic] at hnone
  cases hnone

/-! ## Every transaction keeps it -/

/-- What is said of one of the rows that `create_tenant` adds. -/
theorem role_of_mem_added {tenantId : Int32} {added : List TopicSecurityGroup}
    {r : TopicSecurityGroup}
    (hadded : added.map (fun r => (r.tenantId, r.topicName, r.securityGroupName, r.readAccess,
      r.writeAccess)) =
        defaultTopics.map (fun name => (tenantId, name, defaultWrite, false, true)) ++
          defaultTopics.map (fun name => (tenantId, name, defaultRead, true, false)))
    (hmem : r ∈ added) :
    r.tenantId = tenantId ∧ r.topicName ∈ defaultTopics ∧
      (r.writeAccess = true → r.securityGroupName = defaultWrite) := by
  have htuple := List.mem_map_of_mem (f := fun r : TopicSecurityGroup =>
    (r.tenantId, r.topicName, r.securityGroupName, r.readAccess, r.writeAccess)) hmem
  rw [hadded, List.mem_append] at htuple
  rcases htuple with hwrite | hread
  · obtain ⟨name, hname, htuple⟩ := List.mem_map.mp hwrite
    simp only [Prod.mk.injEq] at htuple
    obtain ⟨htenant, htopic, hgroup, -, -⟩ := htuple
    exact ⟨htenant.symm, htopic ▸ hname, fun _ => hgroup.symm⟩
  · obtain ⟨name, hname, htuple⟩ := List.mem_map.mp hread
    simp only [Prod.mk.injEq] at htuple
    obtain ⟨htenant, htopic, -, -, hwrite⟩ := htuple
    refine ⟨htenant.symm, htopic ▸ hname, fun h => ?_⟩
    rw [← hwrite] at h
    cases h

/-- The rows of `default-write` are among them. -/
theorem exists_writer_of_added {tenantId : Int32} {added : List TopicSecurityGroup}
    (hadded : added.map (fun r => (r.tenantId, r.topicName, r.securityGroupName, r.readAccess,
      r.writeAccess)) =
        defaultTopics.map (fun name => (tenantId, name, defaultWrite, false, true)) ++
          defaultTopics.map (fun name => (tenantId, name, defaultRead, true, false)))
    {name : Bytes} (hname : name ∈ defaultTopics) :
    ∃ r ∈ added, r.subject = (tenantId, name, defaultWrite) ∧ r.writeAccess = true := by
  have htuple : (tenantId, name, defaultWrite, false, true) ∈ added.map (fun r =>
      (r.tenantId, r.topicName, r.securityGroupName, r.readAccess, r.writeAccess)) := by
    rw [hadded]
    exact List.mem_append_left _ (List.mem_map.mpr ⟨name, hname, rfl⟩)
  obtain ⟨r, hmem, hr⟩ := List.mem_map.mp htuple
  simp only [Prod.mk.injEq] at hr
  obtain ⟨htenant, htopic, hgroup, -, hwrite⟩ := hr
  exact ⟨r, hmem, Prod.ext htenant (Prod.ext htopic hgroup), hwrite⟩

theorem Roles.createTenant (hroles : Roles db) {tenantId : Int32}
    {topicPrefix accountName primaryEmail apiKey adminApiKey adminSecretAccessKeyHash : Bytes}
    (hcreate : db.createTenant now tenantId topicPrefix accountName primaryEmail apiKey adminApiKey
      adminSecretAccessKeyHash = some db') : Roles db' := by
  have hgrows : Grows db db' := createTenant_induction (P := Grows db)
    (fun _ _ hinserts hgrows => hgrows.trans (grows_inserts hinserts)) (Grows.refl db) hcreate
  have hids : SerialIds db' := createTenant_induction (fun _ _ => SerialIds.inserts) hroles.ids
    hcreate
  obtain ⟨⟨tenant, htenant, hkey, -, -⟩, hothers,
    ⟨w, g, hgroups, hwkey, hwsecret, -, -, hgkey, hgsecret⟩, htopics, added, hadded, hlist, -⟩ :=
    created_of_createTenant hcreate
  have hnew := fun r => role_of_mem_added (r := r) hlist
  refine ⟨hids, ?_, ?_, ?_, ?_, ?_⟩
  · rw [hadded]
    refine hroles.once_append (fun r hmem => ?_) ?_
    · obtain ⟨rfl, hname, -⟩ := hnew r hmem
      exact (htopics _ hname).1
    · have hsubjects := congrArg (List.map fun t : Int32 × Bytes × Bytes × Bool × Bool =>
        (t.1, t.2.1, t.2.2.1)) hlist
      rw [List.map_map, List.map_append, List.map_map, List.map_map] at hsubjects
      have hsubject : added.map TopicSecurityGroup.subject =
          (defaultTopics.map (fun name => (name, defaultWrite)) ++
            defaultTopics.map (fun name => (name, defaultRead))).map fun s => (tenantId, s) := by
        rw [List.map_append, List.map_map, List.map_map]
        exact hsubjects
      rw [hsubject]
      exact List.Nodup.map (fun _ _ heq => (Prod.mk.inj heq).2) (by decide)
  · intro r hmem
    rw [hadded] at hmem
    rcases List.mem_append.mp hmem with hold | hmem
    · exact hroles.topic_of_grows hgrows r hold
    · obtain ⟨rfl, hname, -⟩ := hnew r hmem
      obtain ⟨-, topic, htopic, -⟩ := htopics _ hname
      exact ⟨topic, htopic⟩
  · intro r hmem hwrite
    rw [hadded] at hmem
    rcases List.mem_append.mp hmem with hold | hmem
    · exact hroles.writers_of_grows hgrows r hold hwrite
    · obtain ⟨rfl, hname, hgroup⟩ := hnew r hmem
      obtain ⟨-, topic, htopic, hkafka, -⟩ := htopics _ hname
      exact ⟨hgroup hwrite, hname, topic, topicPrefix, htopic, hkafka⟩
  · intro g' hmem
    rw [hgroups, List.mem_append, List.mem_cons, List.mem_singleton] at hmem
    rcases hmem with hold | rfl | rfl
    · exact hroles.groups_of_grows hgrows g' hold
    · obtain ⟨rfl, hname⟩ := Prod.mk.inj hwkey
      obtain ⟨rfl, hsecret⟩ := Prod.mk.inj hwsecret
      exact ⟨⟨tenant, htenant, hkey⟩, Or.inl ⟨hname, hsecret⟩⟩
    · obtain ⟨rfl, hname⟩ := Prod.mk.inj hgkey
      obtain ⟨rfl, hsecret⟩ := Prod.mk.inj hgsecret
      exact ⟨⟨tenant, htenant, hkey⟩, Or.inr ⟨hname, hsecret⟩⟩
  · intro t other hother
    by_cases ht : t = tenantId
    · subst ht
      refine ⟨⟨w, Table.find?_eq_some.mpr ⟨?_, hwkey⟩⟩, fun name hname => ?_⟩
      · rw [hgroups]
        exact List.mem_append_right _ List.mem_cons_self
      · obtain ⟨r, hmem, hr⟩ := exists_writer_of_added hlist hname
        refine ⟨r, ?_, hr⟩
        rw [hadded]
        exact List.mem_append_right _ hmem
    · rw [hothers t ht] at hother
      exact hroles.tenants_of_grows hgrows hother

theorem Roles.mapCustomTopic (hroles : Roles db) {tenantId : Int32} {topicName kafkaTopic : Bytes}
    (hmap : db.mapCustomTopic now tenantId topicName kafkaTopic = some db') : Roles db' := by
  have hgrows : Grows db db' := mapCustomTopic_induction (P := Grows db)
    (fun _ _ hinserts hgrows => hgrows.trans (grows_inserts hinserts)) (Grows.refl db) hmap
  have hids : SerialIds db' := mapCustomTopic_induction (fun _ _ => SerialIds.inserts) hroles.ids
    hmap
  obtain ⟨htenants, hgroups, ⟨topic, hinsert, hkey, -⟩, r, hadded, rfl, rfl, -, hwrite⟩ :=
    mapped_of_mapCustomTopic hmap
  obtain ⟨hnone, hsome⟩ := Table.find?_of_insert hinsert
  rw [hkey] at hnone hsome
  refine ⟨hids, ?_, ?_, ?_, ?_, ?_⟩
  · rw [hadded]
    exact hroles.once_append (List.forall_mem_singleton.mpr hnone) (List.nodup_singleton _)
  · rw [hadded]
    exact List.forall_mem_append.mpr
      ⟨hroles.topic_of_grows hgrows, List.forall_mem_singleton.mpr ⟨topic, hsome⟩⟩
  · rw [hadded]
    refine List.forall_mem_append.mpr
      ⟨hroles.writers_of_grows hgrows, List.forall_mem_singleton.mpr fun h => ?_⟩
    rw [hwrite] at h
    cases h
  · rw [hgroups]
    exact hroles.groups_of_grows hgrows
  · intro t tenant hfind
    rw [htenants] at hfind
    exact hroles.tenants_of_grows hgrows hfind

theorem Roles.setFlags (hroles : Roles db) (isDisabled isDeleted : Bool) (flagged : Flagged) :
    Roles (db.setFlags now isDisabled isDeleted flagged) := by
  have hgrows := grows_setFlags db now isDisabled isDeleted flagged
  have hsubjects := map_setFlags TopicSecurityGroup.subject db now isDisabled isDeleted flagged
    fun _ => rfl
  have hrole := map_setFlags TopicSecurityGroup.role db now isDisabled isDeleted flagged
    fun _ => rfl
  -- a row has the role of one of the old rows
  have hold : ∀ r ∈ (db.setFlags now isDisabled isDeleted flagged).topicSecurityGroup,
      ∃ old ∈ db.topicSecurityGroup, old.role = r.role := by
    intro r hmem
    have hmem' := List.mem_map_of_mem (f := TopicSecurityGroup.role) hmem
    rw [hrole] at hmem'
    exact List.mem_map.mp hmem'
  refine ⟨hroles.ids.setFlags now isDisabled isDeleted flagged, hsubjects ▸ hroles.once, ?_, ?_, ?_,
    ?_⟩
  · intro r hmem
    obtain ⟨old, hmem', hsame⟩ := hold r hmem
    simp only [TopicSecurityGroup.role, Prod.mk.injEq] at hsame
    rw [← hsame.2.1, ← hsame.2.2.1]
    exact hroles.topic_of_grows hgrows old hmem'
  · intro r hmem
    obtain ⟨old, hmem', hsame⟩ := hold r hmem
    simp only [TopicSecurityGroup.role, Prod.mk.injEq] at hsame
    rw [← hsame.2.1, ← hsame.2.2.1, ← hsame.2.2.2.1, ← hsame.2.2.2.2.2]
    exact hroles.writers_of_grows hgrows old hmem'
  · intro g hmem
    have hgroup : ∃ old ∈ db.bbSecurityGroup.rows,
        old.key = g.key ∧ old.credentials = g.credentials := by
      cases flagged with
      | securityGroups p =>
          obtain ⟨old, hmem', rfl⟩ := List.mem_map.mp hmem
          refine ⟨old, hmem', ?_⟩
          split <;> exact ⟨rfl, rfl⟩
      | _ => exact ⟨g, hmem, rfl, rfl⟩
    obtain ⟨old, hmem', hkey, hsecret⟩ := hgroup
    simp only [BbSecurityGroup.key, BbSecurityGroup.credentials, Prod.mk.injEq] at hkey hsecret
    rw [← hkey.1, ← hkey.2, ← hsecret.1, ← hsecret.2]
    exact hroles.groups_of_grows hgrows old hmem'
  · intro t tenant hfind
    have htenant : ∃ old, db.bbTenant.find? t = some old := by
      cases flagged with
      | tenants p =>
          obtain ⟨hmem, hkey⟩ := Table.find?_eq_some.mp hfind
          obtain ⟨old, hmem', rfl⟩ := List.mem_map.mp hmem
          refine ⟨old, Table.find?_eq_some.mpr ⟨hmem', ?_⟩⟩
          rw [← hkey]
          split <;> rfl
      | _ => exact ⟨tenant, hfind⟩
    obtain ⟨old, hold⟩ := htenant
    exact hroles.tenants_of_grows hgrows hold

theorem Roles.transaction (hroles : Roles db) {statement : Statement}
    (htransaction : db.transaction now statement = some db') : Roles db' := by
  cases statement with
  | createTenant => exact hroles.createTenant htransaction
  | mapCustomTopic => exact hroles.mapCustomTopic htransaction
  | setFlags isDisabled isDeleted flagged =>
      cases htransaction
      exact hroles.setFlags _ _ _
  | skip sequence =>
      cases htransaction
      exact { hroles with ids := hroles.ids.skip sequence }

end BbMonitor.Sql
