import BbMonitor.Deployment.Grants

/-!
# Who gets a sink

A sink is handed out only to a caller who presents the api key of the tenant that the sink
belongs to, with a secret that has the digest of the empty one; this holds at any time
(`apiKey_of_sink`), up to collisions of the digest with what was announced.

Once the authorizer has consumed the view as it is, nothing is handed out for what is
disabled or deleted: `live_of_sink`.  It does not matter which sinks were handed out
before, since every call is authorized anew.
-/

namespace BbMonitor.Deployment

open Authorizer Ingestion Sql

variable {labels : Labels} {s : System} {kind : SinkKind} {apiKey secretApiKey : Bytes}
  {p : KafkaSink}

/-- The sink that a call gets is the one granted. -/
theorem Ordinary.grant_of_sink (hs : Ordinary s) (hp : s.sink kind apiKey secretApiKey = some p) :
    (authorizeWrite s.served.1.authorizer apiKey secretApiKey kind.logicalTopic).2 ≠ 0 ∧
      p.customerId =
        (authorizeWrite s.served.1.authorizer apiKey secretApiKey kind.logicalTopic).2 ∧
      p.topic = (authorizeWrite s.served.1.authorizer apiKey secretApiKey kind.logicalTopic).1 ∧
      Owned s.db kind
        (authorizeWrite s.served.1.authorizer apiKey secretApiKey kind.logicalTopic) := by
  obtain ⟨served, hserved⟩ : ∃ served, (Ingestion.machine ∅).step s.served
      (.call kind apiKey secretApiKey) = some served := ⟨_, rfl⟩
  have hafter := hs.call hserved
  cases hserved
  obtain ⟨htopic, htenant, howned⟩ := hafter.sink_of_call
    (List.mem_append_right _ (List.mem_singleton_self _)) hp
  refine ⟨fun hzero => ?_, htenant, htopic, howned⟩
  rw [System.sink, SinkFactory.getSink, if_pos hzero] at hp
  cases hp

/-- Two rows with one id were made of the same row of `topic_security_group`. -/
theorem Ordinary.known_unique (hs : Ordinary s) {row row' : TopicAuth}
    {tsg tsg' : TopicSecurityGroup} (hknown : Known s.db row tsg) (hknown' : Known s.db row' tsg')
    (hid : row.id = row'.id) : tsg = tsg' :=
  List.inj_on_of_nodup_map hs.roles.ids.nodup hknown.mem hknown'.mem
    (by rw [hknown.id, hknown'.id, hid])

/-- The credentials of a row with write access are those of its tenant. -/
theorem Ordinary.credentials_of_row (hs : Ordinary s) {row : TopicAuth} {r : AuthRecord}
    {tsg : TopicSecurityGroup} (hknown : Known s.db row tsg) (hrecord : authRecord row = some r) :
    ∃ sg, s.db.bbSecurityGroup.find? (tsg.tenantId, tsg.securityGroupName) = some sg ∧
      r.data.apiKey = sg.apiKey ∧ r.data.secretAccessKeyHash = sg.secretAccessKeyHash ∧
      (∃ tenant, s.db.bbTenant.find? tsg.tenantId = some tenant ∧
        tenant.apiKey = some sg.apiKey) ∧
      ((tsg.securityGroupName = defaultWrite ∧ sg.secretAccessKeyHash = md5 []) ∨
        (tsg.securityGroupName = defaultRead ∧
          sg.secretAccessKeyHash = md5 (bytes "dummy-key"))) := by
  obtain ⟨hkey, hhash, -⟩ := authRecord_eq_some hrecord
  obtain ⟨sg, hfind, hsgkey, hsghash⟩ := hknown.credentials _ hkey
  obtain ⟨hmem, hsg⟩ := Table.find?_eq_some.mp hfind
  obtain ⟨htenant, hname⟩ := Prod.mk.inj hsg
  have hgroup := hs.roles.groups sg hmem
  rw [htenant, hname] at hgroup
  rw [hhash] at hsghash
  exact ⟨sg, hfind, hsgkey.symm, Option.some.inj hsghash, hgroup⟩

theorem length_secretAccessKeyHash {sg : BbSecurityGroup} {name : Bytes}
    (hsecret : (name = defaultWrite ∧ sg.secretAccessKeyHash = md5 []) ∨
      (name = defaultRead ∧ sg.secretAccessKeyHash = md5 (bytes "dummy-key"))) :
    sg.secretAccessKeyHash.length = 32 := by
  rcases hsecret with ⟨-, hhash⟩ | ⟨-, hhash⟩
  · rw [hhash, length_md5]
  · rw [hhash, length_md5]

/-- A credential string for a known topic gives away the api key and the digest. -/
theorem credentialString_inj {topic apiKey apiKey' hash hash' : Bytes}
    (hlength : hash.length = hash'.length)
    (heq : credentialString topic apiKey hash = credentialString topic apiKey' hash') :
    apiKey = apiKey' ∧ hash = hash' := by
  simp only [credentialString, List.append_assoc] at heq
  have htail := List.append_cancel_left (List.append_cancel_left heq)
  obtain ⟨hkey, hrest⟩ := List.append_inj' htail (by simp [hlength])
  exact ⟨hkey, List.append_cancel_left hrest⟩

theorem Ordinary.credentials_of_sink (hs : Ordinary s)
    (hdigest : s.NoCollision kind apiKey secretApiKey)
    (hp : s.sink kind apiKey secretApiKey = some p) :
    (∃ tenant, s.db.bbTenant.find? p.customerId = some tenant ∧ tenant.apiKey = some apiKey) ∧
      md5 secretApiKey = md5 [] := by
  obtain ⟨hgrant, hcustomer, -⟩ := hs.grant_of_sink hp
  rw [hs.loaded] at hgrant hcustomer
  obtain ⟨a, ha, row, r, hrecord, -, hrow, hid, ⟨ra, harecord, hakey⟩, htopic, hwrite, -, -, heq⟩ :=
    exists_row_of_grant hgrant
  obtain ⟨tsg, hknown⟩ := hs.consumed row hrow
  obtain ⟨tsg', hknown'⟩ := hs.consumed a ha
  have hsame := hs.known_unique hknown' hknown hid
  subst hsame
  -- the announced credentials are those of the group, which have not changed since
  obtain ⟨sg, hfind, hkey, hhash, ⟨tenant, htenant, htenantkey⟩, hsecret⟩ :=
    hs.credentials_of_row hknown' harecord
  obtain ⟨-, -, -, -, htopic', -, -, -, -⟩ := authRecord_eq_some harecord
  have hstring := hdigest ra (List.mem_filterMap.mpr ⟨a, ha, harecord⟩) hakey
  have hname : ra.data.topicName = kind.logicalTopic := by
    rw [htopic', ← hknown'.topicName, hknown.topicName, htopic]
  rw [AuthData.credential, hname, hkey, hhash] at hstring
  obtain ⟨hpresented, hdigest'⟩ := credentialString_inj
    (by rw [length_secretAccessKeyHash hsecret, length_md5]) hstring
  obtain ⟨hgroup, -⟩ := hs.roles.writers tsg' hknown.mem (hknown.writeAccess.trans hwrite)
  have hcustomer' : p.customerId = tsg'.tenantId := by
    rw [hcustomer, heq, hknown.tenantId]
  constructor
  · rw [hcustomer']
    exact ⟨tenant, htenant, by rw [htenantkey, hpresented]⟩
  · rcases hsecret with ⟨-, hwriters⟩ | ⟨hreaders, -⟩
    · rw [← hdigest', hwriters]
    · rw [hgroup] at hreaders
      exact absurd hreaders (by decide)

/-- At any time, whoever gets a sink of a tenant has presented the api key that the tenant
has in `bb_tenant`, and a secret with the digest of the empty one. -/
theorem apiKey_of_sink (hreach : (machine labels).Reachable s)
    (hdigest : s.NoCollision kind apiKey secretApiKey)
    (hp : s.sink kind apiKey secretApiKey = some p) :
    (∃ tenant, s.db.bbTenant.find? p.customerId = some tenant ∧ tenant.apiKey = some apiKey) ∧
      md5 secretApiKey = md5 [] :=
  (ordinary_of_reachable hreach).credentials_of_sink hdigest hp

theorem created_apiKey_of_sink :
    ∃ s p, (machine ∅).Reachable s ∧ s.sink .metrics (bytes "key") [] = some p ∧
      (∃ tenant, s.db.bbTenant.find? p.customerId = some tenant ∧
        tenant.apiKey = some (bytes "key")) ∧ md5 [] = md5 [] := by
  obtain ⟨s, hreach, -, hdigest, -, -, -, hsink⟩ := exists_reachable_created
  obtain ⟨p, hp, -⟩ := Option.map_eq_some_iff.mp hsink
  exact ⟨s, p, hreach, hp, apiKey_of_sink hreach hdigest hp⟩

/-! ## What is out of use -/

/-- The last record of an id is made of the last row of the id, if that gives one. -/
theorem lastWhere_records {rows : List TopicAuth} {row : TopicAuth} {r : AuthRecord}
    (hrecord : authRecord row = some r)
    (hlast : History.lastWhere (fun x => x.id = row.id) rows = some row) :
    History.lastWhere (fun x => x.id = row.id) (records rows) = some r := by
  induction rows using List.reverseRecOn with
  | nil => cases hlast
  | append_singleton rows x ih =>
      rw [History.lastWhere_concat] at hlast
      rw [records, History.filterMap_concat]
      by_cases hx : x.id = row.id
      · rw [if_pos (by simpa using hx)] at hlast
        cases hlast
        obtain ⟨-, -, hid, -⟩ := authRecord_eq_some hrecord
        rw [hrecord, Option.toList_some, History.lastWhere_concat, if_pos (by simpa using hid)]
      · rw [if_neg (by simpa using hx)] at hlast
        cases hxrecord : authRecord x with
        | none =>
            rw [Option.toList_none, List.append_nil]
            exact ih hlast
        | some rx =>
            obtain ⟨-, -, hid, -⟩ := authRecord_eq_some hxrecord
            rw [Option.toList_some, History.lastWhere_concat, if_neg (by simpa [hid] using hx)]
            exact ih hlast

/-- A row of the view is out of use as soon as one of its parts is. -/
theorem parts_of_topicAuth {db : Db} {tsg : TopicSecurityGroup}
    (hdisabled : (db.topicAuth tsg).isDisabled = false)
    (hdeleted : (db.topicAuth tsg).isDeleted = false) :
    (tsg.isDisabled = false ∧ tsg.isDeleted = false) ∧
      (∀ sg, db.bbSecurityGroup.find? (tsg.tenantId, tsg.securityGroupName) = some sg →
        sg.isDisabled = false ∧ sg.isDeleted = false) ∧
      (∀ topic, db.bbTopic.find? (tsg.tenantId, tsg.topicName) = some topic →
        topic.isDisabled = false ∧ topic.isDeleted = false) ∧
      ∀ tenant, db.bbTenant.find? tsg.tenantId = some tenant →
        tenant.isDisabled = false ∧ tenant.isDeleted = false := by
  have hbelow : ∀ b : Bool, b ≤ false → b = false := fun b hb => Bool.eq_false_of_le_false hb
  obtain ⟨htsg, hothers⟩ := greatest_le_iff.mp (le_of_eq hdisabled)
  obtain ⟨htsg', hothers'⟩ := greatest_le_iff.mp (le_of_eq hdeleted)
  refine ⟨⟨hbelow _ htsg, hbelow _ htsg'⟩, ?_, ?_, ?_⟩
  · intro sg hsg
    exact ⟨hbelow _ (hothers _ (by simp [hsg])), hbelow _ (hothers' _ (by simp [hsg]))⟩
  · intro topic htopic
    exact ⟨hbelow _ (hothers _ (by simp [htopic])), hbelow _ (hothers' _ (by simp [htopic]))⟩
  · intro tenant htenant
    exact ⟨hbelow _ (hothers _ (by simp [htenant])), hbelow _ (hothers' _ (by simp [htenant]))⟩

/-- Once the authorizer is up to date with the tables, a sink of a tenant is handed out
only while the tenant, the topic, the group of the writers and the row that gives this group
the write access are all neither disabled nor deleted. -/
theorem live_of_sink (hreach : (machine labels).Reachable s) (huptodate : s.UpToDate)
    (hp : s.sink kind apiKey secretApiKey = some p) :
    ∃ tsg ∈ s.db.topicSecurityGroup, tsg.tenantId = p.customerId ∧
      tsg.topicName = kind.logicalTopic ∧ tsg.securityGroupName = defaultWrite ∧
      tsg.writeAccess = true ∧ tsg.isDisabled = false ∧ tsg.isDeleted = false ∧
      (∃ sg, s.db.bbSecurityGroup.find? (tsg.tenantId, tsg.securityGroupName) = some sg ∧
        sg.isDisabled = false ∧ sg.isDeleted = false) ∧
      (∃ topic, s.db.bbTopic.find? (tsg.tenantId, tsg.topicName) = some topic ∧
        topic.isDisabled = false ∧ topic.isDeleted = false) ∧
      ∃ tenant, s.db.bbTenant.find? tsg.tenantId = some tenant ∧
        tenant.isDisabled = false ∧ tenant.isDeleted = false := by
  have hs := ordinary_of_reachable hreach
  obtain ⟨hgrant, hcustomer, -⟩ := hs.grant_of_sink hp
  rw [hs.loaded] at hgrant hcustomer
  obtain ⟨-, -, row, r, hrecord, hlatest, hrow, -, -, htopic, hwrite, hlive, -, heq⟩ :=
    exists_row_of_grant hgrant
  obtain ⟨tsg, hknown⟩ := hs.consumed row hrow
  have haccess := hknown.writeAccess.trans hwrite
  obtain ⟨hwriters, -⟩ := hs.roles.writers tsg hknown.mem haccess
  obtain ⟨sg, hsg, -, -, ⟨tenant, htenant, -⟩, -⟩ := hs.credentials_of_row hknown hrecord
  obtain ⟨topic, htopicrow, -⟩ := hknown.kafkaTopic
  -- the row as it is now gives a record too, and that is the one in force
  have hnow := huptodate _ (mem_topicAuthView.mpr ⟨tsg, hknown.mem, rfl⟩)
  obtain ⟨rnow, hrnow⟩ : ∃ rnow, authRecord (s.db.topicAuth tsg) = some rnow := by
    simp [authRecord, Db.topicAuth, TopicAuth.select, hsg]
  have hlatest' := lastWhere_records hrnow hnow
  have hid : (s.db.topicAuth tsg).id = row.id := hknown.id
  rw [hid, hlatest] at hlatest'
  cases hlatest'
  obtain ⟨-, -, -, -, -, -, -, hdisabled, hdeleted⟩ := authRecord_eq_some hrnow
  simp only [AuthRecord.live, Bool.not_eq_true', Bool.or_eq_false_iff] at hlive
  obtain ⟨⟨htsg, htsg'⟩, hgroup, htopics, htenants⟩ :=
    parts_of_topicAuth (hdisabled.symm.trans hlive.1) (hdeleted.symm.trans hlive.2)
  refine ⟨tsg, hknown.mem, ?_, hknown.topicName.trans htopic, hwriters, haccess, htsg, htsg',
    ⟨sg, hsg, hgroup sg hsg⟩, ⟨topic, htopicrow, htopics topic htopicrow⟩, tenant, htenant,
    htenants tenant htenant⟩
  rw [hcustomer, heq, hknown.tenantId]

theorem created_live_of_sink :
    ∃ s p, (machine ∅).Reachable s ∧ s.sink .metrics (bytes "key") [] = some p ∧
      ∃ tsg ∈ s.db.topicSecurityGroup, tsg.tenantId = p.customerId ∧
        tsg.topicName = bytes "metrics" ∧ tsg.securityGroupName = defaultWrite ∧
        tsg.writeAccess = true ∧ tsg.isDisabled = false ∧ tsg.isDeleted = false ∧
        (∃ sg, s.db.bbSecurityGroup.find? (tsg.tenantId, tsg.securityGroupName) = some sg ∧
          sg.isDisabled = false ∧ sg.isDeleted = false) ∧
        (∃ topic, s.db.bbTopic.find? (tsg.tenantId, tsg.topicName) = some topic ∧
          topic.isDisabled = false ∧ topic.isDeleted = false) ∧
        ∃ tenant, s.db.bbTenant.find? tsg.tenantId = some tenant ∧
          tenant.isDisabled = false ∧ tenant.isDeleted = false := by
  obtain ⟨s, hreach, huptodate, -, -, -, -, hsink⟩ := exists_reachable_created
  obtain ⟨p, hp, -⟩ := Option.map_eq_some_iff.mp hsink
  exact ⟨s, p, hreach, hp, live_of_sink hreach huptodate hp⟩

end BbMonitor.Deployment
