import BbMonitor.Deployment.Access

/-!
# A tenant in good standing is served

The converse of the statements about grants.  When the authorizer is up to date, a tenant
that is neither disabled nor deleted gets its sinks for the api key in `bb_tenant` and no
secret, whatever happened before (`exists_sink_of_tenant`).  Three things can go wrong
otherwise, and are excluded: the number 0, which the factory takes for a refusal; an api
key that two tenants share; and an api key with a `'#'`, which the credential string of
another tenant's topic might imitate.
-/

namespace BbMonitor.Deployment

open Authorizer Ingestion Sql

variable {labels : Labels} {s : System} {kind : SinkKind} {apiKey : Bytes}

theorem logicalTopic_mem_defaultTopics (kind : SinkKind) : kind.logicalTopic ∈ defaultTopics := by
  cases kind <;> decide

theorem hashMark_notMem_logicalTopic (kind : SinkKind) : hashMark ∉ kind.logicalTopic := by
  cases kind <;> decide

/-- A credential string whose topic and api key have no `'#'` can be read in one way. -/
theorem credentialString_parse {topic topic' apiKey apiKey' hash hash' : Bytes}
    (htopic : hashMark ∉ topic) (hkey : hashMark ∉ apiKey) (hlength : hash.length = hash'.length)
    (heq : credentialString topic apiKey hash = credentialString topic' apiKey' hash') :
    topic = topic' ∧ apiKey = apiKey' ∧ hash = hash' := by
  obtain ⟨hfront, hhash⟩ := List.append_inj' heq hlength
  have hcount := congrArg (List.count hashMark) (List.append_cancel_right hfront)
  have hmark : bytes "#" = [hashMark] := by decide
  simp only [hmark, List.count_append, List.count_singleton_self,
    List.count_eq_zero_of_not_mem htopic, List.count_eq_zero_of_not_mem hkey] at hcount
  -- the other string has one `'#'` before the digest, too
  have htopic' : hashMark ∉ topic' := List.count_eq_zero.mp (by omega)
  have hsplit : topic ++ hashMark :: apiKey = topic' ++ hashMark :: apiKey' := by
    simpa [hmark] using List.append_cancel_right hfront
  have htopics : topic = topic' := by
    have htake := congrArg (List.takeWhile fun c => decide (c ≠ hashMark)) hsplit
    have hfirst : ∀ {t : Bytes} (more : Bytes), hashMark ∉ t →
        (t ++ hashMark :: more).takeWhile (fun c => decide (c ≠ hashMark)) = t := by
      intro t more ht
      rw [List.takeWhile_append_of_pos, List.takeWhile_cons_of_neg (by simp), List.append_nil]
      intro c hc
      rw [decide_eq_true_eq]
      rintro rfl
      exact ht hc
    rwa [hfirst _ htopic, hfirst _ htopic'] at htake
  subst htopics
  exact ⟨rfl, (List.cons.inj (List.append_cancel_left hsplit)).2, hhash⟩

/-- The row of `default-write` for a topic of a tenant, as it is in the view. -/
theorem Ordinary.exists_writer (hs : Ordinary s) {t : Int32} {tenant : BbTenant}
    (htenant : s.db.bbTenant.find? t = some tenant) (hkey : tenant.apiKey = some apiKey)
    (kind : SinkKind) :
    ∃ tsg ∈ s.db.topicSecurityGroup, ∃ r, tsg.subject = (t, kind.logicalTopic, defaultWrite) ∧
      tsg.writeAccess = true ∧ authRecord (s.db.topicAuth tsg) = some r ∧
      r.data.apiKey = apiKey ∧ r.data.secretAccessKeyHash = md5 [] := by
  obtain ⟨⟨sg, hsg⟩, hrows⟩ := hs.roles.tenants t tenant htenant
  obtain ⟨tsg, hmem, hsubject, hwrite⟩ := hrows _ (logicalTopic_mem_defaultTopics kind)
  simp only [TopicSecurityGroup.subject, Prod.mk.injEq] at hsubject
  obtain ⟨rfl, htopic, hgroup⟩ := hsubject
  rw [← hgroup] at hsg
  obtain ⟨r, hr⟩ : ∃ r, authRecord (s.db.topicAuth tsg) = some r := by
    simp [authRecord, Db.topicAuth, TopicAuth.select, hsg]
  obtain ⟨sg', hsg', hrkey, hrhash, ⟨tenant', htenant', htenantkey⟩, hsecret⟩ :=
    hs.credentials_of_row (known_topicAuth hs.roles hmem) hr
  rw [htenant] at htenant'
  cases htenant'
  rw [hkey] at htenantkey
  refine ⟨tsg, hmem, r, Prod.ext rfl (Prod.ext htopic hgroup), hwrite, hr,
    hrkey.trans (Option.some.inj htenantkey).symm, ?_⟩
  rcases hsecret with ⟨-, hhash⟩ | ⟨hreaders, -⟩
  · exact hrhash.trans hhash
  · rw [hgroup] at hreaders
    exact absurd hreaders (by decide)

/-- Only the row of the tenant itself has announced the credentials of the tenant. -/
theorem Ordinary.announcer_eq (hs : Ordinary s) {t : Int32} {tsg : TopicSecurityGroup}
    (hmem : tsg ∈ s.db.topicSecurityGroup)
    (hsubject : tsg.subject = (t, kind.logicalTopic, defaultWrite))
    (hunique : ∀ t' tenant', s.db.bbTenant.find? t' = some tenant' →
      tenant'.apiKey = some apiKey → t' = t)
    (hmark : hashMark ∉ apiKey) {r : AuthRecord} (hr : r ∈ records s.consumed)
    (hcredential : r.data.credential = credentialString kind.logicalTopic apiKey (md5 [])) :
    r.id = tsg.id := by
  obtain ⟨row, hrow, hrecord⟩ := List.mem_filterMap.mp hr
  obtain ⟨tsg', hknown⟩ := hs.consumed row hrow
  obtain ⟨sg, -, hkey, hhash, ⟨tenant, htenant, htenantkey⟩, hsecret⟩ :=
    hs.credentials_of_row hknown hrecord
  obtain ⟨-, -, hid, -, htopic, -, -, -, -⟩ := authRecord_eq_some hrecord
  rw [AuthData.credential, hkey, hhash] at hcredential
  obtain ⟨htopic', hkey', hhash'⟩ := credentialString_parse (hashMark_notMem_logicalTopic kind)
    hmark (by rw [length_md5, length_secretAccessKeyHash hsecret]) hcredential.symm
  have htenant' : tsg'.tenantId = t := hunique _ tenant htenant (by rw [htenantkey, hkey'])
  have hgroup : tsg'.securityGroupName = defaultWrite := by
    rcases hsecret with ⟨hwriters, -⟩ | ⟨-, hreaders⟩
    · exact hwriters
    · rw [hreaders] at hhash'
      exact absurd hhash' (by decide +kernel)
  have hname : tsg'.topicName = kind.logicalTopic := by
    rw [hknown.topicName, ← htopic, htopic']
  have hsame : tsg' = tsg := by
    apply List.inj_on_of_nodup_map hs.roles.once hknown.mem hmem
    rw [hsubject]
    exact Prod.ext htenant' (Prod.ext hname hgroup)
  rw [hid, ← hknown.id, hsame]

/-- The authorizer grants the tenant what it asks for. -/
theorem Ordinary.grant_of_tenant (hs : Ordinary s) (huptodate : s.UpToDate)
    {t : Int32} {tenant : BbTenant} (htenant : s.db.bbTenant.find? t = some tenant)
    (hkey : tenant.apiKey = some apiKey)
    (hlive : ∀ row ∈ s.db.topicAuthView, row.tenantId = t →
      row.isDisabled = false ∧ row.isDeleted = false)
    (hunique : ∀ t' tenant', s.db.bbTenant.find? t' = some tenant' →
      tenant'.apiKey = some apiKey → t' = t)
    (hmark : hashMark ∉ apiKey) (kind : SinkKind) (hdigest : s.NoCollision kind apiKey []) :
    (authorizeWrite s.served.1.authorizer apiKey [] kind.logicalTopic).2 = t := by
  obtain ⟨tsg, hmem, r, hsubject, hwrite, hr, hrkey, hrhash⟩ := hs.exists_writer htenant hkey kind
  obtain ⟨rfl, hrest⟩ := Prod.mk.inj hsubject
  obtain ⟨htopic, -⟩ := Prod.mk.inj hrest
  obtain ⟨-, -, hid, hrtenant, hrtopic, hrwrite, -, hdisabled, hdeleted⟩ := authRecord_eq_some hr
  have hview : s.db.topicAuth tsg ∈ s.db.topicAuthView :=
    mem_topicAuthView.mpr ⟨tsg, hmem, rfl⟩
  -- the record in force for the id of the row
  have hlatest : latest (records s.consumed) tsg.id = some r :=
    lastWhere_records hr (huptodate _ hview)
  have hrlive : r.live = true := by
    obtain ⟨h₁, h₂⟩ := hlive _ hview rfl
    rw [AuthRecord.live, hdisabled, hdeleted, h₁, h₂]
    rfl
  have hindex : r.indexKey = queryKey apiKey [] kind.logicalTopic := by
    rw [AuthRecord.indexKey, AuthData.credential, queryKey, hrkey, hrhash, hrtopic, ← htopic]
    rfl
  obtain ⟨a, hann⟩ : ∃ a, announcement (records s.consumed)
      (queryKey apiKey [] kind.logicalTopic) = some a :=
    History.exists_lastWhere (mem_of_latest hlatest).1 (by simp [hrlive, hindex])
  obtain ⟨ha, -, hakey⟩ := mem_of_announcement hann
  have haid : a.id = tsg.id :=
    hs.announcer_eq hmem hsubject hunique hmark ha (hdigest a ha hakey)
  have hadmits : r.data.Admits .write (md5 []) kind.logicalTopic :=
    ⟨Or.inr hrhash, hrtopic.trans htopic, hrwrite.trans hwrite⟩
  have hgrant : authorizeWrite s.served.1.authorizer apiKey [] kind.logicalTopic =
      r.data.grant := by
    rw [hs.loaded, authorizeWrite, authorize_of_announcement hann]
    exact answer_of_admits (haid ▸ hlatest) hrlive hadmits
  rw [hgrant]
  exact hrtenant

/-- Once the authorizer is up to date with the tables, a tenant of which nothing is
disabled or deleted gets, for its api key and an empty secret, the sink of the topic that it
has in `bb_topic` for the kind of data. -/
theorem exists_sink_of_tenant (hreach : (machine labels).Reachable s) (huptodate : s.UpToDate)
    {t : Int32} {tenant : BbTenant} (htenant : s.db.bbTenant.find? t = some tenant) (ht : t ≠ 0)
    (hkey : tenant.apiKey = some apiKey)
    (hlive : ∀ row ∈ s.db.topicAuthView, row.tenantId = t →
      row.isDisabled = false ∧ row.isDeleted = false)
    (hunique : ∀ t' tenant', s.db.bbTenant.find? t' = some tenant' →
      tenant'.apiKey = some apiKey → t' = t)
    (hmark : hashMark ∉ apiKey) (kind : SinkKind) (hdigest : s.NoCollision kind apiKey []) :
    ∃ p, s.sink kind apiKey [] = some p ∧ p.customerId = t ∧ Owned s.db kind (p.topic, t) := by
  have hs := ordinary_of_reachable hreach
  have hgrant := hs.grant_of_tenant huptodate htenant hkey hlive hunique hmark kind hdigest
  obtain ⟨p, hp⟩ : ∃ p, s.sink kind apiKey [] = some p := by
    rw [System.sink, SinkFactory.getSink, if_neg (by rw [hgrant]; exact ht)]
    split
    · exact ⟨_, rfl⟩
    · exact ⟨_, rfl⟩
  obtain ⟨-, hcustomer, htopic, howned⟩ := hs.grant_of_sink hp
  rw [hgrant] at hcustomer
  refine ⟨p, hp, hcustomer, ?_⟩
  rw [htopic, ← hgrant]
  exact howned

/-- In a table of one tenant. -/
theorem sole_tenant {db : Db} {t : Int32}
    (hrows : db.bbTenant.rows.map (fun r : BbTenant => (r.tenantId, r.apiKey)) =
      [(t, some apiKey)]) :
    (∃ tenant, db.bbTenant.find? t = some tenant ∧ tenant.apiKey = some apiKey) ∧
      ∀ t' tenant', db.bbTenant.find? t' = some tenant' → t' = t := by
  constructor
  · have hmem : (t, some apiKey) ∈
        db.bbTenant.rows.map (fun r : BbTenant => (r.tenantId, r.apiKey)) := by
      rw [hrows]
      exact List.mem_singleton_self _
    obtain ⟨tenant, htenant, hpair⟩ := List.mem_map.mp hmem
    obtain ⟨ht, hkey⟩ := Prod.mk.inj hpair
    exact ⟨tenant, Table.find?_eq_some.mpr ⟨htenant, ht⟩, hkey⟩
  · intro t' tenant' hfind
    obtain ⟨hmem, hkey⟩ := Table.find?_eq_some.mp hfind
    have hpair := List.mem_map_of_mem (f := fun r : BbTenant => (r.tenantId, r.apiKey)) hmem
    rw [hrows, List.mem_singleton] at hpair
    exact hkey.symm.trans (Prod.mk.inj hpair).1

theorem created_exists_sink_of_tenant :
    ∃ s, (machine ∅).Reachable s ∧ ∃ p, s.sink .metrics (bytes "key") [] = some p ∧
      p.customerId = 7 ∧ Owned s.db .metrics (p.topic, 7) := by
  obtain ⟨s, hreach, huptodate, hdigest, hlive, htenants, -, -⟩ := exists_reachable_created
  obtain ⟨⟨tenant, htenant, hkey⟩, honly⟩ := sole_tenant htenants
  exact ⟨s, hreach, exists_sink_of_tenant hreach huptodate htenant (by decide) hkey
    (fun row hrow _ => hlive row hrow) (fun t tenant hfind _ => honly t tenant hfind)
    (by decide) .metrics hdigest⟩

end BbMonitor.Deployment
