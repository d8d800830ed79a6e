import BbMonitor.Decimals
import BbMonitor.Deployment.Model

/-!
# A sink belongs to the tenant that asked for it

The sink factory files its sinks under the kafka topic alone, so that a sink carries the
tenant of whoever asked for the topic first.  The schema makes up for it: write access is
given only to topics with the number of the tenant in their names, and no two tenants
share such a name (`tenant_eq_of_defaultTopic_eq`).

`ordinary_of_reachable` is the invariant of the whole path, `sink_of_tenant` what it
means for the calls.  Both hold however far the auth topic is behind the tables.
-/

namespace BbMonitor.Deployment

open Authorizer Ingestion Sql

/-! ## The name of a topic tells the tenant -/

/-- `'_'`. -/
def underscore : UInt8 := 0x5f

theorem underscore_notMem_intText (n : Int32) : underscore ∉ intText n := by
  intro hmem
  rcases mem_bytes_toString hmem with hsign | hdigit
  · exact absurd hsign (by decide)
  · exact absurd hdigit (by decide)

theorem tenant_eq_of_defaultTopic_eq {t t' : Int32} {topicPrefix topicPrefix' name name' : Bytes}
    (heq : defaultTopic t topicPrefix name = defaultTopic t' topicPrefix' name') : t = t' := by
  simp only [defaultTopic, List.append_assoc] at heq
  have hrest := List.append_cancel_left heq
  have hfirst : ∀ (n : Int32) (more : Bytes), (intText n ++ (bytes "_" ++ more)).takeWhile
      (fun c => decide (c ≠ underscore)) = intText n := by
    intro n more
    have hclean : ∀ c ∈ intText n, decide (c ≠ underscore) = true := by
      intro c hc
      rw [decide_eq_true_eq]
      rintro rfl
      exact underscore_notMem_intText n hc
    rw [List.takeWhile_append_of_pos hclean]
    have hstop : (bytes "_" ++ more).takeWhile (fun c => decide (c ≠ underscore)) = [] := rfl
    rw [hstop, List.append_nil]
  have htext : intText t = intText t' := by
    rw [← hfirst t, ← hfirst t', hrest]
  exact Int32.toInt_inj.mp (bytes_toString_injective htext)

/-- A kafka topic has one owner. -/
theorem Owned.tenant_eq {db db' : Db} {kind kind' : SinkKind} {topic : Bytes} {t t' : Int32}
    (howned : Owned db kind (topic, t)) (howned' : Owned db' kind' (topic, t')) : t = t' := by
  obtain ⟨-, _, -, -, hname⟩ := howned
  obtain ⟨-, _, -, -, hname'⟩ := howned'
  exact tenant_eq_of_defaultTopic_eq (hname.symm.trans hname')

/-! ## What the authorizer grants -/

/-- A grant comes from a row of the view with write access to the topic, and is the kafka
topic and the tenant of that row. -/
theorem exists_row_of_grant {rows : List TopicAuth} {apiKey secretAccessKey topic : Bytes}
    (hgrant : (authorizeWrite (load (records rows)) apiKey secretAccessKey topic).2 ≠ 0) :
    ∃ a ∈ rows, ∃ row r, authRecord row = some r ∧ History.lastWhere
        (fun r => r.id = row.id) (records rows) = some r ∧ row ∈ rows ∧ a.id = row.id ∧
      (∃ ra, authRecord a = some ra ∧ ra.indexKey = queryKey apiKey secretAccessKey topic) ∧
      row.topicName = topic ∧ row.writeAccess = true ∧ r.live = true ∧
      (r.data.secretAccessKeyHash = [] ∨ r.data.secretAccessKeyHash = md5 secretAccessKey) ∧
      authorizeWrite (load (records rows)) apiKey secretAccessKey topic =
        (row.kafkaTopic.getD [], row.tenantId) := by
  have hne : authorize .write (load (records rows)) apiKey secretAccessKey topic ≠ denial := by
    intro hdenied
    rw [authorizeWrite, hdenied] at hgrant
    exact hgrant rfl
  rw [authorizeWrite]
  cases hann : announcement (records rows) (queryKey apiKey secretAccessKey topic) with
  | none => exact absurd (authorize_of_not_announced hann .write) hne
  | some ra =>
      rw [authorize_of_announcement hann] at hne ⊢
      obtain ⟨r, hlatest, hlive, hadmits, hanswer⟩ := exists_of_answer_ne_denial hne
      obtain ⟨hra, -, hkey⟩ := mem_of_announcement hann
      obtain ⟨a, ha, harecord⟩ := List.mem_filterMap.mp hra
      obtain ⟨hr, hrid⟩ := mem_of_latest hlatest
      obtain ⟨row, hrow, hrecord⟩ := List.mem_filterMap.mp hr
      obtain ⟨-, -, haid, -⟩ := authRecord_eq_some harecord
      obtain ⟨-, -, hid, htenant, htopic, hwrite, hkafka, -, -⟩ := authRecord_eq_some hrecord
      refine ⟨a, ha, row, r, hrecord, ?_, hrow, ?_, ⟨ra, harecord, hkey⟩, ?_, ?_, hlive,
        hadmits.1, ?_⟩
      · rw [← hid, hrid]
        exact hlatest
      · rw [← haid, ← hid, hrid]
      · rw [← htopic]
        exact hadmits.2.1
      · rw [← hwrite]
        exact hadmits.2.2
      · rw [hanswer, AuthData.grant, hkafka, htenant]

/-! ## Every step keeps the invariant -/

section Steps

variable {labels : Labels} {s : System}

/-- Whatever is granted is owned by the tenant of the grant. -/
theorem Ordinary.owned_of_grant (hs : Ordinary s) {kind : SinkKind} {apiKey secretApiKey : Bytes}
    (hgrant : (authorizeWrite s.served.1.authorizer apiKey secretApiKey kind.logicalTopic).2 ≠ 0) :
    Owned s.db kind
      (authorizeWrite s.served.1.authorizer apiKey secretApiKey kind.logicalTopic) := by
  rw [hs.loaded] at hgrant ⊢
  obtain ⟨-, -, row, -, -, -, hrow, -, -, htopic, hwrite, -, -, heq⟩ := exists_row_of_grant hgrant
  obtain ⟨tsg, hknown⟩ := hs.consumed row hrow
  obtain ⟨-, -, topic, topicPrefix, hfind, hkafka⟩ :=
    hs.roles.writers tsg hknown.mem (hknown.writeAccess.trans hwrite)
  obtain ⟨topic', hfind', hrowtopic⟩ := hknown.kafkaTopic
  rw [hfind] at hfind'
  cases hfind'
  rw [hknown.tenantId, hknown.topicName, htopic] at hfind hkafka
  rw [heq, hrowtopic, Option.getD_some]
  exact ⟨topic, topicPrefix, hfind, rfl, hkafka⟩

theorem Ordinary.transaction (hs : Ordinary s) {now : ℤ} {statement : Statement} {db : Db}
    (htransaction : s.db.transaction now statement = some db) : Ordinary { s with db } := by
  have hgrows := grows_transaction htransaction
  have hknown : ∀ row : TopicAuth, (∃ tsg, Known s.db row tsg) → ∃ tsg, Known db row tsg :=
    fun row ⟨_, hrow⟩ => hrow.grows hgrows
  exact
    { hs with
      roles := hs.roles.transaction htransaction
      pending := fun row hmem => hknown row (hs.pending row hmem)
      consumed := fun row hmem => hknown row (hs.consumed row hmem)
      owned := fun c hmem hgranted => (hs.owned c hmem hgranted).grows hgrows }

theorem Ordinary.publish (hs : Ordinary s) {row : TopicAuth} (hrow : row ∈ s.db.topicAuthView) :
    Ordinary { s with pending := s.pending ++ [row] } := by
  obtain ⟨tsg, hmem, rfl⟩ := mem_topicAuthView.mp hrow
  refine { hs with pending := List.forall_mem_append.mpr ⟨hs.pending, ?_⟩ }
  exact List.forall_mem_singleton.mpr ⟨tsg, known_topicAuth hs.roles hmem⟩

theorem Ordinary.consume (hs : Ordinary s) {row : TopicAuth} {pending : List TopicAuth}
    {served : SinkFactory × List Call} (hrow : row ∈ s.pending) (hpending : pending ⊆ s.pending)
    (hstep : (Ingestion.machine labels).step s.served (.record (avro row)) = some served) :
    Ordinary { s with pending, consumed := s.consumed ++ [row], served } := by
  have hconsistent := consistent_step labels _ _ _ hs.consistent hstep
  obtain ⟨authorizer, hvisit, rfl⟩ := Option.map_eq_some_iff.mp hstep
  rw [visitor_avro] at hvisit
  refine ⟨hs.roles, fun row hmem => hs.pending row (hpending hmem), ?_, ?_, hconsistent, hs.owned⟩
  · exact List.forall_mem_append.mpr
      ⟨hs.consumed, List.forall_mem_singleton.mpr (hs.pending row hrow)⟩
  · rw [load_records_concat, ← hs.loaded]
    exact (Option.some.inj hvisit).symm

theorem Ordinary.call (hs : Ordinary s) {kind : SinkKind} {apiKey secretApiKey : Bytes}
    {served : SinkFactory × List Call}
    (hstep : (Ingestion.machine labels).step s.served (.call kind apiKey secretApiKey) =
      some served) : Ordinary { s with served } := by
  have hconsistent := consistent_step labels _ _ _ hs.consistent hstep
  cases hstep
  refine ⟨hs.roles, hs.pending, hs.consumed, ?_, hconsistent, ?_⟩
  · rw [← hs.loaded, SinkFactory.getSink]
    -- neither branch of the factory touches the authorizer
    split
    · rfl
    · split
      · rfl
      · cases kind <;> rfl
  · refine List.forall_mem_append.mpr ⟨hs.owned, List.forall_mem_singleton.mpr fun hgranted => ?_⟩
    exact hs.owned_of_grant (of_decide_eq_true hgranted)

theorem ordinary_init (labels : Labels) : Ordinary (machine labels).init where
  roles := roles_empty
  pending := List.forall_mem_nil _
  consumed := List.forall_mem_nil _
  loaded := rfl
  consistent := consistent_init labels
  owned := List.forall_mem_nil _

theorem ordinary_step (labels : Labels) (s : System) (action : Action) (t : System)
    (hs : Ordinary s) (hstep : (machine labels).step s action = some t) : Ordinary t := by
  cases action with
  | transaction now statement =>
      obtain ⟨db, htransaction, rfl⟩ := Option.map_eq_some_iff.mp hstep
      exact hs.transaction htransaction
  | publish id =>
      obtain ⟨row, hfind, rfl⟩ := Option.map_eq_some_iff.mp hstep
      exact hs.publish (List.mem_of_find?_eq_some hfind)
  | consume id =>
      obtain ⟨row, hfind, hrest⟩ := Option.bind_eq_some_iff.mp hstep
      obtain ⟨served, hserved, rfl⟩ := Option.map_eq_some_iff.mp hrest
      exact hs.consume (List.mem_of_find?_eq_some hfind) List.eraseP_subset hserved
  | call kind apiKey secretApiKey =>
      have hserve : ((Ingestion.machine labels).step s.served
          (.call kind apiKey secretApiKey)).map (fun served => { s with served }) = some t := hstep
      obtain ⟨served, hserved, rfl⟩ := Option.map_eq_some_iff.mp hserve
      exact hs.call hserved

end Steps

theorem ordinary_of_reachable {labels : Labels} {s : System}
    (hreach : (machine labels).Reachable s) : Ordinary s :=
  Machine.reachable_invariant (ordinary_init labels) (ordinary_step labels) hreach

/-! ## What the calls get -/

/-- The sink of a granted call is that of the topic, with a tenant who owns the topic. -/
theorem Ordinary.sink_of_call {s : System} (hs : Ordinary s) {c : Call} (hmem : c ∈ s.served.2)
    {p : KafkaSink} (hp : c.result = some p) :
    p.topic = c.grant.1 ∧ p.customerId = c.grant.2 ∧ Owned s.db c.kind c.grant := by
  have hgranted : c.granted = true := by
    cases hgranted : c.granted with
    | true => rfl
    | false =>
        rw [hs.consistent.denied c hmem hgranted] at hp
        cases hp
  obtain ⟨first, hfirst, hresult⟩ := hs.consistent.exists_first hmem hgranted
  obtain ⟨q, hq, htopic, htenant⟩ := hs.consistent.built first _ _ hfirst
  rw [← hresult, hp] at hq
  cases hq
  -- the first grant for the topic was for its owner, too
  obtain ⟨hfirstmem, hfirstcond⟩ : first ∈ s.served.2 ∧ (first.granted = true ∧
      first.kind = c.kind ∧ first.grant.1 = c.grant.1) := by
    refine ⟨List.mem_of_find?_eq_some hfirst, ?_⟩
    have hcond := List.find?_some hfirst
    simp only [Bool.and_eq_true, decide_eq_true_eq] at hcond
    exact ⟨hcond.1.1, hcond.1.2, hcond.2⟩
  obtain ⟨hfirstgranted, hkind, hsame⟩ := hfirstcond
  have howned := hs.owned c hmem hgranted
  have hfirstowned : Owned s.db first.kind (c.grant.1, first.grant.2) :=
    hsame ▸ hs.owned first hfirstmem hfirstgranted
  have hsametenant : first.grant.2 = c.grant.2 := hfirstowned.tenant_eq howned
  exact ⟨htopic, htenant.trans hsametenant, howned⟩

/-- After any run, and however far the authorizer is behind the tables: the sink that a
call got has the tenant that was granted to the caller, writes to the kafka topic that this
tenant has in `bb_topic` for the kind of data, and no sink of another tenant writes to that
topic. -/
theorem sink_of_tenant {labels : Labels} {s : System} (hreach : (machine labels).Reachable s) :
    ∀ c ∈ s.served.2, ∀ p, c.result = some p →
      p.customerId = c.grant.2 ∧ Owned s.db c.kind (p.topic, p.customerId) ∧
      ∀ c' ∈ s.served.2, ∀ p', c'.result = some p' → p'.topic = p.topic →
        p'.customerId = p.customerId := by
  have hs := ordinary_of_reachable hreach
  intro c hmem p hp
  have howned : ∀ c ∈ s.served.2, ∀ p, c.result = some p →
      Owned s.db c.kind (p.topic, p.customerId) := by
    intro c hmem p hp
    obtain ⟨htopic, htenant, howned⟩ := hs.sink_of_call hmem hp
    rw [htopic, htenant]
    exact howned
  obtain ⟨-, htenant, -⟩ := hs.sink_of_call hmem hp
  refine ⟨htenant, howned c hmem p hp, ?_⟩
  intro c' hmem' p' hp' hsame
  have howned' := howned c' hmem' p' hp'
  rw [hsame] at howned'
  exact howned'.tenant_eq (howned c hmem p hp)

/-- Tenant 7 is created, its rows reach the authorizer, and a client asks for a sink. -/
def created : List Action :=
  [.transaction 1 (.createTenant 7 (bytes "DEV") (bytes "account") (bytes "mail") (bytes "key")
      (bytes "admin") (bytes "hash"))] ++
    [1, 2, 3, 4, 5, 6].map .publish ++ [2, 1, 3, 4, 5, 6].map .consume ++
    [.call .metrics (bytes "key") []]

theorem exec_created : ((machine ∅).exec (machine ∅).init created).any (fun s =>
    decide (s.UpToDate ∧ s.NoCollision .metrics (bytes "key") [] ∧
      (∀ row ∈ s.db.topicAuthView, row.isDisabled = false ∧ row.isDeleted = false) ∧
      s.db.bbTenant.rows.map (fun r => (r.tenantId, r.apiKey)) = [(7, some (bytes "key"))] ∧
      s.served.2.map (fun c => c.result.map KafkaSink.customerId) = [some 7] ∧
      (s.sink .metrics (bytes "key") []).map KafkaSink.customerId = some 7)) = true := by
  decide +kernel

theorem exists_reachable_created :
    ∃ s, (machine ∅).Reachable s ∧ s.UpToDate ∧ s.NoCollision .metrics (bytes "key") [] ∧
      (∀ row ∈ s.db.topicAuthView, row.isDisabled = false ∧ row.isDeleted = false) ∧
      s.db.bbTenant.rows.map (fun r => (r.tenantId, r.apiKey)) = [(7, some (bytes "key"))] ∧
      s.served.2.map (fun c => c.result.map KafkaSink.customerId) = [some 7] ∧
      (s.sink .metrics (bytes "key") []).map KafkaSink.customerId = some 7 := by
  obtain ⟨s, hexec, hfacts⟩ := (Option.any_eq_true _ _).mp exec_created
  exact ⟨s, ⟨created, hexec⟩, of_decide_eq_true hfacts⟩

theorem created_sink_of_tenant :
    ∃ s, (machine ∅).Reachable s ∧ s.served.2 ≠ [] ∧
      ∀ c ∈ s.served.2, ∀ p, c.result = some p →
        p.customerId = c.grant.2 ∧ Owned s.db c.kind (p.topic, p.customerId) ∧
        ∀ c' ∈ s.served.2, ∀ p', c'.result = some p' → p'.topic = p.topic →
          p'.customerId = p.customerId := by
  obtain ⟨s, hreach, -, -, -, -, hcalls, -⟩ := exists_reachable_created
  refine ⟨s, hreach, ?_, sink_of_tenant hreach⟩
  intro hnil
  rw [hnil] at hcalls
  cases hcalls

end BbMonitor.Deployment
