import BbMonitor.Authorizer.Model
import BbMonitor.Lib.Machine

/-!
# The sinks of the ingestion server

`kafka_sink_factory` hands out one sink per kafka topic and kind of data.  It
asks the authorizer for write access to the logical topic of the kind; a tenant
id of 0 means that there is none.  Sinks are kept in one cache per kind, filed
under the kafka topic, and are never dropped.

Since the tenant is not part of the key, a sink carries the tenant id of the
grant that first asked for its kafka topic.  The schema gives each tenant topics
with its own number in their names, and read access only to a topic that is
mapped by hand, so that in the deployments at hand the tenants of two write
grants for one kafka topic agree.  `calls_bound` states what the factory
guarantees without that convention, over every interleaving of auth records and
calls.
-/

namespace BbMonitor.Ingestion

open Authorizer

/-! ## The factory -/

/-- The three kinds of data, one per member function `get_*_sink`. -/
inductive SinkKind where
  | metrics
  | log
  | intake
deriving DecidableEq, Repr

/-- The logical topic on which a call asks for write access. -/
def SinkKind.logicalTopic : SinkKind → Bytes
  | .metrics => bytes "metrics"
  | .log => bytes "logs"
  | .intake => bytes "intake"

abbrev Labels := AList fun _ : Bytes => Bytes

/-- A `bb_kafka_sink`: the arguments it was constructed with, and `ref` to tell
one object from another. -/
structure KafkaSink where
  ref : ℕ
  topic : Bytes
  customerId : Int32
  labels : Labels

structure SinkFactory where
  labels : Labels
  authorizer : State
  topic2producerCache : AList fun _ : Bytes => KafkaSink
  topic2logproducerCache : AList fun _ : Bytes => KafkaSink
  topic2intakeproducerCache : AList fun _ : Bytes => KafkaSink
  /-- How many sinks have been constructed. -/
  constructed : ℕ

namespace SinkFactory

def init (labels : Labels) : SinkFactory where
  labels := labels
  authorizer := State.empty
  topic2producerCache := ∅
  topic2logproducerCache := ∅
  topic2intakeproducerCache := ∅
  constructed := 0

/-- The cache of a kind. -/
def cache (factory : SinkFactory) : SinkKind → AList fun _ : Bytes => KafkaSink
  | .metrics => factory.topic2producerCache
  | .log => factory.topic2logproducerCache
  | .intake => factory.topic2intakeproducerCache

/-- Construct a sink and file it in the cache of its kind. -/
def construct (factory : SinkFactory) (kind : SinkKind) (p : KafkaSink) : SinkFactory :=
  let factory := { factory with constructed := factory.constructed + 1 }
  match kind with
  | .metrics =>
      { factory with topic2producerCache := factory.topic2producerCache.insert p.topic p }
  | .log =>
      { factory with topic2logproducerCache := factory.topic2logproducerCache.insert p.topic p }
  | .intake =>
      { factory with
        topic2intakeproducerCache := factory.topic2intakeproducerCache.insert p.topic p }

/-- `std::to_string`. -/
def toText (n : Int32) : Bytes := bytes (toString n.toInt)

/-- The labels of a sink.  The labels of the factory go to metric sinks only, and
do not replace an entry; intake sinks have no `client_id`. -/
def sinkLabels (factory : SinkFactory) (authRes : Bytes × Int32) : SinkKind → Labels
  | .metrics =>
      factory.labels.entries.foldl
        (fun labels entry => if entry.1 ∈ labels then labels else labels.insert entry.1 entry.2)
        (((((∅ : Labels).insert (bytes "client_id") (toText authRes.2)).insert
          (bytes "logical_topic") (bytes "metrics")).insert
          (bytes "physical_topic") authRes.1).insert (bytes "processor") (bytes "sink"))
  | .log =>
      ((((∅ : Labels).insert (bytes "client_id") (toText authRes.2)).insert
        (bytes "logical_topic") (bytes "logs")).insert
        (bytes "physical_topic") authRes.1).insert (bytes "usage") (bytes "sink")
  | .intake =>
      (((∅ : Labels).insert (bytes "logical_topic") (bytes "intake")).insert
        (bytes "physical_topic") authRes.1).insert (bytes "usage") (bytes "sink")

/-- The common body of the three `get_*_sink`; the null pointer is `none`. -/
def getSink (kind : SinkKind) (factory : SinkFactory) (apiKey secretApiKey : Bytes) :
    Option KafkaSink × SinkFactory :=
  let authRes := authorizeWrite factory.authorizer apiKey secretApiKey kind.logicalTopic
  if authRes.2 = 0 then
    (none, factory)
  else
    match (factory.cache kind).lookup authRes.1 with
    | some item => (some item, factory)
    | none =>
        let p : KafkaSink :=
          { ref := factory.constructed, topic := authRes.1, customerId := authRes.2,
            labels := factory.sinkLabels authRes kind }
        (some p, factory.construct kind p)

def getMetricsSink : SinkFactory → Bytes → Bytes → Option KafkaSink × SinkFactory :=
  getSink .metrics

def getLogSink : SinkFactory → Bytes → Bytes → Option KafkaSink × SinkFactory :=
  getSink .log

def getIntakeSink : SinkFactory → Bytes → Bytes → Option KafkaSink × SinkFactory :=
  getSink .intake

@[simp] theorem lookup_cache_construct (factory : SinkFactory) (kind kind' : SinkKind)
    (p : KafkaSink) (topic : Bytes) :
    ((factory.construct kind p).cache kind').lookup topic =
      if kind = kind' ∧ p.topic = topic then some p
      else (factory.cache kind').lookup topic := by
  by_cases htopic : p.topic = topic
  · subst htopic
    cases kind <;> cases kind' <;> simp [construct, cache]
  · cases kind <;> cases kind' <;>
      simp [construct, cache, htopic, AList.lookup_insert_ne (Ne.symm htopic)]

end SinkFactory

/-! ## Runs -/

/-- What can happen to the factory: the authorizer consumes a record, or a sink
is asked for. -/
inductive Op where
  | record (r : AvroRecord)
  | call (kind : SinkKind) (apiKey secretApiKey : Bytes)

/-- A call as it happened: what the authorizer granted at that moment, and what
the factory returned. -/
structure Call where
  kind : SinkKind
  grant : Bytes × Int32
  result : Option KafkaSink

/-- The factory together with the log of the calls made so far. -/
def machine (labels : Labels) : Machine (SinkFactory × List Call) Op where
  init := (SinkFactory.init labels, [])
  step := fun s op =>
    match op with
    | .record r =>
        (visitor s.1.authorizer r).map fun authorizer => ({ s.1 with authorizer }, s.2)
    | .call kind apiKey secretApiKey =>
        let returned := SinkFactory.getSink kind s.1 apiKey secretApiKey
        let grant := authorizeWrite s.1.authorizer apiKey secretApiKey kind.logicalTopic
        some (returned.2, s.2 ++ [⟨kind, grant, returned.1⟩])

/-- The call was granted: the tenant id is not the failure marker. -/
def Call.granted (c : Call) : Bool := c.grant.2 ≠ 0

/-- The first granted call of a kind for a kafka topic. -/
def firstGrant (calls : List Call) (kind : SinkKind) (topic : Bytes) : Option Call :=
  calls.find? fun c => c.granted && decide (c.kind = kind) && decide (c.grant.1 = topic)

/-- What the log of calls always satisfies. -/
structure Bound (calls : List Call) : Prop where
  /-- A sink is returned exactly for a grant with a tenant id other than 0. -/
  returned_iff : ∀ c ∈ calls, c.result.isSome ↔ c.grant.2 ≠ 0
  /-- The sink was constructed for the kafka topic of the grant and for the tenant
  of the first grant of that kind with that kafka topic. -/
  constructed_for : ∀ c ∈ calls, ∀ p, c.result = some p →
    p.topic = c.grant.1 ∧ ∃ first, firstGrant calls c.kind c.grant.1 = some first ∧
      p.customerId = first.grant.2
  /-- Granted calls of one kind for one kafka topic get the same object. -/
  same_sink : ∀ c ∈ calls, ∀ c' ∈ calls, c.kind = c'.kind → c.grant.1 = c'.grant.1 →
    c.granted → c'.granted → c.result = c'.result

/-! ## The caches hold the sinks of the first grants -/

/-- The invariant that ties the caches to the log. -/
structure Consistent (s : SinkFactory × List Call) : Prop where
  cached : ∀ kind topic, (s.1.cache kind).lookup topic =
    (firstGrant s.2 kind topic).bind Call.result
  denied : ∀ c ∈ s.2, c.granted = false → c.result = none
  served : ∀ c ∈ s.2, c.granted → c.result = (s.1.cache c.kind).lookup c.grant.1
  built : ∀ c kind topic, firstGrant s.2 kind topic = some c →
    ∃ p, c.result = some p ∧ p.topic = topic ∧ p.customerId = c.grant.2

theorem firstGrant_concat (calls : List Call) (c : Call) (kind : SinkKind) (topic : Bytes) :
    firstGrant (calls ++ [c]) kind topic =
      (firstGrant calls kind topic).or
        (if c.granted = true ∧ c.kind = kind ∧ c.grant.1 = topic then some c else none) := by
  simp [firstGrant, List.find?_append, List.find?_singleton, and_assoc]

/-- A call that is not the first grant of its kind and topic changes nothing but
the log. -/
theorem Consistent.log_call {factory : SinkFactory} {calls : List Call}
    (hcons : Consistent (factory, calls)) {c : Call}
    (hfirst : ∀ kind topic,
      firstGrant (calls ++ [c]) kind topic = firstGrant calls kind topic)
    (hdenied : c.granted = false → c.result = none)
    (hserved : c.granted = true → c.result = (factory.cache c.kind).lookup c.grant.1) :
    Consistent (factory, calls ++ [c]) := by
  refine ⟨?_, ?_, ?_, ?_⟩
  · intro kind topic
    rw [hfirst]
    exact hcons.cached kind topic
  · exact List.forall_mem_append.mpr ⟨hcons.denied, by simpa using hdenied⟩
  · exact List.forall_mem_append.mpr ⟨hcons.served, by simpa using hserved⟩
  · intro c' kind topic hc'
    rw [hfirst] at hc'
    exact hcons.built c' kind topic hc'

theorem Consistent.denied_call {factory : SinkFactory} {calls : List Call}
    (hcons : Consistent (factory, calls)) {c : Call} (hgrant : c.granted = false)
    (hresult : c.result = none) : Consistent (factory, calls ++ [c]) := by
  refine hcons.log_call ?_ (fun _ => hresult) (fun hgranted => ?_)
  · intro kind topic
    simp [firstGrant_concat, hgrant]
  · rw [hgrant] at hgranted
    cases hgranted

theorem Consistent.cached_call {factory : SinkFactory} {calls : List Call}
    (hcons : Consistent (factory, calls)) {c : Call} {p : KafkaSink} (hgrant : c.granted = true)
    (hhit : (factory.cache c.kind).lookup c.grant.1 = some p) (hresult : c.result = some p) :
    Consistent (factory, calls ++ [c]) := by
  refine hcons.log_call ?_ (fun hdenied => ?_) (fun _ => hresult.trans hhit.symm)
  · intro kind topic
    rw [firstGrant_concat]
    by_cases hnew : c.granted = true ∧ c.kind = kind ∧ c.grant.1 = topic
    · -- the cache has an entry, so the log already has a first grant
      obtain ⟨-, rfl, rfl⟩ := hnew
      rw [hcons.cached, Option.bind_eq_some_iff] at hhit
      obtain ⟨first, hfirst, -⟩ := hhit
      simp [hfirst]
    · rw [if_neg hnew, Option.or_none]
  · rw [hgrant] at hdenied
    cases hdenied

/-- Where the cache has no entry, the log has no grant. -/
theorem Consistent.firstGrant_of_miss {factory : SinkFactory} {calls : List Call}
    (hcons : Consistent (factory, calls)) {kind : SinkKind} {topic : Bytes}
    (hmiss : (factory.cache kind).lookup topic = none) : firstGrant calls kind topic = none := by
  cases hfirst : firstGrant calls kind topic with
  | none => rfl
  | some first =>
      obtain ⟨q, hq, -⟩ := hcons.built first _ _ hfirst
      rw [hcons.cached, hfirst, Option.bind_some, hq] at hmiss
      cases hmiss

theorem firstGrant_concat_of_none {calls : List Call} {c : Call} (hgrant : c.granted = true)
    (hunknown : firstGrant calls c.kind c.grant.1 = none) (kind : SinkKind) (topic : Bytes) :
    firstGrant (calls ++ [c]) kind topic =
      if c.kind = kind ∧ c.grant.1 = topic then some c else firstGrant calls kind topic := by
  rw [firstGrant_concat]
  by_cases hnew : c.kind = kind ∧ c.grant.1 = topic
  · obtain ⟨rfl, rfl⟩ := hnew
    simp [hunknown, hgrant]
  · simp [hnew]

/-- A call that finds no cached sink constructs one, and is the first grant of
its kind for its kafka topic. -/
theorem Consistent.fresh_call {factory : SinkFactory} {calls : List Call}
    (hcons : Consistent (factory, calls)) {c : Call} {p : KafkaSink} (hgrant : c.granted = true)
    (hmiss : (factory.cache c.kind).lookup c.grant.1 = none) (hresult : c.result = some p)
    (htopic : p.topic = c.grant.1) (htenant : p.customerId = c.grant.2) :
    Consistent (factory.construct c.kind p, calls ++ [c]) := by
  have hunknown := hcons.firstGrant_of_miss hmiss
  have hfirst := firstGrant_concat_of_none hgrant hunknown
  refine ⟨?_, ?_, ?_, ?_⟩
  · intro kind topic
    rw [SinkFactory.lookup_cache_construct, hfirst, htopic]
    by_cases hnew : c.kind = kind ∧ c.grant.1 = topic
    · simp [hnew, hresult]
    · rw [if_neg hnew, if_neg hnew]
      exact hcons.cached kind topic
  · intro c' hmem hdenied
    rcases List.mem_append.mp hmem with hold | hnew
    · exact hcons.denied c' hold hdenied
    · rw [List.mem_singleton.mp hnew, hgrant] at hdenied
      cases hdenied
  · intro c' hmem hgranted
    rw [SinkFactory.lookup_cache_construct, htopic]
    rcases List.mem_append.mp hmem with hold | hnew
    · by_cases hsame : c.kind = c'.kind ∧ c.grant.1 = c'.grant.1
      · -- a granted call before this one would have filled the cache
        exfalso
        have hnone := List.find?_eq_none.mp hunknown c' hold
        simp [hgranted, hsame.1, hsame.2] at hnone
      · rw [if_neg hsame]
        exact hcons.served c' hold hgranted
    · rw [List.mem_singleton.mp hnew, hresult]
      simp
  · intro c' kind topic hc'
    rw [hfirst] at hc'
    by_cases hnew : c.kind = kind ∧ c.grant.1 = topic
    · rw [if_pos hnew] at hc'
      cases hc'
      exact ⟨p, hresult, htopic.trans hnew.2, htenant⟩
    · rw [if_neg hnew] at hc'
      exact hcons.built c' kind topic hc'

theorem consistent_init (labels : Labels) : Consistent (machine labels).init := by
  refine ⟨?_, ?_, ?_, ?_⟩
  · intro kind topic
    cases kind <;> rfl
  · intro c hmem
    cases hmem
  · intro c hmem
    cases hmem
  · intro c kind topic hfirst
    cases hfirst

theorem consistent_step (labels : Labels) (s : SinkFactory × List Call) (op : Op)
    (t : SinkFactory × List Call) (hcons : Consistent s)
    (hstep : (machine labels).step s op = some t) : Consistent t := by
  obtain ⟨factory, calls⟩ := s
  cases op with
  | record r =>
      obtain ⟨authorizer, -, rfl⟩ := Option.map_eq_some_iff.mp hstep
      refine ⟨?_, hcons.denied, ?_, hcons.built⟩
      · intro kind topic
        rw [← hcons.cached kind topic]
        cases kind <;> rfl
      · intro c hmem hgranted
        rw [hcons.served c hmem hgranted]
        cases c.kind <;> rfl
  | call kind apiKey secretApiKey =>
      cases hstep
      simp only [SinkFactory.getSink]
      generalize authorizeWrite factory.authorizer apiKey secretApiKey kind.logicalTopic = grant
      by_cases htenant : grant.2 = 0
      · rw [if_pos htenant]
        exact hcons.denied_call (by simp [Call.granted, htenant]) rfl
      · rw [if_neg htenant]
        cases hlookup : (factory.cache kind).lookup grant.1 with
        | some item =>
            exact hcons.cached_call (by simp [Call.granted, htenant]) hlookup rfl
        | none =>
            exact hcons.fresh_call (c := ⟨kind, grant, _⟩) (by simp [Call.granted, htenant])
              hlookup rfl rfl rfl

/-- A granted call got the sink of the first grant of its kind and topic. -/
theorem Consistent.exists_first {s : SinkFactory × List Call} (hcons : Consistent s) {c : Call}
    (hmem : c ∈ s.2) (hgranted : c.granted = true) :
    ∃ first, firstGrant s.2 c.kind c.grant.1 = some first ∧ c.result = first.result := by
  obtain ⟨first, hfirst⟩ : ∃ first, firstGrant s.2 c.kind c.grant.1 = some first := by
    refine Option.isSome_iff_exists.mp ?_
    rw [firstGrant, List.find?_isSome]
    exact ⟨c, hmem, by simp [hgranted]⟩
  refine ⟨first, hfirst, ?_⟩
  rw [hcons.served c hmem hgranted, hcons.cached, hfirst, Option.bind_some]

/-! ## What the factory guarantees -/

/-- After any interleaving of auth records and calls: a call got a sink exactly
when the authorizer's answer at that moment had a tenant id other than 0, the
sink was constructed for the kafka topic of that answer and for the tenant of
the first granted call of the kind with that kafka topic, and all granted calls
of the kind with that kafka topic got the same object. -/
theorem calls_bound (labels : Labels) {s : SinkFactory × List Call}
    (hreach : (machine labels).Reachable s) : Bound s.2 := by
  have hcons : Consistent s :=
    Machine.reachable_invariant (consistent_init labels) (consistent_step labels) hreach
  refine ⟨?_, ?_, ?_⟩
  · intro c hmem
    by_cases htenant : c.grant.2 = 0
    · simp [hcons.denied c hmem (by simp [Call.granted, htenant]), htenant]
    · obtain ⟨first, hfirst, hresult⟩ := hcons.exists_first hmem (by simp [Call.granted, htenant])
      obtain ⟨p, hp, -⟩ := hcons.built first _ _ hfirst
      simp [hresult, hp, htenant]
  · intro c hmem p hp
    have hgranted : c.granted = true := by
      cases hgranted : c.granted with
      | true => rfl
      | false =>
          rw [hcons.denied c hmem hgranted] at hp
          cases hp
    obtain ⟨first, hfirst, hresult⟩ := hcons.exists_first hmem hgranted
    obtain ⟨q, hq, htopic, htenant⟩ := hcons.built first _ _ hfirst
    rw [← hresult, hp] at hq
    cases hq
    exact ⟨htopic, first, hfirst, htenant⟩
  · intro c hmem c' hmem' hkind htopic hgranted hgranted'
    obtain ⟨first, hfirst, hresult⟩ := hcons.exists_first hmem hgranted
    obtain ⟨first', hfirst', hresult'⟩ := hcons.exists_first hmem' hgranted'
    rw [hkind, htopic, hfirst'] at hfirst
    cases hfirst
    rw [hresult, hresult']

/-! ## Two tenants on one kafka topic, and a tenant with the number 0 -/

/-- A record that lets the api key write metrics to a kafka topic. -/
def writer (id tenantId : Int32) (apiKey kafkaTopic : Bytes) : AuthRecord where
  data :=
    { id, tenantId, apiKey, secretAccessKeyHash := md5 (bytes "secret"), readAccess := true,
      writeAccess := true, topicName := bytes "metrics", kafkaTopic }
  isDisabled := false
  isDeleted := false

def sharedTopic : List Op :=
  [.record (writer 1 7 (bytes "first") (bytes "shared")).avro,
    .record (writer 2 9 (bytes "second") (bytes "shared")).avro,
    .record (writer 3 0 (bytes "third") (bytes "own")).avro,
    .call .metrics (bytes "first") (bytes "secret"),
    .call .metrics (bytes "second") (bytes "secret"),
    .call .metrics (bytes "third") (bytes "secret")]

theorem exec_sharedTopic :
    ((machine ∅).exec (machine ∅).init sharedTopic).map
        (fun s => s.2.map fun c => (c.grant, c.result.map KafkaSink.customerId)) =
      some [((bytes "shared", 7), some 7), ((bytes "shared", 9), some 7),
        ((bytes "own", 0), none)] := by
  decide +kernel

/-- The run of `sharedTopic`, with its calls. -/
theorem exists_reachable_sharedTopic :
    ∃ s, (machine ∅).Reachable s ∧
      s.2.map (fun c => (c.grant, c.result.map KafkaSink.customerId)) =
        [((bytes "shared", 7), some 7), ((bytes "shared", 9), some 7),
          ((bytes "own", 0), none)] := by
  obtain ⟨s, hexec, hcalls⟩ := Option.map_eq_some_iff.mp exec_sharedTopic
  exact ⟨s, ⟨sharedTopic, hexec⟩, hcalls⟩

/-- Not every grant gets a sink, and not every sink has the tenant of the grant it
was returned for. -/
theorem sharedTopic_not_bound_to_tenant :
    ¬ (∀ s, (machine ∅).Reachable s → ∀ c ∈ s.2, c.result.isSome ↔ c.grant ≠ denial) ∧
      ¬ (∀ s, (machine ∅).Reachable s → ∀ c ∈ s.2, ∀ p, c.result = some p →
        p.topic = c.grant.1 ∧ p.customerId = c.grant.2) := by
  obtain ⟨s, hreach, hcalls⟩ := exists_reachable_sharedTopic
  constructor
  · intro hall
    have hzero : ((bytes "own", 0), none) ∈
        s.2.map fun c => (c.grant, c.result.map KafkaSink.customerId) := by
      rw [hcalls]
      decide
    obtain ⟨c, hmem, hc⟩ := List.mem_map.mp hzero
    obtain ⟨hgrant, hresult⟩ := Prod.mk.inj hc
    have hreturned := (hall s hreach c hmem).mpr (by rw [hgrant]; decide)
    simp [Option.map_eq_none_iff.mp hresult] at hreturned
  · intro hall
    have hsecond : ((bytes "shared", 9), some 7) ∈
        s.2.map fun c => (c.grant, c.result.map KafkaSink.customerId) := by
      rw [hcalls]
      decide
    obtain ⟨c, hmem, hc⟩ := List.mem_map.mp hsecond
    obtain ⟨hgrant, hresult⟩ := Prod.mk.inj hc
    obtain ⟨p, hp, htenant⟩ := Option.map_eq_some_iff.mp hresult
    have hbound := (hall s hreach c hmem p hp).2
    rw [htenant, hgrant] at hbound
    exact absurd hbound (by decide)

/-- The guarantee on that run. -/
theorem sharedTopic_bound :
    ∃ s, (machine ∅).Reachable s ∧ s.2.length = 3 ∧ Bound s.2 := by
  obtain ⟨s, hreach, hcalls⟩ := exists_reachable_sharedTopic
  exact ⟨s, hreach, by simpa using congrArg List.length hcalls, calls_bound ∅ hreach⟩

end BbMonitor.Ingestion
