import BbMonitor.Authorizer.Records

/-!
# Which queries are granted rightly

A grant is right when some id is *entitled* to it: its latest record is live,
names the api key and the topic of the query, accepts the secret and has the
access asked for.

The queries look at the index first and then test the entry behind it, "since we
can have an old auth in index table".  The tests cover the secret, the topic and
the access flag, but not the api key.  So a query is answered wrongly exactly
when the id that last announced its credentials has since been given another api
key, with a record that passes the tests, and nobody is entitled to the pair
that this record carries (`sound_iff`).
-/

namespace BbMonitor.Authorizer

/-- Some id has a live latest record with this api key and topic, a secret hash
that is empty or the digest of the secret, and the access, and `pair` is what
that record gives. -/
def Entitled (records : List AuthRecord) (mode : Access) (apiKey secretAccessKey topic : Bytes)
    (pair : Bytes × Int32) : Prop :=
  ∃ i r, latest records i = some r ∧ r.live = true ∧ r.data.apiKey = apiKey ∧
    r.data.topicName = topic ∧
    (r.data.secretAccessKeyHash = [] ∨ r.data.secretAccessKeyHash = md5 secretAccessKey) ∧
    r.data.access mode = true ∧ pair = (r.data.kafkaTopic, r.data.tenantId)

/-- Whatever the query returns, other than the denial, somebody is entitled to. -/
def Sound (records : List AuthRecord) (mode : Access) (apiKey secretAccessKey topic : Bytes) :
    Prop :=
  authorize mode (load records) apiKey secretAccessKey topic ≠ denial →
    Entitled records mode apiKey secretAccessKey topic
      (authorize mode (load records) apiKey secretAccessKey topic)

/-- The id that last announced the credentials of the query now has a live record
`r` with another api key, and `r` still passes the tests for this topic, secret
and access. -/
def Rekeyed (records : List AuthRecord) (mode : Access) (apiKey secretAccessKey topic : Bytes)
    (r : AuthRecord) : Prop :=
  ∃ a, announcement records (queryKey apiKey secretAccessKey topic) = some a ∧
    latest records a.id = some r ∧ r.live = true ∧
    r.data.Admits mode (md5 secretAccessKey) topic ∧ r.data.apiKey ≠ apiKey

theorem entitled_of_admits {records : List AuthRecord} {mode : Access}
    {apiKey secretAccessKey topic : Bytes} {i : Int32} {r : AuthRecord}
    (hlatest : latest records i = some r) (hlive : r.live = true)
    (hadmits : r.data.Admits mode (md5 secretAccessKey) topic) (hkey : r.data.apiKey = apiKey) :
    Entitled records mode apiKey secretAccessKey topic r.data.grant :=
  ⟨i, r, hlatest, hlive, hkey, hadmits.2.1, hadmits.1, hadmits.2.2, rfl⟩

/-- A grant comes from a live record that passes the tests. -/
theorem exists_of_answer_ne_denial {records : List AuthRecord} {mode : Access}
    {secretAccessKey topic : Bytes} {i : Int32}
    (hanswer : answer records mode secretAccessKey topic i ≠ denial) :
    ∃ r, latest records i = some r ∧ r.live = true ∧
      r.data.Admits mode (md5 secretAccessKey) topic ∧
      answer records mode secretAccessKey topic i = r.data.grant := by
  unfold answer at hanswer ⊢
  cases hcurrent : current records i with
  | none => simp [hcurrent] at hanswer
  | some d =>
      obtain ⟨r, hlatest, hlive, rfl⟩ := current_eq_some.mp hcurrent
      simp only [hcurrent] at hanswer
      by_cases hadmits : r.data.Admits mode (md5 secretAccessKey) topic
      · exact ⟨r, hlatest, hlive, hadmits, by simp [hadmits]⟩
      · simp [hadmits] at hanswer

/-- The answer of an id with a live record that passes the tests. -/
theorem answer_of_admits {records : List AuthRecord} {mode : Access}
    {secretAccessKey topic : Bytes} {i : Int32} {r : AuthRecord}
    (hlatest : latest records i = some r) (hlive : r.live = true)
    (hadmits : r.data.Admits mode (md5 secretAccessKey) topic) :
    answer records mode secretAccessKey topic i = r.data.grant := by
  have hcurrent : current records i = some r.data := current_eq_some.mpr ⟨r, hlatest, hlive, rfl⟩
  simp [answer, hcurrent, hadmits]

/-- A query is answered rightly, after any history of records, exactly when the
last announcer of its credentials has not been given another api key under which
it still passes the tests; or the pair it would then hand out is the denial, or
one that somebody is entitled to. -/
theorem sound_iff (records : List AuthRecord) (mode : Access)
    (apiKey secretAccessKey topic : Bytes) :
    Sound records mode apiKey secretAccessKey topic ↔
      ∀ r, Rekeyed records mode apiKey secretAccessKey topic r →
        r.data.grant = denial ∨
          Entitled records mode apiKey secretAccessKey topic r.data.grant := by
  unfold Sound
  constructor
  · rintro hsound r ⟨a, hann, hlatest, hlive, hadmits, -⟩
    have hresult : authorize mode (load records) apiKey secretAccessKey topic = r.data.grant := by
      rw [authorize_of_announcement hann]
      exact answer_of_admits hlatest hlive hadmits
    rw [hresult] at hsound
    exact or_iff_not_imp_left.mpr hsound
  · intro hrekeyed hgranted
    cases hann : announcement records (queryKey apiKey secretAccessKey topic) with
    | none => exact absurd (authorize_of_not_announced hann mode) hgranted
    | some a =>
        rw [authorize_of_announcement hann] at hgranted ⊢
        obtain ⟨r, hlatest, hlive, hadmits, hanswer⟩ := exists_of_answer_ne_denial hgranted
        rw [hanswer] at hgranted ⊢
        by_cases hkey : r.data.apiKey = apiKey
        · exact entitled_of_admits hlatest hlive hadmits hkey
        · exact (hrekeyed r ⟨a, hann, hlatest, hlive, hadmits, hkey⟩).resolve_left hgranted

/-! ## The api key of an id is changed -/

/-- The two records of an id whose api key is changed from `old` to `new`. -/
def keyChange : List AuthRecord :=
  let ad : AuthData :=
    { id := 1, tenantId := 7, apiKey := bytes "old",
      secretAccessKeyHash := md5 (bytes "secret"), readAccess := true, writeAccess := true,
      topicName := bytes "metrics", kafkaTopic := bytes "BB_MONITOR_C7_metrics" }
  [⟨ad, false, false⟩, ⟨{ ad with apiKey := bytes "new" }, false, false⟩]

theorem apiKey_of_latest_keyChange {i : Int32} {r : AuthRecord}
    (hlatest : latest keyChange i = some r) : r.data.apiKey = bytes "new" := by
  by_cases hid : (1 : Int32) = i
  · subst hid
    have hlast : latest keyChange 1 = keyChange[1]? := by decide +kernel
    rw [hlast] at hlatest
    cases hlatest
    rfl
  · obtain ⟨hmem, rfl⟩ := mem_of_latest hlatest
    simp only [keyChange, List.mem_cons, List.not_mem_nil, or_false] at hmem
    rcases hmem with rfl | rfl <;> exact absurd rfl hid

/-- After the change, both queries still grant the old api key, although no id
has it. -/
theorem keyChange_not_sound :
    ¬ Sound keyChange .write (bytes "old") (bytes "secret") (bytes "metrics") ∧
      ¬ Sound keyChange .read (bytes "old") (bytes "secret") (bytes "metrics") := by
  have hnot : ∀ mode pair,
      ¬ Entitled keyChange mode (bytes "old") (bytes "secret") (bytes "metrics") pair := by
    rintro mode pair ⟨i, r, hlatest, -, hkey, -⟩
    rw [apiKey_of_latest_keyChange hlatest] at hkey
    exact absurd hkey (by decide)
  constructor
  · exact fun hsound => hnot _ _ (hsound (by decide +kernel))
  · exact fun hsound => hnot _ _ (hsound (by decide +kernel))

end BbMonitor.Authorizer
