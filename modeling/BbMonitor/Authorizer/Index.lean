import BbMonitor.Authorizer.Records

/-!
# The integrity of the index

The index is intact when each of its entries leads to an entry of `authdata_`
that has the digest it is filed under.  Two consequences are part of the notion:
the branch of the queries that logs "should never happen" is not reached, and
the index is no larger than `authdata_`, whose keys are the live ids.

After a history of records the index is intact exactly when every credential
string that was ever announced is still held by the id that announced it last
(`integrity_iff`).  A delete and a change of credentials both break this, unless
another id has taken over the string in the meantime.
-/

namespace BbMonitor.Authorizer

/-- The index is intact, with the two facts that follow from it. -/
structure Integrity (st : State) : Prop where
  entries : ∀ h i, st.apikey2id.lookup h = some i →
    ∃ d, st.authdata.lookup i = some d ∧ h = md5 d.credential
  neverHappens : ∀ apiKey secretAccessKey topic i,
    st.apikey2id.lookup (queryKey apiKey secretAccessKey topic) = some i →
      st.authdata.lookup i ≠ none
  size : st.apikey2id.keys.length ≤ st.authdata.keys.length

/-- The keys of `authdata_` are the live ids. -/
theorem mem_authdata_load {records : List AuthRecord} {i : Int32} :
    i ∈ (load records).authdata ↔ ∃ r, latest records i = some r ∧ r.live = true := by
  rw [← AList.lookup_isSome, lookup_authdata_load, Option.isSome_iff_exists]
  constructor
  · rintro ⟨d, hcurrent⟩
    obtain ⟨r, hlatest, hlive, -⟩ := current_eq_some.mp hcurrent
    exact ⟨r, hlatest, hlive⟩
  · rintro ⟨r, hlatest, hlive⟩
    exact ⟨r.data, current_eq_some.mpr ⟨r, hlatest, hlive, rfl⟩⟩

/-- The digest that the entry of id `i` should be filed under. -/
def State.filedUnder (st : State) (i : Int32) : Bytes :=
  match st.authdata.lookup i with
  | none => []
  | some d => md5 d.credential

/-- Entries that lead back to their own key are no more than the ids they lead to. -/
theorem Integrity.of_entries {st : State}
    (hentries : ∀ h i, st.apikey2id.lookup h = some i →
      ∃ d, st.authdata.lookup i = some d ∧ h = md5 d.credential) : Integrity st := by
  refine ⟨hentries, ?_, ?_⟩
  · intro apiKey secretAccessKey topic i hlookup hmissing
    obtain ⟨d, hfound, -⟩ := hentries _ i hlookup
    rw [hfound] at hmissing
    cases hmissing
  · have hsubset : st.apikey2id.keys ⊆ st.authdata.keys.map st.filedUnder := by
      intro h hmem
      have hsome : (st.apikey2id.lookup h).isSome := AList.lookup_isSome.mpr hmem
      obtain ⟨i, hlookup⟩ := Option.isSome_iff_exists.mp hsome
      obtain ⟨d, hfound, hdigest⟩ := hentries h i hlookup
      refine List.mem_map.mpr ⟨i, AList.mem_keys.mp (AList.lookup_isSome.mp ?_), ?_⟩
      · rw [hfound]
        rfl
      · rw [hdigest]
        simp only [State.filedUnder, hfound]
    calc st.apikey2id.keys.length
        ≤ (st.authdata.keys.map st.filedUnder).length :=
          (List.subperm_of_subset st.apikey2id.keys_nodup hsubset).length_le
      _ = st.authdata.keys.length := List.length_map _

/-- The id that last announced the digest `h` still holds it. -/
def Held (records : List AuthRecord) (h : Bytes) : Prop :=
  ∃ a r, announcement records h = some a ∧ latest records a.id = some r ∧ r.live = true ∧
    r.indexKey = h

/-- After a history of records the index is intact exactly when every credential
string announced in it is still held by its last announcer. -/
theorem integrity_iff (records : List AuthRecord) :
    Integrity (load records) ↔ ∀ r ∈ records, r.live = true → Held records r.indexKey := by
  constructor
  · intro hintact r hmem hlive
    obtain ⟨a, hann⟩ : ∃ a, announcement records r.indexKey = some a :=
      History.exists_lastWhere hmem (by simp [hlive])
    have hlookup : (load records).apikey2id.lookup r.indexKey = some a.id := by
      rw [lookup_apikey2id_load records r.hashMark_notMem_indexKey, hann]
      rfl
    obtain ⟨d, hfound, hdigest⟩ := hintact.entries _ _ hlookup
    rw [lookup_authdata_load] at hfound
    obtain ⟨r', hlatest, hlive', rfl⟩ := current_eq_some.mp hfound
    exact ⟨a, r', hann, hlatest, hlive', hdigest.symm⟩
  · intro hheld
    refine Integrity.of_entries ?_
    intro h i hlookup
    rw [lookup_apikey2id_load records (hashMark_notMem_of_lookup records hlookup),
      Option.map_eq_some_iff] at hlookup
    obtain ⟨a, hann, rfl⟩ := hlookup
    obtain ⟨hmem, hlive, rfl⟩ := mem_of_announcement hann
    obtain ⟨b, r, hann', hlatest, hrlive, hdigest⟩ := hheld a hmem hlive
    rw [hann] at hann'
    cases hann'
    refine ⟨r.data, ?_, hdigest.symm⟩
    rw [lookup_authdata_load]
    exact current_eq_some.mpr ⟨r, hlatest, hrlive, rfl⟩

/-! ## A record is deleted -/

/-- An id is created and deleted. -/
def createAndDelete : List AuthRecord :=
  let ad : AuthData :=
    { id := 1, tenantId := 7, apiKey := bytes "key",
      secretAccessKeyHash := md5 (bytes "secret"), readAccess := true, writeAccess := true,
      topicName := bytes "metrics", kafkaTopic := bytes "BB_MONITOR_C7_metrics" }
  [⟨ad, false, false⟩, ⟨ad, false, true⟩]

/-- The delete leaves an index entry for an id that is gone, the query with the
credentials of the id reaches the branch that should never happen, and the index
is larger than the set of live ids. -/
theorem createAndDelete_not_integrity :
    ¬ (∀ h i, (load createAndDelete).apikey2id.lookup h = some i →
        ∃ d, (load createAndDelete).authdata.lookup i = some d ∧ h = md5 d.credential) ∧
      (load createAndDelete).apikey2id.lookup
          (queryKey (bytes "key") (bytes "secret") (bytes "metrics")) = some 1 ∧
      (load createAndDelete).authdata.lookup 1 = none ∧
      ¬ (load createAndDelete).apikey2id.keys.length ≤
        (load createAndDelete).authdata.keys.length := by
  have hentry : (load createAndDelete).apikey2id.lookup
      (queryKey (bytes "key") (bytes "secret") (bytes "metrics")) = some 1 := by
    decide +kernel
  have hgone : (load createAndDelete).authdata.lookup 1 = none := by
    decide +kernel
  refine ⟨fun hentries => ?_, hentry, hgone, by decide +kernel⟩
  obtain ⟨d, hfound, -⟩ := hentries _ _ hentry
  rw [hgone] at hfound
  cases hfound

end BbMonitor.Authorizer
