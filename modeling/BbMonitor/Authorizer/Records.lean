import Mathlib.Data.List.Induction
import BbMonitor.Authorizer.Model
import BbMonitor.Lib.History

/-!
# The authorizer as a function of the record history

Both maps are determined by the records consumed so far, and each by a last
record: `authdata_[i]` holds the data of the latest record of id `i` if that
record is live (`lookup_authdata_load`), and `apikey2id_[h]` the id of the last
live record whose credential string has the digest `h`
(`lookup_apikey2id_load`).

The second statement is about the code as it is.  Deleting an id erases a key
that contains `'#'`, which no digest does, so nothing is ever removed from the
index; and changing the credentials of an id leaves the old key in place.
-/

namespace BbMonitor.Authorizer

open History

/-! ## Reading the history -/

/-- The most recent record of id `i`. -/
def latest (records : List AuthRecord) (i : Int32) : Option AuthRecord :=
  lastWhere (fun r => r.id = i) records

/-- The live record that last set the index key `h`. -/
def announcement (records : List AuthRecord) (h : Bytes) : Option AuthRecord :=
  lastWhere (fun r => r.live && decide (r.indexKey = h)) records

/-- The data of id `i`, unless its latest record disables or deletes it. -/
def current (records : List AuthRecord) (i : Int32) : Option AuthData :=
  (latest records i).bind fun r => if r.live then some r.data else none

/-- After the history no two live ids have the same credential string. -/
def UniqueCredentials (records : List AuthRecord) : Prop :=
  ∀ i j d e, current records i = some d → current records j = some e →
    d.credential = e.credential → i = j

theorem latest_concat (records : List AuthRecord) (r : AuthRecord) (i : Int32) :
    latest (records ++ [r]) i = if r.id = i then some r else latest records i := by
  simp [latest, lastWhere_concat]

theorem announcement_concat (records : List AuthRecord) (r : AuthRecord) (h : Bytes) :
    announcement (records ++ [r]) h =
      if r.live = true ∧ r.indexKey = h then some r else announcement records h := by
  simp [announcement, lastWhere_concat]

theorem current_concat (records : List AuthRecord) (r : AuthRecord) (i : Int32) :
    current (records ++ [r]) i =
      if r.id = i then (if r.live then some r.data else none) else current records i := by
  by_cases hid : r.id = i <;> simp [current, latest_concat, hid]

theorem mem_of_latest {records : List AuthRecord} {i : Int32} {r : AuthRecord}
    (hlatest : latest records i = some r) : r ∈ records ∧ r.id = i := by
  simpa using mem_of_lastWhere hlatest

theorem mem_of_announcement {records : List AuthRecord} {h : Bytes} {r : AuthRecord}
    (hann : announcement records h = some r) : r ∈ records ∧ r.live = true ∧ r.indexKey = h := by
  simpa using mem_of_lastWhere hann

theorem current_eq_some {records : List AuthRecord} {i : Int32} {d : AuthData} :
    current records i = some d ↔
      ∃ r, latest records i = some r ∧ r.live = true ∧ r.data = d := by
  cases hlatest : latest records i with
  | none => simp [current, hlatest]
  | some r => simp [current, hlatest]

/-! ## The two maps -/

theorem AuthRecord.hashMark_notMem_indexKey (r : AuthRecord) : hashMark ∉ r.indexKey :=
  hashMark_notMem_md5 _

theorem State.lookup_authdata_remove (st : State) (i j : Int32) :
    (st.remove i).authdata.lookup j = if i = j then none else st.authdata.lookup j := by
  by_cases hij : i = j
  · subst hij
    cases hlookup : st.authdata.lookup i <;> simp [State.remove, hlookup]
  · cases hlookup : st.authdata.lookup i with
    | none => simp [State.remove, hlookup, hij]
    | some item =>
        simp [State.remove, hlookup, hij, AList.lookup_erase_ne (Ne.symm hij)]

/-- Erasing with the key `topic_name#api_key` cannot change the entry of a digest. -/
theorem State.lookup_apikey2id_remove (st : State) (i : Int32) {h : Bytes}
    (hmark : hashMark ∉ h) : (st.remove i).apikey2id.lookup h = st.apikey2id.lookup h := by
  cases hlookup : st.authdata.lookup i with
  | none => simp [State.remove, hlookup]
  | some item =>
      have hne : h ≠ item.topicName ++ bytes "#" ++ item.apiKey := by
        rintro rfl
        apply hmark
        have : hashMark ∈ bytes "#" := by decide
        simp [this]
      simp only [State.remove, hlookup]
      exact AList.lookup_erase_ne hne

theorem State.lookup_apikey2id_upsert (st : State) (key : Bytes) (ad : AuthData) (h : Bytes) :
    (st.upsert key ad).apikey2id.lookup h =
      if key = h then some ad.id else st.apikey2id.lookup h := by
  by_cases hkey : key = h
  · subst hkey
    simp [State.upsert]
  · simp [State.upsert, hkey, AList.lookup_insert_ne (Ne.symm hkey)]

theorem State.lookup_authdata_upsert (st : State) (key : Bytes) (ad : AuthData) (j : Int32) :
    (st.upsert key ad).authdata.lookup j =
      if ad.id = j then some ad else st.authdata.lookup j := by
  by_cases hid : ad.id = j
  · subst hid
    simp [State.upsert]
  · simp [State.upsert, hid, AList.lookup_insert_ne (Ne.symm hid)]

/-- `authdata_` holds the current data of every id. -/
theorem lookup_authdata_load (records : List AuthRecord) (i : Int32) :
    (load records).authdata.lookup i = current records i := by
  induction records using List.reverseRecOn with
  | nil => rfl
  | append_singleton records r ih =>
      rw [load_concat, State.visit_eq, current_concat]
      cases hlive : r.live with
      | true => simp [State.lookup_authdata_upsert, ih, AuthRecord.id]
      | false => simp [State.lookup_authdata_remove, ih]

/-- `apikey2id_` holds, for every digest, the id of the last live record with
that digest. -/
theorem lookup_apikey2id_load (records : List AuthRecord) {h : Bytes} (hmark : hashMark ∉ h) :
    (load records).apikey2id.lookup h = (announcement records h).map AuthRecord.id := by
  induction records using List.reverseRecOn with
  | nil => rfl
  | append_singleton records r ih =>
      rw [load_concat, State.visit_eq, announcement_concat]
      cases hlive : r.live with
      | false => simp [State.lookup_apikey2id_remove _ _ hmark, ih]
      | true =>
          by_cases hkey : r.indexKey = h
          · simp [State.lookup_apikey2id_upsert, hkey, AuthRecord.id]
          · simp [State.lookup_apikey2id_upsert, hkey, ih]

/-- Every key of the index is a digest. -/
theorem hashMark_notMem_of_lookup (records : List AuthRecord) {h : Bytes} {i : Int32}
    (hlookup : (load records).apikey2id.lookup h = some i) : hashMark ∉ h := by
  induction records using List.reverseRecOn generalizing i with
  | nil => simp [State.empty] at hlookup
  | append_singleton records r ih =>
      rw [load_concat, State.visit_eq] at hlookup
      cases hlive : r.live with
      | true =>
          rw [hlive, if_pos rfl, State.lookup_apikey2id_upsert] at hlookup
          split at hlookup
          · rename_i hkey
            rw [← hkey]
            exact r.hashMark_notMem_indexKey
          · exact ih hlookup
      | false =>
          simp only [hlive, Bool.false_eq_true, if_false] at hlookup
          unfold State.remove at hlookup
          split at hlookup
          · exact ih hlookup
          · rename_i item _
            by_cases hne : h = item.topicName ++ bytes "#" ++ item.apiKey
            · rw [← hne, AList.lookup_erase] at hlookup
              cases hlookup
            · rw [AList.lookup_erase_ne hne] at hlookup
              exact ih hlookup

/-! ## The queries -/

/-- What an auth record gives to those it admits. -/
def AuthData.grant (ad : AuthData) : Bytes × Int32 :=
  (ad.kafkaTopic, ad.tenantId)

/-- The tests of the queries on the entry behind the index.  The api key is not
among them. -/
def AuthData.Admits (ad : AuthData) (mode : Access) (secretAccessKeyHash topic : Bytes) : Prop :=
  (ad.secretAccessKeyHash = [] ∨ ad.secretAccessKeyHash = secretAccessKeyHash) ∧
    ad.topicName = topic ∧ ad.access mode = true

instance (ad : AuthData) (mode : Access) (secretAccessKeyHash topic : Bytes) :
    Decidable (ad.Admits mode secretAccessKeyHash topic) :=
  inferInstanceAs (Decidable (_ ∧ _))

theorem AuthData.decide_eq (ad : AuthData) (mode : Access) (secretAccessKeyHash topic : Bytes) :
    ad.decide mode secretAccessKeyHash topic =
      if ad.Admits mode secretAccessKeyHash topic then ad.grant else denial := by
  unfold AuthData.decide
  by_cases hsecret : ad.secretAccessKeyHash = [] ∨ ad.secretAccessKeyHash = secretAccessKeyHash
  · have hpass : ¬ (0 < ad.secretAccessKeyHash.length ∧
        ad.secretAccessKeyHash ≠ secretAccessKeyHash) := by
      rcases hsecret with h | h <;> simp [h]
    rw [if_neg hpass]
    by_cases htopic : ad.topicName = topic
    · cases haccess : ad.access mode <;>
        simp [AuthData.Admits, hsecret, htopic, haccess, AuthData.grant]
    · simp [AuthData.Admits, htopic, Ne.symm htopic]
  · push Not at hsecret
    have hfail : 0 < ad.secretAccessKeyHash.length ∧
        ad.secretAccessKeyHash ≠ secretAccessKeyHash :=
      ⟨List.length_pos_iff.mpr hsecret.1, hsecret.2⟩
    rw [if_pos hfail, if_neg fun hadmits => ?_]
    exact hadmits.1.elim hsecret.1 hsecret.2

/-- What the current data of id `i` answers to a secret on a topic. -/
def answer (records : List AuthRecord) (mode : Access) (secretAccessKey topic : Bytes)
    (i : Int32) : Bytes × Int32 :=
  match current records i with
  | none => denial
  | some d => if d.Admits mode (md5 secretAccessKey) topic then d.grant else denial

/-- The index key that a query looks up. -/
def queryKey (apiKey secretAccessKey topic : Bytes) : Bytes :=
  md5 (credentialString topic apiKey (md5 secretAccessKey))

/-- A query answers with the current data of the id that last announced its key. -/
theorem authorize_load (records : List AuthRecord) (mode : Access)
    (apiKey secretAccessKey topic : Bytes) :
    authorize mode (load records) apiKey secretAccessKey topic =
      match announcement records (queryKey apiKey secretAccessKey topic) with
      | none => denial
      | some a => answer records mode secretAccessKey topic a.id := by
  unfold authorize
  simp only []
  rw [lookup_apikey2id_load records (hashMark_notMem_md5 _)]
  unfold queryKey
  cases announcement records (md5 (credentialString topic apiKey (md5 secretAccessKey))) with
  | none => rfl
  | some a =>
      simp only [Option.map_some, lookup_authdata_load, answer]
      cases current records a.id with
      | none => rfl
      | some d => simp only [AuthData.decide_eq]

theorem authorize_of_announcement {records : List AuthRecord}
    {apiKey secretAccessKey topic : Bytes} {a : AuthRecord}
    (hann : announcement records (queryKey apiKey secretAccessKey topic) = some a)
    (mode : Access) :
    authorize mode (load records) apiKey secretAccessKey topic =
      answer records mode secretAccessKey topic a.id := by
  rw [authorize_load, hann]

theorem authorize_of_not_announced {records : List AuthRecord}
    {apiKey secretAccessKey topic : Bytes}
    (hann : announcement records (queryKey apiKey secretAccessKey topic) = none)
    (mode : Access) : authorize mode (load records) apiKey secretAccessKey topic = denial := by
  rw [authorize_load, hann]

end BbMonitor.Authorizer
