import Mathlib.Data.List.AList
import BbMonitor.SrvUtils.Md5

/-!
# The topic authorizer

`grpc_topic_authorizer` keeps two maps that its background thread fills from the
auth topic: `authdata_`, the current record of each id, and `apikey2id_`, an
index from the digest of a credential string `topic#api_key#secret_hash` to the
id that last announced it.  The two queries `authorize_read` and
`authorize_write` go through the index.

This file is the code: `visitor` is the lambda that consumes one record of the
topic, `authorize` the common body of the two queries.  A `none` result of
`visitor` stands for the dereference of an empty optional, which the source does
when one of the fields it does not test is missing.
-/

namespace BbMonitor.Authorizer

/-! ## Data -/

/-- What `record.get_optional` returns for the fields that the visitor reads. -/
structure AvroRecord where
  id : Option Int32
  tenantId : Option Int32
  isDisabled : Option Bool
  isDeleted : Option Bool
  apiKey : Option Bytes
  secretAccessKeyHash : Option Bytes
  readAccess : Option Bool
  writeAccess : Option Bool
  topicName : Option Bytes
  kafkaTopic : Option Bytes

/-- `struct auth_data`. -/
structure AuthData where
  id : Int32
  tenantId : Int32
  apiKey : Bytes
  secretAccessKeyHash : Bytes
  readAccess : Bool
  writeAccess : Bool
  topicName : Bytes
  kafkaTopic : Bytes
deriving DecidableEq

/-- `topic_name + "#" + api_key + "#" + secret_access_key_hash`. -/
def credentialString (topicName apiKey secretAccessKeyHash : Bytes) : Bytes :=
  topicName ++ bytes "#" ++ apiKey ++ bytes "#" ++ secretAccessKeyHash

/-- The credential string of an entry of `authdata_`. -/
def AuthData.credential (ad : AuthData) : Bytes :=
  credentialString ad.topicName ad.apiKey ad.secretAccessKeyHash

/-- The two maps of the authorizer. -/
structure State where
  authdata : AList fun _ : Int32 => AuthData
  apikey2id : AList fun _ : Bytes => Int32

/-- The authorizer before the first record. -/
def State.empty : State := ⟨∅, ∅⟩

/-! ## The visitor -/

/-- The branch of the visitor for a disabled or deleted record.  The key that is
erased from the index is `topic_name#api_key`, without the secret and without
the digest. -/
def State.remove (st : State) (id : Int32) : State :=
  match st.authdata.lookup id with
  | none => st
  | some item =>
      { authdata := st.authdata.erase id
        apikey2id := st.apikey2id.erase (item.topicName ++ bytes "#" ++ item.apiKey) }

/-- `authdata_[*id] = ad; apikey2id_[hash] = *id;` -/
def State.upsert (st : State) (hash : Bytes) (ad : AuthData) : State :=
  { authdata := st.authdata.insert ad.id ad
    apikey2id := st.apikey2id.insert hash ad.id }

/-- The visitor of `bg_thread` on one record of the auth topic. -/
def visitor (st : State) (record : AvroRecord) : Option State :=
  match record.id, record.tenantId, record.isDisabled, record.isDeleted, record.apiKey,
    record.secretAccessKeyHash with
  | some id, some tenantId, some isDisabled, some isDeleted, some apiKey,
      some secretAccessKeyHash => do
      let deleteMe := isDisabled || isDeleted
      let topicName ← record.topicName
      let hash := md5 (credentialString topicName apiKey secretAccessKeyHash)
      if deleteMe then
        return st.remove id
      let readAccess ← record.readAccess
      let writeAccess ← record.writeAccess
      let kafkaTopic := record.kafkaTopic.getD []
      return st.upsert hash
        { id, tenantId, apiKey, secretAccessKeyHash, readAccess, writeAccess, topicName,
          kafkaTopic }
  | _, _, _, _, _, _ => some st

/-! ## The queries -/

/-- The two kinds of access an auth record can give. -/
inductive Access where
  | read
  | write
deriving DecidableEq, Repr

/-- The flag of an entry for a kind of access. -/
def AuthData.access (ad : AuthData) : Access → Bool
  | .read => ad.readAccess
  | .write => ad.writeAccess

/-- `std::pair<std::string, int>("", 0)`. -/
def denial : Bytes × Int32 := ([], 0)

/-- The tests that both queries make on the entry behind the index. -/
def AuthData.decide (ad : AuthData) (mode : Access) (secretAccessKeyHash topic : Bytes) :
    Bytes × Int32 :=
  if 0 < ad.secretAccessKeyHash.length ∧ ad.secretAccessKeyHash ≠ secretAccessKeyHash then
    denial
  else if topic ≠ ad.topicName then
    denial
  else if ad.access mode = false then
    denial
  else
    (ad.kafkaTopic, ad.tenantId)

/-- The common body of `authorize_read` and `authorize_write`. -/
def authorize (mode : Access) (st : State) (apiKey secretAccessKey topic : Bytes) :
    Bytes × Int32 :=
  let secretAccessKeyHash := md5 secretAccessKey
  let hash := md5 (credentialString topic apiKey secretAccessKeyHash)
  match st.apikey2id.lookup hash with
  | none => denial
  | some id =>
      match st.authdata.lookup id with
      | none => denial -- logged as "should never happen"
      | some item => item.decide mode secretAccessKeyHash topic

def authorizeRead : State → Bytes → Bytes → Bytes → Bytes × Int32 := authorize .read

def authorizeWrite : State → Bytes → Bytes → Bytes → Bytes × Int32 := authorize .write

/-! ## Complete records -/

/-- A record that carries every field the visitor reads. -/
structure AuthRecord where
  data : AuthData
  isDisabled : Bool
  isDeleted : Bool
deriving DecidableEq

namespace AuthRecord

/-- The id of the record. -/
def id (r : AuthRecord) : Int32 := r.data.id

/-- Neither disabled nor deleted. -/
def live (r : AuthRecord) : Bool := !(r.isDisabled || r.isDeleted)

/-- The key that the record sets in the index. -/
def indexKey (r : AuthRecord) : Bytes := md5 r.data.credential

/-- The record as it stands in the auth topic. -/
def avro (r : AuthRecord) : AvroRecord where
  id := some r.data.id
  tenantId := some r.data.tenantId
  isDisabled := some r.isDisabled
  isDeleted := some r.isDeleted
  apiKey := some r.data.apiKey
  secretAccessKeyHash := some r.data.secretAccessKeyHash
  readAccess := some r.data.readAccess
  writeAccess := some r.data.writeAccess
  topicName := some r.data.topicName
  kafkaTopic := some r.data.kafkaTopic

end AuthRecord

/-- The visitor on a complete record; `visitor_avro` says that it never fails there. -/
def State.visit (st : State) (r : AuthRecord) : State :=
  (visitor st r.avro).getD st

theorem State.visit_eq (st : State) (r : AuthRecord) :
    st.visit r = if r.live then st.upsert r.indexKey r.data else st.remove r.id := by
  cases hdisabled : r.isDisabled <;> cases hdeleted : r.isDeleted <;>
    simp [State.visit, visitor, AuthRecord.avro, AuthRecord.live, AuthRecord.indexKey,
      AuthRecord.id, AuthData.credential, hdisabled, hdeleted]

/-- On a record that carries all its fields the visitor dereferences no empty
optional. -/
theorem visitor_avro (st : State) (r : AuthRecord) : visitor st r.avro = some (st.visit r) := by
  cases hdisabled : r.isDisabled <;> cases hdeleted : r.isDeleted <;>
    simp [State.visit, visitor, AuthRecord.avro, hdisabled, hdeleted]

/-- The authorizer after the visitor has consumed `records` from the empty state. -/
def load (records : List AuthRecord) : State :=
  records.foldl State.visit State.empty

/-- `load` is the visitor, record after record. -/
theorem foldlM_visitor (records : List AuthRecord) :
    (records.map AuthRecord.avro).foldlM visitor State.empty = some (load records) := by
  unfold load
  generalize State.empty = st
  induction records generalizing st with
  | nil => rfl
  | cons r rest ih =>
      rw [List.map_cons, List.foldlM_cons, visitor_avro]
      exact ih (st.visit r)

@[simp] theorem load_nil : load [] = State.empty := rfl

theorem load_concat (records : List AuthRecord) (r : AuthRecord) :
    load (records ++ [r]) = (load records).visit r := by
  simp [load]

end BbMonitor.Authorizer
