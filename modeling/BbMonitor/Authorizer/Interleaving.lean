import BbMonitor.Authorizer.Records

/-!
# Does the order of the auth stream matter?

The records of one id keep their order, but ids that live in different
partitions of the auth topic are interleaved freely.  The entries of `authdata_`
do not depend on the interleaving; the index does, because several ids may have
announced the same credentials and the last one wins.

`authorize_eq_iff` says when it shows: a query has one answer for all
interleavings exactly when all ids that ever announced its credentials would
give the same answer now.  Ids that have moved on to other credentials, or were
deleted, count as well, since nothing takes their key out of the index.
-/

namespace BbMonitor.Authorizer

open History

variable {records first second : List AuthRecord}

theorem latest_eq_of_sameStreams (hsame : SameStreams AuthRecord.id first second) (i : Int32) :
    latest first i = latest second i :=
  hsame.lastWhere_eq fun _ hr => by simpa using hr

theorem answer_eq_of_sameStreams (hsame : SameStreams AuthRecord.id first second)
    (mode : Access) (secretAccessKey topic : Bytes) (i : Int32) :
    answer first mode secretAccessKey topic i = answer second mode secretAccessKey topic i := by
  simp only [answer, current, latest_eq_of_sameStreams hsame i]

/-- Id `i` has announced the index key `h` at some point of the history. -/
def Announced (records : List AuthRecord) (h : Bytes) (i : Int32) : Prop :=
  ∃ r ∈ records, r.live = true ∧ r.indexKey = h ∧ r.id = i

theorem announced_of_announcement (hsame : SameStreams AuthRecord.id records first) {h : Bytes}
    {a : AuthRecord} (hann : announcement first h = some a) : Announced records h a.id := by
  obtain ⟨hmem, hlive, hkey⟩ := mem_of_announcement hann
  exact ⟨a, (hsame.mem_iff a).mpr hmem, hlive, hkey, rfl⟩

theorem not_announced_of_announcement_none (hsame : SameStreams AuthRecord.id records first)
    {h : Bytes} (hann : announcement first h = none) (i : Int32) : ¬ Announced records h i := by
  rintro ⟨r, hmem, hlive, hkey, -⟩
  have habsent := lastWhere_eq_none.mp hann r ((hsame.mem_iff r).mp hmem)
  simp [hlive, hkey] at habsent

/-- With the records of `i` moved to the end, `i` is the last to announce a key. -/
theorem announcement_moveToEnd {h : Bytes} {i : Int32} (hann : Announced records h i) :
    ∃ a, announcement (moveToEnd AuthRecord.id i records) h = some a ∧ a.id = i := by
  obtain ⟨r, hmem, hlive, hkey, hid⟩ := hann
  exact lastWhere_moveToEnd hmem hid (by simp [hlive, hkey])

/-- All interleavings of the streams of `records` answer a query alike exactly
when the ids that ever announced its credentials would all give the same answer
now. -/
theorem authorize_eq_iff (records : List AuthRecord) (mode : Access)
    (apiKey secretAccessKey topic : Bytes) :
    (∀ first second, SameStreams AuthRecord.id records first →
        SameStreams AuthRecord.id records second →
        authorize mode (load first) apiKey secretAccessKey topic =
          authorize mode (load second) apiKey secretAccessKey topic) ↔
      ∀ i j, Announced records (queryKey apiKey secretAccessKey topic) i →
        Announced records (queryKey apiKey secretAccessKey topic) j →
        answer records mode secretAccessKey topic i =
          answer records mode secretAccessKey topic j := by
  constructor
  · intro hagree i j hi hj
    -- let `i` speak last in one interleaving and `j` in the other
    have hsame : ∀ k, SameStreams AuthRecord.id records (moveToEnd AuthRecord.id k records) :=
      fun k => sameStreams_moveToEnd k records
    obtain ⟨a, ha, rfl⟩ := announcement_moveToEnd hi
    obtain ⟨b, hb, rfl⟩ := announcement_moveToEnd hj
    have heq := hagree _ _ (hsame a.id) (hsame b.id)
    rw [authorize_of_announcement ha, authorize_of_announcement hb] at heq
    rw [answer_eq_of_sameStreams (hsame a.id), heq, ← answer_eq_of_sameStreams (hsame b.id)]
  · intro hanswer first second hfirst hsecond
    cases ha : announcement first (queryKey apiKey secretAccessKey topic) with
    | none =>
        have hnobody := not_announced_of_announcement_none hfirst ha
        cases hb : announcement second (queryKey apiKey secretAccessKey topic) with
        | none => rw [authorize_of_not_announced ha, authorize_of_not_announced hb]
        | some b => exact absurd (announced_of_announcement hsecond hb) (hnobody b.id)
    | some a =>
        have hi := announced_of_announcement hfirst ha
        cases hb : announcement second (queryKey apiKey secretAccessKey topic) with
        | none => exact absurd hi (not_announced_of_announcement_none hsecond hb a.id)
        | some b =>
            have hj := announced_of_announcement hsecond hb
            rw [authorize_of_announcement ha, authorize_of_announcement hb,
              ← answer_eq_of_sameStreams hfirst, ← answer_eq_of_sameStreams hsecond]
            exact hanswer a.id b.id hi hj

/-! ## Credentials that move from one id to another -/

/-- The data of an id with the credentials that move. -/
def movingCredentials (i : Int32) : AuthData where
  id := i
  tenantId := 7
  apiKey := bytes "key"
  secretAccessKeyHash := md5 (bytes "secret")
  readAccess := true
  writeAccess := true
  topicName := bytes "metrics"
  kafkaTopic := bytes "BB_MONITOR_C7_metrics"

/-- Id 1 is deleted and then id 2 gets its credentials. -/
def moveInOrder : List AuthRecord :=
  [⟨movingCredentials 1, false, false⟩, ⟨movingCredentials 1, false, true⟩,
    ⟨movingCredentials 2, false, false⟩]

/-- The same records, with the partition of id 2 read first. -/
def moveOutOfOrder : List AuthRecord :=
  [⟨movingCredentials 2, false, false⟩, ⟨movingCredentials 1, false, false⟩,
    ⟨movingCredentials 1, false, true⟩]

theorem sameStreams_move : SameStreams AuthRecord.id moveInOrder moveOutOfOrder := by
  intro k
  by_cases h₁ : (1 : Int32) = k
  · subst h₁
    decide +kernel
  · by_cases h₂ : (2 : Int32) = k
    · subst h₂
      decide +kernel
    · simp [stream, moveInOrder, moveOutOfOrder, AuthRecord.id, movingCredentials, h₁, h₂]

theorem uniqueCredentials_move : UniqueCredentials moveInOrder := by
  have honly : ∀ i d, current moveInOrder i = some d → i = 2 := by
    intro i d hcurrent
    by_cases h₁ : (1 : Int32) = i
    · subst h₁
      rw [show current moveInOrder 1 = none by decide +kernel] at hcurrent
      cases hcurrent
    · obtain ⟨r, hlatest, -, -⟩ := current_eq_some.mp hcurrent
      obtain ⟨hmem, rfl⟩ := mem_of_latest hlatest
      simp only [moveInOrder, List.mem_cons, List.not_mem_nil, or_false] at hmem
      rcases hmem with rfl | rfl | rfl
      · exact absurd rfl h₁
      · exact absurd rfl h₁
      · rfl
  intro i j d e hi hj _
  rw [honly i d hi, honly j e hj]

/-- Two interleavings of the same streams, after which id 2 alone is live: the one
grants its credentials, the other runs into the deleted id 1 and denies them. -/
theorem move_order_matters :
    SameStreams AuthRecord.id moveInOrder moveOutOfOrder ∧ UniqueCredentials moveInOrder ∧
      ∀ mode, authorize mode (load moveInOrder) (bytes "key") (bytes "secret") (bytes "metrics") ≠
        authorize mode (load moveOutOfOrder) (bytes "key") (bytes "secret") (bytes "metrics") := by
  refine ⟨sameStreams_move, uniqueCredentials_move, ?_⟩
  intro mode
  cases mode with
  | read => decide +kernel
  | write => decide +kernel

end BbMonitor.Authorizer
