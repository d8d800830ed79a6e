import Mathlib.Data.List.Infix
import BbMonitor.Authorizer.Records

/-!
# A live id is never locked out

Suppose that at no time two live ids share a credential string, and that the
digest separates the credential strings that occur.  Then the index entry of
every live credential string points at its holder (`announcement_of_live`),
whatever was announced, changed and deleted before, and the holder gets exactly
what its record says (`authorize_of_live`).

Stale entries do no harm here: the entry of a string that is live again was
overwritten when its present holder announced it.
-/

namespace BbMonitor.Authorizer

variable {records : List AuthRecord}

/-- The digest separates the credential strings of the records. -/
def SeparatedByMd5 (records : List AuthRecord) : Prop :=
  ∀ r ∈ records, ∀ r' ∈ records, r.indexKey = r'.indexKey →
    r.data.credential = r'.data.credential

theorem SeparatedByMd5.of_concat {r : AuthRecord} (hmd5 : SeparatedByMd5 (records ++ [r])) :
    SeparatedByMd5 records := by
  intro r₁ h₁ r₂ h₂
  exact hmd5 r₁ (List.mem_append_left _ h₁) r₂ (List.mem_append_left _ h₂)

/-- No live id is shadowed by a record of another id: one more record keeps it
so, since the new record would have to share its credential string. -/
theorem announcement_of_live (hmd5 : SeparatedByMd5 records)
    (hunique : ∀ earlier, earlier <+: records → UniqueCredentials earlier) {i : Int32}
    {r : AuthRecord} (hlatest : latest records i = some r) (hlive : r.live = true) :
    ∃ a, announcement records r.indexKey = some a ∧ a.id = i := by
  induction records using List.reverseRecOn generalizing i r with
  | nil => simp [latest] at hlatest
  | append_singleton records x ih =>
      rw [announcement_concat]
      by_cases hid : x.id = i
      · have hx : x = r := by simpa [latest_concat, hid] using hlatest
        subst hx
        exact ⟨x, by simp [hlive], hid⟩
      · have hbefore : latest records i = some r := by
          simpa [latest_concat, hid] using hlatest
        have hfresh : ¬ (x.live = true ∧ x.indexKey = r.indexKey) := by
          rintro ⟨hxlive, hkey⟩
          have hstring : x.data.credential = r.data.credential :=
            hmd5 x (by simp) r (mem_of_latest hlatest).1 hkey
          have hxcurrent : current (records ++ [x]) x.id = some x.data := by
            simp [current_concat, hxlive]
          have hcurrent : current (records ++ [x]) i = some r.data :=
            current_eq_some.mpr ⟨r, hlatest, hlive, rfl⟩
          exact hid (hunique _ List.prefix_rfl _ _ _ _ hxcurrent hcurrent hstring)
        rw [if_neg hfresh]
        refine ih hmd5.of_concat (fun earlier hearlier => ?_) hbefore hlive
        exact hunique earlier (hearlier.trans (List.prefix_append _ _))

/-- Whatever happened before, the owner of a live record with the right secret
gets the kafka topic and tenant of the record for the access the record allows,
and the denial for the access it does not. -/
theorem authorize_of_live (hmd5 : SeparatedByMd5 records)
    (hunique : ∀ earlier, earlier <+: records → UniqueCredentials earlier) {i : Int32}
    {r : AuthRecord} (hlatest : latest records i = some r) (hlive : r.live = true)
    {secretAccessKey : Bytes} (hsecret : md5 secretAccessKey = r.data.secretAccessKeyHash)
    (mode : Access) :
    authorize mode (load records) r.data.apiKey secretAccessKey r.data.topicName =
      if r.data.access mode then (r.data.kafkaTopic, r.data.tenantId) else denial := by
  have hkey : queryKey r.data.apiKey secretAccessKey r.data.topicName = r.indexKey := by
    simp only [queryKey, AuthRecord.indexKey, AuthData.credential, hsecret]
  obtain ⟨a, hann, haid⟩ := announcement_of_live hmd5 hunique hlatest hlive
  rw [← hkey] at hann
  have hcurrent : current records a.id = some r.data := by
    rw [haid]
    exact current_eq_some.mpr ⟨r, hlatest, hlive, rfl⟩
  rw [authorize_of_announcement hann]
  cases haccess : r.data.access mode <;>
    simp [answer, hcurrent, AuthData.Admits, hsecret, haccess, AuthData.grant]

/-! ## An id is deleted and created again with another key -/

/-- Id 1 is created, deleted and created again under a new key, while id 2 takes
its old one. -/
def takeover : List AuthRecord :=
  let ad : AuthData :=
    { id := 1, tenantId := 7, apiKey := bytes "first",
      secretAccessKeyHash := md5 (bytes "secret"), readAccess := true, writeAccess := true,
      topicName := bytes "logs", kafkaTopic := bytes "BB_MONITOR_C7_logs" }
  [⟨ad, false, false⟩, ⟨ad, false, true⟩,
    ⟨{ ad with id := 2, tenantId := 9, readAccess := false }, false, false⟩,
    ⟨{ ad with apiKey := bytes "second" }, false, false⟩]

theorem id_of_current_takeover {i : Int32} {d : AuthData} {earlier : List AuthRecord}
    (hearlier : earlier <+: takeover) (hcurrent : current earlier i = some d) :
    i = 1 ∨ i = 2 := by
  obtain ⟨r, hlatest, -, -⟩ := current_eq_some.mp hcurrent
  obtain ⟨hmem, rfl⟩ := mem_of_latest hlatest
  have hids : ∀ r ∈ takeover, r.id = 1 ∨ r.id = 2 := by decide
  exact hids r (hearlier.subset hmem)

theorem uniqueCredentials_takeover {earlier : List AuthRecord}
    (hearlier : earlier <+: takeover) : UniqueCredentials earlier := by
  have hdiffer : ∀ earlier ∈ takeover.inits, ∀ d ∈ current earlier 1, ∀ e ∈ current earlier 2,
      d.credential ≠ e.credential := by
    decide +kernel
  have hne := hdiffer earlier ((List.mem_inits _ _).mpr hearlier)
  intro i j d e hi hj hstring
  rcases id_of_current_takeover hearlier hi with rfl | rfl <;>
    rcases id_of_current_takeover hearlier hj with rfl | rfl
  · rfl
  · exact absurd hstring (hne d hi e hj)
  · exact absurd hstring.symm (hne e hj d hi)
  · rfl

theorem takeover_authorized :
    authorize .write (load takeover) (bytes "first") (bytes "secret") (bytes "logs") =
      (bytes "BB_MONITOR_C7_logs", 9) := by
  have hmd5 : SeparatedByMd5 takeover := by
    unfold SeparatedByMd5
    decide +kernel
  have hlatest : latest takeover 2 = takeover[2]? := by decide +kernel
  exact authorize_of_live hmd5 (fun _ => uniqueCredentials_takeover) hlatest rfl rfl .write

end BbMonitor.Authorizer
