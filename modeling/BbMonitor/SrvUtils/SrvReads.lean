import BbMonitor.SrvUtils.ServiceResolver

/-!
# The reads of a message

Before each read of its own, `ares_srv_callback` has checked that what it reads lies in the
message, with one exception: the data of a record are there as far as the record declares
them, but the priority, the weight and the port are six bytes whatever it declares.

So all reads stay inside just when the data of each SRV record that the loop comes to begin
six bytes before the end of the message or earlier.
-/

namespace BbMonitor.ServiceResolver

/-- The access stays inside a message of this length. -/
def Access.Inside (alen : ℕ) : Access → Prop
  | .byte index => index < alen
  | .name cursor => cursor ≤ alen

instance (alen : ℕ) : DecidablePred (Access.Inside alen)
  | .byte index => inferInstanceAs (Decidable (index < alen))
  | .name cursor => inferInstanceAs (Decidable (cursor ≤ alen))

variable (expandName : ExpandName) (abuf : ℕ → UInt8) (alen : ℕ)

/-- Where the data of SRV records begin, as far as the loop over the answers gets: to the first
record that does not parse, or whose target does not. -/
def dataPlaces : ℕ → ℕ → List ℕ
  | 0, _ => []
  | n + 1, cursor =>
      match srvData? expandName abuf alen cursor with
      | none => []
      | some data =>
          match expandName abuf alen (data.place + 6) with
          | .error _ => [data.place]
          | .ok _ => data.place :: dataPlaces n (data.place + data.length)

variable {expandName abuf alen}

/-! ## The macros -/

theorem dns16Bit_inside {p : ℕ} :
    (dns16Bit abuf p).All (Access.Inside alen) ↔ p + 2 ≤ alen := by
  simp only [dns16Bit, byteAt, Traced.all_bind, Traced.all_access, Traced.all_pure, Access.Inside,
    and_true]
  omega

theorem dns32Bit_inside {p : ℕ} :
    (dns32Bit abuf p).All (Access.Inside alen) ↔ p + 4 ≤ alen := by
  simp only [dns32Bit, Traced.all_bind, dns16Bit_inside, Traced.all_pure, and_true]
  omega

theorem bitsAt_inside {p : ℕ} {shift mask : UInt8} :
    (bitsAt abuf p shift mask).All (Access.Inside alen) ↔ p < alen := by
  simp only [bitsAt, byteAt, Traced.all_bind, Traced.all_access, Traced.all_pure, Access.Inside,
    and_true]

theorem aresExpandName_inside {cursor : ℕ} :
    (aresExpandName expandName abuf alen cursor).All (Access.Inside alen) ↔ cursor ≤ alen :=
  Traced.all_access _ _

/-! ## The questions -/

theorem parseQuestions_inside {n cursor : ℕ} (hcursor : cursor ≤ alen) :
    (parseQuestions expandName abuf alen n cursor).All (Access.Inside alen) := by
  induction n generalizing cursor with
  | zero => exact Traced.all_pure _
  | succ n ih =>
      rw [parseQuestions, Traced.all_bind, parseQuestion, Traced.all_bind, aresExpandName_inside,
        Traced.bind_value, aresExpandName, Traced.access_value]
      cases hname : expandName abuf alen cursor with
      | error status => exact ⟨⟨hcursor, Traced.all_pure _⟩, Traced.all_pure _⟩
      | ok named =>
          dsimp only
          by_cases hfixed : cursor + named.2 + questionSize > alen
          · rw [if_pos hfixed]
            exact ⟨⟨hcursor, Traced.all_pure _⟩, Traced.all_pure _⟩
          · rw [if_neg hfixed]
            exact ⟨⟨hcursor, Traced.all_pure _⟩, ih (Nat.le_of_not_lt hfixed)⟩

theorem behindQuestions_le {n cursor behind : ℕ} (hcursor : cursor ≤ alen)
    (hbehind : behindQuestions expandName abuf alen n cursor = some behind) : behind ≤ alen := by
  induction n generalizing cursor with
  | zero => exact Option.some.inj hbehind ▸ hcursor
  | succ n ih =>
      rw [behindQuestions] at hbehind
      cases hname : expandName abuf alen cursor with
      | error status =>
          rw [hname] at hbehind
          exact absurd hbehind.symm (Option.some_ne_none behind)
      | ok named =>
          rw [hname] at hbehind
          dsimp only at hbehind
          by_cases hfixed : cursor + named.2 + questionSize > alen
          · rw [if_pos hfixed] at hbehind
            exact absurd hbehind.symm (Option.some_ne_none behind)
          · rw [if_neg hfixed] at hbehind
            exact ih (Nat.le_of_not_lt hfixed) hbehind

/-! ## The answers -/

theorem srvData?_le {cursor : ℕ} {data : Data}
    (hdata : srvData? expandName abuf alen cursor = some data) :
    data.place + data.length ≤ alen := by
  rw [srvData?] at hdata
  cases hname : expandName abuf alen cursor with
  | error status =>
      rw [hname] at hdata
      exact absurd hdata.symm (Option.some_ne_none data)
  | ok named =>
      rw [hname] at hdata
      dsimp only at hdata
      split at hdata
      · exact absurd hdata.symm (Option.some_ne_none data)
      · next hinside =>
          rw [not_or, not_or] at hinside
          rw [← Option.some.inj hdata]
          exact Nat.le_of_not_lt hinside.2.1

/-- The last of the reads of a record's data decides. -/
theorem fields_inside {place : ℕ} {rest : Prop} :
    place + 2 ≤ alen ∧ place + 2 + 2 ≤ alen ∧ place + 4 + 2 ≤ alen ∧ place + 6 ≤ alen ∧ rest ↔
      place + 6 ≤ alen ∧ rest := by
  constructor
  · intro hall
    exact hall.2.2.2
  · intro hall
    have hlast := hall.1
    exact ⟨by omega, by omega, by omega, hall⟩

/-- A round of the loop over the answers. -/
theorem parseAnswers_succ_inside {cursor : ℕ} (hcursor : cursor ≤ alen) (n : ℕ)
    (v : List SrvRecord) :
    (parseAnswers expandName abuf alen (n + 1) cursor v).All (Access.Inside alen) ↔
      match srvData? expandName abuf alen cursor with
      | none => True
      | some data => data.place + 6 ≤ alen ∧
          match expandName abuf alen (data.place + 6) with
          | .error _ => True
          | .ok (fqdn, len) => (parseAnswers expandName abuf alen n (data.place + data.length)
              (v ++ [Answer.record abuf ⟨data, fqdn, len⟩])).All (Access.Inside alen) := by
  rw [parseAnswers, srvData?, Traced.all_bind, aresExpandName_inside, aresExpandName,
    Traced.access_value]
  cases hname : expandName abuf alen cursor with
  | error status => exact iff_of_true ⟨hcursor, Traced.all_pure _⟩ trivial
  | ok named =>
      dsimp only
      by_cases hfixed : cursor + named.2 + recordSize > alen
      · rw [if_pos hfixed, if_pos (Or.inl hfixed)]
        exact iff_of_true ⟨hcursor, Traced.all_pure _⟩ trivial
      have hroom : cursor + named.2 + 10 ≤ alen := Nat.le_of_not_lt hfixed
      rw [if_neg hfixed]
      simp only [Traced.all_bind, dns16Bit_inside, dns32Bit_inside]
      rw [dns16Bit_value, dns16Bit_value]
      have hfixedReads : cursor + named.2 + 2 ≤ alen ∧ cursor + named.2 + 2 + 2 ≤ alen ∧
          cursor + named.2 + 4 + 4 ≤ alen ∧ cursor + named.2 + 8 + 2 ≤ alen := by
        omega
      obtain ⟨htypeRead, hclassRead, httlRead, hdlenRead⟩ := hfixedReads
      rw [and_iff_right hcursor, and_iff_right htypeRead, and_iff_right hclassRead,
        and_iff_right httlRead, and_iff_right hdlenRead]
      by_cases hdata :
          cursor + named.2 + recordSize + (word abuf (cursor + named.2 + 8)).toNat > alen
      · rw [if_pos hdata, if_pos (Or.inr (Or.inl hdata))]
        exact iff_of_true (Traced.all_pure _) trivial
      by_cases htype : word abuf (cursor + named.2) ≠ typeSrv
      · rw [if_neg hdata, if_pos htype, if_pos (Or.inr (Or.inr htype))]
        exact iff_of_true (Traced.all_pure _) trivial
      rw [if_neg hdata, if_neg htype, if_neg (not_or.mpr ⟨hfixed, not_or.mpr ⟨hdata, htype⟩⟩)]
      simp only [Traced.all_bind, dns16Bit_inside, aresExpandName_inside]
      rw [fields_inside, aresExpandName, Traced.access_value]
      cases expandName abuf alen (cursor + named.2 + recordSize + 6) with
      | error status => exact and_congr_right fun _ => iff_of_true (Traced.all_pure _) trivial
      | ok target => exact Iff.rfl

/-- All reads of the loop stay inside if and only if the fields of each record do. -/
theorem parseAnswers_inside_iff {n cursor : ℕ} (hcursor : cursor ≤ alen) (v : List SrvRecord) :
    (parseAnswers expandName abuf alen n cursor v).All (Access.Inside alen) ↔
      ∀ place ∈ dataPlaces expandName abuf alen n cursor, place + 6 ≤ alen := by
  induction n generalizing cursor v with
  | zero => exact iff_of_true (Traced.all_pure _) (List.forall_mem_nil _)
  | succ n ih =>
      rw [parseAnswers_succ_inside hcursor, dataPlaces]
      cases hdata : srvData? expandName abuf alen cursor with
      | none => exact iff_of_true trivial (List.forall_mem_nil _)
      | some data =>
          dsimp only
          cases expandName abuf alen (data.place + 6) with
          | error status =>
              dsimp only
              rw [List.forall_mem_singleton, and_true]
          | ok target =>
              dsimp only
              rw [List.forall_mem_cons, ih (srvData?_le hdata)]

/-! ## Which messages are read inside -/

theorem aresSrvCallback_trace (halen : 12 ≤ alen) (posted : List Posted) :
    (aresSrvCallback expandName abuf alen aresSuccess posted).All (Access.Inside alen) ↔
      ∀ cursor, behindQuestions expandName abuf alen (questionCount abuf) headerSize =
          some cursor →
        (parseAnswers expandName abuf alen (answerCount abuf) cursor []).All
          (Access.Inside alen) := by
  rw [aresSrvCallback, if_neg (not_not_intro rfl)]
  simp only [Traced.all_bind, dns16Bit_inside, bitsAt_inside]
  rw [parseQuestions_value, dns16Bit_value, dns16Bit_value]
  constructor
  · intro hall cursor hcursor
    obtain ⟨-, -, -, -, -, -, -, -, -, -, -, -, -, hanswers⟩ := hall
    rw [questionCount] at hcursor
    rw [hcursor] at hanswers
    exact ((Traced.all_bind _ _).mp hanswers).1
  · intro hall
    -- The twelve reads of the header.
    iterate 12 refine ⟨by omega, ?_⟩
    refine ⟨parseQuestions_inside halen, ?_⟩
    cases hcursor : behindQuestions expandName abuf alen (word abuf 4).toNat headerSize with
    | none => exact Traced.all_pure _
    | some cursor => exact (Traced.all_bind _ _).mpr ⟨hall cursor hcursor, Traced.all_pure _⟩

/-- All reads of the callback stay inside the message, just when the data of each SRV record
that it comes to begin at least six bytes before the end. -/
theorem aresSrvCallback_inside_iff (halen : 12 ≤ alen) (posted : List Posted) :
    (aresSrvCallback expandName abuf alen aresSuccess posted).All (Access.Inside alen) ↔
      ∀ cursor, behindQuestions expandName abuf alen (questionCount abuf) headerSize =
          some cursor →
        ∀ place ∈ dataPlaces expandName abuf alen (answerCount abuf) cursor,
          place + 6 ≤ alen := by
  rw [aresSrvCallback_trace halen]
  apply forall_congr'
  intro cursor
  apply imp_congr_right
  intro hcursor
  exact parseAnswers_inside_iff (behindQuestions_le halen hcursor) []

/-- A record with the root as target. -/
theorem aresSrvCallback_inside_root :
    (aresSrvCallback expandPlain ((answerMessage 7 [0, 1, 0, 2, 0x1f, 0x90, 0]).getD · 0) 39
      aresSuccess []).All (Access.Inside 39) := by
  refine (aresSrvCallback_inside_iff (by decide) []).mpr ?_
  intro cursor hcursor
  have hbehind : behindQuestions expandPlain
      ((answerMessage 7 [0, 1, 0, 2, 0x1f, 0x90, 0]).getD · 0) 39
      (questionCount ((answerMessage 7 [0, 1, 0, 2, 0x1f, 0x90, 0]).getD · 0)) headerSize =
        some 19 := rfl
  rw [← Option.some.inj (hbehind.symm.trans hcursor)]
  decide

/-- A record at the end of the message that declares no data. -/
theorem aresSrvCallback_no_data :
    ¬∀ (expandName : ExpandName) (abuf : ℕ → UInt8) (alen : ℕ), 12 ≤ alen →
      (∀ cursor name len, cursor ≤ alen → expandName abuf alen cursor = .ok (name, len) →
        cursor + len ≤ alen) →
      (aresSrvCallback expandName abuf alen aresSuccess []).All (Access.Inside alen) := by
  intro hall
  have hreads := hall expandPlain ((answerMessage 0 []).getD · 0) 32 (by decide)
    fun _ _ _ _ hname => expandPlain_le hname
  exact absurd hreads (by decide)

end BbMonitor.ServiceResolver
