import BbMonitor.SrvUtils.ServiceResolver

/-!
# What is reported about a message

`ares_srv_callback` posts one callback in every case.  A message is complete if all its
questions parse and all its answers are records of type SRV with their targets in their data;
then its records are to be reported with the code 0, and otherwise a code other than 0.

Every way out of the loop over the answers has such a code: its own -1, or the status of
`ares_expand_name`, which is an error there.  But the way out of the loop over the questions
posts the status with which the callback was called, and that is `ARES_SUCCESS`.  A target
that goes on behind the data of its record is taken as well.
-/

namespace BbMonitor.ServiceResolver

variable (expandName : ExpandName) (abuf : ℕ → UInt8) (alen : ℕ)

/-! ## Complete messages -/

/-- The records of the message, if it is complete. -/
def records? : Option (List SrvRecord) :=
  (behindQuestions expandName abuf alen (questionCount abuf) headerSize).bind fun cursor =>
    (answers? expandName abuf alen (answerCount abuf) cursor).bind fun as =>
      if ∀ a ∈ as, a.Complete then some (as.map (Answer.record abuf)) else none

/-- One callback is posted.  Its code is 0 if and only if the message is complete, and then it
has the records of the message. -/
def Truthful (posted : List Posted) (after : List Posted) : Prop :=
  ∃ ec v, after = posted ++ [(ec, v)] ∧
    (ec = 0 ↔ (records? expandName abuf alen).isSome) ∧
    ∀ rs, records? expandName abuf alen = some rs → v = rs

/-! ## The loops -/

variable {expandName abuf alen}

/-- A round of the loop over the answers. -/
theorem parseAnswers_succ_value (n cursor : ℕ) (v : List SrvRecord) :
    (parseAnswers expandName abuf alen (n + 1) cursor v).value =
      match srvData? expandName abuf alen cursor with
      | none =>
          match expandName abuf alen cursor with
          | .error status => (status.1, v)
          | .ok _ => (-1, v)
      | some data =>
          match expandName abuf alen (data.place + 6) with
          | .error status => (status.1, v)
          | .ok (fqdn, len) => (parseAnswers expandName abuf alen n (data.place + data.length)
              (v ++ [Answer.record abuf ⟨data, fqdn, len⟩])).value := by
  rw [parseAnswers, srvData?, Traced.bind_value, aresExpandName, Traced.access_value]
  cases hname : expandName abuf alen cursor with
  | error status => rfl
  | ok named =>
      dsimp only
      by_cases hfixed : cursor + named.2 + recordSize > alen
      · rw [if_pos hfixed, if_pos (Or.inl hfixed)]
        rfl
      rw [if_neg hfixed, Traced.bind_value, Traced.bind_value, Traced.bind_value, Traced.bind_value,
        dns16Bit_value, dns16Bit_value]
      by_cases hdata :
          cursor + named.2 + recordSize + (word abuf (cursor + named.2 + 8)).toNat > alen
      · rw [if_pos hdata, if_pos (Or.inr (Or.inl hdata))]
        rfl
      by_cases htype : word abuf (cursor + named.2) ≠ typeSrv
      · rw [if_neg hdata, if_pos htype, if_pos (Or.inr (Or.inr htype))]
        rfl
      rw [if_neg hdata, if_neg htype, if_neg (not_or.mpr ⟨hfixed, not_or.mpr ⟨hdata, htype⟩⟩)]
      rw [Traced.bind_value, Traced.bind_value, Traced.bind_value, Traced.bind_value,
        aresExpandName, Traced.access_value]
      dsimp only
      cases expandName abuf alen (cursor + named.2 + recordSize + 6) with
      | error status => rfl
      | ok target => rfl

/-- An answer that parses gives its record. -/
theorem parseAnswers_of_some {cursor : ℕ} {a : Answer}
    (ha : answer? expandName abuf alen cursor = some a) (n : ℕ) (v : List SrvRecord) :
    (parseAnswers expandName abuf alen (n + 1) cursor v).value =
      (parseAnswers expandName abuf alen n (a.data.place + a.data.length)
        (v ++ [a.record abuf])).value := by
  rw [parseAnswers_succ_value]
  rw [answer?] at ha
  cases hdata : srvData? expandName abuf alen cursor with
  | none =>
      rw [hdata] at ha
      exact absurd ha.symm (Option.some_ne_none a)
  | some data =>
      rw [hdata] at ha
      dsimp only at ha ⊢
      cases htarget : expandName abuf alen (data.place + 6) with
      | error status =>
          rw [htarget] at ha
          exact absurd ha.symm (Option.some_ne_none a)
      | ok target =>
          rw [htarget] at ha
          rw [← Option.some.inj ha]

/-- An answer that does not parse ends the loop with an error. -/
theorem parseAnswers_of_none {cursor : ℕ} (hnone : answer? expandName abuf alen cursor = none)
    (n : ℕ) (v : List SrvRecord) :
    (parseAnswers expandName abuf alen (n + 1) cursor v).value.1 ≠ 0 := by
  rw [parseAnswers_succ_value]
  rw [answer?] at hnone
  cases hdata : srvData? expandName abuf alen cursor with
  | none =>
      dsimp only
      cases expandName abuf alen cursor with
      | error status => exact status.2
      | ok named => exact Int.neg_ne_zero.mpr Int.one_ne_zero
  | some data =>
      rw [hdata] at hnone
      dsimp only at hnone ⊢
      cases htarget : expandName abuf alen (data.place + 6) with
      | error status => exact status.2
      | ok target =>
          rw [htarget] at hnone
          exact absurd hnone (Option.some_ne_none _)

/-- If all answers parse, the loop reports their records with the code 0. -/
theorem parseAnswers_of_answers {n cursor : ℕ} {as : List Answer}
    (has : answers? expandName abuf alen n cursor = some as) (v : List SrvRecord) :
    (parseAnswers expandName abuf alen n cursor v).value =
      (0, v ++ as.map (Answer.record abuf)) := by
  induction n generalizing cursor as v with
  | zero =>
      rw [← Option.some.inj has, List.map_nil, List.append_nil]
      rfl
  | succ n ih =>
      rw [answers?] at has
      cases ha : answer? expandName abuf alen cursor with
      | none =>
          rw [ha] at has
          exact absurd has.symm (Option.some_ne_none as)
      | some a =>
          rw [ha] at has
          obtain ⟨rest, hrest, rfl⟩ := Option.map_eq_some_iff.mp has
          rw [parseAnswers_of_some ha, ih hrest, List.map_cons, List.append_assoc,
            List.singleton_append]

/-- If some answer does not parse, the loop reports an error. -/
theorem parseAnswers_ne_zero {n cursor : ℕ}
    (hnone : answers? expandName abuf alen n cursor = none) (v : List SrvRecord) :
    (parseAnswers expandName abuf alen n cursor v).value.1 ≠ 0 := by
  induction n generalizing cursor v with
  | zero => exact absurd hnone (Option.some_ne_none [])
  | succ n ih =>
      rw [answers?] at hnone
      cases ha : answer? expandName abuf alen cursor with
      | none => exact parseAnswers_of_none ha n v
      | some a =>
          rw [ha] at hnone
          rw [parseAnswers_of_some ha]
          exact ih (Option.map_eq_none_iff.mp hnone) _

/-! ## Which messages are reported truthfully -/

/-- The code that is posted for a message, and the records. -/
theorem aresSrvCallback_value (posted : List Posted) :
    (aresSrvCallback expandName abuf alen aresSuccess posted).value =
      match behindQuestions expandName abuf alen (questionCount abuf) headerSize with
      | none => posted ++ [(aresSuccess, [])]
      | some cursor =>
          posted ++ [(parseAnswers expandName abuf alen (answerCount abuf) cursor []).value] := by
  rw [← parseQuestions_value, aresSrvCallback, if_neg (not_not_intro rfl)]
  simp only [Traced.bind_value]
  change Traced.value (match (parseQuestions expandName abuf alen (questionCount abuf)
    headerSize).value with
    | none => _
    | some cursor => _) = _
  cases (parseQuestions expandName abuf alen (questionCount abuf) headerSize).value with
  | none => rfl
  | some cursor => rfl

theorem truthful_posted_iff {posted : List Posted} {ec : ℤ} {v : List SrvRecord} :
    Truthful expandName abuf alen posted (posted ++ [(ec, v)]) ↔
      (ec = 0 ↔ (records? expandName abuf alen).isSome) ∧
        ∀ rs, records? expandName abuf alen = some rs → v = rs := by
  constructor
  · intro hreport
    obtain ⟨ec', v', hposted, hreport⟩ := hreport
    obtain ⟨rfl, rfl⟩ := Prod.mk.inj (List.cons.inj (List.append_cancel_left hposted)).1
    exact hreport
  · intro hreport
    exact ⟨ec, v, rfl, hreport⟩

/-- The report is truthful, just when all questions parse and, should all answers parse too,
their targets are in their data. -/
theorem aresSrvCallback_truthful_iff (posted : List Posted) :
    Truthful expandName abuf alen posted
        (aresSrvCallback expandName abuf alen aresSuccess posted).value ↔
      ∃ cursor, behindQuestions expandName abuf alen (questionCount abuf) headerSize =
          some cursor ∧
        ∀ as, answers? expandName abuf alen (answerCount abuf) cursor = some as →
          ∀ a ∈ as, a.Complete := by
  rw [aresSrvCallback_value]
  have hrecords := records?.eq_1 expandName abuf alen
  cases hquestions : behindQuestions expandName abuf alen (questionCount abuf) headerSize with
  | none =>
      -- The code 0 is reported for a message that is not complete.
      rw [hquestions, Option.bind_none] at hrecords
      dsimp only
      rw [truthful_posted_iff, hrecords]
      refine iff_of_false ?_ ?_
      · intro hreport
        exact Bool.false_ne_true (hreport.1.mp rfl)
      · intro hcursor
        obtain ⟨cursor, hcursor, -⟩ := hcursor
        exact absurd hcursor.symm (Option.some_ne_none cursor)
  | some cursor =>
      rw [hquestions, Option.bind_some] at hrecords
      dsimp only
      cases has : answers? expandName abuf alen (answerCount abuf) cursor with
      | none =>
          rw [has, Option.bind_none] at hrecords
          have herror := parseAnswers_ne_zero has []
          rw [truthful_posted_iff, hrecords]
          refine iff_of_true ⟨iff_of_false herror Bool.false_ne_true, ?_⟩ ⟨cursor, rfl, ?_⟩
          · intro rs hrs
            exact absurd hrs.symm (Option.some_ne_none rs)
          · intro as has'
            exact absurd (has.symm.trans has').symm (Option.some_ne_none as)
      | some as =>
          rw [has, Option.bind_some] at hrecords
          rw [parseAnswers_of_answers has, truthful_posted_iff, hrecords, List.nil_append]
          by_cases hcomplete : ∀ a ∈ as, a.Complete
          · rw [if_pos hcomplete]
            refine iff_of_true ⟨iff_of_true rfl rfl, fun rs hrs => Option.some.inj hrs⟩
              ⟨cursor, rfl, ?_⟩
            intro as' has'
            rw [← Option.some.inj (has.symm.trans has')]
            exact hcomplete
          · rw [if_neg hcomplete]
            refine iff_of_false ?_ ?_
            · intro hreport
              exact Bool.false_ne_true (hreport.1.mp rfl)
            · intro hcursor
              obtain ⟨cursor', hcursor', hall⟩ := hcursor
              rw [Option.some.inj hcursor'] at has
              exact hcomplete (hall as has)

/-- A record that declares six bytes of data, and a target behind them. -/
theorem aresSrvCallback_target_behind :
    ¬∀ (expandName : ExpandName) (abuf : ℕ → UInt8) (alen : ℕ) (posted : List Posted),
      Truthful expandName abuf alen posted
        (aresSrvCallback expandName abuf alen aresSuccess posted).value := by
  intro hall
  let message : Bytes := answerMessage 6 [0, 1, 0, 2, 0, 80, 1, 98, 0]
  have hposted : (aresSrvCallback expandPlain (message.getD · 0) 41 aresSuccess []).value =
      [] ++ [(0, [⟨1, 2, bytes "b", 80⟩])] := by decide
  have hrecords : records? expandPlain (message.getD · 0) 41 = none := by decide
  have hreport := hall expandPlain (message.getD · 0) 41 []
  rw [hposted, truthful_posted_iff, hrecords] at hreport
  exact Bool.false_ne_true (hreport.1.mp rfl)

end BbMonitor.ServiceResolver
