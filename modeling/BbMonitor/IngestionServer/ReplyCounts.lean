import BbMonitor.IngestionServer.Stages

/-!
# The counts in the replies

A call with good credentials is answered with the count of its handler.  What the
handler pushes is right for all three methods (`pushed_eq_due`): a record for every
element, in order, except that a metric without a measurement is passed by.  The count
is not: the intake handler counts once, behind its loop, and the metrics handler counts
what it passes by.
-/

namespace BbMonitor.IngestionServer

open Ingestion Authorizer

variable {labels : Labels} {s t : State}

/-! ## What is due -/

/-- The records to be pushed for a call: all items, all lines, and all metrics that
have a measurement. -/
def Call.due (call : Call) : SinkKind → List (Bytes × Record)
  | .metrics =>
      call.metrics.filterMap fun metric =>
        (avroValue metric.sample).map fun value =>
          (metric.ns ++ metric.name, .metric (avroMetric metric value))
  | .intake => call.intake.map fun item => ([], .intake (avroIntake item))
  | .log => call.logline.map fun ll => (ll.id, .logline (avroLogline ll))

/-- The bundle has what its handler counts: metrics with a measurement, or one item. -/
def Call.Countable (call : Call) : SinkKind → Prop
  | .metrics => ∀ metric ∈ call.metrics, metric.sample ≠ .notSet
  | .intake => call.intake.length = 1
  | .log => True

/-! ## The loops -/

theorem avroValue_isSome_iff (sample : Measurement) :
    (avroValue sample).isSome ↔ sample ≠ .notSet := by
  cases sample <;> simp [avroValue]

theorem foldl_pushBack (intake : List Intake) (sent : Sent DdAvroIntake) :
    intake.foldl (fun sent item => sent.pushBack [] (avroIntake item)) sent =
      ⟨sent.pushed ++ intake.map fun item => ([], avroIntake item), sent.msgCount⟩ := by
  induction intake generalizing sent with
  | nil => simp
  | cons item rest ih =>
      rw [List.foldl_cons, ih]
      simp [Sent.pushBack]

theorem putIntake2_eq (intake : List Intake) :
    putIntake2 intake = ⟨intake.map fun item => ([], avroIntake item), 1⟩ := by
  rw [putIntake2, foldl_pushBack]
  simp [Sent.empty, Sent.count]

theorem foldl_pushBack_count (lines : List DdLogProxy.LogLine) (sent : Sent BbAvroLogline) :
    lines.foldl (fun sent ll => (sent.pushBack ll.id (avroLogline ll)).count) sent =
      ⟨sent.pushed ++ lines.map fun ll => (ll.id, avroLogline ll),
        sent.msgCount + lines.length⟩ := by
  induction lines generalizing sent with
  | nil => simp
  | cons ll rest ih =>
      rw [List.foldl_cons, ih]
      simp only [Sent.pushBack, Sent.count, List.append_assoc, List.map_cons, List.length_cons,
        List.singleton_append, Nat.add_assoc, Nat.add_comm 1]

theorem putLogs2_eq (lines : List DdLogProxy.LogLine) :
    putLogs2 lines = ⟨lines.map fun ll => (ll.id, avroLogline ll), lines.length⟩ := by
  rw [putLogs2, foldl_pushBack_count]
  simp [Sent.empty]

/-- Each handler pushes what is due. -/
theorem pushed_eq_due (call : Call) (method : SinkKind) :
    (call.sent method).pushed = call.due method := by
  cases method with
  | metrics =>
      simp only [Call.sent, Sent.map, putMetrics2_eq, List.map_filterMap, Call.due]
      refine List.filterMap_congr fun metric _ => ?_
      simp only [metricPush, Option.map_map]
      rfl
  | intake => simp [Call.sent, Sent.map, putIntake2_eq, Call.due]
  | log => simp [Call.sent, Sent.map, putLogs2_eq, Call.due]

theorem length_due_metrics_eq_iff (call : Call) :
    call.metrics.length = (call.due .metrics).length ↔ call.Countable .metrics := by
  rw [Call.due, eq_comm, List.length_filterMap_eq_countP, List.countP_eq_length]
  refine forall_congr' fun metric => forall_congr' fun _ => ?_
  rw [Option.isSome_map, avroValue_isSome_iff]

/-- The count is the number of pushes for a bundle that has what is counted. -/
theorem msgCount_eq_iff (call : Call) (method : SinkKind) :
    (call.sent method).msgCount = (call.sent method).pushed.length ↔ call.Countable method := by
  rw [pushed_eq_due]
  cases method with
  | metrics =>
      rw [← length_due_metrics_eq_iff]
      simp only [Call.sent, Sent.map, putMetrics2_eq]
  | intake => simp [Call.sent, Sent.map, putIntake2_eq, Call.due, Call.Countable, eq_comm]
  | log => simp [Call.sent, Sent.map, putLogs2_eq, Call.due, Call.Countable]

/-! ## The statement -/

section

variable {id : ℕ} {call : Call} {h : Handler} {sink : KafkaSink}

theorem replies_of_request (hreach : (machine labels).Reachable s) (hheap : s.heap id = some h)
    (hsink : (s.sinkFor h.method call).1 = some sink)
    (hstep : step s (.next (.request id true call)) = some t) :
    t.replies = s.replies ++ [(id, .ok (call.sent h.method).msgCount)] := by
  cases step_branches (staged_of_reachable hreach) hstep with
  | outside ha => exact absurd rfl (ha _)
  | @request _ _ _ found hat hfound =>
      obtain rfl : found = h := Option.some.inj (hfound.symm.trans hheap)
      simp only [hsink, Call.reply]

theorem pushed_of_request (hreach : (machine labels).Reachable s) (hheap : s.heap id = some h)
    (hsink : (s.sinkFor h.method call).1 = some sink)
    (hstep : step s (.next (.request id true call)) = some t) :
    t.pushed = s.pushed ++ (call.sent h.method).pushed.map fun r => ⟨id, sink, r.1, r.2⟩ := by
  cases step_branches (staged_of_reachable hreach) hstep with
  | outside ha => exact absurd rfl (ha _)
  | @request _ _ _ found hat hfound =>
      obtain rfl : found = h := Option.some.inj (hfound.symm.trans hheap)
      simp only [hsink, Call.pushes]

/-- What a handler does with a call that has good credentials: the reply carries the
count, and the records that are due are pushed once each, in order.  The count is the
number of records exactly when the bundle has what is counted. -/
theorem reply_count_iff (hreach : (machine labels).Reachable s) (hheap : s.heap id = some h)
    (hsink : (s.sinkFor h.method call).1 = some sink)
    (hstep : step s (.next (.request id true call)) = some t) :
    ∃ count records, t.replies = s.replies ++ [(id, .ok count)] ∧
      t.pushed = s.pushed ++ records.map (fun r => ⟨id, sink, r.1, r.2⟩) ∧
      ((count = records.length ∧ records = call.due h.method) ↔ call.Countable h.method) := by
  refine ⟨_, _, replies_of_request hreach hheap hsink hstep,
    pushed_of_request hreach hheap hsink hstep, ?_⟩
  rw [msgCount_eq_iff, and_iff_left (pushed_eq_due call h.method)]

end

/-- A record that lets the api key write intake data. -/
def intakeWriter : AuthRecord where
  data := { (writer 1 7 (bytes "first") (bytes "shared")).data with topicName := bytes "intake" }
  isDisabled := false
  isDeleted := false

/-- The server waits for a call. -/
def beforeIntake : List Action :=
  [.record intakeWriter.avro, .loop]

/-- A bundle of intake data. -/
def intakeCall (intake : List Intake) : Call :=
  ⟨bytes "first", bytes "secret", [], intake, []⟩

/-- With these credentials, an item is answered with a count of 1, and so are two. -/
theorem exists_beforeIntake (intake : List Intake) :
    ∃ s t sink, (machine ∅).Reachable s ∧ s.heap 1 = some ⟨.intake, .start, 0⟩ ∧
      (s.sinkFor .intake (intakeCall intake)).1 = some sink ∧
      step s (.next (.request 1 true (intakeCall intake))) = some t := by
  have hrun : ((machine ∅).exec (State.init ∅) beforeIntake).map
      (fun s => (s.heap 1, (s.sinkFor .intake (intakeCall [])).1.isSome,
        decide (s.phase = .waiting), decide ((1, .request) ∈ s.pending))) =
        some (some ⟨.intake, .start, 0⟩, true, true, true) := by
    decide +kernel
  obtain ⟨s, hexec, hstate⟩ := Option.map_eq_some_iff.mp hrun
  simp only [Prod.mk.injEq, decide_eq_true_eq] at hstate
  obtain ⟨hheap, hsome, hphase, hpending⟩ := hstate
  obtain ⟨sink, hsink⟩ := Option.isSome_iff_exists.mp hsome
  have hallowed : (Outcome.request 1 true (intakeCall intake)).allowed s :=
    ⟨hpending, fun hfalse => by cases hfalse⟩
  exact ⟨s, _, sink, ⟨beforeIntake, hexec⟩, hheap, hsink, if_pos ⟨hphase, hallowed⟩⟩

theorem oneItem_reply_count :
    ∃ (s t : State) (sink : KafkaSink) (count : ℕ) (records : List (Bytes × Record)),
      (machine ∅).Reachable s ∧
      t.replies = s.replies ++ [(1, .ok count)] ∧
      t.pushed = s.pushed ++ records.map (fun r => ⟨1, sink, r.1, r.2⟩) ∧
      ((count = records.length ∧ records = (intakeCall [⟨[], [], 5⟩]).due .intake) ↔
        (intakeCall [⟨[], [], 5⟩]).Countable .intake) := by
  obtain ⟨s, t, sink, hreach, hheap, hsink, hstep⟩ := exists_beforeIntake [⟨[], [], 5⟩]
  obtain ⟨count, records, hcount⟩ := reply_count_iff hreach hheap hsink hstep
  exact ⟨s, t, sink, count, records, hreach, hcount⟩

/-- Two items are pushed, and the reply says 1. -/
theorem twoItems_not_counted :
    ¬ ∀ (labels : Labels) (s t : State) (id : ℕ) (call : Call) (h : Handler) (sink : KafkaSink),
      (machine labels).Reachable s → s.heap id = some h →
      (s.sinkFor h.method call).1 = some sink →
      step s (.next (.request id true call)) = some t →
      ∃ count records, t.replies = s.replies ++ [(id, .ok count)] ∧
        t.pushed = s.pushed ++ records.map (fun r => ⟨id, sink, r.1, r.2⟩) ∧
        count = records.length ∧ records = call.due h.method := by
  intro hall
  obtain ⟨s, t, sink, hreach, hheap, hsink, hstep⟩ :=
    exists_beforeIntake [⟨[], [], 5⟩, ⟨[], [], 6⟩]
  obtain ⟨count, records, hreplies, -, hcount, hdue⟩ :=
    hall _ s t 1 _ _ sink hreach hheap hsink hstep
  have hsent := replies_of_request hreach hheap hsink hstep
  rw [hsent, List.append_cancel_left_eq, List.singleton_inj, Prod.mk.injEq, Reply.ok.injEq]
    at hreplies
  rw [← hreplies.2, hdue] at hcount
  revert hcount
  decide

end BbMonitor.IngestionServer
