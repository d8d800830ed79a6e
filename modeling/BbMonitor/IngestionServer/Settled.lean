import BbMonitor.IngestionServer.LifeCycle

/-!
# A handler serves one call

What a handler pushes and what it replies is settled when its call arrives: nothing is
pushed for a handler before, and nothing is pushed or replied by it afterwards
(`settled_step`, `settled_of_request`).  A reply with OK therefore says that everything
of the call was pushed, and pushed to one sink.
-/

namespace BbMonitor.IngestionServer

open Ingestion Authorizer

variable {labels : Labels} {s t : State}

/-- What was pushed for a handler. -/
def State.pushedBy (s : State) (id : ℕ) : List Push :=
  s.pushed.filter fun p => p.id = id

/-- The replies of a handler. -/
def State.repliesBy (s : State) (id : ℕ) : List Reply :=
  (s.replies.filter fun r => r.1 = id).map Prod.snd

/-- The handler has served this call, given the sink for its credentials. -/
structure State.Settled (s : State) (id : ℕ) (call : Call) (method : SinkKind)
    (sink : Option KafkaSink) : Prop where
  pushes : s.pushedBy id = call.pushes id method sink
  replies : s.repliesBy id = [call.reply method sink]

theorem id_of_mem_pushes {id : ℕ} {call : Call} {method : SinkKind} {sink : Option KafkaSink}
    {p : Push} (hmem : p ∈ call.pushes id method sink) : p.id = id := by
  cases sink with
  | none => cases hmem
  | some sink =>
      obtain ⟨r, -, rfl⟩ := List.mem_map.mp hmem
      rfl

theorem pushedBy_pushes_of_ne {id id' : ℕ} (hne : id' ≠ id) (call : Call) (method : SinkKind)
    (sink : Option KafkaSink) :
    (call.pushes id' method sink).filter (fun p => p.id = id) = [] := by
  rw [List.filter_eq_nil_iff]
  intro p hmem
  simpa [id_of_mem_pushes hmem] using hne

theorem pushedBy_pushes_self (id : ℕ) (call : Call) (method : SinkKind)
    (sink : Option KafkaSink) :
    (call.pushes id method sink).filter (fun p => p.id = id) = call.pushes id method sink := by
  rw [List.filter_eq_self]
  intro p hmem
  simpa using id_of_mem_pushes hmem

/-- A handler in `START` has replied to nothing. -/
theorem State.At.repliesBy_eq_nil {id : ℕ} (hat : s.At id .armed) : s.repliesBy id = [] := by
  have hnone : id ∉ s.replies.map Prod.fst := by
    rw [← List.count_eq_zero, hat.replies]
    rfl
  rw [State.repliesBy, List.map_eq_nil_iff, List.filter_eq_nil_iff]
  intro r hmem hr
  refine hnone (List.mem_map.mpr ⟨r, hmem, ?_⟩)
  simpa using hr

/-- Only handlers that have replied have pushed anything. -/
def State.PushersReplied (s : State) : Prop :=
  ∀ id, s.repliesBy id = [] → s.pushedBy id = []

theorem repliesBy_append (s : State) (id id' : ℕ) (r : Reply) :
    (s.replies ++ [(id', r)]).filter (fun x => x.1 = id) =
      s.replies.filter (fun x => x.1 = id) ++ if id' = id then [(id', r)] else [] := by
  by_cases hid : id' = id <;> simp [hid]

theorem pushersReplied_of_reachable (hreach : (machine labels).Reachable s) :
    s.PushersReplied := by
  refine reachable_of_branches (P := State.PushersReplied) (fun _ _ => rfl) ?_ hreach
  intro s a t _ hpushers hstep
  cases hstep with
  | outside | finish | drained => exact hpushers
  | @request id ok call h hat hheap =>
      intro id' hnone
      rw [State.repliesBy, repliesBy_append] at hnone
      rw [State.pushedBy, List.filter_append]
      by_cases hid : id = id'
      · simp [hid] at hnone
      · rw [if_neg hid, List.append_nil] at hnone
        rw [pushedBy_pushes_of_ne hid, List.append_nil]
        exact hpushers id' hnone

/-- A handler that has served a call takes no other. -/
theorem State.Settled.ne_of_armed {id id' : ℕ} {call : Call} {method : SinkKind}
    {sink : Option KafkaSink} (hsettled : s.Settled id call method sink)
    (hat : s.At id' .armed) : id' ≠ id := by
  rintro rfl
  have hreplies := hsettled.replies
  rw [hat.repliesBy_eq_nil] at hreplies
  cases hreplies

/-- What a handler has settled stays as it is. -/
theorem settled_step (hreach : (machine labels).Reachable s) {a : Action}
    (hstep : step s a = some t) {id : ℕ} {call : Call} {method : SinkKind}
    {sink : Option KafkaSink} (hsettled : s.Settled id call method sink) :
    t.Settled id call method sink := by
  cases step_branches (staged_of_reachable hreach) hstep with
  | outside | finish | drained => exact ⟨hsettled.pushes, hsettled.replies⟩
  | @request id' ok call' h hat hheap =>
      have hne := hsettled.ne_of_armed hat
      refine ⟨?_, ?_⟩
      · rw [State.pushedBy, List.filter_append, pushedBy_pushes_of_ne hne, List.append_nil]
        exact hsettled.pushes
      · rw [State.repliesBy, repliesBy_append, if_neg hne, List.append_nil]
        exact hsettled.replies

/-- A call arrives at a handler that has served none. -/
theorem State.Settled.ne_of_request (hreach : (machine labels).Reachable s) {id id' : ℕ}
    {ok : Bool} {call call' : Call} {method : SinkKind} {sink : Option KafkaSink}
    (hsettled : s.Settled id call method sink)
    (hstep : step s (.next (.request id' ok call')) = some t) : id' ≠ id := by
  cases step_branches (staged_of_reachable hreach) hstep with
  | outside ha => exact absurd rfl (ha _)
  | request hat => exact hsettled.ne_of_armed hat

/-- A step pushes nothing, or what one handler has for its call. -/
theorem pushed_of_step (hreach : (machine labels).Reachable s) {a : Action}
    (hstep : step s a = some t) :
    t.pushed = s.pushed ∨ ∃ id call method sink, s.At id .armed ∧
      t.pushed = s.pushed ++ Call.pushes call id method sink := by
  cases step_branches (staged_of_reachable hreach) hstep with
  | outside | finish | drained => exact Or.inl rfl
  | request hat => exact Or.inr ⟨_, _, _, _, hat, rfl⟩

theorem armed_of_request (hreach : (machine labels).Reachable s) {id : ℕ} {call : Call}
    {h : Handler} (hheap : s.heap id = some h)
    (hstep : step s (.next (.request id true call)) = some t) :
    s.At id .armed ∧
      t.pushed = s.pushed ++ call.pushes id h.method (s.sinkFor h.method call).1 := by
  cases step_branches (staged_of_reachable hreach) hstep with
  | outside ha => exact absurd rfl (ha _)
  | @request _ _ _ found hat hfound =>
      obtain rfl : found = h := Option.some.inj (hfound.symm.trans hheap)
      exact ⟨hat, rfl⟩

/-- Replies are only added. -/
theorem replies_subset_of_step (hreach : (machine labels).Reachable s) {a : Action}
    (hstep : step s a = some t) : s.replies ⊆ t.replies := by
  cases step_branches (staged_of_reachable hreach) hstep with
  | outside | finish | drained => exact List.Subset.refl _
  | request => exact List.subset_append_left _ _

/-- A handler settles its call when it arrives. -/
theorem settled_of_request (hreach : (machine labels).Reachable s) {id : ℕ} {ok : Bool}
    {call : Call} {h : Handler} (hheap : s.heap id = some h)
    (hstep : step s (.next (.request id ok call)) = some t) :
    t.Settled id call h.method (s.sinkFor h.method call).1 := by
  cases step_branches (staged_of_reachable hreach) hstep with
  | outside ha => exact absurd rfl (ha _)
  | @request _ _ _ found hat hfound =>
      obtain rfl : found = h := Option.some.inj (hfound.symm.trans hheap)
      refine ⟨?_, ?_⟩
      · rw [State.pushedBy, List.filter_append, pushedBy_pushes_self]
        have hnone := pushersReplied_of_reachable hreach id hat.repliesBy_eq_nil
        rw [State.pushedBy] at hnone
        rw [hnone, List.nil_append]
      · rw [State.repliesBy, repliesBy_append, if_pos rfl, List.map_append]
        have hnone := hat.repliesBy_eq_nil
        rw [State.repliesBy] at hnone
        rw [hnone, List.nil_append]
        rfl

/-! ## A server that is up -/

/-- The loop runs. -/
def State.Up (s : State) : Prop :=
  s.run = true ∧ (s.phase = .head ∨ s.phase = .waiting)

/-- The credentials get a sink. -/
def State.Accepts (s : State) (method : SinkKind) (apiKey apiSecret : Bytes) : Prop :=
  (authorizeWrite s.factory.authorizer apiKey apiSecret method.logicalTopic).2 ≠ 0

theorem exists_sink_of_accepts {method : SinkKind} {call : Call}
    (haccepts : s.Accepts method call.apiKey call.apiSecret) :
    ∃ sink, (s.sinkFor method call).1 = some sink := by
  unfold State.sinkFor SinkFactory.getSink
  rw [if_neg haccepts]
  split
  · exact ⟨_, rfl⟩
  · exact ⟨_, rfl⟩

theorem authorizer_sinkFor (method : SinkKind) (call : Call) :
    (s.sinkFor method call).2.authorizer = s.factory.authorizer := by
  simp only [State.sinkFor, SinkFactory.getSink]
  split
  · rfl
  · split
    · rfl
    · cases method <;> rfl

/-- A handler of each method waits for a call. -/
theorem exists_armed (hreach : (machine labels).Reachable s) (method : SinkKind) :
    ∃ id h, s.heap id = some h ∧ h.method = method ∧ (id, .request) ∈ s.pending := by
  have hstarting : ∀ method, ∃! id, s.Starting method id :=
    reachable_of_branches (P := fun s => ∀ method, ∃! id, s.Starting method id)
      (starting_init labels) (fun _ _ _ hs hone ht => starting_step hs hone ht) hreach
  obtain ⟨id, hid, -⟩ := hstarting method
  obtain ⟨⟨h, hheap, hmethod, -⟩, hpending⟩ := (staged_of_reachable hreach).armed_of_starting hid
  exact ⟨id, h, hheap, hmethod, hpending⟩

/-- A server that waits takes a call, and goes on. -/
theorem exists_served (hreach : (machine labels).Reachable s) (hup : s.Up)
    (hwaiting : s.phase = .waiting) (method : SinkKind) {call : Call}
    (haccepts : s.Accepts method call.apiKey call.apiSecret) :
    ∃ id h t sink, s.heap id = some h ∧ h.method = method ∧
      step s (.next (.request id true call)) = some t ∧
      t.Settled id call method (some sink) ∧ t.Up ∧
      t.factory.authorizer = s.factory.authorizer := by
  obtain ⟨id, h, hheap, rfl, hpending⟩ := exists_armed hreach method
  obtain ⟨sink, hsink⟩ := exists_sink_of_accepts haccepts
  have hallowed : (Outcome.request id true call).allowed s := ⟨hpending, nofun⟩
  obtain ⟨t, hstep⟩ : ∃ t, step s (.next (.request id true call)) = some t :=
    ⟨_, if_pos ⟨hwaiting, hallowed⟩⟩
  have hsettled := settled_of_request hreach hheap hstep
  rw [hsink] at hsettled
  refine ⟨id, h, t, sink, hheap, rfl, hstep, hsettled, ?_⟩
  cases step_branches (staged_of_reachable hreach) hstep with
  | outside ha => exact absurd rfl (ha _)
  | request => exact ⟨⟨hup.1, Or.inl rfl⟩, authorizer_sinkFor _ _⟩

end BbMonitor.IngestionServer
