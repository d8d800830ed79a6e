import BbMonitor.IngestionServer.Model

/-!
# The life of a handler

A handler is armed (it waits for a call), then replying, then gone.  `State.At`
says what the server knows about a handler in each stage, and `staged_of_reachable`
that every address is in one of them, whatever gRPC does.  In particular a handler
has one operation pending while it lives and none after it was deleted, and the
kind of the operation tells its status.

`Step` lists what a step can do to a server all of whose handlers are so.
-/

namespace BbMonitor.IngestionServer

open Ingestion Authorizer

variable {s t : State}

/-! ## What a call leads to -/

/-- The reply to a call, given the sink for its credentials. -/
def Call.reply (call : Call) (method : SinkKind) : Option KafkaSink → Reply
  | none => .unauthenticated (bytes "authentication failed for key: " ++ call.apiKey)
  | some _ => .ok (call.sent method).msgCount

/-- What is pushed for a call, given the sink for its credentials. -/
def Call.pushes (call : Call) (id : ℕ) (method : SinkKind) : Option KafkaSink → List Push
  | none => []
  | some sink => (call.sent method).pushed.map fun r => ⟨id, sink, r.1, r.2⟩

/-- The handler behind the case `START`. -/
def Call.served (call : Call) (h : Handler) : Option KafkaSink → Handler
  | none => { h with status := .finish }
  | some _ => { h with status := .finish, msgCount := (call.sent h.method).msgCount }

/-- `get_metrics_sink` and its siblings, with the credentials of a call. -/
def State.sinkFor (s : State) (method : SinkKind) (call : Call) : Option KafkaSink × SinkFactory :=
  SinkFactory.getSink method s.factory call.apiKey call.apiSecret

theorem served_status (call : Call) (h : Handler) (sink : Option KafkaSink) :
    (call.served h sink).status = .finish := by
  cases sink <;> rfl

theorem serve_eq (s : State) (id : ℕ) (h : Handler) (call : Call) :
    s.serve id h call =
      { s with
        factory := (s.sinkFor h.method call).2
        heap := Function.update s.heap id (some (call.served h (s.sinkFor h.method call).1))
        pending := s.pending ++ [(id, .finish)]
        replies := s.replies ++ [(id, call.reply h.method (s.sinkFor h.method call).1)]
        pushed := s.pushed ++ call.pushes id h.method (s.sinkFor h.method call).1 } := by
  unfold State.serve
  split
  · rename_i factory hsink
    have hfor : s.sinkFor h.method call = (none, factory) := hsink
    simp [hfor, State.reply, State.store, Call.reply, Call.pushes, Call.served]
  · rename_i sink factory hsink
    have hfor : s.sinkFor h.method call = (some sink, factory) := hsink
    simp [hfor, State.reply, State.store, State.push, Call.reply, Call.pushes, Call.served]

/-! ## Stages -/

inductive Stage where
  -- Not constructed yet.
  | unborn
  | armed
  | replying
  | gone
deriving DecidableEq, Repr

namespace Stage

/-- The status of a handler that is there. -/
def status : Stage → Option CallStatus
  | .unborn => none
  | .armed => some .start
  | .replying => some .finish
  | .gone => none

/-- How many operations of a kind are pending. -/
def operations : Stage → Operation → ℕ
  | .armed, .request => 1
  | .replying, .finish => 1
  | _, _ => 0

/-- How many replies were started. -/
def replies : Stage → ℕ
  | .unborn => 0
  | .armed => 0
  | .replying => 1
  | .gone => 1

/-- How often the handler was deleted. -/
def deletions : Stage → ℕ
  | .gone => 1
  | _ => 0

end Stage

/-- The handler at the address is in this stage. -/
structure State.At (s : State) (id : ℕ) (stage : Stage) : Prop where
  born : id < s.constructed ↔ stage ≠ .unborn
  status : (s.heap id).map Handler.status = stage.status
  pending : ∀ operation, s.pending.count (id, operation) = stage.operations operation
  replies : (s.replies.map Prod.fst).count id = stage.replies
  deletions : s.deleted.count id = stage.deletions

/-- Every address is in some stage. -/
def State.Staged (s : State) : Prop :=
  ∀ id, ∃ stage, s.At id stage

/-- The handler of a pending operation is in the stage that goes with it. -/
theorem State.Staged.at_of_pending (hstaged : s.Staged) {id : ℕ} {operation : Operation}
    (hpending : (id, operation) ∈ s.pending) :
    (operation = .request ∧ s.At id .armed) ∨ (operation = .finish ∧ s.At id .replying) := by
  obtain ⟨stage, hat⟩ := hstaged id
  have hcount : 0 < s.pending.count (id, operation) := List.count_pos_iff.mpr hpending
  rw [hat.pending operation] at hcount
  cases stage <;> cases operation <;> simp [Stage.operations] at hcount
  · exact Or.inl ⟨rfl, hat⟩
  · exact Or.inr ⟨rfl, hat⟩

/-! ## Steps -/

/-- What a step can do to a server whose handlers are all in their stages. -/
inductive Step (s : State) : Action → State → Prop where
  -- Nothing that the handlers depend on.
  | outside {a : Action} (ha : ∀ outcome, a ≠ .next outcome) (factory : SinkFactory)
      (run shutdown : Bool) (phase : Phase) (hphase : phase = .crashed → s.phase = .crashed) :
      Step s a { s with factory, run, shutdown, phase }
  | request {id : ℕ} {ok : Bool} {call : Call} {h : Handler} (hat : s.At id .armed)
      (hheap : s.heap id = some h) :
      Step s (.next (.request id ok call))
        { s with
          factory := (s.sinkFor h.method call).2
          heap := Function.update
            (Function.update s.heap s.constructed (some ⟨h.method, .start, 0⟩)) id
            (some (call.served h (s.sinkFor h.method call).1))
          constructed := s.constructed + 1
          pending := s.pending.erase (id, .request) ++ [(s.constructed, .request)] ++
            [(id, .finish)]
          phase := .head
          invocations := s.invocations ++ [⟨some .start, ok⟩]
          admitted := if ok then s.admitted ++ [id] else s.admitted
          replies := s.replies ++ [(id, call.reply h.method (s.sinkFor h.method call).1)]
          pushed := s.pushed ++ call.pushes id h.method (s.sinkFor h.method call).1 }
  | finish {id : ℕ} {ok : Bool} (hat : s.At id .replying) :
      Step s (.next (.finish id ok))
        { s with
          heap := Function.update s.heap id none
          pending := s.pending.erase (id, .finish)
          phase := .head
          invocations := s.invocations ++ [⟨some .finish, ok⟩]
          finished := s.finished ++ [id]
          deleted := s.deleted ++ [id] }
  | drained {ok : Bool} :
      Step s (.next (.drained ok))
        { s with phase := .crashed, invocations := s.invocations ++ [⟨none, false⟩] }

/-- An event whose handler is not in `READING` goes straight to `process_state`. -/
theorem dispatch_of_found {outcome : Outcome} {id : ℕ} {h : Handler}
    (hreturned : outcome.returned = true) (htag : outcome.tag = some id)
    (hheap : (s.take outcome).heap id = some h) (hreading : h.status ≠ .reading) :
    s.dispatch outcome =
      { ({ s.take outcome with
          invocations := (s.take outcome).invocations ++
            [⟨some h.status, outcome.ok⟩] } : State).process id h outcome.call with
        phase := .head } := by
  have htarget : (s.take outcome).target outcome.tag = some (id, h) := by
    simp [State.target, htag, hheap]
  have hchecked : ((s.take outcome).checkReturned outcome.returned outcome.tag).checkOk
      outcome.tag outcome.ok = s.take outcome := by
    simp [State.checkReturned, State.checkOk, hreturned, htarget, hreading]
  rw [State.dispatch, hchecked, State.invoke, htarget, hreturned]
  rfl

theorem dispatch_request {id : ℕ} {ok : Bool} {call : Call} (hat : s.At id .armed) :
    Step s (.next (.request id ok call)) (s.dispatch (.request id ok call)) := by
  obtain ⟨h, hheap, hstatus⟩ := Option.map_eq_some_iff.mp hat.status
  have hdispatch := @dispatch_of_found s (.request id ok call) id h rfl rfl hheap
    (by simp [hstatus])
  rw [State.process, hstatus] at hdispatch
  simp only [serve_eq] at hdispatch
  rw [hdispatch]
  exact Step.request hat hheap

theorem dispatch_finish {id : ℕ} {ok : Bool} (hat : s.At id .replying) :
    Step s (.next (.finish id ok)) (s.dispatch (.finish id ok)) := by
  obtain ⟨h, hheap, hstatus⟩ := Option.map_eq_some_iff.mp hat.status
  have hdispatch := @dispatch_of_found s (.finish id ok) id h rfl rfl hheap
    (by simp [hstatus])
  rw [State.process, hstatus] at hdispatch
  rw [hdispatch]
  exact Step.finish hat

theorem dispatch_drained (ok : Bool) :
    Step s (.next (.drained ok)) (s.dispatch (.drained ok)) := by
  have hdispatch : s.dispatch (.drained ok) =
      { s with phase := .crashed, invocations := s.invocations ++ [⟨none, false⟩] } := by
    cases ok <;> rfl
  rw [hdispatch]
  exact Step.drained

theorem step_branches (hstaged : s.Staged) {a : Action} (hstep : step s a = some t) :
    Step s a t := by
  cases a with
  | record r =>
      obtain ⟨authorizer, -, ht⟩ := Option.map_eq_some_iff.mp hstep
      rw [← ht]
      exact .outside (by simp) _ s.run s.shutdown s.phase id
  | sigterm =>
      cases hstep
      exact .outside (by simp) s.factory false s.shutdown s.phase id
  | shutdown =>
      cases hstep
      exact .outside (by simp) s.factory s.run true s.phase id
  | loop =>
      obtain ⟨-, ht⟩ := Option.ite_none_right_eq_some.mp hstep
      cases ht
      exact .outside (by simp) s.factory s.run s.shutdown _ (by split <;> simp)
  | next outcome =>
      obtain ⟨⟨-, hallowed⟩, ht⟩ := Option.ite_none_right_eq_some.mp hstep
      cases ht
      cases outcome with
      | request id ok call =>
          rcases hstaged.at_of_pending hallowed.1 with ⟨-, hat⟩ | ⟨hkind, -⟩
          · exact dispatch_request hat
          · cases hkind
      | finish id ok =>
          rcases hstaged.at_of_pending hallowed with ⟨hkind, -⟩ | ⟨-, hat⟩
          · cases hkind
          · exact dispatch_finish hat
      | drained ok => exact dispatch_drained ok

/-! ## The stages are kept -/

/-- A handler that a step does not concern stays in its stage. -/
theorem State.At.congr {id : ℕ} {stage : Stage} (hat : s.At id stage)
    (hborn : id < t.constructed ↔ id < s.constructed) (hheap : t.heap id = s.heap id)
    (hpending : ∀ operation, t.pending.count (id, operation) = s.pending.count (id, operation))
    (hreplies : (t.replies.map Prod.fst).count id = (s.replies.map Prod.fst).count id)
    (hdeleted : t.deleted.count id = s.deleted.count id) : t.At id stage where
  born := hborn.trans hat.born
  status := by rw [hheap, hat.status]
  pending := fun operation => (hpending operation).trans (hat.pending operation)
  replies := hreplies.trans hat.replies
  deletions := hdeleted.trans hat.deletions

/-- The next address is free. -/
theorem State.Staged.at_constructed (hstaged : s.Staged) : s.At s.constructed .unborn := by
  obtain ⟨stage, hat⟩ := hstaged s.constructed
  have hunborn : stage = .unborn := by
    by_contra hne
    exact absurd (hat.born.mpr hne) (Nat.lt_irrefl _)
  rwa [hunborn] at hat

/-- The constructor arms a handler at the next address. -/
theorem at_construct (hat : s.At s.constructed .unborn) (method : SinkKind) :
    (s.construct method).At s.constructed .armed where
  born := by simp [State.construct]
  status := by simp [State.construct, Stage.status]
  pending := by
    intro operation
    have hnone := hat.pending operation
    cases operation <;>
      simpa [State.construct, List.count_append, Stage.operations] using hnone
  replies := hat.replies
  deletions := hat.deletions

theorem at_construct_of_ne {id : ℕ} {stage : Stage} (hat : s.At id stage)
    (hne : id ≠ s.constructed) (method : SinkKind) : (s.construct method).At id stage := by
  refine hat.congr ?_ ?_ ?_ rfl rfl
  · show id < s.constructed + 1 ↔ id < s.constructed
    omega
  · exact Function.update_of_ne hne _ _
  · intro operation
    have hother : [(s.constructed, Operation.request)].count (id, operation) = 0 :=
      List.count_eq_zero.mpr (by simp [hne])
    rw [State.construct, List.count_append, hother, Nat.add_zero]

theorem staged_construct (hstaged : s.Staged) (method : SinkKind) :
    (s.construct method).Staged := by
  intro id
  by_cases hid : id = s.constructed
  · rw [hid]
    exact ⟨.armed, at_construct hstaged.at_constructed method⟩
  · obtain ⟨stage, hat⟩ := hstaged id
    exact ⟨stage, at_construct_of_ne hat hid method⟩

theorem staged_init (labels : Labels) : (State.init labels).Staged := by
  refine staged_construct (staged_construct (staged_construct ?_ _) _) _
  intro id
  refine ⟨.unborn, ⟨by simp [State.blank], rfl, ?_, rfl, rfl⟩⟩
  intro operation
  cases operation <;> rfl

theorem staged_step {a : Action} (hstaged : s.Staged) (hstep : Step s a t) : t.Staged := by
  cases hstep with
  | outside ha factory run shutdown phase hphase | drained =>
      intro id
      obtain ⟨stage, hat⟩ := hstaged id
      exact ⟨stage, hat.congr Iff.rfl rfl (fun _ => rfl) rfl rfl⟩
  | @request id ok call h hat hheap =>
      have hborn : id < s.constructed := hat.born.mpr (by simp)
      intro id'
      by_cases hid : id' = id
      · rw [hid]
        refine ⟨.replying, ⟨?_, ?_, ?_, ?_, hat.deletions⟩⟩
        · simp only [ne_eq, reduceCtorEq, not_false_eq_true, iff_true]
          omega
        · simp [served_status, Stage.status]
        · intro operation
          have hnew : [(s.constructed, Operation.request)].count (id, operation) = 0 :=
            List.count_eq_zero.mpr (by simp; omega)
          rw [List.count_append, List.count_append, hnew, List.count_erase, hat.pending]
          cases operation <;> simp [Stage.operations]
        · simp [List.count_append, hat.replies, Stage.replies]
      · obtain ⟨stage, hat'⟩ := staged_construct hstaged h.method id'
        refine ⟨stage, hat'.congr Iff.rfl (Function.update_of_ne hid _ _) ?_ ?_ rfl⟩
        · intro operation
          have hreply : [(id, Operation.finish)].count (id', operation) = 0 :=
            List.count_eq_zero.mpr (by simp [hid])
          have herased : (s.pending.erase (id, .request)).count (id', operation) =
              s.pending.count (id', operation) :=
            List.count_erase_of_ne (by simp [hid])
          rw [List.count_append, List.count_append, hreply, herased, State.construct,
            List.count_append, Nat.add_zero]
        · have hreply : [id].count id' = 0 := List.count_eq_zero.mpr (by simp [hid])
          simp [List.count_append, hreply, State.construct]
  | @finish id ok hat =>
      intro id'
      by_cases hid : id' = id
      · rw [hid]
        refine ⟨.gone, ⟨?_, ?_, ?_, ?_, ?_⟩⟩
        · simpa using hat.born
        · simp [Stage.status]
        · intro operation
          rw [List.count_erase, hat.pending]
          cases operation <;> simp [Stage.operations]
        · exact hat.replies
        · simp [List.count_append, hat.deletions, Stage.deletions]
      · obtain ⟨stage, hat'⟩ := hstaged id'
        refine ⟨stage, hat'.congr Iff.rfl (Function.update_of_ne hid _ _) ?_ rfl ?_⟩
        · intro operation
          exact List.count_erase_of_ne (by simp [hid])
        · have hgone : [id].count id' = 0 := List.count_eq_zero.mpr (by simp [hid])
          rw [List.count_append, hgone, Nat.add_zero]

/-- Whatever gRPC does, every handler is in one of its stages. -/
theorem staged_of_reachable {labels : Labels} (hreach : (machine labels).Reachable s) :
    s.Staged :=
  Machine.reachable_invariant (P := State.Staged) (staged_init labels)
    (fun _ _ _ hs ht => staged_step hs (step_branches hs ht)) hreach

/-- What holds initially and is kept by every branch holds in every reachable
state. -/
theorem reachable_of_branches {labels : Labels} {P : State → Prop} (hinit : P (State.init labels))
    (hstep : ∀ s a t, s.Staged → P s → Step s a t → P t)
    (hreach : (machine labels).Reachable s) : P s := by
  have hboth : s.Staged ∧ P s := by
    refine Machine.reachable_invariant (P := fun s => s.Staged ∧ P s)
      ⟨staged_init labels, hinit⟩ ?_ hreach
    intro s a t h ht
    have hbranch := step_branches h.1 ht
    exact ⟨staged_step h.1 hbranch, hstep s a t h.1 h.2 hbranch⟩
  exact hboth.2

end BbMonitor.IngestionServer
