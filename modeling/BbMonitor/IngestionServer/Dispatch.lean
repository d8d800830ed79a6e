import BbMonitor.IngestionServer.Stages
import BbMonitor.Lib.History

/-!
# What the events of the queue are passed to

`HandleRpcs` looks at the result of `Next` and at `ok`, and then calls
`process_state` in any case.  `invocations_eq` says what it finds there: the
handler of a request in `START`, the handler of a reply in `FINISH`, and nothing
when `Next` has returned false.  So a shutdown is not survived
(`dispatch_safe_iff`): a handler whose request was cancelled serves a call that
never came and constructs a successor, and in the end a null pointer is
dereferenced, as in `shutdownRun`.
-/

namespace BbMonitor.IngestionServer

open Ingestion Authorizer

variable {labels : Labels} {actions : List Action} {s t : State}

/-! ## Invocations -/

/-- The handler is there, and it is in `START` only for an event with `ok`. -/
def Invocation.Safe (i : Invocation) : Prop :=
  ∃ status, i.found = some status ∧ (status = .start → i.ok = true)

/-- A result of `Next` as a running server gets it: there is an event, and a request
comes back with a call. -/
def Outcome.Serving : Outcome → Prop
  | .request _ ok _ => ok = true
  | .finish _ _ => True
  | .drained _ => False

def Action.Serving : Action → Prop
  | .next outcome => outcome.Serving
  | _ => True

/-- The invocation that a result of `Next` leads to. -/
def Outcome.invocation : Outcome → Invocation
  | .request _ ok _ => ⟨some .start, ok⟩
  | .finish _ ok => ⟨some .finish, ok⟩
  | .drained _ => ⟨none, false⟩

def Action.invocation : Action → Option Invocation
  | .next outcome => some outcome.invocation
  | _ => none

theorem invocation_safe_iff (outcome : Outcome) : outcome.invocation.Safe ↔ outcome.Serving := by
  cases outcome <;> simp [Outcome.invocation, Invocation.Safe, Outcome.Serving]

theorem invocations_step {a : Action} (hstep : Step s a t) :
    t.invocations = s.invocations ++ a.invocation.toList := by
  cases hstep with
  | outside ha factory run shutdown phase hphase =>
      cases a with
      | next outcome => exact absurd rfl (ha outcome)
      | _ => exact (List.append_nil _).symm
  | request | finish | drained => rfl

/-- The handler of every event is in the state that goes with the operation. -/
theorem invocations_eq (hexec : (machine labels).exec (State.init labels) actions = some s) :
    s.invocations = actions.filterMap Action.invocation := by
  refine Machine.exec_induction (M := machine labels)
    (P := fun done s => s.invocations = done.filterMap Action.invocation) rfl ?_ hexec
  intro done s a t hdone ih hstep
  have hbranch := step_branches (staged_of_reachable ⟨done, hdone⟩) hstep
  rw [invocations_step hbranch, ih, History.filterMap_concat]

/-- Only the handler of a request serves: no other step constructs a handler, pushes
a record or starts a reply. -/
theorem unserved_of_not_request (hreach : (machine labels).Reachable s) {a : Action}
    (hstep : step s a = some t) (hother : ∀ id ok call, a ≠ .next (.request id ok call)) :
    t.constructed = s.constructed ∧ t.pushed = s.pushed ∧ t.replies = s.replies := by
  cases step_branches (staged_of_reachable hreach) hstep with
  | request => exact absurd rfl (hother _ _ _)
  | outside | finish | drained => exact ⟨rfl, rfl, rfl⟩

/-! ## The statement -/

/-- `process_state` is only called on handlers that are there, and in `START` only
for an event with `ok`, if and only if `Next` never returns false and no request
comes back without a call. -/
theorem dispatch_safe_iff
    (hexec : (machine labels).exec (State.init labels) actions = some s) :
    (∀ i ∈ s.invocations, i.Safe) ↔ ∀ a ∈ actions, a.Serving := by
  rw [invocations_eq hexec, List.forall_mem_filterMap]
  refine forall_congr' fun a => forall_congr' fun _ => ?_
  cases a with
  | next outcome => simpa [Action.invocation, Action.Serving] using invocation_safe_iff outcome
  | _ => simp [Action.invocation, Action.Serving]

/-- A metrics call with good credentials and one without any, and a reply that could
not be sent. -/
def servedRun : List Action :=
  [.record (writer 1 7 (bytes "first") (bytes "shared")).avro, .loop,
    .next (.request 0 true
      ⟨bytes "first", bytes "secret", [⟨[], bytes "up", [], .longValue 1, 5⟩], [], []⟩),
    .loop, .next (.request 1 true ⟨[], [], [], [⟨[], [], 5⟩], []⟩),
    .loop, .next (.finish 0 false)]

theorem servedRun_dispatch_safe :
    ∃ s, (machine ∅).exec (State.init ∅) servedRun = some s ∧
      s.invocations = [⟨some .start, true⟩, ⟨some .start, true⟩, ⟨some .finish, false⟩] ∧
      ((∀ i ∈ s.invocations, i.Safe) ↔ ∀ a ∈ servedRun, a.Serving) := by
  have hrun : ((machine ∅).exec (State.init ∅) servedRun).map State.invocations =
      some [⟨some .start, true⟩, ⟨some .start, true⟩, ⟨some .finish, false⟩] := by
    decide +kernel
  obtain ⟨s, hexec, hinvocations⟩ := Option.map_eq_some_iff.mp hrun
  exact ⟨s, hexec, hinvocations, dispatch_safe_iff hexec⟩

/-- The three requests come back without a call; nothing that is started after that
is taken any more. -/
def shutdownRun : List Action :=
  [.loop, .shutdown, .next (.request 0 false Call.empty), .loop,
    .next (.request 1 false Call.empty), .loop, .next (.request 2 false Call.empty), .loop,
    .next (.drained false)]

theorem shutdownRun_not_safe :
    ¬ ∀ (labels : Labels) (actions : List Action) (s : State),
      (machine labels).exec (State.init labels) actions = some s →
        ∀ i ∈ s.invocations, i.Safe := by
  intro hclaim
  have hrun : ((machine ∅).exec (State.init ∅) shutdownRun).map State.invocations =
      some [⟨some .start, false⟩, ⟨some .start, false⟩, ⟨some .start, false⟩,
        ⟨none, false⟩] := by
    rfl
  obtain ⟨s, hexec, hinvocations⟩ := Option.map_eq_some_iff.mp hrun
  have hnull : (⟨none, false⟩ : Invocation) ∈ s.invocations := by simp [hinvocations]
  obtain ⟨status, hfound, -⟩ := hclaim ∅ shutdownRun s hexec _ hnull
  cases hfound

end BbMonitor.IngestionServer
