import BbMonitor.Lib.Machine

/-!
# A connection to PostgreSQL

`exec` sends a statement with libpq and waits for the socket.  When something can be read,
`_fg_socket_rx_cb` takes the input and collects the results of the statement in `_results`,
until it would have to wait again or there are no more; then it invokes the callback with the
last of them.

A step of the machine is a call of `exec` or the run of a handler by the service.  What
libpq answers is part of the action, with one rule: a command is in progress from the moment
when `PQsendQuery` has sent it until `PQgetResult` has returned `NULL`, each result is one of
that command, and `PQsendQuery` sends nothing while a command is in progress.  `exec` is
called again only after the callback of the call before.  The run starts when the connection
is made; times and the texts that are logged are left out.
-/

namespace BbMonitor.PostgresAsio

/-! ## State -/

/-- `ExecStatusType`. -/
inductive ExecStatus where
  | emptyQuery
  | commandOk
  | tuplesOk
  | copyOut
  | copyIn
  | badResponse
  | nonfatalError
  | fatalError
  | copyBoth
  | singleTuple
  -- The codes that the connection does not know.
  | unknown (n : ℕ)
deriving DecidableEq, Repr

def ExecStatus.code : ExecStatus → ℤ
  | .emptyQuery => 0
  | .commandOk => 1
  | .tuplesOk => 2
  | .copyOut => 3
  | .copyIn => 4
  | .badResponse => 5
  | .nonfatalError => 6
  | .fatalError => 7
  | .copyBoth => 8
  | .singleTuple => 9
  | .unknown n => 10 + n

/-- A `PGresult`. -/
structure PgResult where
  -- The statement for which `PQgetResult` has returned it.
  statement : ℕ
  status : ExecStatus
deriving DecidableEq, Repr

/-- An invocation of the callback of a statement. -/
structure Callback where
  statement : ℕ
  ec : ℤ
  result : Option PgResult
deriving DecidableEq, Repr

/-- What waits in the service for the statement: the callback that was posted, or
`_fg_socket_rx_cb`. -/
inductive Handler where
  | post (statement : ℕ)
  | read (statement : ℕ)
deriving DecidableEq, Repr

structure State where
  -- The calls of `exec` so far; they number the statements.
  executed : ℕ
  -- The command that is in progress in libpq.
  command : Option ℕ
  handler : Option Handler
  results : List PgResult
  callbacks : List Callback
deriving DecidableEq, Repr

def State.init : State where
  executed := 0
  command := none
  handler := none
  results := []
  callbacks := []

/-! ## Steps -/

/-- What a round of the loop meets: `PQisBusy`, or what `PQgetResult` returns. -/
inductive Poll where
  | busy
  | result (status : ExecStatus)
  | null
deriving DecidableEq, Repr

/-- With what `_fg_socket_rx_cb` is called: an error code of the socket, or else a failure of
`PQconsumeInput`, or else the rounds of its loop. -/
inductive Event where
  | error (ec : ℤ)
  | readError
  | input (polls : List Poll)
deriving DecidableEq, Repr

inductive Action where
  -- Whether `PQsendQuery` sends the statement.
  | exec (sent : Bool)
  -- The callback that was posted runs.
  | post
  | socket (e : Event)
deriving DecidableEq, Repr

/-- The loop: `_results` after it, and whether it has ended with `NULL`. -/
def collect (statement : ℕ) : List PgResult → List Poll → Option (List PgResult × Bool)
  | results, .busy :: _ => some (results, false)
  | results, .null :: _ => some (results, true)
  | results, .result status :: polls => collect statement (results ++ [⟨statement, status⟩]) polls
  | _, [] => none

/-- The error code for the status of the last result. -/
def ecOf (status : ExecStatus) : ℤ :=
  match status with
  | .emptyQuery | .commandOk | .tuplesOk | .copyOut | .copyIn | .nonfatalError | .copyBoth
  | .singleTuple => 0
  | .badResponse | .fatalError => status.code
  | .unknown _ => status.code

namespace State

variable (s : State)

/-- `cb(ec, result)`; nothing waits afterwards. -/
def invoke (statement : ℕ) (ec : ℤ) (result : Option PgResult) : State :=
  { s with handler := none, callbacks := s.callbacks ++ [⟨statement, ec, result⟩] }

def exec (sent : Bool) : Option State :=
  if s.handler ≠ none then none
  else if sent then
    if s.command ≠ none then none
    else some { s with
      executed := s.executed + 1
      command := some s.executed
      handler := some (.read s.executed) }
  else some { s with executed := s.executed + 1, handler := some (.post s.executed) }

def post : Option State :=
  match s.handler with
  | some (.post statement) => some (s.invoke statement ExecStatus.fatalError.code none)
  | _ => none

/-- The rest of `_fg_socket_rx_cb` when the loop has ended with `NULL`. -/
def finish (statement : ℕ) : State :=
  match s.results.getLast? with
  | none => s.invoke statement ExecStatus.fatalError.code none
  | some lastResult =>
      State.invoke { s with results := [] } statement (ecOf lastResult.status) (some lastResult)

def fgSocketRxCb (statement : ℕ) : Event → Option State
  | .error ec => if ec = 0 then none else some (s.invoke statement ec none)
  | .readError => some (s.invoke statement ExecStatus.fatalError.code none)
  | .input polls =>
      s.command.bind fun command =>
        (collect command s.results polls).map fun
          | (results, false) => { s with results := results, handler := some (.read statement) }
          | (results, true) =>
              State.finish { s with results := results, command := none } statement

def socket (e : Event) : Option State :=
  match s.handler with
  | some (.read statement) => s.fgSocketRxCb statement e
  | _ => none

def step : Action → Option State
  | .exec sent => s.exec sent
  | .post => s.post
  | .socket e => s.socket e

end State

/-- A connection. -/
def machine : Machine State Action where
  init := .init
  step := State.step

/-! ## What a step does -/

/-- What a step can do. -/
inductive Effect (s : State) : Action → State → Prop where
  | send : s.handler = none → s.command = none →
      Effect s (.exec true) { s with
        executed := s.executed + 1
        command := some s.executed
        handler := some (.read s.executed) }
  | refuse : s.handler = none →
      Effect s (.exec false)
        { s with executed := s.executed + 1, handler := some (.post s.executed) }
  | post {statement : ℕ} (ec : ℤ) : s.handler = some (.post statement) →
      Effect s .post (s.invoke statement ec none)
  -- A socket error or a failure of `PQconsumeInput`.
  | fail {statement : ℕ} {e : Event} (ec : ℤ) : s.handler = some (.read statement) →
      (∀ polls, e ≠ .input polls) →
      Effect s (.socket e) (s.invoke statement ec none)
  | wait {statement command : ℕ} {polls : List Poll} {results : List PgResult} :
      s.handler = some (.read statement) → s.command = some command →
      collect command s.results polls = some (results, false) →
      Effect s (.socket (.input polls))
        { s with results := results, handler := some (.read statement) }
  | finish {statement command : ℕ} {polls : List Poll} {results : List PgResult} (ec : ℤ) :
      s.handler = some (.read statement) → s.command = some command →
      collect command s.results polls = some (results, true) →
      Effect s (.socket (.input polls))
        (State.invoke { s with results := [], command := none } statement ec results.getLast?)

theorem finish_eq (s : State) (statement : ℕ) :
    ∃ ec, s.finish statement =
      State.invoke { s with results := [] } statement ec s.results.getLast? := by
  cases hlast : s.results.getLast? with
  | none =>
      have hempty : s.results = [] := List.getLast?_eq_none_iff.mp hlast
      refine ⟨ExecStatus.fatalError.code, ?_⟩
      rw [State.finish, hlast, ← hempty]
  | some lastResult =>
      refine ⟨ecOf lastResult.status, ?_⟩
      rw [State.finish, hlast]

theorem exec_effect {s t : State} {sent : Bool} (hstep : s.exec sent = some t) :
    Effect s (.exec sent) t := by
  rw [State.exec] at hstep
  by_cases hhandler : s.handler = none
  · rw [if_neg (not_not_intro hhandler)] at hstep
    cases sent with
    | false =>
        rw [if_neg Bool.false_ne_true] at hstep
        rw [← Option.some.inj hstep]
        exact .refuse hhandler
    | true =>
        rw [if_pos rfl] at hstep
        by_cases hcommand : s.command = none
        · rw [if_neg (not_not_intro hcommand)] at hstep
          rw [← Option.some.inj hstep]
          exact .send hhandler hcommand
        · rw [if_pos hcommand] at hstep
          exact absurd hstep.symm (Option.some_ne_none t)
  · rw [if_pos hhandler] at hstep
    exact absurd hstep.symm (Option.some_ne_none t)

theorem post_effect {s t : State} (hstep : s.post = some t) : Effect s .post t := by
  rw [State.post] at hstep
  split at hstep
  · next statement hhandler =>
      rw [← Option.some.inj hstep]
      exact .post _ hhandler
  · exact absurd hstep.symm (Option.some_ne_none t)

theorem socket_effect {s t : State} {e : Event} (hstep : s.socket e = some t) :
    Effect s (.socket e) t := by
  rw [State.socket] at hstep
  split at hstep
  · next statement hhandler =>
      cases e with
      | error ec =>
          rw [State.fgSocketRxCb] at hstep
          split at hstep
          · exact absurd hstep.symm (Option.some_ne_none t)
          · rw [← Option.some.inj hstep]
            exact .fail ec hhandler (fun _ => Event.noConfusion)
      | readError =>
          rw [State.fgSocketRxCb] at hstep
          rw [← Option.some.inj hstep]
          exact .fail _ hhandler (fun _ => Event.noConfusion)
      | input polls =>
          rw [State.fgSocketRxCb] at hstep
          obtain ⟨command, hcommand, hrest⟩ := Option.bind_eq_some_iff.mp hstep
          obtain ⟨⟨results, done⟩, hcollect, ht⟩ := Option.map_eq_some_iff.mp hrest
          cases done with
          | false =>
              rw [← ht]
              exact .wait hhandler hcommand hcollect
          | true =>
              obtain ⟨ec, hfinish⟩ :=
                finish_eq { s with results := results, command := none } statement
              rw [← ht]
              dsimp only
              rw [hfinish]
              exact .finish ec hhandler hcommand hcollect
  · exact absurd hstep.symm (Option.some_ne_none t)

theorem step_effect {s t : State} {a : Action} (hstep : machine.step s a = some t) :
    Effect s a t := by
  cases a with
  | exec sent => exact exec_effect hstep
  | post => exact post_effect hstep
  | socket e => exact socket_effect hstep

end BbMonitor.PostgresAsio
