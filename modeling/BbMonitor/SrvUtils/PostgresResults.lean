import Mathlib.Data.List.Nodup
import BbMonitor.SrvUtils.PostgresAsio

/-!
# Whose results a statement gets

The results that wait in `_results` belong to the command that is in progress, and while a
statement waits for the socket its command is the one in progress.  So a callback gets a
result of its own statement, and it gets it once.

But two of the ways out of `_fg_socket_rx_cb` leave `_results` as it is: the one after a socket
error and the one after a failure of `PQconsumeInput`.  What was collected before stays there
when nothing is in flight any more.
-/

namespace BbMonitor.PostgresAsio

variable {s t : State} {a : Action} {actions : List Action}

/-- What is expected of a connection at any time: each callback was invoked at most once and
with a result of its statement only, and nothing is left in `_results` when no statement is
in flight. -/
structure Clean (s : State) : Prop where
  once : (s.callbacks.map Callback.statement).Nodup
  own : ∀ c ∈ s.callbacks, ∀ r, c.result = some r → r.statement = c.statement
  empty : s.handler = none → s.results = []

/-! ## In every run -/

def Handler.statement : Handler → ℕ
  | .post statement => statement
  | .read statement => statement

/-- What holds in every reachable state. -/
structure Accounted (s : State) : Prop where
  -- A statement that was called back is over.
  past : ∀ c ∈ s.callbacks, c.statement < s.executed
  -- The statement in flight is the last one, and it was not called back.
  last : ∀ h, s.handler = some h → h.statement + 1 = s.executed
  waiting : ∀ h, s.handler = some h → h.statement ∉ s.callbacks.map Callback.statement
  reading : ∀ statement, s.handler = some (.read statement) → s.command = some statement
  results : ∀ r ∈ s.results, s.command = some r.statement
  once : (s.callbacks.map Callback.statement).Nodup
  own : ∀ c ∈ s.callbacks, ∀ r, c.result = some r → r.statement = c.statement

theorem accounted_init : Accounted State.init where
  past := List.forall_mem_nil _
  last := fun _ h => absurd h.symm (Option.some_ne_none _)
  waiting := fun _ h => absurd h.symm (Option.some_ne_none _)
  reading := fun _ h => absurd h.symm (Option.some_ne_none _)
  results := List.forall_mem_nil _
  once := List.nodup_nil
  own := List.forall_mem_nil _

theorem Accounted.statement_of_command (hacc : Accounted s) {command : ℕ}
    (hcommand : s.command = some command) : ∀ r ∈ s.results, r.statement = command :=
  fun r hr => Option.some.inj ((hacc.results r hr).symm.trans hcommand)

/-- The loop collects results of the command in progress. -/
theorem statement_of_collect {statement : ℕ} {before after : List PgResult} {polls : List Poll}
    {done : Bool} (hbefore : ∀ r ∈ before, r.statement = statement)
    (hcollect : collect statement before polls = some (after, done)) :
    ∀ r ∈ after, r.statement = statement := by
  induction polls generalizing before with
  | nil => exact absurd hcollect.symm (Option.some_ne_none _)
  | cons poll polls ih =>
      cases poll with
      | busy =>
          obtain ⟨rfl, -⟩ := Prod.mk.inj (Option.some.inj hcollect)
          exact hbefore
      | null =>
          obtain ⟨rfl, -⟩ := Prod.mk.inj (Option.some.inj hcollect)
          exact hbefore
      | result status =>
          apply ih ?_ hcollect
          intro r hr
          rcases List.mem_append.mp hr with hr | hr
          · exact hbefore r hr
          · rw [List.mem_singleton.mp hr]

/-- Whatever is delivered, the callback of the statement in flight is invoked for the first
time. -/
theorem Accounted.invoke (hacc : Accounted s) {h : Handler} (hhandler : s.handler = some h)
    (ec : ℤ) {result : Option PgResult} (hown : ∀ r, result = some r → r.statement = h.statement)
    {results : List PgResult} {command : Option ℕ}
    (hresults : ∀ r ∈ results, command = some r.statement) :
    Accounted (State.invoke { s with results := results, command := command } h.statement ec
      result) where
  past := by
    intro c hc
    rcases List.mem_append.mp hc with hc | hc
    · exact hacc.past c hc
    · rw [List.mem_singleton.mp hc]
      have hlast := hacc.last h hhandler
      change h.statement < s.executed
      omega
  last := fun _ h => absurd h.symm (Option.some_ne_none _)
  waiting := fun _ h => absurd h.symm (Option.some_ne_none _)
  reading := fun _ h => absurd h.symm (Option.some_ne_none _)
  results := hresults
  once := by
    change ((s.callbacks ++ [_]).map Callback.statement).Nodup
    rw [List.map_append, List.map_singleton, List.nodup_append]
    refine ⟨hacc.once, List.nodup_singleton _, ?_⟩
    intro id hid id' hid' heq
    rw [heq, List.mem_singleton.mp hid'] at hid
    exact hacc.waiting h hhandler hid
  own := by
    intro c hc r hr
    rcases List.mem_append.mp hc with hc | hc
    · exact hacc.own c hc r hr
    · rw [List.mem_singleton.mp hc] at hr ⊢
      exact hown r hr

/-- A new statement is in flight.  If it was sent, no command was in progress before. -/
theorem Accounted.exec (hacc : Accounted s) {h : Handler} (hstatement : h.statement = s.executed)
    {command : Option ℕ} (hreading : ∀ statement, h = .read statement → command = some statement)
    (hresults : ∀ r ∈ s.results, command = some r.statement) :
    Accounted { s with
      executed := s.executed + 1
      command := command
      handler := some h } where
  past := fun c hc => Nat.lt_succ_of_lt (hacc.past c hc)
  last := by
    intro h' hh'
    rw [← Option.some.inj hh', hstatement]
  waiting := by
    intro h' hh'
    rw [← Option.some.inj hh', hstatement]
    intro hmem
    obtain ⟨c, hc, heq⟩ := List.mem_map.mp hmem
    exact absurd heq (Nat.ne_of_lt (hacc.past c hc))
  reading := fun statement hread => hreading statement (Option.some.inj hread)
  results := hresults
  once := hacc.once
  own := hacc.own

theorem accounted_step (hacc : Accounted s) (heffect : Effect s a t) : Accounted t := by
  cases heffect with
  | send hhandler hcommand =>
      apply hacc.exec rfl
      · intro statement hread
        rw [Handler.read.inj hread]
      · intro r hr
        -- Without a command in progress there are no results.
        exact absurd (hcommand.symm.trans (hacc.results r hr)).symm (Option.some_ne_none _)
  | refuse hhandler =>
      exact hacc.exec rfl (fun _ hread => Handler.noConfusion hread) hacc.results
  | post ec hhandler =>
      exact hacc.invoke hhandler ec (fun r hr => absurd hr.symm (Option.some_ne_none r))
        hacc.results
  | fail ec hhandler hevent =>
      exact hacc.invoke hhandler ec (fun r hr => absurd hr.symm (Option.some_ne_none r))
        hacc.results
  | wait hhandler hcommand hcollect =>
      have hresults := statement_of_collect (hacc.statement_of_command hcommand) hcollect
      exact
        { past := hacc.past
          last := fun h hh => hacc.last h (hhandler.trans hh)
          waiting := fun h hh => hacc.waiting h (hhandler.trans hh)
          reading := fun statement hread => hacc.reading statement (hhandler.trans hread)
          results := fun r hr => by rw [hresults r hr]; exact hcommand
          once := hacc.once
          own := hacc.own }
  | finish ec hhandler hcommand hcollect =>
      have hresults := statement_of_collect (hacc.statement_of_command hcommand) hcollect
      apply hacc.invoke hhandler ec ?_ (List.forall_mem_nil _)
      intro r hr
      rw [hresults r (List.mem_of_getLast? hr)]
      exact Option.some.inj (hcommand.symm.trans (hacc.reading _ hhandler))

theorem accounted_of_reachable (hreach : machine.Reachable s) : Accounted s :=
  Machine.reachable_invariant accounted_init
    (fun _ _ _ hacc hstep => accounted_step hacc (step_effect hstep)) hreach

/-! ## In runs without a failure midway -/

/-- A socket error, or a failure of `PQconsumeInput`. -/
def Action.Fails (a : Action) : Prop :=
  ∃ e, a = .socket e ∧ ∀ polls, e ≠ .input polls

/-- Results wait only while the socket is waited for. -/
def Emptied (s : State) : Prop :=
  (∀ statement, s.handler ≠ some (.read statement)) → s.results = []

theorem emptied_step (hempty : Emptied s) (hfails : a.Fails → s.results = [])
    (heffect : Effect s a t) : Emptied t := by
  intro hnot
  cases heffect with
  | send hhandler hcommand => exact absurd rfl (hnot _)
  | refuse hhandler =>
      apply hempty
      intro statement hread
      exact absurd (hhandler.symm.trans hread).symm (Option.some_ne_none _)
  | post ec hhandler =>
      apply hempty
      intro statement hread
      exact Handler.noConfusion (Option.some.inj (hhandler.symm.trans hread))
  | fail ec hhandler hevent => exact hfails ⟨_, rfl, hevent⟩
  | wait hhandler hcommand hcollect => exact absurd rfl (hnot _)
  | finish ec hhandler hcommand hcollect => rfl

/-- A connection is clean all through a run, just when no socket error and no failure of
`PQconsumeInput` comes in it while results wait in `_results`. -/
theorem clean_iff :
    (∀ s, machine.Visits actions s → Clean s) ↔
      ∀ s a t, machine.Takes actions s a t → a.Fails → s.results = [] := by
  constructor
  · intro hclean s a t htakes hfails
    obtain ⟨e, rfl, hevent⟩ := hfails
    have hafter := hclean t htakes.visits_after
    obtain ⟨_, _, _, hstep⟩ := htakes
    have heffect := step_effect hstep
    cases heffect with
    | fail ec hhandler _ => exact hafter.empty rfl
    | wait hhandler hcommand hcollect => exact absurd rfl (hevent _)
    | finish ec hhandler hcommand hcollect => exact absurd rfl (hevent _)
  · intro hfailures s hvisits
    have hacc := accounted_of_reachable hvisits.reachable
    have hempty : Emptied s := by
      refine Machine.visits_of_guarded (G := fun s a => a.Fails → s.results = []) (fun _ => rfl)
        ?_ hfailures hvisits
      intro s a t _ hempty hfails hstep
      exact emptied_step hempty hfails (step_effect hstep)
    refine ⟨hacc.once, hacc.own, fun hhandler => hempty fun statement hread => ?_⟩
    exact absurd (hhandler.symm.trans hread).symm (Option.some_ne_none _)

/-- A statement whose second result never comes. -/
def failureMidway : List Action :=
  [.exec true, .socket (.input [.result .tuplesOk, .busy]), .socket (.error 104)]

theorem failureMidway_not_clean : ¬∀ s, machine.Visits failureMidway s → Clean s := by
  intro hclean
  have hrun : (machine.exec State.init failureMidway).map (fun s => (s.handler, s.results)) =
      some (none, [⟨0, .tuplesOk⟩]) := by
    decide
  obtain ⟨s, hexec, hstate⟩ := Option.map_eq_some_iff.mp hrun
  obtain ⟨hhandler, hresults⟩ := Prod.mk.inj hstate
  have hempty := (hclean s (Machine.visits_of_exec hexec)).empty hhandler
  rw [hresults] at hempty
  exact absurd hempty (List.cons_ne_nil _ _)

end BbMonitor.PostgresAsio
