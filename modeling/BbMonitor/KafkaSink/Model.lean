import BbMonitor.Lib.Machine

/-!
# The two threads that drain a kafka sink

A `bb_kafka_sink` has an inbound queue.  Its background thread moves records from
there to librdkafka by `process`: look at the front of the queue, call `produce`,
and pop the front if the answer is 0.  The destructor clears `_run` and then
calls `close`, whose `flush` runs the same `process` on the destroying thread; it
joins the background thread only after that.

A step of the machine is one operation on the queue or one call of `produce`.
What librdkafka answers is part of the action.  An operation with no defined
result has no successor: `front` or `pop_front` on an empty queue, and any use of
the producer after `kafka_producer::close` has reset it.  Registering the schemas,
encoding the record and the gauges do not touch the queue and are left out; a
schema that cannot be registered ends the process.
-/

namespace BbMonitor.KafkaSink

/-! ## State -/

/-- A `kevent`; its number in the order of `push_back` tells it from every
other. -/
structure Event (R : Type*) where
  arrival : ℕ
  record : R
deriving DecidableEq, Repr

/-- `RdKafka::ErrorCode`, as far as `process` tells the codes apart. -/
inductive ErrorCode where
  | noError
  | queueFull
  | other
deriving DecidableEq, Repr

inductive Thread where
  | bg
  | destroyer
deriving DecidableEq, Repr

/-- The operation of `process` that is next: the condition of the loop, `front`,
`handle_event` with the event that `front` returned, or `pop_front`. -/
inductive Drain (R : Type*) where
  | size
  | front
  | produce (e : Event R)
  | popFront
deriving DecidableEq, Repr

/-- Where `bg_thread` is.  `waitSize` and `waitRun` are the two halves of the
condition `_queue.size() == 0 && _run`, and `loop` is the condition `_run`. -/
inductive BgThread (R : Type*) where
  | waitSize
  | waitRun
  | loop
  | poll
  | process (d : Drain R)
  | exited
deriving DecidableEq, Repr

/-- Where `~bb_kafka_sink` is.  `absent` means that it has not been called, `eof`
to `flush` are the two loops of `flush`, and `close` is `_impl.close()`. -/
inductive Destroyer (R : Type*) where
  | absent
  | eof
  | process (d : Drain R)
  | poll
  | flush
  | close
  | join
  | destroyed
deriving DecidableEq, Repr

structure State (R : Type*) where
  run : Bool
  queue : List (Event R)
  bg : BgThread R
  destroyer : Destroyer R
  -- `_producer` has been reset.
  closed : Bool
  -- All events, in the order of `push_back`.
  pushed : List (Event R)
  -- The events for which `produce` has answered 0, in the order of the answers.
  accepted : List (Event R)
deriving DecidableEq, Repr

variable {R : Type*}

def State.init : State R where
  run := true
  queue := []
  bg := .waitSize
  destroyer := .absent
  closed := false
  pushed := []
  accepted := []

/-! ## Steps -/

/-- `bgThread` and `destructor` are the steps of the two threads outside of
`process`; `ec` is what `_impl.flush(1000)` answers.  The others are the
operations of `process`. -/
inductive Action (R : Type*) where
  | pushBack (record : R)
  | bgThread
  | destructor (ec : ErrorCode)
  | size (th : Thread)
  | front (th : Thread)
  | produce (th : Thread) (ec : ErrorCode)
  | popFront (th : Thread)
deriving DecidableEq, Repr

namespace State

variable (s : State R)

/-- Where the thread is in `process`, if it is there. -/
def drain : Thread → Option (Drain R)
  | .bg => match s.bg with
      | .process d => some d
      | _ => none
  | .destroyer => match s.destroyer with
      | .process d => some d
      | _ => none

def setDrain (d : Drain R) : Thread → State R
  | .bg => { s with bg := .process d }
  | .destroyer => { s with destroyer := .process d }

/-- `process` returns: `bg_thread` goes on with its loop and `flush` with
`poll(0)`. -/
def leaveProcess : Thread → State R
  | .bg => { s with bg := .loop }
  | .destroyer => { s with destroyer := .poll }

def pushBack (record : R) : State R :=
  let e : Event R := ⟨s.pushed.length, record⟩
  { s with queue := s.queue ++ [e], pushed := s.pushed ++ [e] }

def bgThread : Option (State R) :=
  match s.bg with
  | .waitSize => some { s with bg := if s.queue.isEmpty then .waitRun else .loop }
  | .waitRun => some { s with bg := if s.run then .waitSize else .loop }
  | .loop => some { s with bg := if s.run then .poll else .exited }
  | .poll => if s.closed then none else some { s with bg := .process .size }
  | .process _ => none
  | .exited => none

def destructor (ec : ErrorCode) : Option (State R) :=
  match s.destroyer with
  | .absent => some { s with run := false, destroyer := .eof }
  | .eof => some { s with destroyer := if s.queue.isEmpty then .flush else .process .size }
  | .process _ => none
  | .poll => some { s with destroyer := .eof }
  | .flush => some { s with destroyer := if ec = .noError then .close else .flush }
  | .close => some { s with closed := true, destroyer := .join }
  | .join => match s.bg with
      | .exited => some { s with destroyer := .destroyed }
      | _ => none
  | .destroyed => none

def size (th : Thread) : State R :=
  if s.queue.isEmpty then s.leaveProcess th else s.setDrain .front th

def front (th : Thread) : Option (State R) :=
  match s.queue with
  | [] => none
  | e :: _ => some (s.setDrain (.produce e) th)

def produce (th : Thread) (e : Event R) : ErrorCode → State R
  | .noError => { s with accepted := s.accepted ++ [e] }.setDrain .popFront th
  | .queueFull => s.leaveProcess th
  | .other => s.leaveProcess th

def popFront (th : Thread) : Option (State R) :=
  match s.queue with
  | [] => none
  | _ :: rest => some ({ s with queue := rest }.setDrain .size th)

end State

def step (s : State R) : Action R → Option (State R)
  | .pushBack record =>
      match s.destroyer with
      | .destroyed => none
      | _ => some (s.pushBack record)
  | .bgThread => s.bgThread
  | .destructor ec => s.destructor ec
  | .size th =>
      match s.drain th with
      | some .size => some (s.size th)
      | _ => none
  | .front th =>
      match s.drain th with
      | some .front => s.front th
      | _ => none
  | .produce th ec =>
      match s.drain th with
      | some (.produce e) => if s.closed then none else some (s.produce th e ec)
      | _ => none
  | .popFront th =>
      match s.drain th with
      | some .popFront => s.popFront th
      | _ => none

def machine (R : Type*) : Machine (State R) (Action R) where
  init := State.init
  step := step

/-! ## What a step does to the queue -/

namespace State

variable {s : State R} {th th' : Thread} {d : Drain R}

@[simp] theorem setDrain_queue : (s.setDrain d th).queue = s.queue := by cases th <;> rfl
@[simp] theorem setDrain_pushed : (s.setDrain d th).pushed = s.pushed := by cases th <;> rfl
@[simp] theorem setDrain_accepted : (s.setDrain d th).accepted = s.accepted := by
  cases th <;> rfl
@[simp] theorem drain_setDrain : (s.setDrain d th).drain th = some d := by cases th <;> rfl

theorem drain_setDrain_of_ne (hne : th' ≠ th) : (s.setDrain d th).drain th' = s.drain th' := by
  cases th <;> cases th' <;> first | rfl | exact absurd rfl hne

theorem drain_setDrain_eq_some {d' : Drain R} (hdrain : (s.setDrain d th).drain th' = some d') :
    (th' = th ∧ d = d') ∨ (th' ≠ th ∧ s.drain th' = some d') := by
  by_cases hth : th' = th
  · subst hth
    exact Or.inl ⟨rfl, by simpa using hdrain⟩
  · exact Or.inr ⟨hth, by rwa [drain_setDrain_of_ne hth] at hdrain⟩

@[simp] theorem leaveProcess_queue : (s.leaveProcess th).queue = s.queue := by cases th <;> rfl
@[simp] theorem leaveProcess_pushed : (s.leaveProcess th).pushed = s.pushed := by cases th <;> rfl
@[simp] theorem leaveProcess_accepted : (s.leaveProcess th).accepted = s.accepted := by
  cases th <;> rfl
@[simp] theorem drain_leaveProcess : (s.leaveProcess th).drain th = none := by cases th <;> rfl

theorem drain_leaveProcess_of_ne (hne : th' ≠ th) :
    (s.leaveProcess th).drain th' = s.drain th' := by
  cases th <;> cases th' <;> first | rfl | exact absurd rfl hne

theorem absent_of_setDrain (habsent : (s.setDrain d th).destroyer = .absent) :
    s.destroyer = .absent := by
  cases th with
  | bg => exact habsent
  | destroyer => cases habsent

theorem absent_of_leaveProcess (habsent : (s.leaveProcess th).destroyer = .absent) :
    s.destroyer = .absent := by
  cases th with
  | bg => exact habsent
  | destroyer => cases habsent

end State

/-- The step leaves the queue alone.  A thread that moves was not about to pop
and holds no event afterwards, and the destructor is not undone. -/
structure Quiet (s t : State R) : Prop where
  queue : t.queue = s.queue
  pushed : t.pushed = s.pushed
  accepted : t.accepted = s.accepted
  drain : ∀ th, t.drain th = s.drain th ∨
    s.drain th ≠ some .popFront ∧ (t.drain th = none ∨ t.drain th = some .size ∨
      t.drain th = some .front)
  absent : t.destroyer = .absent → s.destroyer = .absent

inductive Effect (s : State R) : Action R → State R → Prop where
  | pushBack (record : R) : Effect s (.pushBack record) (s.pushBack record)
  | front {th : Thread} {e : Event R} {rest : List (Event R)} (hqueue : s.queue = e :: rest)
      (hdrain : s.drain th = some .front) : Effect s (.front th) (s.setDrain (.produce e) th)
  | accept {th : Thread} {e : Event R} (hdrain : s.drain th = some (.produce e)) :
      Effect s (.produce th .noError)
        ({ s with accepted := s.accepted ++ [e] }.setDrain .popFront th)
  | popFront {th : Thread} {e : Event R} {rest : List (Event R)} (hqueue : s.queue = e :: rest)
      (hdrain : s.drain th = some .popFront) :
      Effect s (.popFront th) ({ s with queue := rest }.setDrain .size th)
  | quiet {a : Action R} {t : State R} (hquiet : Quiet s t)
      (haction : ∀ th, a ≠ .produce th .noError) : Effect s a t

variable {s t : State R} {th : Thread}

theorem quiet_leaveProcess (hdrain : s.drain th ≠ some .popFront) :
    Quiet s (s.leaveProcess th) := by
  refine ⟨by simp, by simp, by simp, fun th' => ?_, State.absent_of_leaveProcess⟩
  by_cases hth : th' = th
  · subst hth
    exact Or.inr ⟨hdrain, by simp⟩
  · exact Or.inl (State.drain_leaveProcess_of_ne hth)

theorem quiet_size (hdrain : s.drain th = some .size) : Quiet s (s.size th) := by
  unfold State.size
  split
  · exact quiet_leaveProcess (by simp [hdrain])
  · refine ⟨by simp, by simp, by simp, fun th' => ?_, State.absent_of_setDrain⟩
    by_cases hth : th' = th
    · subst hth
      exact Or.inr ⟨by simp [hdrain], by simp⟩
    · exact Or.inl (State.drain_setDrain_of_ne hth)

/-- A thread that is not in `process` can only enter it at the head of the
loop. -/
theorem quiet_bg {bg : BgThread R} (hbefore : s.drain .bg = none)
    (hafter : ∀ d, bg = .process d → d = .size) : Quiet s { s with bg := bg } := by
  refine ⟨rfl, rfl, rfl, fun th => ?_, id⟩
  cases th with
  | destroyer => exact Or.inl rfl
  | bg =>
      refine Or.inr ⟨by simp [hbefore], ?_⟩
      cases bg with
      | process d => simp [State.drain, hafter d rfl]
      | _ => exact Or.inl rfl

theorem quiet_destroyer {run closed : Bool} {destroyer : Destroyer R}
    (hbefore : s.drain .destroyer = none) (hcalled : destroyer ≠ .absent)
    (hafter : ∀ d, destroyer = .process d → d = .size) :
    Quiet s { s with run := run, closed := closed, destroyer := destroyer } := by
  refine ⟨rfl, rfl, rfl, fun th => ?_, fun habsent => absurd habsent hcalled⟩
  cases th with
  | bg => exact Or.inl rfl
  | destroyer =>
      refine Or.inr ⟨by simp [hbefore], ?_⟩
      cases destroyer with
      | process d => simp [State.drain, hafter d rfl]
      | _ => exact Or.inl rfl

theorem quiet_bgThread (hstep : s.bgThread = some t) : Quiet s t := by
  have hnone : ∀ d, s.bg = .process d → s.bgThread = none := fun d hbg => by
    simp [State.bgThread, hbg]
  have hbefore : s.drain .bg = none := by
    cases hbg : s.bg with
    | process d => rw [hnone d hbg] at hstep; cases hstep
    | _ => simp [State.drain, hbg]
  unfold State.bgThread at hstep
  split at hstep
  · cases hstep
    exact quiet_bg hbefore (by split_ifs <;> simp)
  · cases hstep
    exact quiet_bg hbefore (by split_ifs <;> simp)
  · cases hstep
    exact quiet_bg hbefore (by split_ifs <;> simp)
  · split at hstep <;> cases hstep
    exact quiet_bg hbefore (by simp)
  · cases hstep
  · cases hstep

theorem quiet_destructor {ec : ErrorCode} (hstep : s.destructor ec = some t) : Quiet s t := by
  have hnone : ∀ d, s.destroyer = .process d → s.destructor ec = none := fun d hdestroyer => by
    simp [State.destructor, hdestroyer]
  have hbefore : s.drain .destroyer = none := by
    cases hdestroyer : s.destroyer with
    | process d => rw [hnone d hdestroyer] at hstep; cases hstep
    | _ => simp [State.drain, hdestroyer]
  unfold State.destructor at hstep
  split at hstep
  · cases hstep
    exact quiet_destroyer hbefore (by simp) (by simp)
  · cases hstep
    exact quiet_destroyer hbefore (by split_ifs <;> simp) (by split_ifs <;> simp)
  · cases hstep
  · cases hstep
    exact quiet_destroyer hbefore (by simp) (by simp)
  · cases hstep
    exact quiet_destroyer hbefore (by split_ifs <;> simp) (by split_ifs <;> simp)
  · cases hstep
    exact quiet_destroyer hbefore (by simp) (by simp)
  · split at hstep <;> cases hstep
    exact quiet_destroyer hbefore (by simp) (by simp)
  · cases hstep

/-- The effects are all that a step can have. -/
theorem step_effects {a : Action R} (hstep : step s a = some t) : Effect s a t := by
  cases a with
  | pushBack record =>
      simp only [step] at hstep
      split at hstep <;> cases hstep
      exact .pushBack record
  | bgThread => exact .quiet (quiet_bgThread hstep) (by simp)
  | destructor ec => exact .quiet (quiet_destructor hstep) (by simp)
  | size th =>
      simp only [step] at hstep
      split at hstep <;> cases hstep
      rename_i hdrain
      exact .quiet (quiet_size hdrain) (by simp)
  | front th =>
      simp only [step, State.front] at hstep
      split at hstep
      · rename_i hdrain
        split at hstep <;> cases hstep
        rename_i hqueue
        exact .front hqueue hdrain
      · cases hstep
  | produce th ec =>
      simp only [step] at hstep
      split at hstep
      · rename_i hdrain
        split at hstep <;> cases hstep
        cases ec with
        | noError => exact .accept hdrain
        | queueFull => exact .quiet (quiet_leaveProcess (by simp [hdrain])) (by simp)
        | other => exact .quiet (quiet_leaveProcess (by simp [hdrain])) (by simp)
      · cases hstep
  | popFront th =>
      simp only [step, State.popFront] at hstep
      split at hstep
      · rename_i hdrain
        split at hstep <;> cases hstep
        rename_i hqueue
        exact .popFront hqueue hdrain
      · cases hstep

end BbMonitor.KafkaSink
