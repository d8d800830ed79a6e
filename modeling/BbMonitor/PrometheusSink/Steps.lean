import BbMonitor.PrometheusSink.Model

/-!
# The steps of the exporter, branch by branch

`Step` lists what the functions of `Model.lean` can do to a state, with the
guards under which they do it; `step_branches` says that the list is complete.
Every invariant of the exporter is proved by a case analysis over `Step`.
-/

namespace BbMonitor.PrometheusSink

variable {config : Config}

inductive Step (config : Config) (s : State) : Action → State → Prop where
  | enqueue (value : Option BbAvroMetric) : Step config s (.enqueue value) (s.enqueue value)
  | processNothing (hpending : s.pendingForDelete = []) : Step config s .process s
  | processOne {e : Event} {rest : List Event} (hpending : s.pendingForDelete = e :: rest) :
      Step config s .process
        { s with pendingForDelete := rest, released := s.released ++ [e] }
  | setExit : Step config s .setExit { s with exit := true }
  | close : Step config s .close { s with closed := true }
  | startRunning : Step config s .startRunning { s with startRunning := true }
  | leave {now : Int64} (hphase : s.phase = .top) :
      Step config s (.top now) { s with phase := .exited }
  | idle {now : Int64} (hphase : s.phase = .top) : Step config s (.top now) s
  | beginBatch {now : Int64} (hphase : s.phase = .top) (hqueue : s.queue ≠ []) :
      Step config s (.top now)
        { s with prequest := [], phase := .building (State.minTs config now) }
  | take {minTs : Int64} {msg : Event} {rest : List Event} (hphase : s.phase = .building minTs)
      (hqueue : s.queue = msg :: rest) (hsize : s.inBatch.length < config.batchSize) :
      Step config s .build
        { s with queue := rest, inBatch := s.inBatch ++ [msg],
                 prequest := s.prequest ++ (msg.item minTs).toList,
                 considered := s.considered ++ [(msg, minTs)] }
  | send {minTs : Int64} (hphase : s.phase = .building minTs) (hrequest : s.prequest ≠ []) :
      Step config s .build { s with phase := .retrying, requests := s.requests ++ [s.prequest] }
  | nothingToSend {minTs : Int64} (hphase : s.phase = .building minTs)
      (hrequest : s.prequest = []) :
      Step config s .build { s with phase := .handingOver }
  | giveUp (hphase : s.phase = .retrying) (hexit : s.exit = true) :
      Step config s .retry { s with phase := .handingOver }
  | perform (hphase : s.phase = .retrying) (hexit : s.exit = false) :
      Step config s .retry { s with phase := .inFlight }
  | answer {res : Outcome} (hphase : s.phase = .inFlight) (hres : res ≠ .transportFailure) :
      Step config s (.outcome res)
        { s with phase := .handingOver, answered := s.answered ++ [s.prequest] }
  | noAnswer (hphase : s.phase = .inFlight) :
      Step config s (.outcome .transportFailure) { s with phase := .retrying }
  | handOverOne {e : Event} {rest : List Event} (hphase : s.phase = .handingOver)
      (hinBatch : s.inBatch = e :: rest) :
      Step config s .handOver
        { s with inBatch := rest, pendingForDelete := s.pendingForDelete ++ [e] }
  | handOverDone (hphase : s.phase = .handingOver) (hinBatch : s.inBatch = []) :
      Step config s .handOver { s with phase := .top }

variable {s t : State}

theorem top_branches (config : Config) (hphase : s.phase = .top) (now : Int64) :
    Step config s (.top now) (s.top config now) := by
  unfold State.top
  split
  · exact .leave hphase
  · split
    · exact .leave hphase
    · split
      · exact .idle hphase
      · split
        · exact .idle hphase
        · rename_i hqueue
          refine .beginBatch hphase ?_
          intro hnil
          simp [hnil] at hqueue

theorem endBuild_branches (config : Config) {minTs : Int64} (hphase : s.phase = .building minTs) :
    Step config s .build s.endBuild := by
  unfold State.endBuild
  split
  · rename_i hrequest
    exact .send hphase (List.ne_nil_of_length_pos hrequest)
  · rename_i hrequest
    exact .nothingToSend hphase (List.length_eq_zero_iff.mp (Nat.eq_zero_of_not_pos hrequest))

theorem build_branches {minTs : Int64} (hphase : s.phase = .building minTs) :
    Step config s .build (s.build config minTs) := by
  unfold State.build
  split
  · rename_i msg rest hqueue
    split
    · rename_i hsize
      exact .take hphase hqueue hsize
    · exact endBuild_branches config hphase
  · exact endBuild_branches config hphase

theorem step_branches {a : Action} (hstep : step config s a = some t) : Step config s a t := by
  cases a with
  | enqueue value =>
      cases hstep
      exact .enqueue value
  | process =>
      cases hstep
      unfold State.process
      split
      · rename_i hpending
        exact .processNothing hpending
      · rename_i hpending
        exact .processOne hpending
  | setExit =>
      cases hstep
      exact .setExit
  | close =>
      cases hstep
      exact .close
  | startRunning =>
      cases hstep
      exact .startRunning
  | top now =>
      obtain ⟨hphase, ht⟩ := Option.ite_none_right_eq_some.mp hstep
      cases ht
      exact top_branches config hphase now
  | build =>
      cases hphase : s.phase with
      | building minTs =>
          simp only [step, hphase, Option.some.injEq] at hstep
          rw [← hstep]
          exact build_branches hphase
      | _ => simp [step, hphase] at hstep
  | retry =>
      obtain ⟨hphase, ht⟩ := Option.ite_none_right_eq_some.mp hstep
      cases ht
      unfold State.retry
      split
      · rename_i hexit
        exact .giveUp hphase hexit
      · rename_i hexit
        exact .perform hphase (Bool.eq_false_iff.mpr hexit)
  | outcome res =>
      obtain ⟨hphase, ht⟩ := Option.ite_none_right_eq_some.mp hstep
      cases ht
      cases res with
      | transportFailure => exact .noAnswer hphase
      | httpError | ok => exact .answer hphase (by simp)
  | handOver =>
      obtain ⟨hphase, ht⟩ := Option.ite_none_right_eq_some.mp hstep
      cases ht
      unfold State.handOver
      split
      · rename_i hinBatch
        exact .handOverOne hphase hinBatch
      · rename_i hinBatch
        exact .handOverDone hphase hinBatch

/-- What every branch keeps holds in every reachable state. -/
theorem reachable_of_branches {P : State → Prop} (hinit : P State.init)
    (hstep : ∀ s a t, P s → Step config s a t → P t)
    (hreach : (machine config).Reachable s) : P s :=
  Machine.reachable_invariant hinit (fun s a t hs ht => hstep s a t hs (step_branches ht)) hreach

/-- Every time the run is at the head of the retry loop, `exit_` is not set. -/
def Undisturbed (config : Config) (actions : List Action) : Prop :=
  ∀ s t, (machine config).Takes actions s .retry t → s.exit = false

/-- What every branch but `giveUp` keeps holds along an undisturbed run. -/
theorem visits_of_branches {P : State → Prop} {actions : List Action} (hinit : P State.init)
    (hstep : ∀ s a t, P s → (a = .retry → s.exit = false) → Step config s a t → P t)
    (hundisturbed : Undisturbed config actions) (hvisits : (machine config).Visits actions s) :
    P s := by
  refine Machine.visits_of_guarded (G := fun s a => a = .retry → s.exit = false) hinit
    (fun s a t _ hs hexit ht => hstep s a t hs hexit (step_branches ht)) ?_ hvisits
  intro s a t htakes hretry
  subst hretry
  exact hundisturbed s t htakes

/-- A run in which the destructor does not start is undisturbed. -/
theorem undisturbed_of_running {actions : List Action} (hrunning : .setExit ∉ actions) :
    Undisturbed config actions := by
  intro s t htakes
  refine Machine.visits_of_guarded (P := fun s => s.exit = false)
    (G := fun _ a => a ≠ .setExit) rfl ?_ ?_ htakes.visits_before
  · intro s a t _ hexit ha hstep
    cases step_branches hstep with
    | setExit => exact absurd rfl ha
    | _ => exact hexit
  · rintro s a t htakes rfl
    exact hrunning htakes.mem_actions

end BbMonitor.PrometheusSink
