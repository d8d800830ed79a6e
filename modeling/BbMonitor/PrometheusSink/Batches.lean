import BbMonitor.Lib.History
import BbMonitor.PrometheusSink.Steps

/-!
# What the exporter sends

Without an age limit, the requests that the exporter builds hold, one after the
other, the series of the events in their order of arrival.  `requests_flatten`
says so of every run that has emptied the queue, and `exists_exports` that there
is such a run for every list of values, if the batch size is not 0.
-/

namespace BbMonitor.PrometheusSink

open Prompb (TimeSeries)

variable {config : Config} {s t : State}

/-! ## The order of the series -/

/-- The request that is being filled. -/
def State.unfinished (s : State) : Request :=
  match s.phase with
  | .building _ => s.prequest
  | _ => []

/-- The invariant of the order of the series. -/
structure Ordered (s : State) : Prop where
  taken : s.considered.map Prod.fst ++ s.queue = s.enqueued
  sent : s.requests.flatten ++ s.unfinished = s.considered.filterMap fun x => x.1.item x.2

theorem ordered_step {a : Action} (hordered : Ordered s) (hstep : Step config s a t) :
    Ordered t := by
  obtain ⟨htaken, hsent⟩ := hordered
  cases hstep with
  | enqueue value =>
      refine ⟨?_, hsent⟩
      simp only [State.enqueue, ← List.append_assoc, htaken]
  | processNothing | processOne | setExit | close | startRunning | idle =>
      exact ⟨htaken, hsent⟩
  | @take minTs msg rest hphase hqueue hsize =>
      simp only [State.unfinished, hphase] at hsent
      refine ⟨?_, ?_⟩
      · simpa [hqueue] using htaken
      · simp only [State.unfinished, hphase]
        rw [History.filterMap_concat, ← hsent, List.append_assoc]
  | send hphase hrequest =>
      simp only [State.unfinished, hphase] at hsent
      exact ⟨htaken, by simpa [State.unfinished] using hsent⟩
  | nothingToSend hphase hrequest =>
      simp only [State.unfinished, hphase, hrequest] at hsent
      exact ⟨htaken, hsent⟩
  | leave hphase | beginBatch hphase | giveUp hphase | perform hphase | answer hphase
  | noAnswer hphase | handOverOne hphase | handOverDone hphase =>
      simp only [State.unfinished, hphase] at hsent
      exact ⟨htaken, by simpa [State.unfinished, hphase] using hsent⟩

theorem ordered_of_reachable (hreach : (machine config).Reachable s) : Ordered s :=
  reachable_of_branches ⟨rfl, rfl⟩ (fun _ _ _ hs ht => ordered_step hs ht) hreach

/-! ## The age limit -/

/-- Without an age limit, events are considered with a `min_ts` of 0. -/
structure Ageless (s : State) : Prop where
  considered : ∀ x ∈ s.considered, x.2 = 0
  building : ∀ minTs, s.phase = .building minTs → minTs = 0

theorem ageless_step (hage : ¬ config.maxExportedAge > 0) {a : Action} (hageless : Ageless s)
    (hstep : Step config s a t) : Ageless t := by
  obtain ⟨hconsidered, hbuilding⟩ := hageless
  cases hstep with
  | enqueue | processNothing | processOne | setExit | close | startRunning | idle =>
      exact ⟨hconsidered, hbuilding⟩
  | beginBatch hphase hqueue =>
      refine ⟨hconsidered, ?_⟩
      intro minTs hminTs
      cases hminTs
      exact if_neg hage
  | @take minTs msg rest hphase hqueue hsize =>
      refine ⟨?_, hbuilding⟩
      intro x hmem
      rcases List.mem_append.mp hmem with hold | hnew
      · exact hconsidered x hold
      · rw [List.mem_singleton.mp hnew]
        exact hbuilding minTs hphase
  | handOverOne hphase => exact ⟨hconsidered, hbuilding⟩
  | _ => exact ⟨hconsidered, fun minTs hminTs => by cases hminTs⟩

theorem ageless_of_reachable (hage : ¬ config.maxExportedAge > 0)
    (hreach : (machine config).Reachable s) : Ageless s := by
  refine reachable_of_branches ⟨?_, ?_⟩ (fun _ _ _ hs ht => ageless_step hage hs ht) hreach
  · intro x hmem
    cases hmem
  · intro minTs hminTs
    cases hminTs

/-- Once the queue is empty and no batch is being filled, the requests hold the
series of all events, in the order of arrival. -/
theorem requests_flatten (hage : ¬ config.maxExportedAge > 0)
    (hreach : (machine config).Reachable s) (hqueue : s.queue = [])
    (hphase : ∀ minTs, s.phase ≠ .building minTs) :
    s.requests.flatten.map Prod.snd = s.enqueued.filterMap fun e => e.series 0 := by
  obtain ⟨htaken, hsent⟩ := ordered_of_reachable hreach
  obtain ⟨hconsidered, -⟩ := ageless_of_reachable hage hreach
  have hunfinished : s.unfinished = [] := by
    unfold State.unfinished
    split
    · rename_i minTs hbuilding
      exact absurd hbuilding (hphase minTs)
    · rfl
  rw [hunfinished, List.append_nil] at hsent
  rw [hqueue, List.append_nil] at htaken
  rw [hsent, ← htaken, List.map_filterMap, List.filterMap_map]
  apply List.filterMap_congr
  intro x hmem
  simp only [Function.comp_apply, hconsidered x hmem, Event.item, Option.map_map]
  exact Option.map_id'

/-! ## The answers -/

/-- The requests that were built and not answered yet. -/
def State.outstanding (s : State) : List Request :=
  match s.phase with
  | .retrying => [s.prequest]
  | .inFlight => [s.prequest]
  | _ => []

theorem outstanding_step {a : Action} (hanswered : s.answered ++ s.outstanding = s.requests)
    (hretry : a = .retry → s.exit = false) (hstep : Step config s a t) :
    t.answered ++ t.outstanding = t.requests := by
  cases hstep with
  | enqueue | processNothing | processOne | setExit | close | startRunning | idle =>
      exact hanswered
  | giveUp hphase hexit =>
      rw [hretry rfl] at hexit
      cases hexit
  | leave hphase | beginBatch hphase | take hphase | send hphase | nothingToSend hphase
  | perform hphase | answer hphase | noAnswer hphase | handOverOne hphase
  | handOverDone hphase =>
      simp only [State.outstanding, hphase] at hanswered ⊢
      simp [← hanswered]

/-- Along an undisturbed run every request that is not being sent was answered. -/
theorem answered_eq_requests {actions : List Action} (hundisturbed : Undisturbed config actions)
    (hvisits : (machine config).Visits actions s) (hsettled : s.outstanding = []) :
    s.answered = s.requests := by
  have hanswered : s.answered ++ s.outstanding = s.requests :=
    visits_of_branches (P := fun s => s.answered ++ s.outstanding = s.requests) rfl
      (fun s a t hs hretry ht => outstanding_step hs hretry ht) hundisturbed hvisits
  rwa [hsettled, List.append_nil] at hanswered

/-! ## Runs that empty the queue -/

/-- The run gives the exporter these values and comes to a state in which it has
taken all of them and finished its batches. -/
structure Exports (config : Config) (actions : List Action) (values : List (Option BbAvroMetric))
    (s : State) : Prop where
  run : (machine config).exec State.init actions = some s
  given : s.enqueued.map Event.value = values
  taken : s.queue = []
  finished : s.phase = .top ∨ s.phase = .exited

theorem Exports.unfilled {actions : List Action} {values : List (Option BbAvroMetric)}
    (hexports : Exports config actions values s) (minTs : Int64) : s.phase ≠ .building minTs := by
  rcases hexports.finished with hphase | hphase <;> simp [hphase]

theorem Exports.settled {actions : List Action} {values : List (Option BbAvroMetric)}
    (hexports : Exports config actions values s) : s.outstanding = [] := by
  rcases hexports.finished with hphase | hphase <;> simp [State.outstanding, hphase]

/-- The exporter runs, and has been given these values. -/
structure Running (values : List (Option BbAvroMetric)) (s : State) : Prop where
  exit : s.exit = false
  closed : s.closed = false
  startRunning : s.startRunning = true
  given : s.enqueued.map Event.value = values
  batch : match s.phase with
    | .top => s.inBatch = []
    | .building _ => s.inBatch = [] → s.queue ≠ []
    | .exited => False
    | _ => True

/-- Decreases with every step of the thread: filling a batch weighs more than
sending it, and an event in the queue weighs more than one in the batch. -/
def variant (s : State) : ℕ :=
  match s.phase with
  | .top => 7 * s.queue.length
  | .building _ => 7 * s.queue.length + 6 * s.inBatch.length - 1
  | .retrying => 7 * s.queue.length + s.inBatch.length + 3
  | .inFlight => 7 * s.queue.length + s.inBatch.length + 2
  | .handingOver => 7 * s.queue.length + s.inBatch.length + 1
  | .exited => 0

theorem exists_step_top {values : List (Option BbAvroMetric)} (hrunning : Running values s)
    (hphase : s.phase = .top) (hqueue : s.queue ≠ []) :
    ∃ a t, a ≠ .setExit ∧ step config s a = some t ∧ Running values t ∧
      variant t < variant s := by
  have hpos : 0 < s.queue.length := List.length_pos_iff.mpr hqueue
  have hinBatch : s.inBatch = [] := by simpa [hphase] using hrunning.batch
  have hnonempty : s.queue.isEmpty = false := List.isEmpty_eq_false_iff.mpr hqueue
  refine ⟨.top 0, { s with prequest := [], phase := .building (State.minTs config 0) },
    by simp, ?_, ?_, ?_⟩
  · simp [step, hphase, State.top, hrunning.exit, hrunning.closed, hrunning.startRunning,
      hnonempty]
  · exact { hrunning with batch := fun _ => hqueue }
  · simp only [variant, hphase, hinBatch, List.length_nil]
    omega

theorem exists_step_building (hbatchSize : 1 ≤ config.batchSize)
    {values : List (Option BbAvroMetric)} (hrunning : Running values s) {minTs : Int64}
    (hphase : s.phase = .building minTs) :
    ∃ a t, a ≠ .setExit ∧ step config s a = some t ∧ Running values t ∧
      variant t < variant s := by
  refine ⟨.build, s.build config minTs, by simp, by simp [step, hphase], ?_⟩
  -- The loop ends with something in the batch.
  have hend : s.inBatch ≠ [] → Running values s.endBuild ∧ variant s.endBuild < variant s := by
    intro hinBatch
    have hpos : 0 < s.inBatch.length := List.length_pos_iff.mpr hinBatch
    unfold State.endBuild
    split
    · refine ⟨{ hrunning with batch := trivial }, ?_⟩
      simp only [variant, hphase]
      omega
    · refine ⟨{ hrunning with batch := trivial }, ?_⟩
      simp only [variant, hphase]
      omega
  cases hqueue : s.queue with
  | nil =>
      simp only [State.build, hqueue]
      apply hend
      intro hinBatch
      have hbatch := hrunning.batch
      simp only [hphase] at hbatch
      exact hbatch hinBatch hqueue
  | cons msg rest =>
      by_cases hsize : s.inBatch.length < config.batchSize
      · simp only [State.build, hqueue, if_pos hsize]
        refine ⟨{ hrunning with batch := by simp [hphase] }, ?_⟩
        simp only [variant, hphase, hqueue, List.length_append, List.length_cons, List.length_nil]
        omega
      · simp only [State.build, hqueue, if_neg hsize]
        apply hend
        intro hinBatch
        rw [hinBatch] at hsize
        exact hsize hbatchSize

theorem exists_step_sending {values : List (Option BbAvroMetric)} (hrunning : Running values s)
    (hphase : s.phase = .retrying ∨ s.phase = .inFlight ∨ s.phase = .handingOver) :
    ∃ a t, a ≠ .setExit ∧ step config s a = some t ∧ Running values t ∧
      variant t < variant s := by
  rcases hphase with hphase | hphase | hphase
  · refine ⟨.retry, { s with phase := .inFlight }, by simp, ?_, ?_, ?_⟩
    · simp [step, hphase, State.retry, hrunning.exit]
    · exact { hrunning with batch := trivial }
    · simp only [variant, hphase]
      omega
  · refine ⟨.outcome .ok, s.outcome .ok, by simp, by simp [step, hphase], ?_, ?_⟩
    · exact { hrunning with batch := trivial }
    · simp only [variant, State.outcome, hphase]
      omega
  · refine ⟨.handOver, s.handOver, by simp, by simp [step, hphase], ?_⟩
    unfold State.handOver
    split
    · rename_i e rest hinBatch
      refine ⟨{ hrunning with batch := by simp [hphase] }, ?_⟩
      simp only [variant, hphase, hinBatch, List.length_cons]
      omega
    · rename_i hinBatch
      refine ⟨{ hrunning with batch := hinBatch }, ?_⟩
      simp only [variant, hphase, hinBatch, List.length_nil]
      omega

theorem exists_step (hbatchSize : 1 ≤ config.batchSize) {values : List (Option BbAvroMetric)}
    (hrunning : Running values s) (hunfinished : ¬ (s.queue = [] ∧ s.phase = .top)) :
    ∃ a t, a ≠ .setExit ∧ step config s a = some t ∧ Running values t ∧
      variant t < variant s := by
  cases hphase : s.phase with
  | top => exact exists_step_top hrunning hphase fun hqueue => hunfinished ⟨hqueue, hphase⟩
  | building minTs => exact exists_step_building hbatchSize hrunning hphase
  | retrying => exact exists_step_sending hrunning (Or.inl hphase)
  | inFlight => exact exists_step_sending hrunning (Or.inr (Or.inl hphase))
  | handingOver => exact exists_step_sending hrunning (Or.inr (Or.inr hphase))
  | exited =>
      have hbatch := hrunning.batch
      simp only [hphase] at hbatch

theorem exec_enqueue (values : List (Option BbAvroMetric)) {given : List (Option BbAvroMetric)}
    (hrunning : Running given s) (hphase : s.phase = .top) :
    ∃ t, (machine config).exec s (values.map .enqueue) = some t ∧
      Running (given ++ values) t := by
  induction values generalizing s given with
  | nil => exact ⟨s, rfl, by rwa [List.append_nil]⟩
  | cons value rest ih =>
      have henqueued : Running (given ++ [value]) (s.enqueue value) :=
        { hrunning with
          given := by simp [State.enqueue, hrunning.given]
          batch := by simpa [State.enqueue, hphase] using hrunning.batch }
      obtain ⟨t, hexec, ht⟩ := ih henqueued hphase
      refine ⟨t, Machine.exec_cons rfl hexec, ?_⟩
      rwa [List.append_assoc] at ht

/-- Whatever the values, there is a run that takes all of them, without the
destructor. -/
theorem exists_exports (hbatchSize : 1 ≤ config.batchSize)
    (values : List (Option BbAvroMetric)) :
    ∃ actions s, Undisturbed config actions ∧ Exports config actions values s := by
  have hstarted : Running [] { State.init with startRunning := true } :=
    { exit := rfl
      closed := rfl
      startRunning := rfl
      given := rfl
      batch := rfl }
  obtain ⟨u, hgiven, hu⟩ := @exec_enqueue config _ values [] hstarted rfl
  obtain ⟨actions, t, hactions, hexec, ht, hqueue, hphase⟩ :=
    Machine.exists_exec_of_variant (M := machine config) (A := (· ≠ .setExit)) variant
      (fun _ => exists_step hbatchSize) hu
  refine ⟨(.startRunning :: values.map .enqueue) ++ actions, t, ?_, ?_, ht.given, hqueue,
    Or.inl hphase⟩
  · apply undisturbed_of_running
    intro hmem
    rcases List.mem_append.mp hmem with hmem | hmem
    · simp at hmem
    · exact hactions _ hmem rfl
  · rw [Machine.exec_append (Machine.exec_cons rfl hgiven), hexec]

end BbMonitor.PrometheusSink
