import BbMonitor.PrometheusSink.Steps

/-!
# What the exporter releases

An event may go to `pending_for_delete_` when there is nothing to export for it
(its value is null, too old or not a finite number), or when the server has
answered the request that its series is in.  `released_rightly` shows that the
exporter keeps to this as long as `exit_` is not set while a request is being
retried.  When it is, the inner loop is left without an answer and falls through
to the loop that hands the batch over, so the batch is released unsent;
`shutdownRun` does so.
-/

namespace BbMonitor.PrometheusSink

variable {config : Config} {s t : State}

/-! ## Skipped events -/

/-- The record is null, too old, or its value is not a finite number. -/
def Event.Skipped (e : Event) (minTs : Int64) : Prop :=
  match e.value with
  | none => True
  | some metrics =>
      metrics.timestamp ≤ minTs ∨ (metricsValue metrics.value).isFinite = false

theorem series_eq_none_iff {e : Event} {minTs : Int64} :
    e.series minTs = none ↔ e.Skipped minTs := by
  unfold Event.series Event.Skipped
  cases e.value with
  | none => simp
  | some metrics =>
      by_cases hold : metrics.timestamp ≤ minTs
      · simp [hold]
      · simp [hold]

/-- A record with an integer is only skipped for its age. -/
theorem skipped_long_iff {e : Event} {minTs : Int64} {metrics : BbAvroMetric} {v : Int64}
    (hvalue : e.value = some metrics) (hlong : metrics.value = .long v) :
    e.Skipped minTs ↔ metrics.timestamp ≤ minTs := by
  simp [Event.Skipped, hvalue, hlong, metricsValue, Double.isFinite_ofInt64]

/-- A record with a position is always skipped. -/
theorem skipped_pos {e : Event} {minTs : Int64} {metrics : BbAvroMetric} {lat lon : Double}
    (hvalue : e.value = some metrics) (hpos : metrics.value = .pos lat lon) :
    e.Skipped minTs := by
  have hnan : Double.nan.isFinite = false := by decide
  simp [Event.Skipped, hvalue, hpos, metricsValue, hnan]

/-! ## When an event may be released -/

/-- The event was filtered out when it was taken from the queue. -/
def State.Filtered (s : State) (e : Event) : Prop :=
  ∃ minTs, (e, minTs) ∈ s.considered ∧ e.Skipped minTs

/-- The series of the event is in the request. -/
def State.InRequest (s : State) (e : Event) (request : Request) : Prop :=
  ∃ minTs series, (e, minTs) ∈ s.considered ∧ e.series minTs = some series ∧
    (e.arrival, series) ∈ request

/-- The server answered a request with the series of the event. -/
def State.Answered (s : State) (e : Event) : Prop :=
  ∃ request ∈ s.answered, s.InRequest e request

/-- What is known of the batch, by where the thread stands. -/
def State.BatchMatches (s : State) : Prop :=
  match s.phase with
  | .top => s.inBatch = []
  | .building _ => ∀ e ∈ s.inBatch, s.Filtered e ∨ s.InRequest e s.prequest
  | .retrying => ∀ e ∈ s.inBatch, s.Filtered e ∨ s.InRequest e s.prequest
  | .inFlight => ∀ e ∈ s.inBatch, s.Filtered e ∨ s.InRequest e s.prequest
  | .handingOver => ∀ e ∈ s.inBatch, s.Filtered e ∨ s.Answered e
  | .exited => True

/-- The invariant behind the release. -/
structure Rightful (s : State) : Prop where
  released : ∀ e ∈ s.pendingForDelete ++ s.released, s.Filtered e ∨ s.Answered e
  batch : s.BatchMatches

theorem rightful_init : Rightful State.init := by
  refine ⟨?_, rfl⟩
  intro e hmem
  cases hmem

/-- An event that is taken is filtered out, or its series goes to the request. -/
theorem filtered_or_inRequest_of_take (s : State) (e : Event) (minTs : Int64)
    (hconsidered : (e, minTs) ∈ s.considered) :
    s.Filtered e ∨ s.InRequest e (e.item minTs).toList := by
  cases hseries : e.series minTs with
  | none => exact Or.inl ⟨minTs, hconsidered, series_eq_none_iff.mp hseries⟩
  | some series =>
      refine Or.inr ⟨minTs, series, hconsidered, hseries, ?_⟩
      simp [Event.item, hseries]

theorem rightful_take (hright : Rightful s) {minTs : Int64} {msg : Event} {rest : List Event}
    (hphase : s.phase = .building minTs) :
    Rightful { s with queue := rest, inBatch := s.inBatch ++ [msg],
                      prequest := s.prequest ++ (msg.item minTs).toList,
                      considered := s.considered ++ [(msg, minTs)] } := by
  set t : State := { s with queue := rest, inBatch := s.inBatch ++ [msg],
                            prequest := s.prequest ++ (msg.item minTs).toList,
                            considered := s.considered ++ [(msg, minTs)] } with ht
  have hfiltered : ∀ e, s.Filtered e → t.Filtered e := by
    rintro e ⟨minTs', hconsidered, hskipped⟩
    exact ⟨minTs', List.mem_append_left _ hconsidered, hskipped⟩
  have hgrows : ∀ e (request request' : Request), (∀ x ∈ request, x ∈ request') →
      s.InRequest e request → t.InRequest e request' := by
    rintro e request request' hsubset ⟨minTs', series, hconsidered, hseries, hmem⟩
    exact ⟨minTs', series, List.mem_append_left _ hconsidered, hseries, hsubset _ hmem⟩
  have hbatch := hright.batch
  simp only [State.BatchMatches, hphase] at hbatch
  refine ⟨?_, ?_⟩
  · intro e hmem
    rcases hright.released e hmem with hskipped | ⟨request, hanswered, hin⟩
    · exact Or.inl (hfiltered e hskipped)
    · exact Or.inr ⟨request, hanswered, hgrows e request request (fun _ hx => hx) hin⟩
  · simp only [State.BatchMatches, ht, hphase, List.mem_append, List.mem_singleton]
    rintro e (hmem | rfl)
    · exact (hbatch e hmem).imp (hfiltered e)
        (hgrows e _ _ fun _ hx => List.mem_append_left _ hx)
    · have hnew := filtered_or_inRequest_of_take t e minTs
        (List.mem_append_right _ (List.mem_singleton_self _))
      refine hnew.imp_right ?_
      rintro ⟨minTs', series, hconsidered, hseries, hmem⟩
      exact ⟨minTs', series, hconsidered, hseries, List.mem_append_right _ hmem⟩

theorem rightful_answer (hright : Rightful s) (hphase : s.phase = .inFlight) :
    Rightful { s with phase := .handingOver, answered := s.answered ++ [s.prequest] } := by
  have hbatch := hright.batch
  simp only [State.BatchMatches, hphase] at hbatch
  refine ⟨?_, ?_⟩
  · intro e hmem
    refine (hright.released e hmem).imp_right ?_
    rintro ⟨request, hanswered, hin⟩
    exact ⟨request, List.mem_append_left _ hanswered, hin⟩
  · intro e hmem
    refine (hbatch e hmem).imp_right ?_
    intro hin
    exact ⟨s.prequest, List.mem_append_right _ (List.mem_singleton_self _), hin⟩

theorem rightful_handOverOne (hright : Rightful s) (hphase : s.phase = .handingOver)
    {e : Event} {rest : List Event} (hinBatch : s.inBatch = e :: rest) :
    Rightful { s with inBatch := rest, pendingForDelete := s.pendingForDelete ++ [e] } := by
  have hbatch := hright.batch
  simp only [State.BatchMatches, hphase, hinBatch] at hbatch
  refine ⟨?_, ?_⟩
  · intro e' hmem
    simp only [List.mem_append, List.mem_singleton] at hmem
    rcases hmem with (hold | rfl) | hold
    · exact hright.released e' (List.mem_append_left _ hold)
    · exact hbatch e' (List.mem_cons_self ..)
    · exact hright.released e' (List.mem_append_right _ hold)
  · simp only [State.BatchMatches, hphase]
    intro e' hmem
    exact hbatch e' (List.mem_cons_of_mem _ hmem)

theorem rightful_step {a : Action} (hright : Rightful s) (hretry : a = .retry → s.exit = false)
    (hstep : Step config s a t) : Rightful t := by
  obtain ⟨hreleased, hbatch⟩ := hright
  cases hstep with
  | enqueue | processNothing | setExit | close | startRunning | idle =>
      exact ⟨hreleased, hbatch⟩
  | processOne hpending =>
      refine ⟨?_, hbatch⟩
      intro e hmem
      apply hreleased e
      simp only [hpending, List.mem_append, List.mem_cons, List.not_mem_nil, or_false] at hmem ⊢
      tauto
  | leave hphase => exact ⟨hreleased, trivial⟩
  | beginBatch hphase hqueue =>
      simp only [State.BatchMatches, hphase] at hbatch
      refine ⟨hreleased, ?_⟩
      simp [State.BatchMatches, hbatch]
  | take hphase hqueue hsize => exact rightful_take ⟨hreleased, hbatch⟩ hphase
  | send hphase hrequest =>
      simp only [State.BatchMatches, hphase] at hbatch
      exact ⟨hreleased, hbatch⟩
  | nothingToSend hphase hrequest =>
      simp only [State.BatchMatches, hphase, hrequest] at hbatch
      refine ⟨hreleased, ?_⟩
      intro e hmem
      refine (hbatch e hmem).imp_right ?_
      rintro ⟨minTs, series, -, -, hnil⟩
      cases hnil
  | giveUp hphase hexit =>
      rw [hretry rfl] at hexit
      cases hexit
  | perform hphase hexit | noAnswer hphase =>
      simp only [State.BatchMatches, hphase] at hbatch
      exact ⟨hreleased, hbatch⟩
  | answer hphase hres => exact rightful_answer ⟨hreleased, hbatch⟩ hphase
  | handOverOne hphase hinBatch => exact rightful_handOverOne ⟨hreleased, hbatch⟩ hphase hinBatch
  | handOverDone hphase hinBatch => exact ⟨hreleased, hinBatch⟩

/-! ## The statement -/

/-- Along a run in which the retry loop is never left for `exit_`, whatever is in
`pending_for_delete_` or was released from there had been filtered out, or the
server had answered the request with its series. -/
theorem released_rightly {actions : List Action} (hundisturbed : Undisturbed config actions)
    (hvisits : (machine config).Visits actions s) :
    ∀ e ∈ s.pendingForDelete ++ s.released, s.Filtered e ∨ s.Answered e := by
  have hright : Rightful s :=
    visits_of_branches rightful_init (fun s a t hs hretry ht => rightful_step hs hretry ht)
      hundisturbed hvisits
  exact hright.released

/-- `up 1`, of the year 1970. -/
def up : BbAvroMetric := ⟨[], bytes "up", [], .long 1, 1⟩

/-- A null event and a record; the first try of their request fails, the second
is answered, and one event is released before the other is handed over. -/
def retriedRun : List Action :=
  [.enqueue none, .enqueue (some up), .startRunning, .top 5, .build, .build, .build, .retry,
    .outcome .transportFailure, .retry, .outcome .httpError, .handOver, .process, .handOver]

theorem retriedRun_released_rightly :
    ∃ s, (machine ⟨10, 0⟩).Visits retriedRun s ∧ s.released = [⟨0, none⟩] ∧
      s.pendingForDelete = [⟨1, some up⟩] ∧
      ∀ e ∈ s.pendingForDelete ++ s.released, s.Filtered e ∨ s.Answered e := by
  have hrun : ((machine ⟨10, 0⟩).exec State.init retriedRun).map
      (fun s => (s.released, s.pendingForDelete)) =
        some ([⟨0, none⟩], [⟨1, some up⟩]) := by
    decide
  obtain ⟨s, hexec, hplaces⟩ := Option.map_eq_some_iff.mp hrun
  obtain ⟨hreleased, hpending⟩ := Prod.mk.inj hplaces
  have hvisits : (machine ⟨10, 0⟩).Visits retriedRun s := Machine.visits_of_exec hexec
  exact ⟨s, hvisits, hreleased, hpending,
    released_rightly (undisturbed_of_running (by decide)) hvisits⟩

/-! ## Shutdown while a request is retried -/

/-- The destructor runs after the first try of a request has failed. -/
def shutdownRun : List Action :=
  [.enqueue (some up), .startRunning, .top 5, .build, .build, .retry,
    .outcome .transportFailure, .setExit, .retry, .handOver]

/-- The record is handed over, and no request was answered. -/
theorem shutdownRun_released :
    ¬ ∀ (config : Config) (actions : List Action) (s : State),
      (machine config).Visits actions s →
        ∀ e ∈ s.pendingForDelete ++ s.released, s.Filtered e ∨ s.Answered e := by
  intro hclaim
  have hrun : ((machine ⟨10, 0⟩).exec State.init shutdownRun).map
      (fun s => (s.pendingForDelete, s.considered, s.answered.length)) =
        some ([⟨0, some up⟩], [(⟨0, some up⟩, 0)], 0) := by
    decide
  obtain ⟨s, hexec, hplaces⟩ := Option.map_eq_some_iff.mp hrun
  simp only [Prod.mk.injEq] at hplaces
  obtain ⟨hpending, hconsidered, hanswered⟩ := hplaces
  have hmem : (⟨0, some up⟩ : Event) ∈ s.pendingForDelete ++ s.released := by simp [hpending]
  rcases hclaim ⟨10, 0⟩ shutdownRun s (Machine.visits_of_exec hexec) _ hmem with
    ⟨minTs, hmin, hskipped⟩ | ⟨request, hrequest, -⟩
  · simp only [hconsidered, List.mem_singleton, Prod.mk.injEq] at hmin
    rw [hmin.2, skipped_long_iff rfl rfl] at hskipped
    exact absurd hskipped (by decide)
  · rw [List.length_eq_zero_iff.mp hanswered] at hrequest
    cases hrequest

end BbMonitor.PrometheusSink
