import BbMonitor.ClientSinks.EndOfFile

/-!
# The thread gets on

Wherever the thread stands, some step of its own, or a round of `process`, or the success of
an RPC brings the events closer to their release.  `variant` weighs an event by where it is.
In `in_rpc` it weighs less than in the queue while the batch is on its way forward, and more
when the batch is put back.
-/

namespace BbMonitor.ClientSinks

variable {V : Type*} {config : Config} {s t : State V} {a : Action V}

/-- Nothing new comes, nothing is shut down and no RPC fails. -/
def Action.Calm : Action V → Prop
  | .enqueue _ => False
  | .setExit => False
  | .outcome ok => ok = true
  | _ => True

/-- What an event in `in_rpc` weighs. -/
def Phase.load : Phase → ℕ
  | .inFlight => 5
  | .handingOver => 4
  | .puttingBack => 13
  | _ => 10

/-- How far the thread is from the head of its loop. -/
def State.rest (s : State V) : ℕ :=
  match s.phase with
  | .top => if s.queue.isEmpty then 0 else 2
  | .building => 1
  | .inFlight => 4
  | .handingOver => 3
  | .puttingBack => 4
  | .purgeSize => 5
  | .purging _ => 4
  | .exited => 0

def variant (s : State V) : ℕ :=
  12 * s.queue.length + s.phase.load * s.inRpc.length + s.pendingForDelete.length + s.rest

/-- The queue is empty and everything was released, and the thread is at rest. -/
def State.Done (s : State V) : Prop :=
  s.phase = .top ∧ s.queue = [] ∧ s.pendingForDelete = []

/-- The thread runs. -/
def State.Running (s : State V) : Prop :=
  s.exit = false ∧ s.phase ≠ .exited

/-- A step of this kind is possible. -/
def Advances (config : Config) (s : State V) : Prop :=
  ∃ a t, a.Calm ∧ step config s a = some t ∧ t.Running ∧ t.enqueued = s.enqueued ∧
    variant t < variant s

theorem advances_top (hrunning : s.Running) (hphase : s.phase = .top)
    (hdone : ¬ s.Done) : Advances config s := by
  cases hqueue : s.queue with
  | nil =>
      cases hpending : s.pendingForDelete with
      | nil => exact absurd ⟨hphase, hqueue, hpending⟩ hdone
      | cons e rest =>
          refine ⟨.process, s.process, trivial, rfl, ?_⟩
          simp only [State.process, hpending]
          refine ⟨hrunning, trivial, ?_⟩
          simp only [variant, State.rest, hphase, hpending, List.length_cons]
          omega
  | cons e rest =>
      have hnonempty : s.queue.isEmpty = false := by rw [hqueue]; rfl
      refine ⟨.top s.nextRetryAt 0 0,
        { s with nextRetryAt := 0, bundle := [], phase := .building, taken := s.queue },
        trivial, ?_, ⟨hrunning.1, by rintro ⟨⟩⟩, rfl, ?_⟩
      · simp [step, hphase, State.top, hrunning.1, hnonempty]
      · simp only [variant, State.rest, Phase.load, hphase, hnonempty]
        simp

theorem advances_building (hbatchSize : 1 ≤ config.batchSize)
    (hreach : (machine V config).Reachable s) (hrunning : s.Running)
    (hphase : s.phase = .building) : Advances config s := by
  have hbundle : s.bundle = s.inRpc.filterMap Event.item := by
    have hmatches := (settlement_of_reachable hreach).inRpc
    simp only [State.InRpcMatches, hphase] at hmatches
    exact hmatches.1
  refine ⟨.build, s.build config, trivial, if_pos hphase, ?_⟩
  -- The loop ends with a bundle, or with an empty queue.
  have hend : s.bundle ≠ [] ∨ s.queue = [] →
      s.endBuild.Running ∧ s.endBuild.enqueued = s.enqueued ∧ variant s.endBuild < variant s := by
    intro hstop
    unfold State.endBuild
    split
    · rename_i hlength
      have hinRpc : 0 < s.inRpc.length := by
        rw [hbundle] at hlength
        exact lt_of_lt_of_le hlength (List.length_filterMap_le _ _)
      refine ⟨⟨hrunning.1, by rintro ⟨⟩⟩, rfl, ?_⟩
      simp only [variant, State.rest, Phase.load, hphase]
      omega
    · rename_i hlength
      have hempty : s.queue = [] :=
        hstop.resolve_left fun hne => hlength (List.length_pos_iff.mpr hne)
      refine ⟨⟨hrunning.1, by rintro ⟨⟩⟩, rfl, ?_⟩
      simp [variant, State.rest, Phase.load, hphase, hempty]
  cases hqueue : s.queue with
  | nil =>
      simp only [State.build, hqueue]
      exact hend (Or.inr hqueue)
  | cons e rest =>
      by_cases hsize : s.bundle.length < config.batchSize
      · simp only [State.build, hqueue, if_pos hsize]
        refine ⟨hrunning, trivial, ?_⟩
        simp only [variant, State.rest, Phase.load, hphase, hqueue, List.length_append,
          List.length_cons, List.length_nil]
        omega
      · simp only [State.build, hqueue, if_neg hsize]
        refine hend (Or.inl ?_)
        rintro hnil
        rw [hnil] at hsize
        exact hsize hbatchSize

/-- An RPC that succeeds brings the sink forward. -/
theorem variant_outcome (hphase : s.phase = .inFlight) : variant (s.outcome true) < variant s := by
  simp only [variant, State.rest, Phase.load, State.outcome, hphase, if_true]
  omega

theorem advances_sending (hrunning : s.Running)
    (hphase : s.phase = .inFlight ∨ s.phase = .puttingBack ∨ s.phase = .handingOver) :
    Advances config s := by
  rcases hphase with hphase | hphase | hphase
  · exact ⟨.outcome true, s.outcome true, rfl, if_pos hphase, ⟨hrunning.1, by rintro ⟨⟩⟩, rfl,
      variant_outcome hphase⟩
  · refine ⟨.putBack 0, s.putBack 0, trivial, if_pos hphase, ?_⟩
    unfold State.putBack
    split
    · rename_i e rest hinRpc
      refine ⟨hrunning, rfl, ?_⟩
      simp only [variant, State.rest, Phase.load, hphase, hinRpc, List.length_cons]
      omega
    · rename_i hinRpc
      refine ⟨⟨hrunning.1, by rintro ⟨⟩⟩, rfl, ?_⟩
      simp [variant, State.rest, Phase.load, hphase, hinRpc]
  · refine ⟨.handOver, s.handOver, trivial, if_pos hphase, ?_⟩
    unfold State.handOver
    split
    · rename_i e rest hinRpc
      refine ⟨hrunning, rfl, ?_⟩
      simp only [variant, State.rest, Phase.load, hphase, hinRpc, List.length_cons,
        List.length_append, List.length_nil]
      omega
    · rename_i hinRpc
      refine ⟨⟨hrunning.1, by rintro ⟨⟩⟩, rfl, ?_⟩
      simp only [variant, State.rest, Phase.load, hphase, hinRpc, List.length_nil]
      split <;> omega

theorem advances_purging (hreach : (machine V config).Reachable s) (hrunning : s.Running)
    (hphase : s.phase = .purgeSize ∨ ∃ items, s.phase = .purging items) : Advances config s := by
  rcases hphase with hphase | ⟨items, hphase⟩
  · refine ⟨.countPurge, s.countPurge config, trivial, if_pos hphase,
      ⟨hrunning.1, by rintro ⟨⟩⟩, rfl, ?_⟩
    simp only [variant, State.rest, Phase.load, State.countPurge, hphase]
    omega
  · obtain ⟨t, hstep⟩ := Option.isSome_iff_exists.mp (purge_isSome hreach hphase)
    have hsame : t.exit = s.exit ∧ t.enqueued = s.enqueued ∧ t.phase ≠ .exited ∧
        variant t < variant s := by
      cases step_branches hstep with
      | purgeDone =>
          refine ⟨rfl, rfl, by rintro ⟨⟩, ?_⟩
          simp only [variant, State.rest, Phase.load, hphase]
          split <;> omega
      | purgeOne _ hqueue =>
          refine ⟨rfl, rfl, by rintro ⟨⟩, ?_⟩
          simp only [variant, State.rest, Phase.load, hphase, hqueue, List.length_cons]
          omega
    exact ⟨.purge, t, trivial, hstep, ⟨hsame.1.trans hrunning.1, hsame.2.2.1⟩, hsame.2.1,
      hsame.2.2.2⟩

/-- As long as something is left to do, something can be done about it. -/
theorem advances (hbatchSize : 1 ≤ config.batchSize) (hreach : (machine V config).Reachable s)
    (hrunning : s.Running) (hdone : ¬ s.Done) : Advances config s := by
  cases hphase : s.phase with
  | top => exact advances_top hrunning hphase hdone
  | building => exact advances_building hbatchSize hreach hrunning hphase
  | inFlight => exact advances_sending hrunning (Or.inl hphase)
  | puttingBack => exact advances_sending hrunning (Or.inr (Or.inl hphase))
  | handingOver => exact advances_sending hrunning (Or.inr (Or.inr hphase))
  | purgeSize => exact advances_purging hreach hrunning (Or.inl hphase)
  | purging items => exact advances_purging hreach hrunning (Or.inr ⟨items, hphase⟩)
  | exited => exact absurd hphase hrunning.2

/-- What is enqueued is taken care of when the thread is done. -/
theorem settled_of_done (hreach : (machine V config).Reachable s) (hdone : s.Done) {e : Event V}
    (hmem : e ∈ s.enqueued) : s.Settled e ∨ e ∈ s.purged := by
  obtain ⟨hphase, hqueue, hpending⟩ := hdone
  have hset := settlement_of_reachable hreach
  have hplace : e ∈ s.places := (conserved_of_reachable hreach).perm.mem_iff.mpr hmem
  simp only [State.places, hqueue, hpending, List.nil_append, List.append_nil,
    List.mem_append] at hplace
  rcases hplace with (hinRpc | hreleased) | hpurged
  · have hmatches := hset.inRpc
    simp only [State.InRpcMatches, hphase] at hmatches
    exact Or.inl (Or.inl (hmatches.1 e hinRpc))
  · exact Or.inl (hset.handled e (List.mem_append_right _ hreleased))
  · exact Or.inr hpurged

end BbMonitor.ClientSinks
