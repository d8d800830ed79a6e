import BbMonitor.ClientSinks.Fifo

/-!
# A sink none of whose RPCs has failed

Without a failure nothing is ever put back and no retry is waited for, so that the metric
sink does not purge either.  What was delivered, with what waits behind it, is then all that
has ever been enqueued, in order of arrival (`Smooth`).
-/

namespace BbMonitor.ClientSinks

variable {V : Type*} {config : Config} {s t : State V}

/-- The invariant of the runs without a failure. -/
structure Smooth (s : State V) : Prop where
  keeps : s.phase ≠ .puttingBack
  unpurged : s.phase ≠ .purgeSize ∧ ∀ items, s.phase ≠ .purging items
  retry : s.nextRetryAt = 0
  order : s.delivered.flatten ++ s.ahead.filterMap Event.item =
    s.enqueued.filterMap Event.item

theorem smooth_init : Smooth (State.init : State V) :=
  ⟨by simp [State.init], by simp [State.init], rfl, rfl⟩

/-- A step that stays away from failures keeps what was delivered and what waits. -/
theorem Smooth.keep (hsmooth : Smooth s) (hphase : t.phase = s.phase)
    (hretry : t.nextRetryAt = s.nextRetryAt) (hdelivered : t.delivered = s.delivered)
    (hahead : t.ahead = s.ahead) (henqueued : t.enqueued = s.enqueued) : Smooth t := by
  refine ⟨hphase ▸ hsmooth.keeps, hphase ▸ hsmooth.unpurged, hretry.trans hsmooth.retry, ?_⟩
  rw [hdelivered, hahead, henqueued]
  exact hsmooth.order

theorem ahead_handingOver (hphase : s.phase = .handingOver) : s.ahead = s.queue :=
  if_pos hphase

theorem ahead_of_ne (hphase : s.phase ≠ .handingOver) : s.ahead = s.inRpc ++ s.queue :=
  if_neg hphase

theorem smooth_step (hreach : (machine V config).Reachable s) {a : Action V}
    (ha : a ≠ .outcome false) (hsmooth : Smooth s) (hstep : step config s a = some t) :
    Smooth t := by
  have horder := hsmooth.order
  cases step_branches hstep with
  | processNothing | idle => exact hsmooth
  | processOne | setExit | postponePurge =>
      exact hsmooth.keep rfl rfl rfl rfl rfl
  | enqueue value =>
      refine ⟨hsmooth.keeps, hsmooth.unpurged, hsmooth.retry, ?_⟩
      let e : Event V := ⟨s.enqueued.length, value⟩
      have hahead : (s.enqueue value).ahead = s.ahead ++ [e] := by
        by_cases hphase : s.phase = .handingOver
        · rw [ahead_handingOver hphase, ahead_handingOver (by exact hphase)]
          rfl
        · rw [ahead_of_ne hphase, ahead_of_ne (by exact hphase), List.append_assoc]
          rfl
      show s.delivered.flatten ++ (s.enqueue value).ahead.filterMap Event.item =
        (s.enqueued ++ [e]).filterMap Event.item
      rw [hahead, List.filterMap_append, List.filterMap_append, ← List.append_assoc, horder]
  | beginPurge hphase hretry =>
      rw [hsmooth.retry] at hretry
      exact absurd hretry (by decide)
  | countPurge hphase => exact absurd hphase hsmooth.unpurged.1
  | purgeDone hphase | purgeOne hphase => exact absurd hphase (hsmooth.unpurged.2 _)
  | fail => exact absurd rfl ha
  | putBackOne hphase | putBackDone hphase => exact absurd hphase hsmooth.keeps
  | leave hphase | beginBatch hphase =>
      rw [ahead_of_ne (by simp [hphase])] at horder
      exact ⟨by simp, by simp, by simp [hsmooth.retry], horder⟩
  | send hphase | skip hphase =>
      rw [ahead_of_ne (by simp [hphase])] at horder
      exact ⟨by simp, by simp, hsmooth.retry, horder⟩
  | @take e rest hphase hqueue =>
      rw [ahead_of_ne (by simp [hphase])] at horder
      refine ⟨hsmooth.keeps, hsmooth.unpurged, hsmooth.retry, ?_⟩
      rw [ahead_of_ne (by simp [hphase])]
      show s.delivered.flatten ++ ((s.inRpc ++ [e]) ++ rest).filterMap Event.item = _
      rw [List.append_assoc, List.singleton_append, ← hqueue]
      exact horder
  | succeed hphase =>
      -- the bundle is what the events of the batch were waiting with
      rw [ahead_of_ne (by simp [hphase])] at horder
      have hmatches := (settlement_of_reachable hreach).inRpc
      simp only [State.InRpcMatches, hphase] at hmatches
      refine ⟨by simp, by simp, hsmooth.retry, ?_⟩
      rw [ahead_handingOver rfl]
      show (s.delivered ++ [s.bundle]).flatten ++ s.queue.filterMap Event.item = _
      rw [List.flatten_concat, hmatches.1, List.append_assoc, ← List.filterMap_append]
      exact horder
  | handOverOne hphase =>
      rw [ahead_handingOver hphase] at horder
      refine ⟨hsmooth.keeps, hsmooth.unpurged, hsmooth.retry, ?_⟩
      rw [ahead_handingOver (by exact hphase)]
      exact horder
  | handOverDone hphase hinRpc =>
      rw [ahead_handingOver hphase] at horder
      refine ⟨by simp, by simp, hsmooth.retry, ?_⟩
      rw [ahead_of_ne (by rintro ⟨⟩)]
      show s.delivered.flatten ++ (s.inRpc ++ s.queue).filterMap Event.item = _
      rw [hinRpc]
      exact horder

end BbMonitor.ClientSinks
