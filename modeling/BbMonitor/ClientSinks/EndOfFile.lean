import BbMonitor.ClientSinks.Conservation

/-!
# What `eof` tells

`flush` returns as soon as `eof` holds, that is, as soon as `_queue` and
`_pending_for_delete` are both empty.  The events in `in_rpc` are in neither:
while a batch is being built, is on its way, or is being put back, `eof` may
hold although its events are undelivered.

`eof_delivered_iff` is exact: at a moment when `eof` holds, all events enqueued
so far are taken care of if and only if `in_rpc` holds no value, or a delivered
batch is just being handed over.
-/

namespace BbMonitor.ClientSinks

variable {V : Type*} {config : Config} {s : State V}

theorem eof_eq_true : s.eof = true ↔ s.queue = [] ∧ s.pendingForDelete = [] := by
  simp [State.eof]

/-- Two events with one number are the same event. -/
theorem eq_of_arrival_eq (hcons : Conserved s) {e e' : Event V} (he : e ∈ s.enqueued)
    (he' : e' ∈ s.enqueued) (harrival : e.arrival = e'.arrival) : e = e' := by
  have hnodup : (s.enqueued.map Event.arrival).Nodup := by
    rw [hcons.numbered]
    exact List.nodup_range
  exact List.inj_on_of_nodup_map hnodup he he' harrival

/-- Outside the hand-over, a delivered event is not in `in_rpc`. -/
theorem not_delivered_of_mem_inRpc (hreach : (machine V config).Reachable s)
    (hphase : s.phase ≠ .handingOver) {e : Event V} (hmem : e ∈ s.inRpc) : ¬ s.Delivered e := by
  rintro ⟨bundle, hbundle, v, -, hitem⟩
  have hcons := conserved_of_reachable hreach
  obtain ⟨e', hhandled, he'⟩ := deliveredFromHandled_of_reachable hreach bundle hbundle _ hitem
  have harrival : e'.arrival = e.arrival := item_arrival he'
  simp only [State.handled, hphase, if_false, List.append_nil] at hhandled
  have hplaces : ∀ x, x ∈ s.places → x ∈ s.enqueued := fun x hx => hcons.perm.mem_iff.mp hx
  have hsame : e' = e := by
    refine eq_of_arrival_eq hcons (hplaces e' ?_) (hplaces e ?_) harrival
    · rcases List.mem_append.mp hhandled with h | h <;> simp [State.places, h]
    · simp [State.places, hmem]
  -- the event would be in two places
  subst hsame
  have hnodup : s.places.Nodup := hcons.perm.nodup_iff.mpr hcons.nodup_enqueued
  have hdisjoint : List.Disjoint (s.queue ++ s.inRpc) (s.pendingForDelete ++ s.released) := by
    have hsub : (s.queue ++ s.inRpc ++ (s.pendingForDelete ++ s.released)).Nodup := by
      have hassoc : s.places =
          s.queue ++ s.inRpc ++ (s.pendingForDelete ++ s.released) ++ s.purged := by
        simp [State.places]
      rw [hassoc] at hnodup
      exact hnodup.of_append_left
    exact List.disjoint_of_nodup_append hsub
  exact hdisjoint (List.mem_append_right _ hmem) hhandled

theorem not_purged_of_mem_inRpc (hreach : (machine V config).Reachable s) {e : Event V}
    (hmem : e ∈ s.inRpc) : e ∉ s.purged := by
  have hcons := conserved_of_reachable hreach
  have hnodup : s.places.Nodup := hcons.perm.nodup_iff.mpr hcons.nodup_enqueued
  exact List.disjoint_of_nodup_append hnodup (by simp [hmem])

/-- When `eof` holds, every event so far is null, delivered or purged exactly when
`in_rpc` holds no value, unless a delivered batch is being handed over. -/
theorem eof_delivered_iff (hreach : (machine V config).Reachable s) (heof : s.eof = true) :
    (∀ e ∈ s.enqueued, e.value = none ∨ s.Delivered e ∨ e ∈ s.purged) ↔
      s.phase = .handingOver ∨ ∀ e ∈ s.inRpc, e.value = none := by
  have hcons := conserved_of_reachable hreach
  have hset := settlement_of_reachable hreach
  obtain ⟨hqueue, hpending⟩ := eof_eq_true.mp heof
  constructor
  · intro hall
    refine or_iff_not_imp_left.mpr fun hphase e hmem => ?_
    have henqueued : e ∈ s.enqueued := hcons.perm.mem_iff.mp (by simp [State.places, hmem])
    rcases hall e henqueued with hnull | hdelivered | hpurged
    · exact hnull
    · exact absurd hdelivered (not_delivered_of_mem_inRpc hreach hphase hmem)
    · exact absurd hpurged (not_purged_of_mem_inRpc hreach hmem)
  · intro hinRpc e henqueued
    have hplace : e ∈ s.places := hcons.perm.mem_iff.mpr henqueued
    simp only [State.places, hqueue, hpending, List.nil_append, List.append_nil,
      List.mem_append] at hplace
    rcases hplace with (hmem | hreleased) | hpurged
    · rcases hinRpc with hphase | hnull
      · have hmatches := hset.inRpc
        simp only [State.InRpcMatches, hphase] at hmatches
        rcases hmatches.1 e hmem with hnull | hdelivered
        · exact Or.inl hnull
        · exact Or.inr (Or.inl hdelivered)
      · exact Or.inl (hnull e hmem)
    · rcases hset.handled e (List.mem_append_right _ hreleased) with hnull | hdelivered
      · exact Or.inl hnull
      · exact Or.inr (Or.inl hdelivered)
    · exact Or.inr (Or.inr hpurged)

/-! ## A batch in flight -/

/-- The only event is taken and sent, and the answer is outstanding. -/
def inFlightRun : List (Action ℕ) :=
  [.enqueue (some 5), .top 0 0 0, .build, .build]

theorem inFlightRun_eof :
    ((machine ℕ bbLogSink).exec State.init inFlightRun).map
        (fun s => (s.eof, s.enqueued, s.delivered, s.purged)) =
      some (true, [⟨0, some 5⟩], [], []) := by
  rfl

/-- `eof` holds while the only event enqueued is undelivered. -/
theorem inFlightRun_undelivered :
    ¬ ∀ s, (machine ℕ bbLogSink).Reachable s → s.eof = true →
      ∀ e ∈ s.enqueued, e.value = none ∨ s.Delivered e ∨ e ∈ s.purged := by
  intro hall
  obtain ⟨s, hexec, hstate⟩ := Option.map_eq_some_iff.mp inFlightRun_eof
  simp only [Prod.mk.injEq] at hstate
  obtain ⟨heof, henqueued, hdelivered, hpurged⟩ := hstate
  have hfalse := hall s ⟨inFlightRun, hexec⟩ heof ⟨0, some 5⟩ (by simp [henqueued])
  simp [State.Delivered, hdelivered, hpurged] at hfalse

/-- After the answer the batch is handed over and released. -/
theorem inFlightRun_released :
    ∃ s, (machine ℕ bbLogSink).Reachable s ∧ s.eof = true ∧ s.phase = .handingOver ∧
      ∀ e ∈ s.enqueued, e.value = none ∨ s.Delivered e ∨ e ∈ s.purged := by
  have hrun : ((machine ℕ bbLogSink).exec State.init
      (inFlightRun ++ [.outcome true, .handOver, .process])).map
        (fun s => (s.eof, s.phase)) = some (true, .handingOver) := by
    decide
  obtain ⟨s, hexec, hstate⟩ := Option.map_eq_some_iff.mp hrun
  obtain ⟨heof, hphase⟩ := Prod.mk.inj hstate
  have hreach : (machine ℕ bbLogSink).Reachable s := ⟨_, hexec⟩
  exact ⟨s, hreach, heof, hphase, (eof_delivered_iff hreach heof).mpr (Or.inl hphase)⟩

end BbMonitor.ClientSinks
