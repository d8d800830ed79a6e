import BbMonitor.ClientSinks.EndOfFile

/-!
# No event is in two delivered bundles

The numbers of the events in a bundle are all different, and a bundle that is sent has no
number of a bundle that was delivered before.
-/

namespace BbMonitor.ClientSinks

variable {V : Type*} {config : Config} {s : State V}

/-- The numbers of the events whose values are in a bundle. -/
def numbers (bundle : List (Item V)) : List ℕ :=
  bundle.map Prod.fst

theorem numbers_append (xs ys : List (Item V)) :
    numbers (xs ++ ys) = numbers xs ++ numbers ys :=
  List.map_append

theorem bundle_of_inFlight (hreach : (machine V config).Reachable s)
    (hphase : s.phase = .inFlight) : s.bundle = s.inRpc.filterMap Event.item := by
  have hmatches := (settlement_of_reachable hreach).inRpc
  simp only [State.InRpcMatches, hphase] at hmatches
  exact hmatches.1

theorem nodup_arrivals_inRpc (hreach : (machine V config).Reachable s) :
    (s.inRpc.map Event.arrival).Nodup := by
  have hcons := conserved_of_reachable hreach
  have hplaces : (s.places.map Event.arrival).Nodup := by
    rw [(hcons.perm.map Event.arrival).nodup_iff, hcons.numbered]
    exact List.nodup_range
  refine hplaces.sublist (List.Sublist.map _ ?_)
  simp only [State.places, List.append_assoc]
  exact (List.sublist_append_left _ _).trans (List.sublist_append_right _ _)

theorem numbers_filterMap_item (events : List (Event V)) :
    (numbers (events.filterMap Event.item)).Sublist (events.map Event.arrival) := by
  induction events with
  | nil => exact List.Sublist.slnil
  | cons e rest ih =>
      cases hitem : e.item with
      | none =>
          rw [List.filterMap_cons_none hitem]
          exact ih.cons _
      | some x =>
          rw [List.filterMap_cons_some hitem, numbers, List.map_cons, List.map_cons,
            item_arrival hitem]
          exact ih.cons_cons _

/-- In a bundle that is on its way each number occurs once. -/
theorem nodup_numbers_of_inFlight (hreach : (machine V config).Reachable s)
    (hphase : s.phase = .inFlight) : (numbers s.bundle).Nodup := by
  rw [bundle_of_inFlight hreach hphase]
  exact (nodup_arrivals_inRpc hreach).sublist (numbers_filterMap_item _)

/-- A bundle that is on its way is made of events that were enqueued. -/
theorem bundle_subset_of_inFlight (hreach : (machine V config).Reachable s)
    (hphase : s.phase = .inFlight) : s.bundle ⊆ s.enqueued.filterMap Event.item := by
  have hplaces : s.inRpc ⊆ s.enqueued := by
    intro e hmem
    refine (conserved_of_reachable hreach).perm.mem_iff.mp ?_
    simp only [State.places, List.mem_append]
    tauto
  rw [bundle_of_inFlight hreach hphase]
  exact List.filterMap_subset _ hplaces

/-- A bundle has at most as many items as a batch may have. -/
theorem length_bundle_le (hreach : (machine V config).Reachable s) :
    s.bundle.length ≤ config.batchSize := by
  apply Machine.reachable_induction (M := machine V config)
    (P := fun s => s.bundle.length ≤ config.batchSize) (Nat.zero_le _) ?_ hreach
  intro s a t _ hs hstep
  cases step_branches hstep with
  | beginBatch => exact Nat.zero_le _
  | @take e _ _ _ hsize =>
      have hitem : e.item.toList.length ≤ 1 := by
        cases e.item <;> simp
      show (s.bundle ++ e.item.toList).length ≤ config.batchSize
      rw [List.length_append]
      omega
  | _ => exact hs

/-- A bundle that is on its way carries nothing that was delivered before. -/
theorem disjoint_of_inFlight (hreach : (machine V config).Reachable s)
    (hphase : s.phase = .inFlight) :
    List.Disjoint (numbers s.delivered.flatten) (numbers s.bundle) := by
  intro k hdelivered hbundle
  have hcons := conserved_of_reachable hreach
  rw [bundle_of_inFlight hreach hphase] at hbundle
  obtain ⟨x, hx, rfl⟩ := List.mem_map.mp hbundle
  obtain ⟨e, hmem, hitem⟩ := List.mem_filterMap.mp hx
  obtain ⟨y, hy, hnumber⟩ := List.mem_map.mp hdelivered
  obtain ⟨bundle, hin, hy⟩ := List.mem_flatten.mp hy
  refine not_delivered_of_mem_inRpc hreach (by rw [hphase]; exact nofun) hmem
    ⟨bundle, hin, y.2, ?_⟩
  -- the event behind the delivered value has the same number, so it is the same event
  obtain ⟨e', hhandled, hitem'⟩ := deliveredFromHandled_of_reachable hreach bundle hin y hy
  have hsame : e' = e := by
    refine eq_of_arrival_eq hcons (hcons.perm.mem_iff.mp ?_) (hcons.perm.mem_iff.mp ?_) ?_
    · simp only [State.handled, hphase, reduceCtorEq, if_false, List.append_nil,
        List.mem_append] at hhandled
      rcases hhandled with h | h <;> simp [State.places, h]
    · simp [State.places, hmem]
    · rw [item_arrival hitem', item_arrival hitem, hnumber]
  subst hsame
  obtain ⟨v, hvalue, hv⟩ := Option.map_eq_some_iff.mp hitem'
  rw [← hv] at hy ⊢
  exact ⟨hvalue, hy⟩

/-- Each number was delivered at most once. -/
theorem nodup_delivered_of_reachable (hreach : (machine V config).Reachable s) :
    (numbers s.delivered.flatten).Nodup := by
  apply Machine.reachable_induction (M := machine V config)
    (P := fun s => (numbers s.delivered.flatten).Nodup) List.nodup_nil ?_ hreach
  intro s a t hs hnodup hstep
  cases step_branches hstep with
  | succeed hphase =>
      show (numbers (s.delivered ++ [s.bundle]).flatten).Nodup
      rw [List.flatten_concat, numbers_append]
      exact hnodup.append (nodup_numbers_of_inFlight hs hphase)
        (disjoint_of_inFlight hs hphase)
  | _ => exact hnodup

/-- The bundles that were delivered, and the one that is on its way. -/
def State.onceSent (s : State V) : List (List (Item V)) :=
  s.delivered ++ if s.phase = .inFlight then [s.bundle] else []

theorem nodup_onceSent (hreach : (machine V config).Reachable s) :
    (numbers s.onceSent.flatten).Nodup := by
  have hdelivered := nodup_delivered_of_reachable hreach
  by_cases hphase : s.phase = .inFlight
  · rw [State.onceSent, if_pos hphase, List.flatten_concat, numbers_append]
    exact hdelivered.append (nodup_numbers_of_inFlight hreach hphase)
      (disjoint_of_inFlight hreach hphase)
  · rw [State.onceSent, if_neg hphase, List.append_nil]
    exact hdelivered

theorem countP_numbers_le (k : ℕ) (bundles : List (List (Item V))) :
    bundles.countP (fun bundle => k ∈ numbers bundle) ≤ (numbers bundles.flatten).count k := by
  induction bundles with
  | nil => exact le_rfl
  | cons bundle rest ih =>
      rw [List.countP_cons, List.flatten_cons, numbers_append, List.count_append, add_comm]
      refine Nat.add_le_add ?_ ih
      by_cases hmem : k ∈ numbers bundle
      · simp only [hmem, decide_true, if_true]
        exact List.count_pos_iff.mpr hmem
      · simp [hmem]

/-- One of these bundles at most carries an event. -/
theorem countP_onceSent_le (hreach : (machine V config).Reachable s) (k : ℕ) :
    s.onceSent.countP (fun bundle => k ∈ numbers bundle) ≤ 1 :=
  (countP_numbers_le k s.onceSent).trans
    (List.nodup_iff_count_le_one.mp (nodup_onceSent hreach) k)

end BbMonitor.ClientSinks
