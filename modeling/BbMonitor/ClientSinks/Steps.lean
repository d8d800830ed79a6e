import BbMonitor.ClientSinks.Model

/-!
# The steps of a client sink, branch by branch

`Step` lists what the functions of `Model.lean` can do to a state, with the
guards under which they do it; `step_branches` says that the list is complete.
Every invariant of the sinks is proved by a case analysis over `Step`.
-/

namespace BbMonitor.ClientSinks

variable {V : Type*} {config : Config}

inductive Step (config : Config) (s : State V) : Action V → State V → Prop where
  | enqueue (value : Option V) : Step config s (.enqueue value) (s.enqueue value)
  | processNothing (hpending : s.pendingForDelete = []) : Step config s .process s
  | processOne {e : Event V} {rest : List (Event V)} (hpending : s.pendingForDelete = e :: rest) :
      Step config s .process
        { s with pendingForDelete := rest, released := s.released ++ [e] }
  | setExit : Step config s .setExit { s with exit := true }
  | leave {now₁ now₂ now₃ : ℤ} (hphase : s.phase = .top) :
      Step config s (.top now₁ now₂ now₃) { s with phase := .exited }
  | idle {now₁ now₂ now₃ : ℤ} (hphase : s.phase = .top) :
      Step config s (.top now₁ now₂ now₃) s
  | postponePurge {now₁ now₂ now₃ : ℤ} (hphase : s.phase = .top) :
      Step config s (.top now₁ now₂ now₃) { s with nextPurgeAt := now₃ + 10000 }
  | beginPurge {now₁ now₂ now₃ maxQueue : ℤ} (hphase : s.phase = .top)
      (hretry : 0 < s.nextRetryAt) (hmax : config.maxQueue = some maxQueue)
      (hsize : toSizeT maxQueue < s.queue.length) :
      Step config s (.top now₁ now₂ now₃)
        { s with nextPurgeAt := now₃ + 10000, phase := .purgeSize }
  | beginBatch {now₁ now₂ now₃ : ℤ} (hphase : s.phase = .top) :
      Step config s (.top now₁ now₂ now₃)
        { s with nextRetryAt := 0, bundle := [], phase := .building, taken := s.queue }
  | countPurge (hphase : s.phase = .purgeSize) : Step config s .countPurge (s.countPurge config)
  | purgeDone (hphase : s.phase = .purging 0) : Step config s .purge { s with phase := .top }
  | purgeOne {items : ℕ} {e : Event V} {rest : List (Event V)}
      (hphase : s.phase = .purging (items + 1)) (hqueue : s.queue = e :: rest) :
      Step config s .purge
        { s with queue := rest, purged := s.purged ++ [e], phase := .purging items }
  | take {e : Event V} {rest : List (Event V)} (hphase : s.phase = .building)
      (hqueue : s.queue = e :: rest) (hsize : s.bundle.length < config.batchSize) :
      Step config s .build
        { s with queue := rest, inRpc := s.inRpc ++ [e], bundle := s.bundle ++ e.item.toList }
  | send (hphase : s.phase = .building) (hbundle : 0 < s.bundle.length) :
      Step config s .build { s with phase := .inFlight }
  | skip (hphase : s.phase = .building) (hbundle : s.bundle = []) :
      Step config s .build { s with phase := .top }
  | succeed (hphase : s.phase = .inFlight) :
      Step config s (.outcome true)
        { s with phase := .handingOver, delivered := s.delivered ++ [s.bundle] }
  | fail (hphase : s.phase = .inFlight) :
      Step config s (.outcome false) { s with phase := .puttingBack }
  | putBackOne {now : ℤ} {e : Event V} {rest : List (Event V)} (hphase : s.phase = .puttingBack)
      (hinRpc : s.inRpc = e :: rest) :
      Step config s (.putBack now) { s with inRpc := rest, queue := e :: s.queue }
  | putBackDone {now : ℤ} (hphase : s.phase = .puttingBack) (hinRpc : s.inRpc = []) :
      Step config s (.putBack now) { s with nextRetryAt := now + 60000, phase := .handingOver }
  | handOverOne {e : Event V} {rest : List (Event V)} (hphase : s.phase = .handingOver)
      (hinRpc : s.inRpc = e :: rest) :
      Step config s .handOver
        { s with inRpc := rest, pendingForDelete := s.pendingForDelete ++ [e] }
  | handOverDone (hphase : s.phase = .handingOver) (hinRpc : s.inRpc = []) :
      Step config s .handOver { s with phase := .top }

variable {s t : State V}

theorem top_branches (config : Config) (hphase : s.phase = .top) (now₁ now₂ now₃ : ℤ) :
    Step config s (.top now₁ now₂ now₃) (s.top config now₁ now₂ now₃) := by
  unfold State.top State.considerPurge
  split
  · exact .leave hphase
  · split
    · exact .idle hphase
    · split
      · rename_i hretry
        split
        · exact .idle hphase
        · rename_i maxQueue hmax
          split
          · split
            · rename_i hsize
              exact .beginPurge hphase hretry.1 hmax hsize
            · exact .postponePurge hphase
          · exact .idle hphase
      · exact .beginBatch hphase

theorem endBuild_branches (config : Config) (hphase : s.phase = .building) :
    Step config s .build s.endBuild := by
  unfold State.endBuild
  split
  · rename_i hbundle
    exact .send hphase hbundle
  · rename_i hbundle
    exact .skip hphase (List.length_eq_zero_iff.mp (Nat.eq_zero_of_not_pos hbundle))

theorem build_branches (config : Config) (hphase : s.phase = .building) :
    Step config s .build (s.build config) := by
  unfold State.build
  split
  · rename_i e rest hqueue
    split
    · rename_i hsize
      exact .take hphase hqueue hsize
    · exact endBuild_branches config hphase
  · exact endBuild_branches config hphase

theorem step_branches {a : Action V} (hstep : step config s a = some t) : Step config s a t := by
  cases a with
  | enqueue value =>
      cases hstep
      exact .enqueue value
  | process =>
      cases hstep
      unfold State.process
      split
      · rename_i hpending
        exact .processNothing hpending
      · rename_i hpending
        exact .processOne hpending
  | setExit =>
      cases hstep
      exact .setExit
  | top now₁ now₂ now₃ =>
      obtain ⟨hphase, ht⟩ := Option.ite_none_right_eq_some.mp hstep
      cases ht
      exact top_branches config hphase now₁ now₂ now₃
  | countPurge =>
      obtain ⟨hphase, ht⟩ := Option.ite_none_right_eq_some.mp hstep
      cases ht
      exact .countPurge hphase
  | purge =>
      cases hphase : s.phase with
      | purging items =>
          simp only [step, hphase, State.purge] at hstep
          split at hstep
          · cases hstep
            exact .purgeDone hphase
          · cases hstep
          · rename_i items e rest hqueue
            cases hstep
            exact .purgeOne hphase hqueue
      | _ => simp [step, hphase] at hstep
  | build =>
      obtain ⟨hphase, ht⟩ := Option.ite_none_right_eq_some.mp hstep
      cases ht
      exact build_branches config hphase
  | outcome ok =>
      obtain ⟨hphase, ht⟩ := Option.ite_none_right_eq_some.mp hstep
      cases ht
      cases ok with
      | true => exact .succeed hphase
      | false => exact .fail hphase
  | putBack now =>
      obtain ⟨hphase, ht⟩ := Option.ite_none_right_eq_some.mp hstep
      cases ht
      unfold State.putBack
      split
      · rename_i hinRpc
        exact .putBackOne hphase hinRpc
      · rename_i hinRpc
        exact .putBackDone hphase hinRpc
  | handOver =>
      obtain ⟨hphase, ht⟩ := Option.ite_none_right_eq_some.mp hstep
      cases ht
      unfold State.handOver
      split
      · rename_i hinRpc
        exact .handOverOne hphase hinRpc
      · rename_i hinRpc
        exact .handOverDone hphase hinRpc

/-- What every branch keeps holds in every reachable state. -/
theorem reachable_of_branches {P : State V → Prop} (hinit : P State.init)
    (hstep : ∀ s a t, P s → Step config s a t → P t)
    (hreach : (machine V config).Reachable s) : P s :=
  Machine.reachable_invariant hinit (fun s a t hs ht => hstep s a t hs (step_branches ht)) hreach

/-! ## The purge loop never pops from an empty queue -/

/-- There are at least as many events in the queue as are still to be purged. -/
def Purgeable (config : Config) (s : State V) : Prop :=
  match s.phase with
  | .purgeSize => toSizeT (config.maxQueue.getD 0) < s.queue.length
  | .purging items => items ≤ s.queue.length
  | _ => True

theorem purgeable_enqueue (hpurge : Purgeable config s) (value : Option V) :
    Purgeable config (s.enqueue value) := by
  have hlength : s.queue.length ≤ (s.enqueue value).queue.length := by simp [State.enqueue]
  have hphase : (s.enqueue value).phase = s.phase := rfl
  unfold Purgeable at hpurge ⊢
  rw [hphase]
  split at hpurge <;> omega

theorem purgeable_step {a : Action V} (hpurge : Purgeable config s) (hstep : Step config s a t) :
    Purgeable config t := by
  cases hstep with
  | enqueue value => exact purgeable_enqueue hpurge value
  | beginPurge _ _ hmax hsize => simpa [Purgeable, hmax] using hsize
  | countPurge _ => simp [Purgeable, State.countPurge]
  | purgeOne hphase hqueue =>
      simp only [Purgeable, hphase, hqueue, List.length_cons] at hpurge ⊢
      omega
  | postponePurge hphase | take hphase | putBackOne hphase | handOverOne hphase =>
      simp [Purgeable, hphase]
  | idle | processNothing | processOne | setExit => exact hpurge
  | _ => trivial

theorem purgeable_of_reachable (hreach : (machine V config).Reachable s) : Purgeable config s :=
  reachable_of_branches trivial (fun _ _ _ hs ht => purgeable_step hs ht) hreach

/-- Whenever the loop is to purge an event, there is one. -/
theorem purge_isSome (hreach : (machine V config).Reachable s) {items : ℕ}
    (hphase : s.phase = .purging items) : (step config s .purge).isSome := by
  have hpurge := purgeable_of_reachable hreach
  simp only [Purgeable, hphase] at hpurge
  simp only [step, hphase, State.purge]
  cases items with
  | zero => rfl
  | succ items =>
      cases hqueue : s.queue with
      | nil =>
          rw [hqueue] at hpurge
          exact absurd hpurge (Nat.not_succ_le_zero items)
      | cons e rest => rfl

end BbMonitor.ClientSinks
