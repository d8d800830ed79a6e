import BbMonitor.KafkaSink.Model
import Mathlib.Data.List.Nodup
import Mathlib.Data.List.Range

/-!
# Every record is handed over once

Looking at the front, producing it and popping it are three operations, and the
two threads that drain the queue do not exclude each other.  An event that both
have seen at the front is accepted twice when both calls of `produce` succeed, and
the second `pop_front` then drops an event that nobody has produced.

`exactlyOnce_iff` says when a run is free of this: whenever `produce` succeeds,
the event must still be at the front of the queue, with no thread about to pop it.
Until the destructor is called this is so in every run (`exactlyOnce_of_absent`).
-/

namespace BbMonitor.KafkaSink

variable {R : Type*} {s t : State R} {a : Action R} {th : Thread} {e : Event R}

/-- No event is accepted twice and none is skipped. -/
structure ExactlyOnce (s : State R) : Prop where
  nodup : s.accepted.Nodup
  inOrder : s.accepted <+: s.pushed
  kept : ∀ e ∈ s.pushed, e ∉ s.accepted → e ∈ s.queue

/-- The event is at the front of the queue and no thread is about to pop it. -/
def State.StillFront (s : State R) (e : Event R) : Prop :=
  s.queue.head? = some e ∧ ∀ th, s.drain th ≠ some .popFront

/-! ## The invariant -/

/-- The accepted events and the queue make up all events.  They overlap in one
event, between the call of `produce` and the `pop_front` of some thread. -/
inductive InLine (s : State R) : Prop where
  | disjoint (hpop : ∀ th, s.drain th ≠ some .popFront)
      (hpushed : s.pushed = s.accepted ++ s.queue)
  | overlap {th : Thread} {earlier rest : List (Event R)} {e : Event R}
      (hdrain : s.drain th = some .popFront)
      (honly : ∀ th', s.drain th' = some .popFront → th' = th)
      (haccepted : s.accepted = earlier ++ [e]) (hqueue : s.queue = e :: rest)
      (hpushed : s.pushed = earlier ++ e :: rest)

structure Accounted (s : State R) : Prop where
  numbered : s.pushed.map Event.arrival = List.range s.pushed.length
  line : InLine s
  held : ∀ th e, s.drain th = some (.produce e) → e ∈ s.accepted ∨ s.queue.head? = some e

theorem Accounted.nodup_pushed (hacc : Accounted s) : s.pushed.Nodup := by
  refine List.Nodup.of_map Event.arrival ?_
  rw [hacc.numbered]
  exact List.nodup_range

theorem Accounted.exactlyOnce (hacc : Accounted s) : ExactlyOnce s := by
  have hnodup := hacc.nodup_pushed
  cases hacc.line with
  | disjoint _ hpushed =>
      rw [hpushed] at hnodup
      refine ⟨(List.nodup_append.mp hnodup).1, ⟨s.queue, hpushed.symm⟩, ?_⟩
      intro e hmem hnot
      rw [hpushed] at hmem
      exact (List.mem_append.mp hmem).resolve_left hnot
  | @overlap _ earlier rest e _ _ haccepted hqueue hpushed =>
      have hsplit : s.pushed = s.accepted ++ rest := by simp [hpushed, haccepted]
      rw [hsplit] at hnodup
      refine ⟨(List.nodup_append.mp hnodup).1, ⟨rest, hsplit.symm⟩, ?_⟩
      intro e' hmem hnot
      rw [hsplit] at hmem
      have hrest := (List.mem_append.mp hmem).resolve_left hnot
      rw [hqueue]
      exact List.mem_cons_of_mem _ hrest

/-- An event that a thread holds is new exactly when it is still the front. -/
theorem Accounted.not_accepted_iff (hacc : Accounted s)
    (hdrain : s.drain th = some (.produce e)) : e ∉ s.accepted ↔ s.StillFront e := by
  constructor
  · intro hnew
    have hhead := (hacc.held th e hdrain).resolve_left hnew
    cases hacc.line with
    | disjoint hpop _ => exact ⟨hhead, hpop⟩
    | overlap _ _ haccepted hqueue _ =>
        rw [hqueue, List.head?_cons, Option.some.injEq] at hhead
        exact absurd (by simp [haccepted, hhead]) hnew
  · rintro ⟨hhead, hpop⟩ hold
    cases hacc.line with
    | disjoint _ hpushed =>
        have hnodup := hacc.nodup_pushed
        rw [hpushed] at hnodup
        exact (List.nodup_append.mp hnodup).2.2 e hold e (List.mem_of_mem_head? hhead) rfl
    | overlap hdrain _ _ _ _ => exact hpop _ hdrain

/-! ## What keeps the invariant -/

theorem accounted_init : Accounted (State.init : State R) := by
  refine ⟨rfl, .disjoint ?_ rfl, ?_⟩
  · intro th
    cases th <;> simp [State.drain, State.init]
  · intro th
    cases th <;> simp [State.drain, State.init]

theorem drain_pushBack (record : R) (th : Thread) :
    (s.pushBack record).drain th = s.drain th := by
  cases th <;> rfl

theorem accounted_pushBack (hacc : Accounted s) (record : R) : Accounted (s.pushBack record) := by
  refine ⟨?_, ?_, ?_⟩
  · simp [State.pushBack, hacc.numbered, List.range_succ]
  · cases hacc.line with
    | disjoint hpop hpushed =>
        refine .disjoint (fun th => by rw [drain_pushBack]; exact hpop th) ?_
        simp [State.pushBack, hpushed]
    | @overlap th earlier rest e hdrain honly haccepted hqueue hpushed =>
        have hqueue' : (s.pushBack record).queue = e :: (rest ++ [⟨s.pushed.length, record⟩]) := by
          simp [State.pushBack, hqueue]
        refine .overlap (by rw [drain_pushBack, hdrain]) ?_ haccepted hqueue' ?_
        · intro th' hth'
          exact honly th' (by rwa [drain_pushBack] at hth')
        · simp [State.pushBack, hpushed]
  · intro th e hheld
    rw [drain_pushBack] at hheld
    refine (hacc.held th e hheld).imp_right fun hhead => ?_
    show (s.queue ++ _).head? = some e
    rw [List.head?_append, hhead, Option.some_or]

theorem Quiet.popFront_iff (hquiet : Quiet s t) (th : Thread) :
    t.drain th = some .popFront ↔ s.drain th = some .popFront := by
  rcases hquiet.drain th with hsame | ⟨hbefore, hafter⟩
  · rw [hsame]
  · constructor
    · intro hpop
      simp [hpop] at hafter
    · intro hpop
      exact absurd hpop hbefore

theorem Quiet.produce (hquiet : Quiet s t) (hheld : t.drain th = some (.produce e)) :
    s.drain th = some (.produce e) := by
  rcases hquiet.drain th with hsame | ⟨-, hafter⟩
  · rw [← hsame, hheld]
  · simp [hheld] at hafter

theorem accounted_quiet (hacc : Accounted s) (hquiet : Quiet s t) : Accounted t := by
  refine ⟨?_, ?_, ?_⟩
  · rw [hquiet.pushed]
    exact hacc.numbered
  · cases hacc.line with
    | disjoint hpop hpushed =>
        refine .disjoint (fun th hth => hpop th ((hquiet.popFront_iff th).mp hth)) ?_
        rw [hquiet.pushed, hquiet.accepted, hquiet.queue, hpushed]
    | overlap hdrain honly haccepted hqueue hpushed =>
        exact .overlap ((hquiet.popFront_iff _).mpr hdrain)
          (fun th' hth' => honly th' ((hquiet.popFront_iff th').mp hth'))
          (hquiet.accepted.trans haccepted) (hquiet.queue.trans hqueue)
          (hquiet.pushed.trans hpushed)
  · intro th e hheld
    rw [hquiet.accepted, hquiet.queue]
    exact hacc.held th e (hquiet.produce hheld)

theorem accounted_front (hacc : Accounted s) {rest : List (Event R)}
    (hqueue : s.queue = e :: rest) (hdrain : s.drain th = some .front) :
    Accounted (s.setDrain (.produce e) th) := by
  have hpop : ∀ th', (s.setDrain (.produce e) th).drain th' = some .popFront ↔
      s.drain th' = some .popFront := by
    intro th'
    by_cases hth : th' = th
    · subst hth
      simp [hdrain]
    · rw [State.drain_setDrain_of_ne hth]
  refine ⟨by simpa using hacc.numbered, ?_, ?_⟩
  · cases hacc.line with
    | disjoint hnobody hpushed =>
        exact .disjoint (fun th' hth' => hnobody th' ((hpop th').mp hth')) (by simpa using hpushed)
    | overlap hdrain honly haccepted hqueue hpushed =>
        exact .overlap ((hpop _).mpr hdrain) (fun th' hth' => honly th' ((hpop th').mp hth'))
          (by simpa using haccepted) (by simpa using hqueue) (by simpa using hpushed)
  · intro th' e' hheld
    rw [State.setDrain_accepted, State.setDrain_queue]
    rcases State.drain_setDrain_eq_some hheld with ⟨-, hsame⟩ | ⟨-, hheld⟩
    · cases hsame
      exact Or.inr (by rw [hqueue, List.head?_cons])
    · exact hacc.held th' e' hheld

/-- The one step at which something can go wrong: the event must be new. -/
theorem accounted_accept (hacc : Accounted s) (hdrain : s.drain th = some (.produce e))
    (hnew : e ∉ s.accepted) :
    Accounted ({ s with accepted := s.accepted ++ [e] }.setDrain .popFront th) := by
  obtain ⟨hhead, hnobody⟩ := (hacc.not_accepted_iff hdrain).mp hnew
  obtain ⟨rest, hqueue⟩ : ∃ rest, s.queue = e :: rest := List.head?_eq_some_iff.mp hhead
  have hpushed : s.pushed = s.accepted ++ e :: rest := by
    cases hacc.line with
    | disjoint _ hpushed => rw [hpushed, hqueue]
    | overlap hdrain _ _ _ _ => exact absurd hdrain (hnobody _)
  refine ⟨by simpa using hacc.numbered, ?_, ?_⟩
  · refine .overlap State.drain_setDrain ?_ State.setDrain_accepted (by simpa using hqueue)
      (by simpa using hpushed)
    intro th' hpop
    rcases State.drain_setDrain_eq_some hpop with ⟨hth, -⟩ | ⟨-, hpop⟩
    · exact hth
    · exact absurd hpop (hnobody th')
  · intro th' e' hheld
    rw [State.setDrain_accepted, State.setDrain_queue]
    rcases State.drain_setDrain_eq_some hheld with ⟨-, hsame⟩ | ⟨-, hheld⟩
    · cases hsame
    · exact (hacc.held th' e' hheld).imp_left fun hmem => List.mem_append_left _ hmem

theorem accounted_popFront (hacc : Accounted s) {rest : List (Event R)}
    (hqueue : s.queue = e :: rest) (hdrain : s.drain th = some .popFront) :
    Accounted ({ s with queue := rest }.setDrain .size th) := by
  cases hacc.line with
  | disjoint hnobody _ => exact absurd hdrain (hnobody th)
  | @overlap popper earlier rest' e' _ honly haccepted hqueue' hpushed =>
      obtain ⟨rfl, rfl⟩ : e' = e ∧ rest' = rest := by
        rw [hqueue] at hqueue'
        exact ⟨(List.cons.inj hqueue').1.symm, (List.cons.inj hqueue').2.symm⟩
      refine ⟨by simpa using hacc.numbered, .disjoint ?_ ?_, ?_⟩
      · intro th' hpop
        rcases State.drain_setDrain_eq_some hpop with ⟨-, hsame⟩ | ⟨hth, hpop⟩
        · cases hsame
        · exact hth ((honly th' hpop).trans (honly th hdrain).symm)
      · simp [haccepted, hpushed]
      · intro th' e'' hheld
        rw [State.setDrain_accepted]
        rcases State.drain_setDrain_eq_some hheld with ⟨-, hsame⟩ | ⟨-, hheld⟩
        · cases hsame
        · -- what another thread has seen at the front is what was just popped
          rcases hacc.held th' e'' hheld with hold | hhead
          · exact Or.inl hold
          · have he : e' = e'' := by simpa [hqueue] using hhead
            exact Or.inl (by simp [haccepted, he])

theorem accounted_step (hacc : Accounted s) (heffect : Effect s a t)
    (hnew : ∀ th e, a = .produce th .noError → s.drain th = some (.produce e) →
      e ∉ s.accepted) : Accounted t := by
  cases heffect with
  | pushBack record => exact accounted_pushBack hacc record
  | front hqueue hdrain => exact accounted_front hacc hqueue hdrain
  | accept hdrain => exact accounted_accept hacc hdrain (hnew _ _ rfl hdrain)
  | popFront hqueue hdrain => exact accounted_popFront hacc hqueue hdrain
  | quiet hquiet _ => exact accounted_quiet hacc hquiet

/-! ## Runs -/

/-- After a successful call of `produce` the event is the last accepted one. -/
theorem Effect.accepted (heffect : Effect s (.produce th .noError) t)
    (hdrain : s.drain th = some (.produce e)) : t.accepted = s.accepted ++ [e] := by
  cases heffect with
  | accept hdrain' =>
      rw [hdrain] at hdrain'
      cases hdrain'
      simp
  | quiet _ haction => exact absurd rfl (haction th)

/-- A run hands over every event exactly once, in all the states it visits, if
and only if each event is still the front of the queue when `produce` accepts
it. -/
theorem exactlyOnce_iff (actions : List (Action R)) :
    (∀ s, (machine R).Visits actions s → ExactlyOnce s) ↔
      ∀ s th t e, (machine R).Takes actions s (.produce th .noError) t →
        s.drain th = some (.produce e) → s.StillFront e := by
  constructor
  · intro honce
    -- an event that is accepted for the second time is not new
    have hnew : ∀ s th t e, (machine R).Takes actions s (.produce th .noError) t →
        s.drain th = some (.produce e) → e ∉ s.accepted := by
      intro s th t e htakes hdrain hold
      have hnodup := (honce t htakes.visits_after).nodup
      obtain ⟨_, _, _, hstep⟩ := htakes
      have heffect : Effect s (.produce th .noError) t := step_effects hstep
      rw [heffect.accepted hdrain] at hnodup
      exact (List.nodup_append.mp hnodup).2.2 e hold e (List.mem_singleton_self e) rfl
    intro s th t e htakes hdrain
    refine (Accounted.not_accepted_iff ?_ hdrain).mp (hnew s th t e htakes hdrain)
    refine Machine.visits_of_guarded (G := fun s a => ∀ th e, a = .produce th .noError →
      s.drain th = some (.produce e) → e ∉ s.accepted) accounted_init ?_ ?_ htakes.visits_before
    · intro s a t _ hacc hgood hstep
      exact accounted_step hacc (step_effects hstep) hgood
    · rintro s a t htakes th e rfl hdrain
      exact hnew s th t e htakes hdrain
  · intro hfront s hvisits
    refine Accounted.exactlyOnce (Machine.visits_of_guarded (G := fun s a => ∀ th e,
      a = .produce th .noError → s.drain th = some (.produce e) → s.StillFront e)
      accounted_init ?_ ?_ hvisits)
    · intro s a t _ hacc hgood hstep
      refine accounted_step hacc (step_effects hstep) fun th e ha hdrain => ?_
      exact (hacc.not_accepted_iff hdrain).mpr (hgood th e ha hdrain)
    · rintro s a t htakes th e rfl hdrain
      exact hfront s th t e htakes hdrain

/-! ## Before the destructor is called -/

theorem Effect.absent (heffect : Effect s a t) (habsent : t.destroyer = .absent) :
    s.destroyer = .absent := by
  cases heffect with
  | pushBack record => exact habsent
  | front _ _ => exact State.absent_of_setDrain habsent
  | accept _ =>
      have hbefore := State.absent_of_setDrain habsent
      exact hbefore
  | popFront _ _ =>
      have hbefore := State.absent_of_setDrain habsent
      exact hbefore
  | quiet hquiet _ => exact hquiet.absent habsent

theorem bg_of_drain (habsent : s.destroyer = .absent) {d : Drain R}
    (hdrain : s.drain th = some d) : th = .bg := by
  cases th with
  | bg => rfl
  | destroyer => simp [State.drain, habsent] at hdrain

/-- What holds while the background thread is the only one: the event it holds is
the front of the queue. -/
structure Alone (s : State R) : Prop where
  accounted : Accounted s
  front : ∀ e, s.drain .bg = some (.produce e) → s.queue.head? = some e

theorem Alone.not_accepted (halone : Alone s) (habsent : s.destroyer = .absent)
    (hdrain : s.drain th = some (.produce e)) : e ∉ s.accepted := by
  obtain rfl := bg_of_drain habsent hdrain
  refine (halone.accounted.not_accepted_iff hdrain).mpr ⟨halone.front e hdrain, ?_⟩
  intro th hpop
  obtain rfl := bg_of_drain habsent hpop
  rw [hdrain] at hpop
  cases hpop

theorem alone_step (halone : Alone s) (habsent : s.destroyer = .absent)
    (heffect : Effect s a t) : Alone t := by
  refine ⟨accounted_step halone.accounted heffect fun _ _ _ => halone.not_accepted habsent, ?_⟩
  intro e hheld
  cases heffect with
  | pushBack record =>
      rw [drain_pushBack] at hheld
      show (s.queue ++ _).head? = some e
      rw [List.head?_append, halone.front e hheld, Option.some_or]
  | front hqueue hdrain =>
      obtain rfl := bg_of_drain habsent hdrain
      rw [State.drain_setDrain, Option.some.injEq, Drain.produce.injEq] at hheld
      rw [State.setDrain_queue, hqueue, hheld, List.head?_cons]
  | accept hdrain =>
      obtain rfl := bg_of_drain habsent hdrain
      simp at hheld
  | popFront _ hdrain =>
      obtain rfl := bg_of_drain habsent hdrain
      simp at hheld
  | quiet hquiet _ =>
      rw [hquiet.queue]
      exact halone.front e (hquiet.produce hheld)

theorem alone_of_reachable (hreach : (machine R).Reachable s) (habsent : s.destroyer = .absent) :
    Alone s := by
  have hinit : Alone (State.init : State R) :=
    ⟨accounted_init, fun e hheld => by simp [State.drain, State.init] at hheld⟩
  refine Machine.reachable_invariant (P := fun s => s.destroyer = .absent → Alone s)
    (fun _ => hinit) ?_ hreach habsent
  · intro s a t hs hstep habsent
    have heffect : Effect s a t := step_effects hstep
    have hbefore := heffect.absent habsent
    exact alone_step (hs hbefore) hbefore heffect

/-- Until the destructor is called every event is handed over exactly once. -/
theorem exactlyOnce_of_absent (hreach : (machine R).Reachable s)
    (habsent : s.destroyer = .absent) : ExactlyOnce s :=
  (alone_of_reachable hreach habsent).accounted.exactlyOnce

/-! ## Two threads at the front -/

/-- Both threads look at the front, produce it and pop. -/
def bothAtFront : List (Action ℕ) :=
  [.pushBack 5, .pushBack 6, .bgThread, .bgThread, .bgThread, .size .bg, .front .bg,
    .destructor .noError, .destructor .noError, .size .destroyer, .front .destroyer,
    .produce .bg .noError, .produce .destroyer .noError, .popFront .bg, .popFront .destroyer]

/-- The first record is accepted twice and the second is lost. -/
theorem bothAtFront_not_exactlyOnce :
    ¬ ∀ s, (machine ℕ).Visits bothAtFront s → ExactlyOnce s := by
  have hrun : ((machine ℕ).exec State.init bothAtFront).map (fun s => (s.accepted, s.queue)) =
      some ([⟨0, 5⟩, ⟨0, 5⟩], []) := by
    decide
  intro honce
  obtain ⟨s, hexec, hstate⟩ := Option.map_eq_some_iff.mp hrun
  obtain ⟨haccepted, -⟩ := Prod.mk.inj hstate
  have hnodup := (honce s (Machine.visits_of_exec hexec)).nodup
  rw [haccepted] at hnodup
  simp at hnodup

end BbMonitor.KafkaSink
