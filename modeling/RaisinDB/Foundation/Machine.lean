import Mathlib

/-!
# Runs of a deterministic machine

A machine answers every event with a new state and an output.  A run is the list
of its transitions; what one step keeps, a run keeps.
-/

namespace RaisinDB.Foundation

open List

/-- One event moves the state and yields an output. -/
structure Machine (State Event Output : Type) where
  step : State → Event → State × Output

/-- One step of a run with the state on both sides. -/
structure Transition (State Event Output : Type) where
  before : State
  event : Event
  after : State
  output : Output

namespace Machine

variable {State Event Output : Type} (machine : Machine State Event Output)

/-- The transitions of a run, in order. -/
def transitions : State → List Event → List (Transition State Event Output)
  | _, [] => []
  | state, event :: rest =>
      ⟨state, event, (machine.step state event).1, (machine.step state event).2⟩ ::
        transitions (machine.step state event).1 rest

/-- The state a run ends in. -/
def final (state : State) (events : List Event) : State :=
  events.foldl (fun current event => (machine.step current event).1) state

/-- The outputs of a run, in order. -/
def outputs (state : State) (events : List Event) : List Output :=
  (machine.transitions state events).map Transition.output

@[simp] theorem final_nil (state : State) : machine.final state [] = state := rfl

@[simp] theorem final_cons (state : State) (event : Event) (rest : List Event) :
    machine.final state (event :: rest) = machine.final (machine.step state event).1 rest := rfl

theorem final_append (state : State) (first second : List Event) :
    machine.final state (first ++ second) = machine.final (machine.final state first) second :=
  foldl_append

theorem transitions_append (state : State) (first second : List Event) :
    machine.transitions state (first ++ second) =
      machine.transitions state first ++
        machine.transitions (machine.final state first) second := by
  induction first generalizing state with
  | nil => rfl
  | cons event rest ih =>
      rw [cons_append, transitions, transitions, cons_append, ih, final_cons]

theorem outputs_append (state : State) (first second : List Event) :
    machine.outputs state (first ++ second) =
      machine.outputs state first ++ machine.outputs (machine.final state first) second := by
  rw [outputs, transitions_append, map_append, outputs, outputs]

/-- Every transition of a run starts where a shorter run ends. -/
theorem mem_transitions_iff {state : State} {events : List Event}
    {transition : Transition State Event Output} :
    transition ∈ machine.transitions state events ↔
      ∃ early event late, events = early ++ event :: late ∧
        transition =
          ⟨machine.final state early, event,
            (machine.step (machine.final state early) event).1,
            (machine.step (machine.final state early) event).2⟩ := by
  constructor
  · induction events generalizing state with
    | nil => intro hmem; cases hmem
    | cons event rest ih =>
        intro hmem
        rcases mem_cons.mp hmem with here | later
        · exact ⟨[], event, rest, rfl, here⟩
        · obtain ⟨early, next, late, split, shape⟩ := ih later
          exact ⟨event :: early, next, late, by rw [split, cons_append], shape⟩
  · rintro ⟨early, event, late, rfl, rfl⟩
    rw [transitions_append, transitions]
    exact mem_append_right _ mem_cons_self

theorem event_mem {state : State} {events : List Event}
    {transition : Transition State Event Output}
    (hmem : transition ∈ machine.transitions state events) : transition.event ∈ events := by
  obtain ⟨early, event, late, rfl, rfl⟩ := machine.mem_transitions_iff.mp hmem
  exact mem_append_right _ mem_cons_self

/-- What every permitted step keeps, every permitted run keeps at its end. -/
theorem final_invariant (Inv : State → Prop) (Ok : State → Event → Prop)
    (keeps : ∀ state event, Inv state → Ok state event → Inv (machine.step state event).1)
    {state : State} (start : Inv state) {events : List Event}
    (permitted : ∀ transition ∈ machine.transitions state events,
      Ok transition.before transition.event) :
    Inv (machine.final state events) := by
  induction events generalizing state with
  | nil => exact start
  | cons event rest ih =>
      obtain ⟨here, later⟩ := forall_mem_cons.mp permitted
      exact ih (keeps state event start here) later

/-- What every permitted step keeps holds on both sides of every step of the run. -/
theorem transitions_invariant (Inv : State → Prop) (Ok : State → Event → Prop)
    (keeps : ∀ state event, Inv state → Ok state event → Inv (machine.step state event).1)
    {state : State} (start : Inv state) {events : List Event}
    (permitted : ∀ transition ∈ machine.transitions state events,
      Ok transition.before transition.event) :
    ∀ transition ∈ machine.transitions state events,
      Inv transition.before ∧ Inv transition.after := by
  induction events generalizing state with
  | nil => intro transition hmem; cases hmem
  | cons event rest ih =>
      obtain ⟨here, later⟩ := forall_mem_cons.mp permitted
      have next := keeps state event start here
      exact forall_mem_cons.mpr ⟨⟨start, next⟩, ih next later⟩

/-- An invariant may look at the events and the outputs so far. -/
theorem history_invariant (Inv : List Event → List Output → State → Prop)
    (Ok : State → Event → Prop)
    (keeps : ∀ early outs state event, Inv early outs state → Ok state event →
      Inv (early ++ [event]) (outs ++ [(machine.step state event).2]) (machine.step state event).1)
    {state : State} (start : Inv [] [] state) {events : List Event}
    (permitted : ∀ transition ∈ machine.transitions state events,
      Ok transition.before transition.event) :
    Inv events (machine.outputs state events) (machine.final state events) := by
  induction events using reverseRecOn with
  | nil => exact start
  | append_singleton early event ih =>
      rw [transitions_append] at permitted
      obtain ⟨before, here⟩ := forall_mem_append.mp permitted
      rw [outputs_append, final_append]
      exact keeps early _ _ event (ih before) (here _ mem_cons_self)

/-- What a permitted step marks, and every later step keeps, relates it to all of them. -/
theorem transitions_pairwise (Mark : Transition State Event Output → State → Prop)
    {Related : Transition State Event Output → Transition State Event Output → Prop}
    (Ok : State → Event → Prop)
    (opens : ∀ state event, Ok state event →
      Mark ⟨state, event, (machine.step state event).1, (machine.step state event).2⟩
        (machine.step state event).1)
    (keeps : ∀ first state event, Mark first state → Mark first (machine.step state event).1)
    (gives : ∀ first state event, Mark first state →
      Related first ⟨state, event, (machine.step state event).1, (machine.step state event).2⟩)
    {state : State} {events : List Event}
    (permitted : ∀ transition ∈ machine.transitions state events,
      Ok transition.before transition.event) :
    (machine.transitions state events).Pairwise Related := by
  induction events generalizing state with
  | nil => exact Pairwise.nil
  | cons event rest ih =>
      obtain ⟨here, later⟩ := forall_mem_cons.mp permitted
      refine pairwise_cons.mpr ⟨fun second hsecond => ?_, ih later⟩
      obtain ⟨early, next, late, _, rfl⟩ := machine.mem_transitions_iff.mp hsecond
      apply gives
      exact machine.final_invariant _ (fun _ _ => True)
        (fun current current' marked _ => keeps _ current current' marked)
        (opens state event here) (fun _ _ => trivial)

end Machine

end RaisinDB.Foundation
