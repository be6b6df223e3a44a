import RaisinDB.Foundation.Machine
import RaisinDB.Jobs.DeficitRoundRobin

/-!
# The fair scheduler

The queues are behind a lock, and a semaphore outside of it counts the jobs for the workers.  A
caller changes the one and then the other, and the callers interleave between any two steps.  Once
the semaphore is closed the workers take jobs without a permit.
-/

namespace RaisinDB.Jobs

open List RaisinDB.Foundation

/-- How far a caller is in its call. -/
inductive Phase where
  | idle
  /-- The pool was full. -/
  | waitingForRoom (tenant : String) (jobId : JobId) (priority : JobPriority)
  /-- The job is queued and its permit is not yet added. -/
  | addingPermit
  /-- The permit is acquired and forgotten and no job is taken yet. -/
  | permitted
  /-- The semaphore was closed. -/
  | unpermitted
  /-- The queues are closed and the semaphore is not yet. -/
  | closing
  deriving DecidableEq

/-- A caller that has to do neither with a permit nor with closing. -/
def Phase.Outside : Phase → Prop
  | .idle | .waitingForRoom .. => True
  | _ => False

/-- The scheduler and its callers, with the jobs it accepted and returned so far, whether a pop has
ended with nothing, and whether a permit was acquired and no job was found. -/
structure FairScheduler where
  state : DrrState
  items : Nat
  itemsClosed : Bool
  callers : List Phase
  accepted : List JobId
  returned : List JobId
  drained : Bool
  missed : Bool

inductive Action where
  /-- The locked part of a push; a push that does not block gives up where the pool is full. -/
  | push (caller : Nat) (blocks : Bool) (tenant : String) (jobId : JobId) (priority : JobPriority)
      (weight : Nat)
  | retry (caller weight : Nat)
  | addPermit (caller : Nat)
  | acquire (caller : Nat)
  | acquireFails (caller : Nat)
  | take (caller : Nat)
  | closeState (caller : Nat)
  | closeItems (caller : Nat)

namespace FairScheduler

def new (maxPerTenant maxTotal callers : Nat) : FairScheduler where
  state := .new maxPerTenant maxTotal
  items := 0
  itemsClosed := false
  callers := replicate callers .idle
  accepted := []
  returned := []
  drained := false
  missed := false

def goTo (self : FairScheduler) (caller : Nat) (phase : Phase) : FairScheduler :=
  { self with callers := self.callers.set caller phase }

def tryEnqueue (self : FairScheduler) (caller : Nat) (whenFull : Phase) (tenant : String)
    (jobId : JobId) (priority : JobPriority) (weight : Nat) : FairScheduler :=
  match self.state.push tenant jobId priority weight with
  | (.accepted, state) =>
      { self with state := state, accepted := jobId :: self.accepted }.goTo caller .addingPermit
  | (.schedulerFull, state) => { self with state := state }.goTo caller whenFull
  | (_, state) => { self with state := state }.goTo caller .idle

/-- The locked part of a pop, which ends the call.  A pop that has a permit and finds no job goes
back to acquiring one. -/
def takeJob (self : FairScheduler) (caller : Nat) (hasPermit : Bool) : FairScheduler :=
  match self.state.pop with
  | (some jobId, state) =>
      { self with state := state, returned := jobId :: self.returned }.goTo caller .idle
  | (none, state) =>
      if hasPermit then { self with state := state, missed := true }.goTo caller .idle
      else { self with state := state, drained := true }.goTo caller .idle

/-- One step of a caller.  A step that the caller cannot take changes nothing. -/
def step (self : FairScheduler) : Action → FairScheduler
  | .push caller blocks tenant jobId priority weight =>
      if self.callers[caller]? = some .idle then
        self.tryEnqueue caller (if blocks then .waitingForRoom tenant jobId priority else .idle)
          tenant jobId priority weight
      else self
  | .retry caller weight =>
      match self.callers[caller]? with
      | some (.waitingForRoom tenant jobId priority) =>
          self.tryEnqueue caller (.waitingForRoom tenant jobId priority) tenant jobId priority
            weight
      | _ => self
  | .addPermit caller =>
      if self.callers[caller]? = some .addingPermit then
        { self with items := self.items + 1 }.goTo caller .idle
      else self
  | .acquire caller =>
      if self.callers[caller]? = some .idle ∧ self.itemsClosed = false ∧ 0 < self.items then
        { self with items := self.items - 1 }.goTo caller .permitted
      else self
  | .acquireFails caller =>
      if self.callers[caller]? = some .idle ∧ self.itemsClosed then self.goTo caller .unpermitted
      else self
  | .take caller =>
      match self.callers[caller]? with
      | some .permitted => self.takeJob caller true
      | some .unpermitted => self.takeJob caller false
      | _ => self
  | .closeState caller =>
      if self.callers[caller]? = some .idle then
        { self with state := self.state.close }.goTo caller .closing
      else self
  | .closeItems caller =>
      if self.callers[caller]? = some .closing then
        { self with itemsClosed := true }.goTo caller .idle
      else self

def machine : Machine FairScheduler Action Unit where
  step self action := (self.step action, ())

def inPhase (self : FairScheduler) (phase : Phase) : Nat := self.callers.count phase

/-- What callers rely on: no job is returned more often than it was accepted, a pop ends with
nothing only when everything accepted was returned, and a permit always finds a job. -/
structure HandsOutOnce (sched : FairScheduler) : Prop where
  once : ∀ jobId, sched.returned.count jobId ≤ sched.accepted.count jobId
  complete : sched.drained → ∀ jobId, sched.returned.count jobId = sched.accepted.count jobId
  found : sched.missed = false

/-- A pop that takes a job without a permit leaves one for every caller that holds a permit. -/
def LeavesForPermits (sched : FairScheduler) : Action → Prop
  | .take caller => sched.callers[caller]? = some .unpermitted →
      sched.state.jobs = [] ∨ sched.inPhase .permitted < sched.state.jobs.length
  | _ => True

instance (sched : FairScheduler) (action : Action) : Decidable (sched.LeavesForPermits action) := by
  cases action <;> unfold LeavesForPermits <;> infer_instance

/-! ## What a step does -/

/-- The outcomes of a step.  Outside the locked queues they change one phase and one other field. -/
inductive Effect (before : FairScheduler) : Action → FairScheduler → Prop where
  | nothing {action : Action} : Effect before action before
  | waits {action : Action} {caller : Nat} {earlier later : Phase}
      (here : before.callers[caller]? = some earlier) (out : earlier.Outside)
      (stays : later.Outside) : Effect before action (before.goTo caller later)
  | accepts {action : Action} {caller : Nat} {earlier : Phase} {jobId : JobId} {state : DrrState}
      (here : before.callers[caller]? = some earlier) (out : earlier.Outside)
      (wasOpen : before.state.closed = false) (isOpen : state.closed = false)
      (wellFormed : state.WellFormed) (jobs : state.jobs ~ jobId :: before.state.jobs) :
      Effect before action
        ({ before with state := state, accepted := jobId :: before.accepted }.goTo caller
          .addingPermit)
  | permits {action : Action} {caller : Nat}
      (here : before.callers[caller]? = some .addingPermit) :
      Effect before action ({ before with items := before.items + 1 }.goTo caller .idle)
  | acquires {action : Action} {caller : Nat} (here : before.callers[caller]? = some .idle)
      (isOpen : before.itemsClosed = false) (some : 0 < before.items) :
      Effect before action ({ before with items := before.items - 1 }.goTo caller .permitted)
  | fails {action : Action} {caller : Nat} (here : before.callers[caller]? = some .idle)
      (closed : before.itemsClosed) : Effect before action (before.goTo caller .unpermitted)
  | takes {caller : Nat} {earlier : Phase} {jobId : JobId} {state : DrrState}
      (here : before.callers[caller]? = some earlier)
      (served : earlier = .permitted ∨ earlier = .unpermitted) (wellFormed : state.WellFormed)
      (jobs : before.state.jobs ~ jobId :: state.jobs)
      (closed : state.closed = before.state.closed) :
      Effect before (.take caller)
        ({ before with state := state, returned := jobId :: before.returned }.goTo caller .idle)
  | misses {action : Action} {caller : Nat} (here : before.callers[caller]? = some .permitted)
      (none : before.state.jobs = []) :
      Effect before action ({ before with missed := true }.goTo caller .idle)
  | drains {action : Action} {caller : Nat} (here : before.callers[caller]? = some .unpermitted)
      (none : before.state.jobs = []) :
      Effect before action ({ before with drained := true }.goTo caller .idle)
  | closesState {action : Action} {caller : Nat} (here : before.callers[caller]? = some .idle) :
      Effect before action
        ({ before with state := before.state.close }.goTo caller .closing)
  | closesItems {action : Action} {caller : Nat}
      (here : before.callers[caller]? = some .closing) :
      Effect before action ({ before with itemsClosed := true }.goTo caller .idle)

variable {self : FairScheduler} {caller : Nat} {phase : Phase}

theorem tryEnqueue_effect (wellFormed : self.state.WellFormed)
    (here : self.callers[caller]? = some phase) (out : phase.Outside) {whenFull : Phase}
    (full : whenFull.Outside) (action : Action) (tenant : String) (jobId : JobId)
    (priority : JobPriority) (weight : Nat) :
    self.Effect action (self.tryEnqueue caller whenFull tenant jobId priority weight) := by
  unfold tryEnqueue
  rcases DrrState.push_cases wellFormed tenant jobId priority weight with
    ⟨after, pushed, wasOpen, isOpen, kept, jobs⟩ | ⟨outcome, pushed, refused⟩
  · rw [pushed]
    exact .accepts here out wasOpen isOpen kept jobs
  · rw [pushed]
    cases outcome with
    | accepted => exact absurd rfl refused
    | tenantFull => exact .waits here out trivial
    | schedulerFull => exact .waits here out full
    | closed => exact .waits here out trivial

theorem takeJob_effect (wellFormed : self.state.WellFormed) (hasPermit : Bool)
    (here : self.callers[caller]? = some (if hasPermit then .permitted else .unpermitted)) :
    self.Effect (.take caller) (self.takeJob caller hasPermit) := by
  unfold takeJob
  rcases DrrState.pop_cases wellFormed with ⟨none, popped⟩ | ⟨jobId, after, popped, kept, jobs, closed⟩
  · rw [popped]
    cases hasPermit with
    | true => exact .misses here none
    | false => exact .drains here none
  · rw [popped]
    refine .takes here ?_ kept jobs closed
    cases hasPermit with
    | true => exact Or.inl rfl
    | false => exact Or.inr rfl

theorem step_effect (wellFormed : self.state.WellFormed) (action : Action) :
    self.Effect action (self.step action) := by
  cases action with
  | push caller blocks tenant jobId priority weight =>
    rw [step]
    split
    · next here =>
      refine tryEnqueue_effect wellFormed here trivial ?_ _ _ _ _ _
      cases blocks <;> exact trivial
    · exact .nothing
  | retry caller weight =>
    rw [step]
    split
    · next here =>
      exact tryEnqueue_effect wellFormed here (by trivial) (by trivial) _ _ _ _ _
    · exact .nothing
  | addPermit caller =>
    rw [step]
    split
    · next here => exact .permits here
    · exact .nothing
  | acquire caller =>
    rw [step]
    split
    · next ready => exact .acquires ready.1 ready.2.1 ready.2.2
    · exact .nothing
  | acquireFails caller =>
    rw [step]
    split
    · next ready => exact .fails ready.1 ready.2
    · exact .nothing
  | take caller =>
    rw [step]
    split
    · next here => exact takeJob_effect wellFormed true here
    · next here => exact takeJob_effect wellFormed false here
    · exact .nothing
  | closeState caller =>
    rw [step]
    split
    · next here => exact .closesState here
    · exact .nothing
  | closeItems caller =>
    rw [step]
    split
    · next here => exact .closesItems here
    · exact .nothing

/-- A caller that changes its phase is counted in the new one and no longer in the old one. -/
theorem inPhase_goTo {before after : Phase} (here : self.callers[caller]? = some before)
    (query : Phase) :
    (self.goTo caller after).inPhase query + (if before = query then 1 else 0) =
      self.inPhase query + (if after = query then 1 else 0) := by
  obtain ⟨bound, rfl⟩ := List.getElem?_eq_some_iff.mp here
  have counted : (self.goTo caller after).inPhase query = self.inPhase query -
      (if self.callers[caller] == query then 1 else 0) + (if after == query then 1 else 0) :=
    count_set bound
  have some : self.callers[caller] = query → 0 < self.inPhase query := by
    rintro rfl
    exact count_pos_iff.mpr (getElem_mem bound)
  simp only [beq_iff_eq] at counted
  rw [counted]
  split
  · next same =>
    have := some same
    split <;> omega
  · split <;> omega

end FairScheduler

end RaisinDB.Jobs
