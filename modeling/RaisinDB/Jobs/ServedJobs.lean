import RaisinDB.Jobs.FairScheduler

/-!
# Jobs are handed out once

A job that was accepted is queued until one pop takes it, and a pop that ends with nothing has left
nothing behind.  The permits agree with the queued jobs until the semaphore is closed; after that a
worker without a permit may take the job that stood behind the permit of another one.
-/

namespace RaisinDB.Jobs

open List RaisinDB.Foundation

namespace FairScheduler

/-- Every accepted job is returned or queued, and a caller is between two steps of the same call.
While the semaphore is open every queued job has its permit: a free one, one of a caller that
acquired it, or one that is about to be added. -/
structure Accounted (sched : FairScheduler) : Prop where
  wellFormed : sched.state.WellFormed
  conserved : sched.accepted ~ sched.returned ++ sched.state.jobs
  stateFirst : sched.itemsClosed → sched.state.closed
  closingState : 0 < sched.inPhase .closing → sched.state.closed
  unpermittedClosed : 0 < sched.inPhase .unpermitted → sched.itemsClosed
  matched : sched.itemsClosed = false →
    sched.state.jobs.length = sched.items + sched.inPhase .permitted + sched.inPhase .addingPermit
  emptied : sched.drained → sched.state.closed ∧ sched.state.jobs = []

/-- Every caller that holds a permit has a job to take. -/
structure Covered (sched : FairScheduler) : Prop where
  enough : sched.inPhase .permitted ≤ sched.state.jobs.length
  found : sched.missed = false

variable {self after : FairScheduler} {action : Action} {caller : Nat}

theorem Accounted.once (accounted : self.Accounted) (jobId : JobId) :
    self.returned.count jobId ≤ self.accepted.count jobId := by
  rw [accounted.conserved.count_eq, count_append]
  exact Nat.le_add_right _ _

theorem Accounted.complete (accounted : self.Accounted) (drained : self.drained) (jobId : JobId) :
    self.returned.count jobId = self.accepted.count jobId := by
  rw [accounted.conserved.count_eq, (accounted.emptied drained).2, append_nil]

theorem inPhase_new (maxPerTenant maxTotal callers : Nat) {phase : Phase} (other : phase ≠ .idle) :
    (new maxPerTenant maxTotal callers).inPhase phase = 0 :=
  count_eq_zero.mpr fun mem => other (eq_of_mem_replicate mem)

theorem accounted_new (maxPerTenant maxTotal callers : Nat) :
    (new maxPerTenant maxTotal callers).Accounted := by
  refine ⟨DrrState.wellFormed_new _ _, Perm.nil, ?_, ?_, ?_, ?_, ?_⟩
  · exact fun closed => (Bool.false_ne_true closed).elim
  · rw [inPhase_new _ _ _ (by decide)]
    exact fun pos => absurd pos (lt_irrefl 0)
  · rw [inPhase_new _ _ _ (by decide)]
    exact fun pos => absurd pos (lt_irrefl 0)
  · rw [inPhase_new _ _ _ (by decide), inPhase_new _ _ _ (by decide)]
    exact fun _ => rfl
  · exact fun drained => (Bool.false_ne_true drained).elim

theorem covered_new (maxPerTenant maxTotal callers : Nat) :
    (new maxPerTenant maxTotal callers).Covered where
  enough := by
    rw [inPhase_new _ _ _ (by decide)]
    exact Nat.zero_le _
  found := rfl

/-! ## The phases of the callers -/

theorem inPhase_pos {phase : Phase} (here : self.callers[caller]? = some phase) :
    0 < self.inPhase phase :=
  count_pos_iff.mpr (mem_of_getElem? here)

theorem outside_ne {phase query : Phase} (out : phase.Outside) (inside : ¬query.Outside) :
    phase ≠ query :=
  fun same => inside (same ▸ out)

/-- The permits that a caller stands for. -/
def promised (phase : Phase) : Nat :=
  (if phase = .permitted then 1 else 0) + if phase = .addingPermit then 1 else 0

theorem promised_outside {phase : Phase} (out : phase.Outside) : promised phase = 0 := by
  cases phase <;> first | rfl | exact absurd out id

section Moved

variable {earlier later : Phase} (here : self.callers[caller]? = some earlier)
  (moved : after.callers = self.callers.set caller later)

include here moved

/-- The other callers are where they were. -/
theorem inPhase_moved (query : Phase) :
    after.inPhase query + (if earlier = query then 1 else 0) =
      self.inPhase query + (if later = query then 1 else 0) := by
  have same : after.inPhase query = (self.goTo caller later).inPhase query :=
    congrArg (count query) moved
  rw [same]
  exact inPhase_goTo here query

theorem inPhase_le {query : Phase} (apart : later ≠ query) :
    after.inPhase query ≤ self.inPhase query := by
  have counted := inPhase_moved here moved query
  rw [if_neg apart] at counted
  omega

theorem promised_moved : after.inPhase .permitted + after.inPhase .addingPermit + promised earlier =
    self.inPhase .permitted + self.inPhase .addingPermit + promised later := by
  have permitted := inPhase_moved here moved .permitted
  have adding := inPhase_moved here moved .addingPermit
  simp only [promised]
  omega

/-! ## Every step keeps the account -/

/-- One caller moves on: the account is kept if the permits and the jobs change together. -/
theorem Accounted.moves (accounted : self.Accounted) (wellFormed : after.state.WellFormed)
    (conserved : after.accepted ~ after.returned ++ after.state.jobs)
    (stateFirst : after.itemsClosed → after.state.closed)
    (staysClosed : self.state.closed → after.state.closed)
    (itemsStay : self.itemsClosed → after.itemsClosed)
    (closing : later = .closing → after.state.closed)
    (unpermitted : later = .unpermitted → after.itemsClosed)
    (matched : after.itemsClosed = false → after.state.jobs.length + self.items + promised earlier =
      self.state.jobs.length + after.items + promised later)
    (emptied : after.drained → after.state.closed ∧ after.state.jobs = []) : after.Accounted := by
  refine ⟨wellFormed, conserved, stateFirst, fun waits => ?_, fun waits => ?_, fun isOpen => ?_, emptied⟩
  · by_cases enters : later = .closing
    · exact closing enters
    · exact staysClosed (accounted.closingState (waits.trans_le (inPhase_le here moved enters)))
  · by_cases enters : later = .unpermitted
    · exact unpermitted enters
    · exact itemsStay (accounted.unpermittedClosed (waits.trans_le (inPhase_le here moved enters)))
  · have wasOpen : self.itemsClosed = false := by
      by_contra closed
      rw [itemsStay (Bool.eq_true_of_not_eq_false closed)] at isOpen
      cases isOpen
    have before := accounted.matched wasOpen
    have permits := promised_moved here moved
    have jobs := matched isOpen
    omega

end Moved

theorem Accounted.nothing_permitted (accounted : self.Accounted) (none : self.state.jobs = [])
    (isOpen : self.itemsClosed = false) : self.inPhase .permitted = 0 := by
  have matched := accounted.matched isOpen
  rw [none, length_nil] at matched
  omega

theorem Accounted.effect (accounted : self.Accounted) (effect : self.Effect action after) :
    after.Accounted := by
  have ⟨wellFormed, conserved, stateFirst, closingState, unpermittedClosed, _, emptied⟩ := accounted
  cases effect with
  | nothing => exact accounted
  | waits here out stays =>
    refine accounted.moves here rfl wellFormed conserved stateFirst id id ?_ ?_ ?_ emptied
    · exact fun same => absurd same (outside_ne stays id)
    · exact fun same => absurd same (outside_ne stays id)
    · rw [promised_outside out, promised_outside stays]
      exact fun _ => rfl
  | accepts here out wasOpen isOpen kept jobs =>
    have impossible {goal : Prop} (closed : self.state.closed = true) : goal :=
      absurd (closed.symm.trans wasOpen) nofun
    refine accounted.moves here rfl kept ?_ (impossible ∘ stateFirst) impossible id nofun nofun
      ?_ fun drained => impossible (emptied drained).1
    · exact (conserved.cons _).trans (perm_middle.symm.trans (jobs.symm.append_left _))
    · intro _
      rw [promised_outside out]
      simp [promised, goTo, jobs.length_eq]
      omega
  | permits here =>
    refine accounted.moves here rfl wellFormed conserved stateFirst id id nofun nofun ?_ emptied
    exact fun _ => rfl
  | acquires here isOpen some =>
    refine accounted.moves here rfl wellFormed conserved stateFirst id id nofun nofun ?_ emptied
    intro _
    simp [promised, goTo]
    omega
  | fails here closed =>
    exact accounted.moves here rfl wellFormed conserved stateFirst id id nofun (fun _ => closed)
      (fun _ => rfl) emptied
  | takes here served kept jobs closed =>
    refine accounted.moves here rfl kept ?_ (closed.trans ∘ stateFirst) closed.trans id nofun nofun
      (fun isOpen => ?_) fun drained => ?_
    · exact conserved.trans ((jobs.append_left _).trans perm_middle)
    · rcases served with rfl | rfl
      · simp [promised, goTo, jobs.length_eq]
        omega
      · rw [show self.itemsClosed = false from isOpen] at unpermittedClosed
        cases unpermittedClosed (inPhase_pos here)
    · rw [(emptied drained).2] at jobs
      exact absurd jobs.length_eq (by simp)
  | misses here none =>
    refine accounted.moves here rfl wellFormed conserved stateFirst id id nofun nofun ?_ emptied
    exact fun isOpen => absurd (accounted.nothing_permitted none isOpen) (inPhase_pos here).ne'
  | drains here none =>
    refine accounted.moves here rfl wellFormed conserved stateFirst id id nofun nofun
      (fun _ => rfl) fun _ => ⟨stateFirst (unpermittedClosed (inPhase_pos here)), none⟩
  | closesState here =>
    exact accounted.moves here rfl wellFormed.close conserved (fun _ => rfl) (fun _ => rfl) id
      (fun _ => rfl) nofun (fun _ => rfl) fun drained => ⟨rfl, (emptied drained).2⟩
  | closesItems here =>
    have closed := closingState (inPhase_pos here)
    exact accounted.moves here rfl wellFormed conserved (fun _ => closed) id (fun _ => rfl) nofun
      nofun nofun emptied

/-- A step keeps a job for every acquired permit, if a pop without a permit does. -/
theorem Covered.effect (covered : self.Covered) (accounted : self.Accounted)
    (effect : self.Effect action after) (leaves : self.LeavesForPermits action) :
    after.Covered := by
  have enough := covered.enough
  have fewer {caller : Nat} {earlier later : Phase} {next : FairScheduler}
      (here : self.callers[caller]? = some earlier)
      (moved : next.callers = self.callers.set caller later) (apart : later ≠ .permitted) :
      next.inPhase .permitted ≤ self.state.jobs.length :=
    (inPhase_le here moved apart).trans enough
  cases effect with
  | nothing => exact covered
  | waits here out stays =>
    exact ⟨fewer here rfl (outside_ne stays id), covered.found⟩
  | accepts here out wasOpen isOpen wellFormed jobs =>
    refine ⟨(fewer here rfl (by decide)).trans ?_, covered.found⟩
    exact (Nat.le_succ _).trans_eq jobs.length_eq.symm
  | permits here => exact ⟨fewer here rfl (by decide), covered.found⟩
  | @acquires _ caller here isOpen some =>
    have matched := accounted.matched isOpen
    have kept : (self.goTo caller .permitted).callers = self.callers.set caller .permitted := rfl
    have acquired := inPhase_moved here kept .permitted
    refine ⟨?_, covered.found⟩
    rw [if_neg nofun, if_pos rfl] at acquired
    refine acquired.le.trans (?_ : _ ≤ self.state.jobs.length)
    omega
  | fails here closed => exact ⟨fewer here rfl (by decide), covered.found⟩
  | @takes caller earlier jobId state here served wellFormed jobs closed =>
    have left := jobs.length_eq
    have kept : (self.goTo caller .idle).callers = self.callers.set caller .idle := rfl
    have moved := inPhase_moved here kept .permitted
    rw [length_cons] at left
    refine ⟨?_, covered.found⟩
    change (self.goTo caller .idle).inPhase .permitted ≤ state.jobs.length
    rcases served with rfl | rfl
    · rw [if_pos rfl, if_neg nofun] at moved
      omega
    · rw [if_neg nofun, if_neg nofun] at moved
      rcases leaves here with none | free
      · rw [none, length_nil] at left
        omega
      · omega
  | misses here none =>
    rw [none, length_nil] at enough
    exact absurd enough (inPhase_pos here).not_ge
  | drains here none => exact ⟨fewer here rfl (by decide), covered.found⟩
  | closesState here => exact ⟨fewer here rfl (by decide), covered.found⟩
  | closesItems here => exact ⟨fewer here rfl (by decide), covered.found⟩

/-! ## Runs -/

theorem accounted_final (maxPerTenant maxTotal callers : Nat) (actions : List Action) :
    (machine.final (new maxPerTenant maxTotal callers) actions).Accounted := by
  have kept : ∀ (sched : FairScheduler) (action : Action), sched.Accounted → True →
      (sched.step action).Accounted :=
    fun sched action accounted _ => accounted.effect (step_effect accounted.wellFormed action)
  exact machine.final_invariant _ _ kept (accounted_new maxPerTenant maxTotal callers)
    fun _ _ => trivial

/-- Whatever the interleaving, no job is returned twice and a pop that ends with nothing has left
nothing behind. -/
theorem returned_of_any_run (maxPerTenant maxTotal callers : Nat) (actions : List Action) :
    (∀ jobId, (machine.final (new maxPerTenant maxTotal callers) actions).returned.count jobId ≤
      (machine.final (new maxPerTenant maxTotal callers) actions).accepted.count jobId) ∧
    ((machine.final (new maxPerTenant maxTotal callers) actions).drained →
      ∀ jobId, (machine.final (new maxPerTenant maxTotal callers) actions).returned.count jobId =
        (machine.final (new maxPerTenant maxTotal callers) actions).accepted.count jobId) := by
  have accounted := accounted_final maxPerTenant maxTotal callers actions
  exact ⟨accounted.once, accounted.complete⟩

/-- In every run in which the pops without a permit leave the jobs that stand behind the acquired
permits, all jobs are handed out once and every permit finds a job. -/
theorem jobs_handed_out_once (maxPerTenant maxTotal callers : Nat) (actions : List Action)
    (leaves : ∀ transition ∈ machine.transitions (new maxPerTenant maxTotal callers) actions,
      transition.before.LeavesForPermits transition.event) :
    (machine.final (new maxPerTenant maxTotal callers) actions).HandsOutOnce := by
  have kept : ∀ (sched : FairScheduler) (action : Action), sched.Accounted ∧ sched.Covered →
      sched.LeavesForPermits action →
      (sched.step action).Accounted ∧ (sched.step action).Covered := by
    rintro sched action ⟨accounted, covered⟩ leaves
    have effect := step_effect accounted.wellFormed action
    exact ⟨accounted.effect effect, covered.effect accounted effect leaves⟩
  obtain ⟨accounted, covered⟩ := machine.final_invariant _ _ kept
    ⟨accounted_new maxPerTenant maxTotal callers, covered_new maxPerTenant maxTotal callers⟩ leaves
  exact ⟨accounted.once, accounted.complete, covered.found⟩

/-- One job is queued with its permit, a worker acquires the permit, and the scheduler is closed
before the worker takes the job. -/
def closedBeforeTaking : List Action :=
  [.push 0 false "tenant" "job" .normal 1, .addPermit 0, .acquire 1, .closeState 0, .closeItems 0,
    .acquireFails 2]

theorem permit_taken_first : (machine.final (new 1 1 3)
    (closedBeforeTaking ++ [.take 1, .take 2])).HandsOutOnce :=
  jobs_handed_out_once 1 1 3 _ (by decide +kernel)

theorem permit_finds_nothing : ¬∀ (maxPerTenant maxTotal callers : Nat) (actions : List Action),
    (machine.final (new maxPerTenant maxTotal callers) actions).HandsOutOnce := by
  intro always
  have found := (always 1 1 3 (closedBeforeTaking ++ [.take 2, .take 1])).found
  revert found
  decide +kernel

end FairScheduler

end RaisinDB.Jobs
