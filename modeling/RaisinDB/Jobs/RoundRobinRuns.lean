import RaisinDB.Foundation.Machine
import RaisinDB.Foundation.MapSums
import RaisinDB.Jobs.DeficitRoundRobin

/-!
# Runs of deficit round robin

Whatever is pushed and popped, the ring names the tenants with jobs and no others, the counts are
those of the queues, no bound is passed, and the jobs of a tenant at one level leave in the order
in which they came.
-/

namespace RaisinDB.Jobs

open List RaisinDB.Foundation

/-! ## One queue -/

namespace TenantQueue

variable {self after : TenantQueue}

theorem level_push (self : TenantQueue) (jobId : JobId) (priority level : JobPriority) :
    (self.push jobId priority).level level =
      self.level level ++ if level = priority then [jobId] else [] := by
  cases priority <;> cases level <;> simp [push, TenantQueue.level]

theorem len_push (self : TenantQueue) (jobId : JobId) (priority : JobPriority) :
    (self.push jobId priority).len = self.len + 1 := by
  cases priority <;> simp only [push, len, length_append, length_singleton] <;> omega

@[simp] theorem deficit_push (self : TenantQueue) (jobId : JobId) (priority : JobPriority) :
    (self.push jobId priority).deficit = self.deficit := by cases priority <;> rfl

@[simp] theorem quantum_push (self : TenantQueue) (jobId : JobId) (priority : JobPriority) :
    (self.push jobId priority).quantum = self.quantum := by cases priority <;> rfl

/-- What a queue loses to a pop is the first job of one level. -/
theorem level_pop {jobId : JobId} {level : JobPriority}
    (popped : self.pop = some ((jobId, level), after)) (query : JobPriority) :
    self.level query = (if query = level then [jobId] else []) ++ after.level query := by
  unfold pop at popped
  split at popped
  · next first rest high =>
    cases popped
    cases query <;> simp [TenantQueue.level, high]
  · next high =>
    split at popped
    · next first rest normal =>
      cases popped
      cases query <;> simp [TenantQueue.level, normal]
    · next normal =>
      split at popped
      · next first rest low =>
        cases popped
        cases query <;> simp [TenantQueue.level, low]
      · cases popped

theorem credit_pop {jobId : JobId} {level : JobPriority}
    (popped : self.pop = some ((jobId, level), after)) :
    after.deficit = self.deficit ∧ after.quantum = self.quantum := by
  unfold pop at popped
  split at popped
  · cases popped
    exact ⟨rfl, rfl⟩
  · split at popped
    · cases popped
      exact ⟨rfl, rfl⟩
    · split at popped
      · cases popped
        exact ⟨rfl, rfl⟩
      · cases popped

theorem length_jobs (self : TenantQueue) : self.jobs.length = self.len := by
  rw [jobs, length_append, length_append, len]

theorem len_pop {jobId : JobId} {level : JobPriority}
    (popped : self.pop = some ((jobId, level), after)) : self.len = after.len + 1 := by
  rw [← length_jobs, ← length_jobs, jobs_pop popped, length_cons]

theorem level_mem_jobs {jobId : JobId} {level : JobPriority} (mem : jobId ∈ self.level level) :
    jobId ∈ self.jobs := by
  unfold jobs
  cases level with
  | high => exact mem_append_left _ (mem_append_left _ mem)
  | normal => exact mem_append_left _ (mem_append_right _ mem)
  | low => exact mem_append_right _ mem

end TenantQueue

/-! ## Calls -/

inductive DrrCall where
  | push (tenant : String) (jobId : JobId) (priority : JobPriority) (weight : Nat)
  | pop
  | close

inductive DrrAnswer where
  | pushed (outcome : PushOutcome)
  | popped (jobId : Option JobId)
  | closed
  deriving DecidableEq

/-- A job that is taken, with its tenant and its level. -/
structure Service where
  tenant : String
  jobId : JobId
  level : JobPriority
  deriving DecidableEq

namespace DrrState

def call (self : DrrState) : DrrCall → DrrState × DrrAnswer
  | .push tenant jobId priority weight =>
      ((self.push tenant jobId priority weight).2,
        .pushed (self.push tenant jobId priority weight).1)
  | .pop => (self.pop.2, .popped self.pop.1)
  | .close => (self.close, .closed)

def machine : Machine DrrState DrrCall DrrAnswer where
  step := call

def levelJobs (self : DrrState) (tenant : String) (level : JobPriority) : List JobId :=
  ((self.queues.lookup tenant).map fun queue => queue.level level).getD []

/-- The first job of the highest level of the tenant at the front. -/
def nextService (self : DrrState) : Option Service :=
  self.order.head?.bind fun tenant => (self.queues.lookup tenant).bind fun queue =>
    queue.pop.map fun taken => ⟨tenant, taken.1.1, taken.1.2⟩

/-- The jobs of all queues. -/
def queued (self : DrrState) : Nat := sumOf TenantQueue.len self.queues

/-- The jobs of one level in all queues. -/
def depth (self : DrrState) (level : JobPriority) : Nat :=
  sumOf (fun queue => (queue.level level).length) self.queues

/-- The ring, the queues and the counts say the same, and no bound is passed. -/
structure Consistent (state : DrrState) : Prop where
  distinct : state.order.Nodup
  inRing : ∀ tenant, tenant ∈ state.order ↔ state.tenantJobs tenant ≠ []
  noEmptyQueue : ∀ tenant queue, state.queues.lookup tenant = some queue → queue.jobs ≠ []
  total : state.total = state.queued
  high : state.depthHigh = state.depth .high
  normal : state.depthNormal = state.depth .normal
  low : state.depthLow = state.depth .low
  perTenant : ∀ tenant, state.queueLen tenant ≤ state.maxPerTenant
  whole : state.total ≤ state.maxTotal

/-! ## A push -/

variable {self : DrrState} {tenant : String}

/-- The queue that a job is pushed to. -/
def heldQueue (self : DrrState) (tenant : String) (quantum : Nat) : TenantQueue :=
  (self.queues.lookup tenant).getD (TenantQueue.new quantum)

theorem enqueue_queues (self : DrrState) (tenant : String) (jobId : JobId)
    (priority : JobPriority) (quantum : Nat) :
    (self.enqueue tenant jobId priority quantum).queues = self.queues.insert tenant
      ({ self.heldQueue tenant quantum with quantum := quantum }.push jobId priority) := by
  unfold enqueue heldQueue
  cases self.queues.lookup tenant <;> rfl

theorem enqueue_order (self : DrrState) (tenant : String) (jobId : JobId)
    (priority : JobPriority) (quantum : Nat) :
    (self.enqueue tenant jobId priority quantum).order =
      self.order ++ if (self.queues.lookup tenant).isSome then [] else [tenant] := by
  unfold enqueue
  cases self.queues.lookup tenant with
  | some queue => exact (append_nil _).symm
  | none => rfl

theorem push_accepted {jobId : JobId} {priority : JobPriority} {weight : Nat}
    (accepted : (self.push tenant jobId priority weight).1 = .accepted) :
    (self.push tenant jobId priority weight).2 =
        self.enqueue tenant jobId priority (clampWeight weight) ∧
      self.total < self.maxTotal ∧ self.queueLen tenant < self.maxPerTenant := by
  unfold push at accepted ⊢
  split
  · next closed =>
    rw [if_pos closed] at accepted
    cases accepted
  · next closed =>
    rw [if_neg closed] at accepted
    split
    · next full =>
      rw [if_pos full] at accepted
      cases accepted
    · next room =>
      rw [if_neg room] at accepted
      split
      · next full =>
        rw [if_pos full] at accepted
        cases accepted
      · next own => exact ⟨rfl, not_le.mp room, not_le.mp own⟩

/-- A refused push changes nothing. -/
theorem push_refused {jobId : JobId} {priority : JobPriority} {weight : Nat}
    (refused : (self.push tenant jobId priority weight).1 ≠ .accepted) :
    (self.push tenant jobId priority weight).2 = self := by
  unfold push at refused ⊢
  split
  · rfl
  · next closed =>
    rw [if_neg closed] at refused
    split
    · rfl
    · next room =>
      rw [if_neg room] at refused
      split
      · rfl
      · next own =>
        rw [if_neg own] at refused
        exact absurd rfl refused

theorem lookup_enqueue (self : DrrState) (tenant : String) (jobId : JobId)
    (priority : JobPriority) (quantum : Nat) (query : String) :
    (self.enqueue tenant jobId priority quantum).queues.lookup query =
      if query = tenant then
        some ({ self.heldQueue tenant quantum with quantum := quantum }.push jobId priority)
      else self.queues.lookup query := by
  rw [enqueue_queues]
  split
  · next same =>
    rw [same]
    exact AList.lookup_insert _
  · next other => exact AList.lookup_insert_ne other

/-- A sum over the queues changes with the one that is pushed to. -/
theorem sumOf_enqueue (measure : TenantQueue → Nat) {quantum : Nat}
    (fresh : measure (TenantQueue.new quantum) = 0) (self : DrrState) (tenant : String)
    (jobId : JobId) (priority : JobPriority) :
    sumOf measure (self.enqueue tenant jobId priority quantum).queues +
        measure (self.heldQueue tenant quantum) =
      sumOf measure self.queues + measure
        ({ self.heldQueue tenant quantum with quantum := quantum }.push jobId priority) := by
  rw [enqueue_queues, sumOf_insert]
  cases found : self.queues.lookup tenant with
  | some queue =>
    have held : self.heldQueue tenant quantum = queue := by rw [heldQueue, found]; rfl
    rw [held, sumOf_erase measure found]
    omega
  | none =>
    have held : self.heldQueue tenant quantum = .new quantum := by rw [heldQueue, found]; rfl
    rw [held, fresh, sumOf_erase_none measure found]
    omega

theorem levelJobs_heldQueue (self : DrrState) (tenant : String) (quantum : Nat)
    (level : JobPriority) :
    (self.heldQueue tenant quantum).level level = self.levelJobs tenant level := by
  rw [heldQueue, levelJobs]
  cases self.queues.lookup tenant with
  | some queue => rfl
  | none => cases level <;> rfl

theorem queueLen_heldQueue (self : DrrState) (tenant : String) (quantum : Nat) :
    (self.heldQueue tenant quantum).len = self.queueLen tenant := by
  rw [heldQueue, queueLen]
  cases self.queues.lookup tenant <;> rfl

theorem levelJobs_enqueue (self : DrrState) (tenant : String) (jobId : JobId)
    (priority : JobPriority) (quantum : Nat) (query : String) (level : JobPriority) :
    (self.enqueue tenant jobId priority quantum).levelJobs query level =
      self.levelJobs query level ++
        if query = tenant ∧ level = priority then [jobId] else [] := by
  by_cases same : query = tenant
  · subst same
    rw [levelJobs, lookup_enqueue, if_pos rfl]
    have pushed := TenantQueue.level_push { self.heldQueue query quantum with quantum := quantum }
      jobId priority level
    have held : ({ self.heldQueue query quantum with quantum := quantum } : TenantQueue).level
        level = self.levelJobs query level := by
      rw [← levelJobs_heldQueue self query quantum level]
      cases level <;> rfl
    rw [held] at pushed
    simpa using pushed
  · rw [levelJobs, lookup_enqueue, if_neg same, if_neg fun both => same both.1, append_nil,
      levelJobs]

theorem queueLen_enqueue (self : DrrState) (tenant : String) (jobId : JobId)
    (priority : JobPriority) (quantum : Nat) (query : String) :
    (self.enqueue tenant jobId priority quantum).queueLen query =
      self.queueLen query + if query = tenant then 1 else 0 := by
  rw [queueLen, lookup_enqueue]
  split
  · next same =>
    rw [same, ← queueLen_heldQueue self tenant quantum]
    exact TenantQueue.len_push { self.heldQueue tenant quantum with quantum := quantum } _ _
  · rfl

/-! ## A pop -/

theorem granted_pop {queue left : TenantQueue} {jobId : JobId} {level : JobPriority}
    (popped : (granted queue).pop = some ((jobId, level), left)) (query : JobPriority) :
    queue.level query = (if query = level then [jobId] else []) ++ left.level query := by
  rw [← TenantQueue.level_pop popped query]
  unfold granted
  split
  · cases query <;> rfl
  · rfl

theorem len_granted (queue : TenantQueue) : (granted queue).len = queue.len := by
  unfold granted
  split <;> rfl

/-- A pop in a state that is well-formed serves the tenant at the front, if there is one. -/
theorem pop_spec (wellFormed : self.WellFormed) :
    (self.order = [] ∧ self.pop = (none, self)) ∨
      ∃ tenant rest queue left jobId level, self.order = tenant :: rest ∧
        self.queues.lookup tenant = some queue ∧
        (granted queue).pop = some ((jobId, level), left) ∧
        self.pop = (some jobId, self.served tenant rest left level) := by
  unfold pop
  rcases order : self.order with _ | ⟨tenant, rest⟩
  · refine .inl ⟨rfl, ?_⟩
    rw [popFrom, ← order]
  · have present : (self.queues.lookup tenant).isSome := by
      rw [← wellFormed.inRing, order]
      exact mem_cons_self
    obtain ⟨queue, found⟩ := Option.isSome_iff_exists.mp present
    cases popped : (granted queue).pop with
    | none =>
      have none := TenantQueue.pop_eq_none popped
      rw [← length_eq_zero_iff, TenantQueue.length_jobs, len_granted, ← TenantQueue.length_jobs,
        length_eq_zero_iff] at none
      exact absurd none (wellFormed.working tenant queue found)
    | some taken =>
      obtain ⟨⟨jobId, level⟩, left⟩ := taken
      refine .inr ⟨tenant, rest, queue, left, jobId, level, rfl, found, popped, ?_⟩
      rw [popFrom, found]
      dsimp only
      rw [popped]

theorem nextService_eq {rest : List String} {queue left : TenantQueue} {jobId : JobId}
    {level : JobPriority} (order : self.order = tenant :: rest)
    (found : self.queues.lookup tenant = some queue)
    (popped : (granted queue).pop = some ((jobId, level), left)) :
    self.nextService = some ⟨tenant, jobId, level⟩ := by
  obtain ⟨after, taken⟩ : ∃ after, queue.pop = some ((jobId, level), after) := by
    unfold granted at popped
    split at popped
    · obtain ⟨high, normal, low, deficit, quantum⟩ := queue
      unfold TenantQueue.pop at popped ⊢
      cases high with
      | cons first more =>
        cases popped
        exact ⟨_, rfl⟩
      | nil =>
        cases normal with
        | cons first more =>
          cases popped
          exact ⟨_, rfl⟩
        | nil =>
          cases low with
          | cons first more =>
            cases popped
            exact ⟨_, rfl⟩
          | nil => cases popped
    · exact ⟨left, popped⟩
  rw [nextService, order, head?_cons, Option.bind_some, found, Option.bind_some, taken]
  rfl

/-- The queues of the others stay, and the one that is served is dropped when it is empty. -/
theorem lookup_served (self : DrrState) (tenant : String) (rest : List String)
    (left : TenantQueue) (level : JobPriority) (query : String) :
    (self.served tenant rest left level).queues.lookup query =
      if query = tenant then
        if left.isEmpty then none else some { left with deficit := left.deficit - 1 }
      else self.queues.lookup query := by
  have empty : ({ left with deficit := left.deficit - 1 } : TenantQueue).isEmpty = left.isEmpty :=
    rfl
  unfold served
  dsimp only
  rw [empty]
  split
  · split
    · next same =>
      rw [same]
      exact AList.lookup_erase tenant self.queues
    · next other => exact AList.lookup_erase_ne other
  · split
    · split
      · next same =>
        rw [same]
        exact AList.lookup_insert _
      · next other => exact AList.lookup_insert_ne other
    · split
      · next same =>
        rw [same]
        exact AList.lookup_insert _
      · next other => exact AList.lookup_insert_ne other

theorem sumOf_served (measure : TenantQueue → Nat) {queue left : TenantQueue}
    (found : self.queues.lookup tenant = some queue) (rest : List String) (level : JobPriority)
    (blind : measure { left with deficit := left.deficit - 1 } = measure left)
    (none : left.isEmpty → measure left = 0) :
    sumOf measure (self.served tenant rest left level).queues + measure queue =
      sumOf measure self.queues + measure left := by
  have before := sumOf_erase measure found
  unfold served
  dsimp only
  split
  · next empty =>
    rw [none empty]
    dsimp only
    omega
  · split
    · dsimp only
      rw [sumOf_insert, blind]
      omega
    · dsimp only
      rw [sumOf_insert, blind]
      omega

theorem levelJobs_served {queue left : TenantQueue} {jobId : JobId} {level : JobPriority}
    (found : self.queues.lookup tenant = some queue)
    (popped : (granted queue).pop = some ((jobId, level), left)) (rest : List String)
    (query : String) (asked : JobPriority) :
    self.levelJobs query asked =
      (if query = tenant ∧ asked = level then [jobId] else []) ++
        (self.served tenant rest left level).levelJobs query asked := by
  by_cases same : query = tenant
  · subst same
    have before : self.levelJobs query asked = queue.level asked := by
      rw [levelJobs, found]
      rfl
    have after : (self.served query rest left level).levelJobs query asked = left.level asked := by
      rw [levelJobs, lookup_served, if_pos rfl]
      split
      · next empty =>
        have none := (TenantQueue.isEmpty_iff left).mp empty
        refine (eq_nil_iff_forall_not_mem.mpr fun job mem => ?_).symm
        have held := TenantQueue.level_mem_jobs mem
        rw [none] at held
        cases held
      · cases asked <;> rfl
    rw [before, after, granted_pop popped asked]
    simp
  · rw [if_neg fun both => same both.1, nil_append, levelJobs, levelJobs, lookup_served,
      if_neg same]

theorem queueLen_served {queue left : TenantQueue} {jobId : JobId} {level : JobPriority}
    (found : self.queues.lookup tenant = some queue)
    (popped : (granted queue).pop = some ((jobId, level), left)) (rest : List String)
    (query : String) :
    (self.served tenant rest left level).queueLen query ≤ self.queueLen query := by
  rw [queueLen, lookup_served]
  split
  · next same =>
    have fewer := TenantQueue.len_pop popped
    rw [len_granted] at fewer
    have before : self.queueLen query = queue.len := by
      rw [same, queueLen, found]
      rfl
    rw [before]
    split
    · exact Nat.zero_le _
    · exact (show left.len ≤ queue.len by omega)
  · exact le_rfl

/-! ## The counts -/

/-- The counts are the sums over the queues, and no bound is passed. -/
structure Counted (state : DrrState) : Prop where
  total : state.total = state.queued
  high : state.depthHigh = state.depth .high
  normal : state.depthNormal = state.depth .normal
  low : state.depthLow = state.depth .low
  perTenant : ∀ tenant, state.queueLen tenant ≤ state.maxPerTenant
  whole : state.total ≤ state.maxTotal

theorem counted_new (maxPerTenant maxTotal : Nat) : (new maxPerTenant maxTotal).Counted where
  total := rfl
  high := rfl
  normal := rfl
  low := rfl
  perTenant _ := Nat.zero_le _
  whole := Nat.zero_le _

theorem Counted.close (counted : self.Counted) : self.close.Counted :=
  ⟨counted.total, counted.high, counted.normal, counted.low, counted.perTenant, counted.whole⟩

theorem depth_enqueue (self : DrrState) (tenant : String) (jobId : JobId)
    (priority : JobPriority) (quantum : Nat) (level : JobPriority) :
    (self.enqueue tenant jobId priority quantum).depth level =
      self.depth level + if level = priority then 1 else 0 := by
  have fresh : ((TenantQueue.new quantum).level level).length = 0 := by cases level <;> rfl
  have sums := sumOf_enqueue (fun queue => (queue.level level).length) fresh self tenant jobId
    priority
  have grown := TenantQueue.level_push
    { self.heldQueue tenant quantum with quantum := quantum } jobId priority level
  have same : ({ self.heldQueue tenant quantum with quantum := quantum } : TenantQueue).level
      level = (self.heldQueue tenant quantum).level level := by cases level <;> rfl
  rw [same] at grown
  dsimp only at sums
  rw [grown, length_append] at sums
  unfold depth
  split
  · next here =>
    rw [if_pos here, length_singleton] at sums
    omega
  · next here =>
    rw [if_neg here, length_nil] at sums
    omega

theorem queued_enqueue (self : DrrState) (tenant : String) (jobId : JobId)
    (priority : JobPriority) (quantum : Nat) :
    (self.enqueue tenant jobId priority quantum).queued = self.queued + 1 := by
  have sums := @sumOf_enqueue TenantQueue.len quantum rfl self tenant jobId priority
  have grown : ({ self.heldQueue tenant quantum with quantum := quantum }.push jobId
      priority).len = (self.heldQueue tenant quantum).len + 1 := TenantQueue.len_push _ _ _
  rw [grown] at sums
  unfold queued
  omega

theorem Counted.enqueue (counted : self.Counted) {jobId : JobId} {priority : JobPriority}
    {quantum : Nat} (room : self.total < self.maxTotal)
    (own : self.queueLen tenant < self.maxPerTenant) :
    (self.enqueue tenant jobId priority quantum).Counted := by
  have depths := self.depth_enqueue tenant jobId priority quantum
  refine ⟨?_, ?_, ?_, ?_, fun query => ?_, ?_⟩
  · rw [queued_enqueue, ← counted.total]
    exact counted_total ..
  · rw [depths, ← counted.high]
    cases priority <;> rfl
  · rw [depths, ← counted.normal]
    cases priority <;> rfl
  · rw [depths, ← counted.low]
    cases priority <;> rfl
  · rw [queueLen_enqueue]
    refine le_trans ?_ (counted_maxPerTenant self (· + 1) priority).ge
    split
    · next same =>
      rw [same]
      exact own
    · exact counted.perTenant query
  · refine le_trans (counted_total self (· + 1) priority).le ?_
    exact le_trans room (counted_maxTotal self (· + 1) priority).ge

theorem depth_served {queue left : TenantQueue} {jobId : JobId} {level : JobPriority}
    (found : self.queues.lookup tenant = some queue)
    (popped : (granted queue).pop = some ((jobId, level), left)) (rest : List String)
    (asked : JobPriority) :
    self.depth asked = (self.served tenant rest left level).depth asked +
      if asked = level then 1 else 0 := by
  have sums := @sumOf_served self tenant (fun queue => (queue.level asked).length) queue left found
    rest level (by cases asked <;> rfl) fun empty => by
      refine length_eq_zero_iff.mpr (eq_nil_iff_forall_not_mem.mpr fun job mem => ?_)
      have held := TenantQueue.level_mem_jobs mem
      rw [(TenantQueue.isEmpty_iff left).mp empty] at held
      cases held
  have fewer := congrArg length (granted_pop popped asked)
  rw [length_append] at fewer
  unfold depth
  split
  · next here =>
    rw [if_pos here, length_singleton] at fewer
    omega
  · next here =>
    rw [if_neg here, length_nil] at fewer
    omega

theorem queued_served {queue left : TenantQueue} {jobId : JobId} {level : JobPriority}
    (found : self.queues.lookup tenant = some queue)
    (popped : (granted queue).pop = some ((jobId, level), left)) (rest : List String) :
    self.queued = (self.served tenant rest left level).queued + 1 := by
  have sums := @sumOf_served self tenant TenantQueue.len queue left found rest level rfl
    fun empty => by
      rw [← TenantQueue.length_jobs, (TenantQueue.isEmpty_iff left).mp empty, length_nil]
  have fewer := TenantQueue.len_pop popped
  rw [len_granted] at fewer
  unfold queued
  omega

/-- Of a state that a pop leaves, the counts and the bounds are these. -/
theorem served_counts (self : DrrState) (tenant : String) (rest : List String)
    (left : TenantQueue) (level : JobPriority) :
    (self.served tenant rest left level).total = self.total - 1 ∧
      (self.served tenant rest left level).depthHigh = (self.counted (· - 1) level).depthHigh ∧
      (self.served tenant rest left level).depthNormal = (self.counted (· - 1) level).depthNormal ∧
      (self.served tenant rest left level).depthLow = (self.counted (· - 1) level).depthLow ∧
      (self.served tenant rest left level).maxPerTenant = self.maxPerTenant ∧
      (self.served tenant rest left level).maxTotal = self.maxTotal := by
  have total := counted_total self (· - 1) level
  have per := counted_maxPerTenant self (· - 1) level
  have whole := counted_maxTotal self (· - 1) level
  unfold served
  dsimp only
  split
  · exact ⟨total, rfl, rfl, rfl, per, whole⟩
  · split
    · exact ⟨total, rfl, rfl, rfl, per, whole⟩
    · exact ⟨total, rfl, rfl, rfl, per, whole⟩

theorem Counted.served (counted : self.Counted) {queue left : TenantQueue} {jobId : JobId}
    {level : JobPriority} (found : self.queues.lookup tenant = some queue)
    (popped : (granted queue).pop = some ((jobId, level), left)) (rest : List String) :
    (self.served tenant rest left level).Counted := by
  obtain ⟨total, high, normal, low, per, whole⟩ := self.served_counts tenant rest left level
  have depths := depth_served found popped rest
  have queued := queued_served found popped rest
  refine ⟨?_, ?_, ?_, ?_, fun query => ?_, ?_⟩
  · rw [total, counted.total]
    omega
  · have before := depths .high
    rw [← counted.high] at before
    rw [high]
    cases level <;> simp [DrrState.counted] at before ⊢ <;> omega
  · have before := depths .normal
    rw [← counted.normal] at before
    rw [normal]
    cases level <;> simp [DrrState.counted] at before ⊢ <;> omega
  · have before := depths .low
    rw [← counted.low] at before
    rw [low]
    cases level <;> simp [DrrState.counted] at before ⊢ <;> omega
  · rw [per]
    exact (queueLen_served found popped rest query).trans (counted.perTenant query)
  · rw [total, whole]
    exact (Nat.sub_le _ _).trans counted.whole

/-! ## Every call -/

/-- What is kept by every call. -/
structure Kept (state : DrrState) : Prop where
  wellFormed : state.WellFormed
  counted : state.Counted

theorem kept_new (maxPerTenant maxTotal : Nat) : (new maxPerTenant maxTotal).Kept :=
  ⟨wellFormed_new maxPerTenant maxTotal, counted_new maxPerTenant maxTotal⟩

theorem Kept.push (kept : self.Kept) (tenant : String) (jobId : JobId) (priority : JobPriority)
    (weight : Nat) : (self.push tenant jobId priority weight).2.Kept := by
  by_cases accepted : (self.push tenant jobId priority weight).1 = .accepted
  · obtain ⟨after, room, own⟩ := push_accepted accepted
    rw [after]
    exact ⟨(enqueue_spec kept.wellFormed tenant jobId priority _).1, kept.counted.enqueue room own⟩
  · rw [push_refused accepted]
    exact kept

theorem Kept.pop (kept : self.Kept) : self.pop.2.Kept := by
  rcases pop_spec kept.wellFormed with
    ⟨-, popped⟩ | ⟨tenant, rest, queue, left, jobId, level, order, found, taken, popped⟩
  · rw [popped]
    exact kept
  · have jobs : queue.jobs = jobId :: left.jobs := by
      rw [← TenantQueue.jobs_pop taken]
      unfold granted
      split <;> rfl
    rw [popped]
    exact ⟨(served_spec kept.wellFormed order found jobs level).1,
      kept.counted.served found taken rest⟩

theorem Kept.call (kept : self.Kept) (call : DrrCall) : (self.call call).1.Kept := by
  cases call with
  | push tenant jobId priority weight => exact kept.push tenant jobId priority weight
  | pop => exact kept.pop
  | close => exact ⟨kept.wellFormed.close, kept.counted.close⟩

theorem Kept.run (kept : self.Kept) (calls : List DrrCall) : (machine.final self calls).Kept := by
  induction calls generalizing self with
  | nil => exact kept
  | cons first rest ih => exact ih (kept.call first)

theorem tenantJobs_ne_nil_iff (wellFormed : self.WellFormed) :
    self.tenantJobs tenant ≠ [] ↔ (self.queues.lookup tenant).isSome := by
  cases found : self.queues.lookup tenant with
  | none => simp [tenantJobs, found]
  | some queue => simp [tenantJobs, found, wellFormed.working tenant queue found]

theorem Kept.consistent (kept : self.Kept) : self.Consistent where
  distinct := kept.wellFormed.distinct
  inRing tenant := by rw [kept.wellFormed.inRing, tenantJobs_ne_nil_iff kept.wellFormed]
  noEmptyQueue := kept.wellFormed.working
  total := kept.counted.total
  high := kept.counted.high
  normal := kept.counted.normal
  low := kept.counted.low
  perTenant := kept.counted.perTenant
  whole := kept.counted.whole

/-- Nothing is handed out only where no tenant has a job. -/
theorem Kept.drained (kept : self.Kept) (none : self.pop.1 = none) (tenant : String) :
    self.tenantJobs tenant = [] := by
  rcases pop_spec kept.wellFormed with
    ⟨order, -⟩ | ⟨tenant, rest, queue, left, jobId, level, order, found, taken, popped⟩
  · by_contra some
    have member := (kept.consistent.inRing tenant).mpr some
    rw [order] at member
    cases member
  · rw [popped] at none
    cases none

/-- A pop hands out the first job of the tenant at the front. -/
theorem Kept.answer (kept : self.Kept) : self.pop.1 = self.nextService.map Service.jobId := by
  rcases pop_spec kept.wellFormed with
    ⟨order, popped⟩ | ⟨tenant, rest, queue, left, jobId, level, order, found, taken, popped⟩
  · rw [popped, nextService, order]
    rfl
  · rw [popped, nextService_eq order found taken]
    rfl

/-! ## The order of the jobs -/

/-- The job that a call adds to the level of a tenant. -/
def pushedAt (tenant : String) (level : JobPriority)
    (transition : Transition DrrState DrrCall DrrAnswer) : Option JobId :=
  match transition.event, transition.output with
  | .push name jobId priority _, .pushed .accepted =>
      if name = tenant ∧ priority = level then some jobId else none
  | _, _ => none

/-- The job that a call takes from the level of a tenant. -/
def servedAt (tenant : String) (level : JobPriority)
    (transition : Transition DrrState DrrCall DrrAnswer) : Option JobId :=
  match transition.event with
  | .pop =>
      (transition.before.nextService.filter fun service =>
        service.tenant = tenant ∧ service.level = level).map Service.jobId
  | _ => none

/-- What a level holds and gets is what it gives and holds then. -/
theorem levelJobs_call (kept : self.Kept) (call : DrrCall) (tenant : String)
    (level : JobPriority) :
    self.levelJobs tenant level ++
        (pushedAt tenant level ⟨self, call, (self.call call).1, (self.call call).2⟩).toList =
      (servedAt tenant level ⟨self, call, (self.call call).1, (self.call call).2⟩).toList ++
        (self.call call).1.levelJobs tenant level := by
  cases call with
  | push name jobId priority weight =>
    have served : servedAt tenant level ⟨self, .push name jobId priority weight,
        (self.call (.push name jobId priority weight)).1,
        (self.call (.push name jobId priority weight)).2⟩ = none := rfl
    rw [served, Option.toList_none, nil_append]
    by_cases accepted : (self.push name jobId priority weight).1 = .accepted
    · have after : (self.call (.push name jobId priority weight)).1 =
          self.enqueue name jobId priority (clampWeight weight) := (push_accepted accepted).1
      rw [after, levelJobs_enqueue]
      unfold pushedAt DrrState.call
      dsimp only
      rw [accepted]
      dsimp only
      by_cases here : name = tenant ∧ priority = level
      · rw [if_pos here, if_pos ⟨here.1.symm, here.2.symm⟩]
        rfl
      · rw [if_neg here, if_neg fun both => here ⟨both.1.symm, both.2.symm⟩]
        rfl
    · have after : (self.call (.push name jobId priority weight)).1 = self :=
        push_refused accepted
      have pushed : pushedAt tenant level ⟨self, .push name jobId priority weight,
          (self.call (.push name jobId priority weight)).1,
          (self.call (.push name jobId priority weight)).2⟩ = none := by
        unfold pushedAt DrrState.call
        dsimp only
        split
        · next same => exact absurd (DrrAnswer.pushed.inj same) accepted
        · rfl
      rw [pushed, after, Option.toList_none, append_nil]
  | pop =>
    have pushed : pushedAt tenant level ⟨self, .pop, (self.call .pop).1, (self.call .pop).2⟩ =
        none := rfl
    rw [pushed, Option.toList_none, append_nil]
    unfold servedAt DrrState.call
    dsimp only
    rcases pop_spec kept.wellFormed with
      ⟨order, popped⟩ | ⟨name, rest, queue, left, jobId, served, order, found, taken, popped⟩
    · have none : self.nextService = none := by
        rw [nextService, order]
        rfl
      rw [popped, none]
      rfl
    · rw [popped, nextService_eq order found taken, levelJobs_served found taken rest tenant level]
      by_cases here : tenant = name ∧ level = served
      · rw [if_pos here]
        simp [Option.filter, here.1, here.2]
      · rw [if_neg here]
        have other : ¬ (name = tenant ∧ served = level) := fun both =>
          here ⟨both.1.symm, both.2.symm⟩
        simp [Option.filter, other]
  | close => exact append_nil _

/-- In a run, what a level held first and was given later leaves in that order. -/
theorem levelJobs_run (kept : self.Kept) (calls : List DrrCall) (tenant : String)
    (level : JobPriority) :
    self.levelJobs tenant level ++
        (machine.transitions self calls).filterMap (pushedAt tenant level) =
      (machine.transitions self calls).filterMap (servedAt tenant level) ++
        (machine.final self calls).levelJobs tenant level := by
  induction calls generalizing self with
  | nil => exact append_nil _
  | cons first rest ih =>
    have step := levelJobs_call kept first tenant level
    have later := ih (kept.call first)
    have split : ∀ read : Transition DrrState DrrCall DrrAnswer → Option JobId,
        (machine.transitions self (first :: rest)).filterMap read =
          (read ⟨self, first, (self.call first).1, (self.call first).2⟩).toList ++
            (machine.transitions (self.call first).1 rest).filterMap read := by
      intro read
      rw [Machine.transitions, filterMap_cons]
      cases held : read ⟨self, first, (machine.step self first).1, (machine.step self first).2⟩ with
      | none =>
        have same : read ⟨self, first, (self.call first).1, (self.call first).2⟩ = none := held
        rw [same]
        rfl
      | some job =>
        have same : read ⟨self, first, (self.call first).1, (self.call first).2⟩ = some job :=
          held
        rw [same]
        rfl
    rw [split, split, ← append_assoc, step, append_assoc, later, append_assoc]
    rfl

/-- In every state that calls lead to, ring, queues and counts agree and no bound is passed, a pop
ends with nothing only where no job is queued and else hands out the first job of the tenant at the
front, and a refused push changes nothing.  Through the run, the jobs of a tenant at one level are
handed out in the order of their pushes. -/
theorem runs_are_consistent (maxPerTenant maxTotal : Nat) (calls : List DrrCall) :
    (machine.final (new maxPerTenant maxTotal) calls).Consistent ∧
      ((machine.final (new maxPerTenant maxTotal) calls).pop.1 = none →
        ∀ tenant, (machine.final (new maxPerTenant maxTotal) calls).tenantJobs tenant = []) ∧
      (machine.final (new maxPerTenant maxTotal) calls).pop.1 =
        (machine.final (new maxPerTenant maxTotal) calls).nextService.map Service.jobId ∧
      (∀ tenant level,
        (machine.transitions (new maxPerTenant maxTotal) calls).filterMap
            (pushedAt tenant level) =
          (machine.transitions (new maxPerTenant maxTotal) calls).filterMap
              (servedAt tenant level) ++
            (machine.final (new maxPerTenant maxTotal) calls).levelJobs tenant level) ∧
      ∀ tenant jobId priority weight,
        ((machine.final (new maxPerTenant maxTotal) calls).push tenant jobId priority weight).1 ≠
            .accepted →
          ((machine.final (new maxPerTenant maxTotal) calls).push tenant jobId priority
            weight).2 = machine.final (new maxPerTenant maxTotal) calls := by
  have fresh := kept_new maxPerTenant maxTotal
  have kept := fresh.run calls
  refine ⟨kept.consistent, kept.drained, kept.answer, fun tenant level => ?_, ?_⟩
  · exact levelJobs_run fresh calls tenant level
  · exact fun tenant jobId priority weight => push_refused

/-- The jobs of two tenants, all of them handed out before the queues are closed. -/
def twoTenants : List DrrCall :=
  [.push "a" "a1" .low 2, .push "b" "b1" .high 1, .push "a" "a2" .low 2, .pop, .pop, .pop, .close]

theorem two_tenants_handed_out :
    (∀ tenant, (machine.final (new 2 3) twoTenants).tenantJobs tenant = []) ∧
      (machine.transitions (new 2 3) twoTenants).filterMap (servedAt "a" .low) = ["a1", "a2"] ∧
      ((machine.final (new 2 3) twoTenants).push "a" "a3" .high 1).2 =
        machine.final (new 2 3) twoTenants := by
  obtain ⟨-, drained, -, order, refused⟩ := runs_are_consistent 2 3 twoTenants
  refine ⟨drained (by decide), ?_, refused "a" "a3" .high 1 (by decide)⟩
  have pushed := order "a" .low
  rw [(by decide : (machine.final (new 2 3) twoTenants).levelJobs "a" .low = []), append_nil]
    at pushed
  rw [← pushed]
  decide

end DrrState

end RaisinDB.Jobs
