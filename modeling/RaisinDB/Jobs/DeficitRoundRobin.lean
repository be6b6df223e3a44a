import Mathlib.Data.List.AList

/-!
# Deficit round robin

Every tenant has a queue with three levels, and the tenants with work stand in a ring.  The tenant
at the front is served until its credit is spent, and it leaves the ring with its last job.
-/

namespace RaisinDB.Jobs

open List

abbrev JobId := String

inductive JobPriority where
  | high
  | normal
  | low
  deriving DecidableEq

inductive PushOutcome where
  | accepted
  | tenantFull
  | schedulerFull
  | closed
  deriving DecidableEq

def maxTenantWeight : Nat := 64

def clampWeight (weight : Nat) : Nat := max 1 (min weight maxTenantWeight)

/-! ## The queue of a tenant -/

structure TenantQueue where
  high : List JobId
  normal : List JobId
  low : List JobId
  deficit : Nat
  quantum : Nat

namespace TenantQueue

def new (quantum : Nat) : TenantQueue := ⟨[], [], [], 0, quantum⟩

def push (self : TenantQueue) (jobId : JobId) : JobPriority → TenantQueue
  | .high => { self with high := self.high ++ [jobId] }
  | .normal => { self with normal := self.normal ++ [jobId] }
  | .low => { self with low := self.low ++ [jobId] }

/-- The job of the highest level that has one, with that level. -/
def pop (self : TenantQueue) : Option ((JobId × JobPriority) × TenantQueue) :=
  match self.high with
  | jobId :: rest => some ((jobId, .high), { self with high := rest })
  | [] =>
      match self.normal with
      | jobId :: rest => some ((jobId, .normal), { self with normal := rest })
      | [] =>
          match self.low with
          | jobId :: rest => some ((jobId, .low), { self with low := rest })
          | [] => none

def level (self : TenantQueue) : JobPriority → List JobId
  | .high => self.high
  | .normal => self.normal
  | .low => self.low

def jobs (self : TenantQueue) : List JobId := self.high ++ self.normal ++ self.low

def len (self : TenantQueue) : Nat := self.high.length + self.normal.length + self.low.length

def isEmpty (self : TenantQueue) : Bool :=
  self.high.isEmpty && self.normal.isEmpty && self.low.isEmpty

theorem isEmpty_iff (self : TenantQueue) : self.isEmpty ↔ self.jobs = [] := by
  simp [isEmpty, jobs, and_assoc]

theorem jobs_push (self : TenantQueue) (jobId : JobId) (priority : JobPriority) :
    (self.push jobId priority).jobs ~ jobId :: self.jobs := by
  cases priority with
  | high =>
    change (self.high ++ [jobId]) ++ self.normal ++ self.low ~ _
    rw [append_assoc, append_assoc, singleton_append]
    exact perm_middle.trans (by rw [jobs, append_assoc])
  | normal =>
    change self.high ++ (self.normal ++ [jobId]) ++ self.low ~ _
    rw [append_assoc, append_assoc, singleton_append, ← append_assoc]
    exact perm_middle
  | low =>
    change self.high ++ self.normal ++ (self.low ++ [jobId]) ~ _
    rw [← append_assoc]
    exact perm_append_singleton jobId _

theorem jobs_pop {self after : TenantQueue} {jobId : JobId} {level : JobPriority}
    (popped : self.pop = some ((jobId, level), after)) : self.jobs = jobId :: after.jobs := by
  unfold pop at popped
  split at popped
  · next first rest high =>
    cases popped
    rw [jobs, high]
    rfl
  · next high =>
    split at popped
    · next first rest normal =>
      cases popped
      rw [jobs, jobs, high, normal]
      rfl
    · next normal =>
      split at popped
      · next first rest low =>
        cases popped
        rw [jobs, jobs, high, normal, low]
        rfl
      · cases popped

theorem pop_eq_none {self : TenantQueue} (popped : self.pop = none) : self.jobs = [] := by
  unfold pop at popped
  split at popped
  · cases popped
  · next high =>
    split at popped
    · cases popped
    · next normal =>
      split at popped
      · cases popped
      · next low => rw [jobs, high, normal, low]; rfl

end TenantQueue

/-! ## The ring -/

structure DrrState where
  queues : AList fun _ : String => TenantQueue
  order : List String
  total : Nat
  depthHigh : Nat
  depthNormal : Nat
  depthLow : Nat
  closed : Bool
  maxPerTenant : Nat
  maxTotal : Nat

namespace DrrState

def new (maxPerTenant maxTotal : Nat) : DrrState where
  queues := ∅
  order := []
  total := 0
  depthHigh := 0
  depthNormal := 0
  depthLow := 0
  closed := false
  maxPerTenant := maxPerTenant
  maxTotal := maxTotal

/-- One job of that level more or less is counted. -/
def counted (self : DrrState) (change : Nat → Nat) : JobPriority → DrrState
  | .high => { self with total := change self.total, depthHigh := change self.depthHigh }
  | .normal => { self with total := change self.total, depthNormal := change self.depthNormal }
  | .low => { self with total := change self.total, depthLow := change self.depthLow }

@[simp] theorem counted_closed (self : DrrState) (change : Nat → Nat) (level : JobPriority) :
    (self.counted change level).closed = self.closed := by cases level <;> rfl

@[simp] theorem counted_total (self : DrrState) (change : Nat → Nat) (level : JobPriority) :
    (self.counted change level).total = change self.total := by cases level <;> rfl

@[simp] theorem counted_maxTotal (self : DrrState) (change : Nat → Nat) (level : JobPriority) :
    (self.counted change level).maxTotal = self.maxTotal := by cases level <;> rfl

@[simp] theorem counted_maxPerTenant (self : DrrState) (change : Nat → Nat) (level : JobPriority) :
    (self.counted change level).maxPerTenant = self.maxPerTenant := by cases level <;> rfl

def queueLen (self : DrrState) (tenant : String) : Nat :=
  ((self.queues.lookup tenant).map TenantQueue.len).getD 0

/-- A tenant without a queue joins the ring at its back. -/
def enqueue (self : DrrState) (tenant : String) (jobId : JobId) (priority : JobPriority)
    (quantum : Nat) : DrrState :=
  let (queue, order) :=
    match self.queues.lookup tenant with
    | some queue => (queue, self.order)
    | none => (TenantQueue.new quantum, self.order ++ [tenant])
  { self.counted (· + 1) priority with
    queues := self.queues.insert tenant ({ queue with quantum := quantum }.push jobId priority)
    order := order }

def push (self : DrrState) (tenant : String) (jobId : JobId) (priority : JobPriority)
    (weight : Nat) : PushOutcome × DrrState :=
  if self.closed then (.closed, self)
  else if self.maxTotal ≤ self.total then (.schedulerFull, self)
  else if self.maxPerTenant ≤ self.queueLen tenant then (.tenantFull, self)
  else (.accepted, self.enqueue tenant jobId priority (clampWeight weight))

/-- The credit of a turn is granted when the last one is spent. -/
def granted (queue : TenantQueue) : TenantQueue :=
  if queue.deficit = 0 then { queue with deficit := queue.quantum } else queue

/-- The tenant at the front after one of its jobs was served. -/
def served (self : DrrState) (tenant : String) (rest : List String) (queue : TenantQueue)
    (level : JobPriority) : DrrState :=
  let queue := { queue with deficit := queue.deficit - 1 }
  let counted := self.counted (· - 1) level
  if queue.isEmpty then
    { counted with queues := self.queues.erase tenant, order := rest }
  else if queue.deficit = 0 then
    { counted with queues := self.queues.insert tenant queue, order := rest ++ [tenant] }
  else
    { counted with queues := self.queues.insert tenant queue, order := tenant :: rest }

/-- A tenant of the ring that has no queue is dropped from it. -/
def popFrom (self : DrrState) : List String → Option JobId × DrrState
  | [] => (none, { self with order := [] })
  | tenant :: rest =>
      match self.queues.lookup tenant with
      | none => popFrom self rest
      | some queue =>
          match (granted queue).pop with
          | none =>
              (none, { self with
                queues := self.queues.insert tenant (granted queue)
                order := tenant :: rest })
          | some ((jobId, level), left) => (some jobId, self.served tenant rest left level)

def pop (self : DrrState) : Option JobId × DrrState := self.popFrom self.order

def close (self : DrrState) : DrrState := { self with closed := true }

/-! ## What is queued -/

def tenantJobs (self : DrrState) (tenant : String) : List JobId :=
  ((self.queues.lookup tenant).map TenantQueue.jobs).getD []

def jobs (self : DrrState) : List JobId := self.order.flatMap self.tenantJobs

/-- The tenants of the ring are those with a queue, and no queue is empty. -/
structure WellFormed (state : DrrState) : Prop where
  distinct : state.order.Nodup
  inRing : ∀ tenant, tenant ∈ state.order ↔ (state.queues.lookup tenant).isSome
  working : ∀ tenant queue, state.queues.lookup tenant = some queue → queue.jobs ≠ []

theorem wellFormed_new (maxPerTenant maxTotal : Nat) : (new maxPerTenant maxTotal).WellFormed where
  distinct := nodup_nil
  inRing tenant := by simp [new]
  working tenant queue found := by simp [new] at found

theorem WellFormed.close {state : DrrState} (wellFormed : state.WellFormed) :
    state.close.WellFormed :=
  ⟨wellFormed.distinct, wellFormed.inRing, wellFormed.working⟩

variable {self : DrrState} {tenant : String}

theorem tenantJobs_of_lookup {queue : TenantQueue} (found : self.queues.lookup tenant = some queue) :
    self.tenantJobs tenant = queue.jobs := by
  rw [tenantJobs, found]
  rfl

/-- The jobs of one tenant and those of the others. -/
theorem jobs_split (inRing : tenant ∈ self.order) :
    self.jobs ~ self.tenantJobs tenant ++ (self.order.erase tenant).flatMap self.tenantJobs :=
  (perm_cons_erase inRing).flatMap_right self.tenantJobs

/-- Other queues hold what they held. -/
theorem others_unchanged (before after : DrrState) {names : List String} (absent : tenant ∉ names)
    (others : ∀ other, other ≠ tenant → after.queues.lookup other = before.queues.lookup other) :
    names.flatMap after.tenantJobs = names.flatMap before.tenantJobs := by
  refine flatMap_congr fun other hother => ?_
  rw [tenantJobs, tenantJobs, others other fun same => absent (same ▸ hother)]

theorem enqueue_spec (wellFormed : self.WellFormed) (tenant : String) (jobId : JobId)
    (priority : JobPriority) (quantum : Nat) :
    (self.enqueue tenant jobId priority quantum).WellFormed ∧
      (self.enqueue tenant jobId priority quantum).jobs ~ jobId :: self.jobs := by
  unfold enqueue
  cases found : self.queues.lookup tenant with
  | some queue =>
    dsimp only
    have member : tenant ∈ self.order := by
      rw [wellFormed.inRing, found]
      rfl
    have pushed := TenantQueue.jobs_push { queue with quantum := quantum } jobId priority
    refine ⟨⟨wellFormed.distinct, fun other => ?_, fun other held => ?_⟩, ?_⟩
    · dsimp only
      by_cases same : other = tenant
      · subst same
        simp [AList.lookup_insert, member]
      · rw [AList.lookup_insert_ne same]
        exact wellFormed.inRing other
    · dsimp only
      by_cases same : other = tenant
      · subst same
        rw [AList.lookup_insert]
        rintro ⟨⟩
        exact fun none => absurd (none ▸ pushed.length_eq) (by simp)
      · rw [AList.lookup_insert_ne same]
        exact wellFormed.working other held
    · have absent : tenant ∉ self.order.erase tenant := fun left =>
        (wellFormed.distinct.mem_erase_iff.mp left).1 rfl
      refine ((perm_cons_erase member).flatMap_right _).trans ?_
      rw [flatMap_cons, others_unchanged self _ absent fun other ne =>
        AList.lookup_insert_ne ne, tenantJobs_of_lookup (AList.lookup_insert _)]
      refine (pushed.append_right _).trans ?_
      have split := jobs_split member
      rw [tenantJobs_of_lookup found] at split
      exact (split.symm.cons jobId)
  | none =>
    dsimp only
    have absent : tenant ∉ self.order := by
      rw [wellFormed.inRing, found]
      exact Bool.false_ne_true
    have pushed := TenantQueue.jobs_push { TenantQueue.new quantum with quantum := quantum }
      jobId priority
    refine ⟨⟨?_, fun other => ?_, fun other held => ?_⟩, ?_⟩
    · rw [nodup_append]
      refine ⟨wellFormed.distinct, nodup_singleton _, fun first mem second last same => ?_⟩
      rw [mem_singleton.mp last] at same
      exact absent (same ▸ mem)
    · dsimp only
      rw [mem_append, mem_singleton]
      by_cases same : other = tenant
      · subst same
        simp [AList.lookup_insert]
      · rw [AList.lookup_insert_ne same, wellFormed.inRing]
        simp [same]
    · dsimp only
      by_cases same : other = tenant
      · subst same
        rw [AList.lookup_insert]
        rintro ⟨⟩
        exact fun none => absurd (none ▸ pushed.length_eq) (by simp)
      · rw [AList.lookup_insert_ne same]
        exact wellFormed.working other held
    · change (self.order ++ [tenant]).flatMap _ ~ _
      rw [flatMap_append, others_unchanged self _ absent fun other ne =>
        AList.lookup_insert_ne ne, flatMap_singleton,
        tenantJobs_of_lookup (AList.lookup_insert _)]
      exact (pushed.append_left _).trans (perm_append_singleton jobId _)

/-- What a push does: it adds the job, or it changes nothing. -/
theorem push_cases (wellFormed : self.WellFormed) (tenant : String) (jobId : JobId)
    (priority : JobPriority) (weight : Nat) :
    (∃ after, self.push tenant jobId priority weight = (.accepted, after) ∧ self.closed = false ∧
      after.closed = false ∧ after.WellFormed ∧ after.jobs ~ jobId :: self.jobs) ∨
    (∃ outcome, self.push tenant jobId priority weight = (outcome, self) ∧
      outcome ≠ .accepted) := by
  unfold push
  by_cases closed : self.closed
  · rw [if_pos closed]
    exact Or.inr ⟨_, rfl, by decide⟩
  rw [if_neg closed]
  split
  · exact Or.inr ⟨_, rfl, by decide⟩
  · split
    · exact Or.inr ⟨_, rfl, by decide⟩
    · have open' := Bool.eq_false_iff.mpr closed
      obtain ⟨kept, added⟩ := enqueue_spec wellFormed tenant jobId priority (clampWeight weight)
      refine Or.inl ⟨_, rfl, open', ?_, kept, added⟩
      exact (counted_closed ..).trans open'

theorem served_spec (wellFormed : self.WellFormed) {rest : List String}
    (order : self.order = tenant :: rest) {queue left : TenantQueue} {jobId : JobId}
    (found : self.queues.lookup tenant = some queue) (jobs : queue.jobs = jobId :: left.jobs)
    (level : JobPriority) :
    (self.served tenant rest left level).WellFormed ∧
      self.jobs ~ jobId :: (self.served tenant rest left level).jobs ∧
      (self.served tenant rest left level).closed = self.closed := by
  obtain ⟨absent, distinct⟩ := nodup_cons.mp (order ▸ wellFormed.distinct)
  have ring : ∀ other, other ∈ tenant :: rest ↔ (self.queues.lookup other).isSome :=
    fun other => order ▸ wellFormed.inRing other
  have before : self.jobs = jobId :: (left.jobs ++ rest.flatMap self.tenantJobs) := by
    rw [DrrState.jobs, order, flatMap_cons, tenantJobs_of_lookup found, jobs, cons_append]
  have spent : ({ left with deficit := left.deficit - 1 } : TenantQueue).jobs = left.jobs := rfl
  have inserted : ∀ other, other ≠ tenant → (self.queues.insert tenant
      { left with deficit := left.deficit - 1 }).lookup other = self.queues.lookup other :=
    fun other ne => AList.lookup_insert_ne ne
  have working : ∀ other held, left.jobs ≠ [] → (self.queues.insert tenant
      { left with deficit := left.deficit - 1 }).lookup other = some held → held.jobs ≠ [] := by
    intro other held some
    by_cases same : other = tenant
    · subst same
      rw [AList.lookup_insert]
      rintro ⟨⟩
      exact some
    · rw [inserted other same]
      exact wellFormed.working other held
  have present : ∀ other, other ∈ tenant :: rest ↔ ((self.queues.insert tenant
      { left with deficit := left.deficit - 1 }).lookup other).isSome := by
    intro other
    by_cases same : other = tenant
    · subst same
      simp [AList.lookup_insert]
    · rw [inserted other same]
      exact ring other
  unfold served
  dsimp only
  split
  · next empty =>
    have none : left.jobs = [] := (TenantQueue.isEmpty_iff _).mp empty
    refine ⟨⟨distinct, fun other => ?_, fun other held => ?_⟩, ?_, counted_closed ..⟩
    · dsimp only
      by_cases same : other = tenant
      · subst same
        rw [AList.lookup_erase]
        simp [absent]
      · rw [AList.lookup_erase_ne same, ← ring other]
        simp [same]
    · dsimp only
      by_cases same : other = tenant
      · subst same
        rw [AList.lookup_erase]
        rintro ⟨⟩
      · rw [AList.lookup_erase_ne same]
        exact wellFormed.working other held
    · rw [before, none, nil_append]
      exact Perm.of_eq (congrArg _ (others_unchanged _ self absent fun other ne =>
        (AList.lookup_erase_ne ne).symm))
  · next busy =>
    have some : left.jobs ≠ [] := fun none => busy ((TenantQueue.isEmpty_iff _).mpr none)
    have after := others_unchanged self { self with
      queues := self.queues.insert tenant { left with deficit := left.deficit - 1 } } absent
      inserted
    split
    · refine ⟨⟨?_, fun other => ?_, fun other held => working other held some⟩, ?_, counted_closed ..⟩
      · exact (perm_append_singleton tenant rest).nodup_iff.mpr (nodup_cons.mpr ⟨absent, distinct⟩)
      · rw [← present other]
        exact (perm_append_singleton tenant rest).mem_iff
      · rw [before]
        change _ ~ jobId :: (rest ++ [tenant]).flatMap _
        refine Perm.cons jobId (Perm.trans ?_
          ((perm_append_singleton tenant rest).symm.flatMap_right _))
        rw [flatMap_cons, tenantJobs_of_lookup (AList.lookup_insert _), spent]
        exact (Perm.of_eq after.symm).append_left _
    · refine ⟨⟨nodup_cons.mpr ⟨absent, distinct⟩, present,
        fun other held => working other held some⟩, ?_, counted_closed ..⟩
      rw [before]
      change _ ~ jobId :: (tenant :: rest).flatMap _
      refine Perm.cons jobId ?_
      rw [flatMap_cons, tenantJobs_of_lookup (AList.lookup_insert _), spent]
      exact (Perm.of_eq after.symm).append_left _

/-- What a pop does: it takes one job, or there is none. -/
theorem pop_cases (wellFormed : self.WellFormed) :
    (self.jobs = [] ∧ self.pop = (none, self)) ∨
    (∃ jobId after, self.pop = (some jobId, after) ∧ after.WellFormed ∧
      self.jobs ~ jobId :: after.jobs ∧ after.closed = self.closed) := by
  unfold pop
  rcases order : self.order with _ | ⟨tenant, rest⟩
  · refine Or.inl ⟨by rw [jobs, order]; rfl, ?_⟩
    rw [popFrom, ← order]
  · have present : (self.queues.lookup tenant).isSome := by
      rw [← wellFormed.inRing, order]
      exact mem_cons_self
    obtain ⟨queue, found⟩ := Option.isSome_iff_exists.mp present
    have same : (granted queue).jobs = queue.jobs := by
      unfold granted
      split <;> rfl
    rw [popFrom, found]
    dsimp only
    cases popped : (granted queue).pop with
    | none =>
      have none := TenantQueue.pop_eq_none popped
      exact absurd (same.symm.trans none) (wellFormed.working tenant queue found)
    | some pair =>
      obtain ⟨⟨jobId, level⟩, left⟩ := pair
      have jobs := same.symm.trans (TenantQueue.jobs_pop popped)
      obtain ⟨kept, taken, closed⟩ := served_spec wellFormed order found jobs level
      exact Or.inr ⟨jobId, _, rfl, kept, taken, closed⟩

end DrrState

end RaisinDB.Jobs
