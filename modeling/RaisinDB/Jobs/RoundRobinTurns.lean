import RaisinDB.Jobs.RoundRobinRuns

/-!
# Turns of deficit round robin

Only the tenant at the front has credit left, and never more than the greatest weight.  A tenant
that joins the ring is served after one turn of each tenant before it.
-/

namespace RaisinDB.Jobs

open List RaisinDB.Foundation

namespace DrrState

variable {self : DrrState} {tenant : String}

/-! ## Credit -/

def credit (self : DrrState) (tenant : String) : Nat :=
  ((self.queues.lookup tenant).map TenantQueue.deficit).getD 0

/-- Credit is left to the front only, and it and the weights are within the bounds. -/
structure Credited (state : DrrState) : Prop where
  weights : ∀ tenant queue, state.queues.lookup tenant = some queue →
    1 ≤ queue.quantum ∧ queue.quantum ≤ maxTenantWeight
  bounded : ∀ tenant, state.credit tenant ≤ maxTenantWeight
  front : ∀ tenant, state.credit tenant ≠ 0 → state.order.head? = some tenant

theorem clampWeight_bounds (weight : Nat) :
    1 ≤ clampWeight weight ∧ clampWeight weight ≤ maxTenantWeight := by
  unfold clampWeight maxTenantWeight
  omega

theorem credited_new (maxPerTenant maxTotal : Nat) : (new maxPerTenant maxTotal).Credited where
  weights tenant queue found := by simp [new] at found
  bounded tenant := Nat.zero_le _
  front tenant some := absurd rfl some

theorem Credited.close (credited : self.Credited) : self.close.Credited :=
  ⟨credited.weights, credited.bounded, credited.front⟩

theorem credit_enqueue (self : DrrState) (tenant : String) (jobId : JobId)
    (priority : JobPriority) (quantum : Nat) (query : String) :
    (self.enqueue tenant jobId priority quantum).credit query = self.credit query := by
  rw [credit, lookup_enqueue]
  split
  · next same =>
    rw [same, Option.map_some, Option.getD_some, TenantQueue.deficit_push, credit, heldQueue]
    cases self.queues.lookup tenant <;> rfl
  · rfl

theorem head?_append_of_some {names more : List String} {name : String}
    (front : names.head? = some name) : (names ++ more).head? = some name := by
  rw [head?_append, front]
  rfl

theorem Credited.enqueue (credited : self.Credited) (tenant : String) (jobId : JobId)
    (priority : JobPriority) (weight : Nat) :
    (self.enqueue tenant jobId priority (clampWeight weight)).Credited where
  weights query queue found := by
    rw [lookup_enqueue] at found
    split at found
    · rw [← Option.some.inj found, TenantQueue.quantum_push]
      exact clampWeight_bounds weight
    · exact credited.weights query queue found
  bounded query := by
    rw [credit_enqueue]
    exact credited.bounded query
  front query some := by
    rw [credit_enqueue] at some
    rw [enqueue_order]
    exact head?_append_of_some (credited.front query some)

/-! ## A turn goes on or ends -/

/-- What is left of a turn when a job of it was served. -/
def leftOver (queue : TenantQueue) : Nat :=
  (if queue.deficit = 0 then queue.quantum else queue.deficit) - 1

theorem granted_deficit (queue : TenantQueue) :
    (granted queue).deficit = if queue.deficit = 0 then queue.quantum else queue.deficit := by
  unfold granted
  split <;> rfl

/-- The service of the tenant at the front ends its turn, or the tenant stays there with what is
left of its credit. -/
theorem served_turn {rest : List String} {queue left : TenantQueue} {jobId : JobId}
    {level : JobPriority} (popped : (granted queue).pop = some ((jobId, level), left)) :
    ((self.served tenant rest left level).queues.lookup tenant = none ∧
        (self.served tenant rest left level).order = rest) ∨
      ((∃ after, (self.served tenant rest left level).queues.lookup tenant = some after ∧
          after.deficit = leftOver queue ∧ after.quantum = (granted queue).quantum) ∧
        (self.served tenant rest left level).order =
          if leftOver queue = 0 then rest ++ [tenant] else tenant :: rest) := by
  obtain ⟨deficit, quantum⟩ := TenantQueue.credit_pop popped
  have spent : left.deficit - 1 = leftOver queue := by
    rw [deficit, granted_deficit]
    rfl
  have looked := lookup_served self tenant rest left level tenant
  rw [if_pos rfl] at looked
  by_cases empty : left.isEmpty
  · rw [if_pos empty] at looked
    refine .inl ⟨looked, ?_⟩
    unfold served
    dsimp only
    rw [if_pos (show ({ left with deficit := left.deficit - 1 } : TenantQueue).isEmpty from empty)]
  · rw [if_neg empty] at looked
    refine .inr ⟨⟨_, looked, spent, quantum⟩, ?_⟩
    unfold served
    dsimp only
    rw [if_neg (show ¬ ({ left with deficit := left.deficit - 1 } : TenantQueue).isEmpty from
      empty), spent]
    split <;> rfl

theorem leftOver_lt {queue : TenantQueue} (weights : 1 ≤ queue.quantum) :
    leftOver queue + 1 = if queue.deficit = 0 then queue.quantum else queue.deficit := by
  unfold leftOver
  split
  · omega
  · next some => omega

/-- What a pop does to the ring and the credit. -/
inductive Turn (before after : DrrState) : Prop where
  /-- No tenant is there. -/
  | none (empty : before.order = []) (same : after = before)
  /-- The last job of a tenant was served, and it leaves the ring. -/
  | leaves (name : String) (rest : List String) (service : Service)
      (front : before.order = name :: rest) (next : before.nextService = some service)
      (tenant : service.tenant = name) (left : after.order = rest)
      (gone : after.queues.lookup name = none)
      (others : ∀ other, other ≠ name → after.queues.lookup other = before.queues.lookup other)
  /-- A job was served, and the tenant stays at the front while it has credit. -/
  | stays (name : String) (rest : List String) (service : Service) (queue later : TenantQueue)
      (front : before.order = name :: rest) (next : before.nextService = some service)
      (tenant : service.tenant = name)
      (held : before.queues.lookup name = some queue)
      (now : after.queues.lookup name = some later) (spent : later.deficit = leftOver queue)
      (same : later.quantum = queue.quantum)
      (ring : after.order = if leftOver queue = 0 then rest ++ [name] else name :: rest)
      (others : ∀ other, other ≠ name → after.queues.lookup other = before.queues.lookup other)

theorem granted_quantum (queue : TenantQueue) : (granted queue).quantum = queue.quantum := by
  unfold granted
  split <;> rfl

theorem Kept.turn (kept : self.Kept) : self.Turn self.pop.2 := by
  rcases pop_spec kept.wellFormed with
    ⟨order, popped⟩ | ⟨name, rest, queue, left, jobId, level, order, found, taken, popped⟩
  · rw [popped]
    exact .none order rfl
  · rw [popped]
    have others : ∀ other, other ≠ name →
        (self.served name rest left level).queues.lookup other = self.queues.lookup other := by
      intro other different
      rw [lookup_served, if_neg different]
    have next := nextService_eq order found taken
    rcases @served_turn self name rest _ _ _ _ taken with
      ⟨gone, ring⟩ | ⟨⟨after, now, spent, same⟩, ring⟩
    · exact .leaves name rest _ order next rfl ring gone others
    · exact .stays name rest _ queue after order next rfl found now spent
        (same.trans (granted_quantum queue)) ring others

theorem credit_of_lookup {queue : TenantQueue} (found : self.queues.lookup tenant = some queue) :
    self.credit tenant = queue.deficit := by
  rw [credit, found]
  rfl

theorem credit_congr {after : DrrState}
    (same : after.queues.lookup tenant = self.queues.lookup tenant) :
    after.credit tenant = self.credit tenant := by
  rw [credit, same, credit]

theorem Credited.credit_eq_zero (credited : self.Credited) {name : String} {rest : List String}
    (front : self.order = name :: rest) (other : tenant ≠ name) : self.credit tenant = 0 := by
  by_contra some
  have first := credited.front tenant some
  rw [front, head?_cons] at first
  exact other (Option.some.inj first).symm

theorem Credited.turn {after : DrrState} (credited : self.Credited) (turn : self.Turn after) :
    after.Credited := by
  cases turn with
  | none empty same => exact same ▸ credited
  | leaves name rest service front next named left gone others =>
    have zero : ∀ query, after.credit query = 0 := by
      intro query
      by_cases same : query = name
      · rw [same, credit, gone]
        rfl
      · rw [credit_congr (others query same)]
        exact credited.credit_eq_zero front same
    refine ⟨fun query queue found => ?_, fun query => ?_, fun query some => ?_⟩
    · by_cases same : query = name
      · rw [same, gone] at found
        cases found
      · exact credited.weights query queue ((others query same).symm.trans found)
    · rw [zero]
      exact Nat.zero_le _
    · exact absurd (zero query) some
  | stays name rest service queue later front next named held now spent same ring others =>
    have weights := credited.weights name queue held
    have bounded := credited.bounded name
    rw [credit_of_lookup held] at bounded
    have fewer := leftOver_lt weights.1
    have nowCredit : after.credit name = leftOver queue := (credit_of_lookup now).trans spent
    have zero : ∀ query, query ≠ name → after.credit query = 0 := by
      intro query different
      rw [credit_congr (others query different)]
      exact credited.credit_eq_zero front different
    refine ⟨fun query held' found => ?_, fun query => ?_, fun query some => ?_⟩
    · by_cases here : query = name
      · rw [here, now] at found
        rw [← Option.some.inj found, same]
        exact weights
      · exact credited.weights query held' ((others query here).symm.trans found)
    · by_cases here : query = name
      · rw [here, nowCredit]
        split at fewer <;> omega
      · rw [zero query here]
        exact Nat.zero_le _
    · have here : query = name := by
        by_contra different
        exact some (zero query different)
      rw [here, nowCredit] at some
      rw [ring, if_neg some, here]
      rfl

/-- What every call keeps, credit included. -/
structure Turning (state : DrrState) : Prop where
  kept : state.Kept
  credited : state.Credited

theorem Turning.call (turning : self.Turning) (call : DrrCall) : (self.call call).1.Turning := by
  refine ⟨turning.kept.call call, ?_⟩
  cases call with
  | push name jobId priority weight =>
    by_cases accepted : (self.push name jobId priority weight).1 = .accepted
    · have after : (self.call (.push name jobId priority weight)).1 =
          self.enqueue name jobId priority (clampWeight weight) := (push_accepted accepted).1
      rw [after]
      exact turning.credited.enqueue name jobId priority weight
    · have after : (self.call (.push name jobId priority weight)).1 = self :=
        push_refused accepted
      rw [after]
      exact turning.credited
  | pop => exact turning.credited.turn turning.kept.turn
  | close => exact turning.credited.close

theorem Turning.run (turning : self.Turning) (calls : List DrrCall) :
    (machine.final self calls).Turning := by
  induction calls generalizing self with
  | nil => exact turning
  | cons first rest ih => exact ih (turning.call first)

theorem turning_new (maxPerTenant maxTotal : Nat) : (new maxPerTenant maxTotal).Turning :=
  ⟨kept_new maxPerTenant maxTotal, credited_new maxPerTenant maxTotal⟩

/-! ## Services -/

/-- The tenant has no queue or no credit, so its next service begins a turn. -/
def turnOver (self : DrrState) (tenant : String) : Bool := self.credit tenant = 0

/-- The tenant that a call serves, and whether its turn ends with that. -/
def serviceOf (transition : Transition DrrState DrrCall DrrAnswer) : Option (String × Bool) :=
  match transition.event with
  | .pop => transition.before.nextService.map fun service =>
      (service.tenant, transition.after.turnOver service.tenant)
  | _ => none

/-- The services of a run, in order. -/
def services (self : DrrState) (calls : List DrrCall) : List (String × Bool) :=
  (machine.transitions self calls).filterMap serviceOf

def isPop : DrrCall → Bool
  | .pop => true
  | _ => false

theorem services_cons (self : DrrState) (first : DrrCall) (rest : List DrrCall) :
    self.services (first :: rest) =
      (serviceOf ⟨self, first, (self.call first).1, (self.call first).2⟩).toList ++
        (self.call first).1.services rest := by
  rw [services, Machine.transitions, filterMap_cons, services]
  have step : machine.step self first = self.call first := rfl
  rw [step]
  cases serviceOf ⟨self, first, (self.call first).1, (self.call first).2⟩ <;> rfl

/-! ## Waiting in the ring -/

/-- How often a tenant may be served before its turn is over. -/
def allowance (self : DrrState) (tenant : String) : Nat :=
  if self.credit tenant = 0 then maxTenantWeight else self.credit tenant

theorem allowance_pos (self : DrrState) (tenant : String) : 0 < self.allowance tenant := by
  unfold allowance maxTenantWeight
  split <;> omega

theorem Credited.allowance_le (credited : self.Credited) (tenant : String) :
    self.allowance tenant ≤ maxTenantWeight := by
  have bounded := credited.bounded tenant
  unfold allowance
  split <;> omega

/-- A call that is no pop lets the ring grow at its back and leaves the credit. -/
theorem other_call (self : DrrState) {call : DrrCall} (other : isPop call = false) :
    (∃ more, (self.call call).1.order = self.order ++ more) ∧
      (∀ tenant, (self.call call).1.credit tenant = self.credit tenant) ∧
      serviceOf ⟨self, call, (self.call call).1, (self.call call).2⟩ = none := by
  cases call with
  | push name jobId priority weight =>
    refine ⟨?_, fun query => ?_, rfl⟩
    · by_cases accepted : (self.push name jobId priority weight).1 = .accepted
      · have after : (self.call (.push name jobId priority weight)).1 =
            self.enqueue name jobId priority (clampWeight weight) := (push_accepted accepted).1
        refine ⟨if (self.queues.lookup name).isSome then [] else [name], ?_⟩
        rw [after]
        exact enqueue_order ..
      · have after : (self.call (.push name jobId priority weight)).1 = self :=
          push_refused accepted
        exact ⟨[], by rw [after, append_nil]⟩
    · by_cases accepted : (self.push name jobId priority weight).1 = .accepted
      · have after : (self.call (.push name jobId priority weight)).1 =
            self.enqueue name jobId priority (clampWeight weight) := (push_accepted accepted).1
        rw [after]
        exact credit_enqueue ..
      · have after : (self.call (.push name jobId priority weight)).1 = self :=
          push_refused accepted
        rw [after]
  | pop => cases other
  | close => exact ⟨⟨[], (append_nil _).symm⟩, fun _ => rfl, rfl⟩

theorem service_of_pop {service : Service} (next : self.nextService = some service) :
    serviceOf ⟨self, .pop, (self.call .pop).1, (self.call .pop).2⟩ =
      some (service.tenant, self.pop.2.turnOver service.tenant) := by
  unfold serviceOf
  dsimp only
  rw [next]
  rfl

/-- The services before the first one of the tenant. -/
def waited (self : DrrState) (tenant : String) (calls : List DrrCall) : List (String × Bool) :=
  (self.services calls).takeWhile fun service => service.1 ≠ tenant

/-- Before the first service of a tenant, those ahead of it are served, none again after its turn
is over, and enough pops come to the tenant. -/
structure ServedAfter (state : DrrState) (tenant : String) (ahead : List String)
    (calls : List DrrCall) : Prop where
  few : (state.waited tenant calls).length ≤ (ahead.map state.allowance).sum
  inside : ∀ service ∈ state.waited tenant calls, service.1 ∈ ahead
  turns : (state.waited tenant calls).Pairwise fun first later => first.2 → later.1 ≠ first.1
  jobs : ∀ other ∈ ahead, (state.waited tenant calls).countP
    (fun service => service.1 = other) ≤ state.allowance other
  served : (ahead.map state.allowance).sum < calls.countP isPop →
    ∃ service ∈ state.services calls, service.1 = tenant

theorem ServedAfter.nil (self : DrrState) (tenant : String) (ahead : List String) :
    self.ServedAfter tenant ahead [] where
  few := Nat.zero_le _
  inside _ mem := nomatch mem
  turns := .nil
  jobs _ _ := Nat.zero_le _
  served enough := absurd enough (Nat.not_lt_zero _)

theorem ServedAfter.other {ahead : List String} {call : DrrCall} {rest : List DrrCall}
    (other : isPop call = false)
    (later : (self.call call).1.ServedAfter tenant ahead rest) :
    self.ServedAfter tenant ahead (call :: rest) := by
  obtain ⟨-, credits, silent⟩ := self.other_call other
  have same : (self.call call).1.allowance = self.allowance := by
    funext name
    rw [allowance, credits, allowance]
  have services : self.services (call :: rest) = (self.call call).1.services rest := by
    rw [services_cons, silent]
    rfl
  have waited : self.waited tenant (call :: rest) = (self.call call).1.waited tenant rest := by
    rw [waited, services, waited]
  obtain ⟨few, inside, turns, jobs, served⟩ := later
  rw [same] at few served
  simp only [same] at jobs
  refine ⟨?_, ?_, ?_, ?_, ?_⟩
  · rwa [waited]
  · rwa [waited]
  · rwa [waited]
  · rwa [waited]
  · rw [services, countP_cons_of_neg (by rw [other]; exact Bool.false_ne_true)]
    exact served

/-- The tenant is at the front. -/
theorem ServedAfter.front {behind : List String} (front : self.order = tenant :: behind)
    (turning : self.Turning) (rest : List DrrCall) :
    self.ServedAfter tenant [] (.pop :: rest) := by
  obtain ⟨service, next, named⟩ : ∃ service, self.nextService = some service ∧
      service.tenant = tenant := by
    cases turning.kept.turn with
    | none empty same => rw [front] at empty; cases empty
    | leaves name _ service here next named => exact
        ⟨service, next, named.trans (cons.inj (here.symm.trans front)).1⟩
    | stays name _ service _ _ here next named => exact
        ⟨service, next, named.trans (cons.inj (here.symm.trans front)).1⟩
  have services : self.services (.pop :: rest) =
      (tenant, self.pop.2.turnOver tenant) :: self.pop.2.services rest := by
    rw [services_cons, service_of_pop next, named]
    rfl
  have none : self.waited tenant (.pop :: rest) = [] := by
    rw [waited, services]
    simp
  refine ⟨?_, ?_, ?_, ?_, fun _ => ?_⟩
  · rw [none]
    exact Nat.zero_le _
  · rw [none]
    exact fun service mem => nomatch mem
  · rw [none]
    exact .nil
  · exact fun other mem => nomatch mem
  · rw [services]
    exact ⟨_, mem_cons_self, rfl⟩

theorem waited_pop {name : String} (different : name ≠ tenant) {service : Service}
    (next : self.nextService = some service) (named : service.tenant = name)
    (rest : List DrrCall) :
    self.services (.pop :: rest) = (name, self.pop.2.turnOver name) :: self.pop.2.services rest ∧
      self.waited tenant (.pop :: rest) =
        (name, self.pop.2.turnOver name) :: self.pop.2.waited tenant rest := by
  have services : self.services (.pop :: rest) =
      (name, self.pop.2.turnOver name) :: self.pop.2.services rest := by
    rw [services_cons, service_of_pop next, named]
    rfl
  refine ⟨services, ?_⟩
  rw [waited, services, takeWhile_cons_of_pos (by simpa using different), waited]

theorem allowance_sum_congr {after : DrrState} {names : List String}
    (same : ∀ other ∈ names, after.allowance other = self.allowance other) :
    (names.map after.allowance).sum = (names.map self.allowance).sum := by
  rw [map_congr_left same]

/-- The turn of the tenant at the front ends, and one less is ahead. -/
theorem ServedAfter.ends {name : String} {ahead : List String} {rest : List DrrCall}
    (different : name ≠ tenant) (absent : name ∉ ahead) {service : Service}
    (next : self.nextService = some service) (named : service.tenant = name)
    (same : ∀ other ∈ ahead, self.pop.2.allowance other = self.allowance other)
    (later : self.pop.2.ServedAfter tenant ahead rest) :
    self.ServedAfter tenant (name :: ahead) (.pop :: rest) := by
  obtain ⟨services, waited⟩ := waited_pop different next named rest
  have some := self.allowance_pos name
  have sums := allowance_sum_congr same
  obtain ⟨few, inside, turns, jobs, served⟩ := later
  have unserved : ∀ query, query ∉ ahead → (self.pop.2.waited tenant rest).countP
      (fun service => service.1 = query) = 0 := by
    intro query out
    refine countP_eq_zero.mpr fun service mem found => out ?_
    rw [← of_decide_eq_true found]
    exact inside service mem
  refine ⟨?_, ?_, ?_, fun other mem => ?_, fun enough => ?_⟩
  · rw [waited, length_cons, map_cons, sum_cons]
    omega
  · rw [waited]
    exact forall_mem_cons.mpr ⟨mem_cons_self, fun service mem =>
      mem_cons_of_mem _ (inside service mem)⟩
  · rw [waited]
    refine pairwise_cons.mpr ⟨fun service mem _ same => absent ?_, turns⟩
    rw [← (show service.1 = name from same)]
    exact inside service mem
  · rw [waited, countP_cons]
    by_cases here : name = other
    · have zero := unserved name absent
      rw [← here, zero]
      split <;> omega
    · have inAhead : other ∈ ahead := (mem_cons.mp mem).resolve_left (Ne.symm here)
      have before := jobs other inAhead
      rw [same other inAhead] at before
      rw [decide_eq_false here, if_neg Bool.false_ne_true]
      exact before
  · rw [map_cons, sum_cons, countP_cons_of_pos rfl] at enough
    obtain ⟨found, mem, own⟩ := served (by omega)
    rw [services]
    exact ⟨found, mem_cons_of_mem _ mem, own⟩

/-- The tenant at the front keeps its turn with less credit. -/
theorem ServedAfter.goesOn {name : String} {ahead : List String} {rest : List DrrCall}
    (different : name ≠ tenant) {service : Service}
    (next : self.nextService = some service) (named : service.tenant = name)
    (unended : self.pop.2.turnOver name = false)
    (spent : self.pop.2.allowance name + 1 ≤ self.allowance name)
    (same : ∀ other ∈ ahead, self.pop.2.allowance other = self.allowance other)
    (later : self.pop.2.ServedAfter tenant (name :: ahead) rest) :
    self.ServedAfter tenant (name :: ahead) (.pop :: rest) := by
  obtain ⟨services, waited⟩ := waited_pop different next named rest
  have sums := allowance_sum_congr same
  obtain ⟨few, inside, turns, jobs, served⟩ := later
  rw [map_cons, sum_cons] at few served
  rw [unended] at waited services
  refine ⟨?_, ?_, ?_, fun other mem => ?_, fun enough => ?_⟩
  · rw [waited, length_cons, map_cons, sum_cons]
    omega
  · rw [waited]
    exact forall_mem_cons.mpr ⟨mem_cons_self, inside⟩
  · rw [waited]
    exact pairwise_cons.mpr ⟨fun _ _ ended => absurd ended Bool.false_ne_true, turns⟩
  · have before := jobs other mem
    rw [waited, countP_cons]
    by_cases here : name = other
    · rw [← here] at before ⊢
      rw [decide_eq_true rfl, if_pos rfl]
      omega
    · have inAhead : other ∈ ahead := (mem_cons.mp mem).resolve_left (Ne.symm here)
      rw [same other inAhead] at before
      rw [decide_eq_false here, if_neg Bool.false_ne_true]
      exact before
  · rw [map_cons, sum_cons, countP_cons_of_pos rfl] at enough
    obtain ⟨found, mem, own⟩ := served (by omega)
    rw [services]
    exact ⟨found, mem_cons_of_mem _ mem, own⟩

theorem allowance_congr {after : DrrState}
    (same : after.queues.lookup tenant = self.queues.lookup tenant) :
    after.allowance tenant = self.allowance tenant := by
  rw [allowance, credit_congr same, allowance]

/-- Wherever a tenant stands in the ring, it is served after those ahead of it. -/
theorem Turning.servedAfter (turning : self.Turning) {ahead behind : List String}
    (order : self.order = ahead ++ tenant :: behind) (calls : List DrrCall) :
    self.ServedAfter tenant ahead calls := by
  induction calls generalizing self ahead behind with
  | nil => exact .nil self tenant ahead
  | cons call rest ih =>
    cases pops : isPop call with
    | false =>
      obtain ⟨⟨more, ring⟩, -, -⟩ := self.other_call pops
      have after : (self.call call).1.order = ahead ++ tenant :: (behind ++ more) := by
        rw [ring, order, append_assoc, cons_append]
      exact .other pops (ih (turning.call call) after)
    | true =>
      cases call with
      | push name jobId priority weight => cases pops
      | close => cases pops
      | pop =>
        cases ahead with
        | nil => exact .front order turning rest
        | cons name ahead =>
          have distinct := turning.kept.wellFormed.distinct
          rw [order, cons_append] at distinct
          rw [cons_append] at order
          obtain ⟨absent, -⟩ := nodup_cons.mp distinct
          have different : name ≠ tenant := fun same =>
            absent (same ▸ mem_append_right _ mem_cons_self)
          have outside : name ∉ ahead := fun mem => absent (mem_append_left _ mem)
          have kept := turning.call .pop
          cases turning.kept.turn with
          | none empty same => rw [order] at empty; cases empty
          | leaves first ring service front next named left gone others =>
            obtain ⟨here, there⟩ := cons.inj (front.symm.trans order)
            rw [here] at named others
            have same : ∀ other ∈ ahead,
                self.pop.2.allowance other = self.allowance other := fun other mem =>
              allowance_congr (others other fun same => outside (same ▸ mem))
            exact .ends different outside next named same (ih kept (left.trans there))
          | stays first ring service queue later front next named held now spent quantum
              turned others =>
              obtain ⟨here, there⟩ := cons.inj (front.symm.trans order)
              rw [here] at named others held now
              have same : ∀ other ∈ ahead,
                  self.pop.2.allowance other = self.allowance other := fun other mem =>
                allowance_congr (others other fun same => outside (same ▸ mem))
              have credit : self.pop.2.credit name = leftOver queue :=
                (credit_of_lookup now).trans spent
              by_cases isOver : leftOver queue = 0
              · rw [if_pos isOver, there, append_assoc, cons_append] at turned
                exact .ends different outside next named same (ih kept turned)
              · rw [if_neg isOver, there, here] at turned
                refine .goesOn different next named (decide_eq_false ?_) ?_ same (ih kept turned)
                · rwa [credit]
                · have weights := turning.credited.weights name queue held
                  have fewer := leftOver_lt weights.1
                  rw [allowance, allowance, credit, if_neg isOver, credit_of_lookup held]
                  by_cases fresh : queue.deficit = 0
                  · rw [if_pos fresh] at fewer ⊢
                    omega
                  · rw [if_neg fresh] at fewer ⊢
                    omega

/-! ## Within a round -/

/-- The tenant is served within a round of that ring. -/
structure ServedInRound (state : DrrState) (tenant : String) (ring : List String)
    (calls : List DrrCall) : Prop where
  few : (state.waited tenant calls).length ≤ (ring.map fun _ => maxTenantWeight).sum
  inside : ∀ service ∈ state.waited tenant calls, service.1 ∈ ring
  turns : (state.waited tenant calls).Pairwise fun first later => first.2 → later.1 ≠ first.1
  jobs : ∀ other ∈ ring, (state.waited tenant calls).countP
    (fun service => service.1 = other) ≤ maxTenantWeight
  served : (ring.map fun _ => maxTenantWeight).sum < calls.countP isPop →
    ∃ service ∈ state.services calls, service.1 = tenant

theorem Credited.allowances_le (credited : self.Credited) (ring : List String) :
    (ring.map self.allowance).sum ≤ (ring.map fun _ => maxTenantWeight).sum :=
  sum_le_sum fun name _ => credited.allowance_le name

theorem ServedAfter.inRound {ring : List String} {calls : List DrrCall}
    (credited : self.Credited) (after : self.ServedAfter tenant ring calls) :
    self.ServedInRound tenant ring calls where
  few := after.few.trans (credited.allowances_le ring)
  inside := after.inside
  turns := after.turns
  jobs other mem := (after.jobs other mem).trans (credited.allowance_le other)
  served enough := after.served ((credited.allowances_le ring).trans_lt enough)

/-- A push to a tenant without jobs puts it behind the whole ring. -/
theorem push_joins (turning : self.Turning) {jobId : JobId} {priority : JobPriority}
    {weight : Nat} (idle : self.tenantJobs tenant = [])
    (accepted : (self.push tenant jobId priority weight).1 = .accepted) :
    (self.push tenant jobId priority weight).2.order = self.order ++ [tenant] := by
  have absent : (self.queues.lookup tenant).isSome = false := by
    by_contra some
    exact (tenantJobs_ne_nil_iff turning.kept.wellFormed).mpr (Bool.eq_true_of_not_eq_false some)
      idle
  rw [(push_accepted accepted).1, enqueue_order, absent]
  rfl

end DrrState

end RaisinDB.Jobs
