import Mathlib.Data.List.Infix
import Mathlib.Tactic.Linarith
import Mathlib.Tactic.Ring
import RaisinDB.Jobs.RoundRobinTurns

/-!
# Ratios of deficit round robin

Two tenants that stay in the ring have their turns one after the other, so what they are served is
near the ratio of their weights.  The balance of the two is what the credit left and the turn that
is due account for.
-/

namespace RaisinDB.Jobs

open List RaisinDB.Foundation

namespace DrrState

variable {self : DrrState} {tenant : String}

/-! ## The balance of two tenants -/

/-- The tenant is in the ring with that weight. -/
def Stands (self : DrrState) (tenant : String) (weight : Nat) : Prop :=
  (self.queues.lookup tenant).map TenantQueue.quantum = some weight

/-- Of two tenants in the ring, the next turn that begins is the second one's. -/
def SecondNext (self : DrrState) (a b : String) : Prop :=
  if self.order.idxOf a < self.order.idxOf b then self.credit a ≠ 0 else self.credit b = 0

instance (self : DrrState) (a b : String) : Decidable (self.SecondNext a b) :=
  inferInstanceAs (Decidable
    (if self.order.idxOf a < self.order.idxOf b then self.credit a ≠ 0 else self.credit b = 0))

/-- What the first tenant is ahead by, in services times weights. -/
def balance (self : DrrState) (a b : String) (wa wb : Nat) : Int :=
  self.credit a * wb - self.credit b * wa - if self.SecondNext a b then (wa * wb : Int) else 0

/-- How often a tenant is served. -/
def timesServed (self : DrrState) (tenant : String) (calls : List DrrCall) : Nat :=
  (self.services calls).countP fun service => service.1 = tenant

theorem Stands.mem {weight : Nat} (stands : self.Stands tenant weight) (kept : self.Kept) :
    tenant ∈ self.order := by
  rw [kept.wellFormed.inRing]
  unfold Stands at stands
  cases found : self.queues.lookup tenant with
  | none => rw [found] at stands; cases stands
  | some queue => rfl

theorem Stands.lookup {weight : Nat} (stands : self.Stands tenant weight) {queue : TenantQueue}
    (found : self.queues.lookup tenant = some queue) : queue.quantum = weight := by
  unfold Stands at stands
  rw [found] at stands
  exact Option.some.inj stands

theorem balance_congr {after : DrrState} {a b : String} {wa wb : Nat}
    (first : after.credit a = self.credit a) (second : after.credit b = self.credit b)
    (ring : after.order.idxOf a < after.order.idxOf b ↔ self.order.idxOf a < self.order.idxOf b) :
    after.balance a b wa wb = self.balance a b wa wb := by
  have next : after.SecondNext a b ↔ self.SecondNext a b := by
    unfold SecondNext
    rw [first, second]
    simp only [ring]
  unfold balance
  rw [first, second]
  simp only [next]

theorem SecondNext.of_before {a b : String} (before : self.order.idxOf a < self.order.idxOf b) :
    self.SecondNext a b ↔ self.credit a ≠ 0 := by
  unfold SecondNext
  rw [if_pos before]

theorem SecondNext.of_behind {a b : String}
    (behind : ¬ self.order.idxOf a < self.order.idxOf b) :
    self.SecondNext a b ↔ self.credit b = 0 := by
  unfold SecondNext
  rw [if_neg behind]

/-- The tenant at the front stands before every other, and behind every other once it is moved to
the back. -/
theorem idxOf_front {name other : String} (different : name ≠ other) (rest : List String) :
    (name :: rest).idxOf name < (name :: rest).idxOf other := by
  rw [idxOf_cons_self, idxOf_cons_ne _ different]
  exact Nat.succ_pos _

theorem idxOf_back {name other : String} {rest : List String} (absent : name ∉ rest)
    (inside : other ∈ rest) : (rest ++ [name]).idxOf other < (rest ++ [name]).idxOf name := by
  rw [idxOf_append_of_mem inside, idxOf_append_of_notMem absent]
  exact (idxOf_lt_length_of_mem inside).trans_le (Nat.le_add_right _ _)

theorem idxOf_move {name a b : String} {rest : List String} (notFirst : name ≠ a)
    (notSecond : name ≠ b) (inFirst : a ∈ rest) (inSecond : b ∈ rest) :
    ((rest ++ [name]).idxOf a < (rest ++ [name]).idxOf b ↔
        (name :: rest).idxOf a < (name :: rest).idxOf b) ∧
      (rest.idxOf a < rest.idxOf b ↔ (name :: rest).idxOf a < (name :: rest).idxOf b) := by
  rw [idxOf_append_of_mem inFirst, idxOf_append_of_mem inSecond, idxOf_cons_ne _ notFirst,
    idxOf_cons_ne _ notSecond]
  exact ⟨Nat.succ_lt_succ_iff.symm, Nat.succ_lt_succ_iff.symm⟩

/-- A call that is no pop keeps the balance. -/
theorem balance_other {a b : String} {wa wb : Nat} {call : DrrCall} (other : isPop call = false)
    (first : a ∈ self.order) (second : b ∈ self.order) :
    (self.call call).1.balance a b wa wb = self.balance a b wa wb := by
  obtain ⟨⟨more, ring⟩, credits, -⟩ := self.other_call other
  refine balance_congr (credits a) (credits b) ?_
  rw [ring, idxOf_append_of_mem first, idxOf_append_of_mem second]

/-- The turn of a tenant outside the two keeps the balance. -/
theorem balance_third {after : DrrState} {a b name : String} {wa wb : Nat} {rest : List String}
    (front : self.order = name :: rest) (notFirst : name ≠ a) (notSecond : name ≠ b)
    (inFirst : a ∈ self.order) (inSecond : b ∈ self.order)
    (ring : after.order = rest ∨ after.order = rest ++ [name] ∨ after.order = name :: rest)
    (others : ∀ other, other ≠ name → after.queues.lookup other = self.queues.lookup other) :
    after.balance a b wa wb = self.balance a b wa wb := by
  refine balance_congr (credit_congr (others a notFirst.symm))
    (credit_congr (others b notSecond.symm)) ?_
  rw [front] at inFirst inSecond ⊢
  have moves := idxOf_move notFirst notSecond ((mem_cons.mp inFirst).resolve_left notFirst.symm)
    ((mem_cons.mp inSecond).resolve_left notSecond.symm)
  rcases ring with gone | moved | same
  · rw [gone]
    exact moves.2
  · rw [moved]
    exact moves.1
  · rw [same]

/-- While the tenant at the front has credit, it is ahead by the credit and behind by a turn. -/
theorem balance_first {a b : String} {wa wb : Nat}
    (before : self.order.idxOf a < self.order.idxOf b) (second : self.credit b = 0) :
    self.balance a b wa wb =
      self.credit a * wb - if self.credit a = 0 then 0 else (wa * wb : Int) := by
  have next := SecondNext.of_before before
  unfold balance
  rw [second]
  by_cases spent : self.credit a = 0
  · rw [if_neg (mt next.mp (not_not.mpr spent)), if_pos spent]
    simp
  · rw [if_pos (next.mpr spent), if_neg spent]
    simp

theorem balance_second {a b : String} {wa wb : Nat}
    (behind : ¬ self.order.idxOf a < self.order.idxOf b) (first : self.credit a = 0) :
    self.balance a b wa wb =
      -(self.credit b * wa) - if self.credit b = 0 then (wa * wb : Int) else 0 := by
  have next := SecondNext.of_behind behind
  unfold balance
  rw [first]
  by_cases spent : self.credit b = 0
  · rw [if_pos (next.mpr spent), if_pos spent]
    simp
  · rw [if_neg (mt next.mp spent), if_neg spent]
    simp

/-- The first tenant gains its service times the weight of the other. -/
theorem balance_served_first {after : DrrState} {a b : String} {wa wb : Nat}
    {rest : List String} {queue later : TenantQueue} (turning : self.Turning)
    (different : a ≠ b)
    (front : self.order = a :: rest) (second : b ∈ self.order)
    (held : self.queues.lookup a = some queue) (now : after.queues.lookup a = some later)
    (spent : later.deficit = leftOver queue) (quantum : queue.quantum = wa)
    (ring : after.order = if leftOver queue = 0 then rest ++ [a] else a :: rest)
    (others : ∀ other, other ≠ a → after.queues.lookup other = self.queues.lookup other) :
    (wb : Int) = self.balance a b wa wb - after.balance a b wa wb := by
  have distinct := turning.kept.wellFormed.distinct
  rw [front] at distinct second
  have absent := (nodup_cons.mp distinct).1
  have inside := (mem_cons.mp second).resolve_left different.symm
  have weights := turning.credited.weights a queue held
  have fewer := leftOver_lt weights.1
  have zero : self.credit b = 0 := turning.credited.credit_eq_zero front different.symm
  have later' : after.credit b = 0 := (credit_congr (others b different.symm)).trans zero
  have ahead := idxOf_front different rest
  have before : self.balance a b wa wb = _ := balance_first (front ▸ ahead) zero
  rw [before, credit_of_lookup held]
  have nowCredit : after.credit a = leftOver queue := (credit_of_lookup now).trans spent
  rw [quantum] at fewer weights
  by_cases isOver : leftOver queue = 0
  · rw [if_pos isOver] at ring
    have behind : ¬ after.order.idxOf a < after.order.idxOf b := by
      rw [ring]
      exact (idxOf_back absent inside).not_gt
    rw [balance_second behind (nowCredit.trans isOver), later', if_pos rfl]
    rw [isOver] at fewer
    split at fewer
    · next fresh =>
      rw [fresh, if_pos rfl, ← fewer]
      simp
    · next some =>
      rw [← fewer]
      simp
  · rw [if_neg isOver] at ring
    rw [balance_first (ring ▸ ahead) later', nowCredit, if_neg isOver]
    split at fewer
    · next fresh =>
      rw [fresh, if_pos rfl, ← fewer]
      push_cast
      ring
    · next some =>
      rw [if_neg some, ← fewer]
      push_cast
      ring

theorem balance_served_second {after : DrrState} {a b : String} {wa wb : Nat}
    {rest : List String} {queue later : TenantQueue} (turning : self.Turning)
    (different : b ≠ a) (front : self.order = b :: rest) (first : a ∈ self.order)
    (held : self.queues.lookup b = some queue) (now : after.queues.lookup b = some later)
    (spent : later.deficit = leftOver queue) (quantum : queue.quantum = wb)
    (ring : after.order = if leftOver queue = 0 then rest ++ [b] else b :: rest)
    (others : ∀ other, other ≠ b → after.queues.lookup other = self.queues.lookup other) :
    (-wa : Int) = self.balance a b wa wb - after.balance a b wa wb := by
  have distinct := turning.kept.wellFormed.distinct
  rw [front] at distinct first
  have absent := (nodup_cons.mp distinct).1
  have inside := (mem_cons.mp first).resolve_left different.symm
  have weights := turning.credited.weights b queue held
  have fewer := leftOver_lt weights.1
  have zero : self.credit a = 0 := turning.credited.credit_eq_zero front different.symm
  have later' : after.credit a = 0 := (credit_congr (others a different.symm)).trans zero
  have ahead := idxOf_front different rest
  have before : self.balance a b wa wb = _ := balance_second (front ▸ ahead.not_gt) zero
  rw [before, credit_of_lookup held]
  have nowCredit : after.credit b = leftOver queue := (credit_of_lookup now).trans spent
  rw [quantum] at fewer weights
  by_cases isOver : leftOver queue = 0
  · rw [if_pos isOver] at ring
    have before' : after.order.idxOf a < after.order.idxOf b := by
      rw [ring]
      exact idxOf_back absent inside
    rw [balance_first before' (nowCredit.trans isOver), later', if_pos rfl]
    rw [isOver] at fewer
    split at fewer
    · next fresh =>
      rw [fresh, if_pos rfl, ← fewer]
      simp
    · next some =>
      rw [← fewer]
      simp
  · rw [if_neg isOver] at ring
    rw [balance_second (ring ▸ ahead.not_gt) later', nowCredit, if_neg isOver]
    split at fewer
    · next fresh =>
      rw [fresh, if_pos rfl, ← fewer]
      push_cast
      ring
    · next some =>
      rw [if_neg some, ← fewer]
      push_cast
      ring

/-- How often a call serves a tenant. -/
def servesOf (self : DrrState) (tenant : String) (call : DrrCall) : Nat :=
  (serviceOf ⟨self, call, (self.call call).1, (self.call call).2⟩).toList.countP
    fun service => service.1 = tenant

theorem timesServed_cons (self : DrrState) (tenant : String) (first : DrrCall)
    (rest : List DrrCall) :
    self.timesServed tenant (first :: rest) =
      self.servesOf tenant first + (self.call first).1.timesServed tenant rest := by
  rw [timesServed, services_cons, countP_append]
  rfl

theorem servesOf_other {call : DrrCall} (other : isPop call = false) (tenant : String) :
    self.servesOf tenant call = 0 := by
  rw [servesOf, (self.other_call other).2.2]
  rfl

theorem servesOf_pop {service : Service} (next : self.nextService = some service)
    (tenant : String) : self.servesOf tenant .pop = if service.tenant = tenant then 1 else 0 := by
  rw [servesOf, service_of_pop next]
  simp

/-- One call moves the balance of two tenants by what it serves them. -/
theorem balance_call {a b : String} {wa wb : Nat} (turning : self.Turning) (different : a ≠ b)
    {call : DrrCall} (first : self.Stands a wa) (second : self.Stands b wb)
    (firstAfter : (self.call call).1.Stands a wa)
    (secondAfter : (self.call call).1.Stands b wb) :
    (self.servesOf a call * wb : Int) - self.servesOf b call * wa =
      self.balance a b wa wb - (self.call call).1.balance a b wa wb := by
  have inFirst := first.mem turning.kept
  have inSecond := second.mem turning.kept
  cases pops : isPop call with
  | false =>
    rw [servesOf_other pops, servesOf_other pops, balance_other pops inFirst inSecond]
    simp
  | true =>
    cases call with
    | push name jobId priority weight => cases pops
    | close => cases pops
    | pop =>
      have after : (self.call .pop).1 = self.pop.2 := rfl
      rw [after] at firstAfter secondAfter ⊢
      cases turning.kept.turn with
      | none empty same => rw [empty] at inFirst; cases inFirst
      | leaves name rest service front next named left gone others =>
        have notFirst : name ≠ a := by
          rintro rfl
          unfold Stands at firstAfter
          rw [gone] at firstAfter
          cases firstAfter
        have notSecond : name ≠ b := by
          rintro rfl
          unfold Stands at secondAfter
          rw [gone] at secondAfter
          cases secondAfter
        rw [servesOf_pop next, servesOf_pop next, named, if_neg notFirst, if_neg notSecond,
          balance_third front notFirst notSecond inFirst inSecond (.inl left) others]
        simp
      | stays name rest service queue later front next named held now spent same ring
          others =>
          rw [servesOf_pop next, servesOf_pop next, named]
          by_cases isFirst : name = a
          · subst isFirst
            rw [if_pos rfl, if_neg different, ← balance_served_first turning different front
              inSecond held now spent (first.lookup held) ring others]
            simp
          · by_cases isSecond : name = b
            · subst isSecond
              rw [if_pos rfl, if_neg isFirst, ← balance_served_second turning isFirst front
                inFirst held now spent (second.lookup held) ring others]
              simp
            · have moved : self.pop.2.order = rest ∨ self.pop.2.order = rest ++ [name] ∨
                  self.pop.2.order = name :: rest := by
                rw [ring]
                split
                · exact .inr (.inl rfl)
                · exact .inr (.inr rfl)
              rw [if_neg isFirst, if_neg isSecond,
                balance_third front isFirst isSecond inFirst inSecond moved others]
              simp

/-- The credit of a tenant that keeps its weight does not pass that weight, or what it was. -/
theorem credit_call {weight : Nat} (turning : self.Turning) (stands : self.Stands tenant weight)
    (call : DrrCall) : (self.call call).1.credit tenant ≤ max weight (self.credit tenant) := by
  cases pops : isPop call with
  | false =>
    rw [(self.other_call pops).2.1]
    exact le_max_right _ _
  | true =>
    cases call with
    | push name jobId priority weight => cases pops
    | close => cases pops
    | pop =>
      have after : (self.call .pop).1 = self.pop.2 := rfl
      rw [after]
      cases turning.kept.turn with
      | none empty same =>
        rw [same]
        exact le_max_right _ _
      | leaves name rest service front next named left gone others =>
        by_cases here : tenant = name
        · rw [credit, here, gone]
          exact Nat.zero_le _
        · rw [credit_congr (others tenant here)]
          exact le_max_right _ _
      | stays name rest service queue later front next named held now spent same ring
          others =>
          by_cases here : tenant = name
          · rw [here] at stands ⊢
            have weights := turning.credited.weights name queue held
            have fewer := leftOver_lt weights.1
            rw [stands.lookup held] at fewer
            rw [credit_of_lookup now, spent, credit_of_lookup held]
            split at fewer <;> omega
          · rw [credit_congr (others tenant here)]
            exact le_max_right _ _

/-- The two tenants have these weights before the calls and after each of them. -/
def Together (self : DrrState) (a b : String) (wa wb : Nat) (calls : List DrrCall) : Prop :=
  ∀ early, early <+: calls →
    (machine.final self early).Stands a wa ∧ (machine.final self early).Stands b wb

theorem Together.start {a b : String} {wa wb : Nat} {calls : List DrrCall}
    (together : self.Together a b wa wb calls) : self.Stands a wa ∧ self.Stands b wb :=
  together [] ( nil_prefix)

theorem Together.tail {a b : String} {wa wb : Nat} {first : DrrCall} {rest : List DrrCall}
    (together : self.Together a b wa wb (first :: rest)) :
    (self.call first).1.Together a b wa wb rest := by
  intro early short
  exact together (first :: early) (cons_prefix_cons.mpr ⟨rfl, short⟩)

theorem balance_run {a b : String} {wa wb : Nat} (turning : self.Turning) (different : a ≠ b)
    {calls : List DrrCall} (together : self.Together a b wa wb calls) :
    (self.timesServed a calls * wb : Int) - self.timesServed b calls * wa =
      self.balance a b wa wb - (machine.final self calls).balance a b wa wb := by
  induction calls generalizing self with
  | nil => simp [timesServed, services, Machine.transitions]
  | cons first rest ih =>
    obtain ⟨firstHere, secondHere⟩ := together.start
    obtain ⟨firstAfter, secondAfter⟩ := together.tail.start
    have step := balance_call turning different firstHere secondHere firstAfter secondAfter
    have later := ih (turning.call first) together.tail
    have last : machine.final self (first :: rest) = machine.final (self.call first).1 rest := rfl
    rw [timesServed_cons, timesServed_cons, last]
    push_cast
    linarith

theorem credit_run {a b : String} {wa wb : Nat} (turning : self.Turning) {calls : List DrrCall}
    (together : self.Together a b wa wb calls) :
    (machine.final self calls).credit a ≤ max wa (self.credit a) ∧
      (machine.final self calls).credit b ≤ max wb (self.credit b) := by
  induction calls generalizing self with
  | nil => exact ⟨le_max_right _ _, le_max_right _ _⟩
  | cons first rest ih =>
    obtain ⟨firstHere, secondHere⟩ := together.start
    obtain ⟨ofFirst, ofSecond⟩ := ih (turning.call first) together.tail
    have stepFirst := credit_call turning firstHere first
    have stepSecond := credit_call turning secondHere first
    exact ⟨ofFirst.trans (max_le (le_max_left _ _) stepFirst),
      ofSecond.trans (max_le (le_max_left _ _) stepSecond)⟩

/-- A tenant that stands behind another has no credit. -/
theorem Credited.behind {a b : String} (credited : self.Credited)
    (before : self.order.idxOf a < self.order.idxOf b) : self.credit b = 0 := by
  by_contra some
  have front := credited.front b some
  cases order : self.order with
  | nil => rw [order] at front; cases front
  | cons name rest =>
    rw [order, head?_cons] at front
    rw [order, Option.some.inj front, idxOf_cons_self] at before
    exact Nat.not_lt_zero _ before

/-- The balance is that of the one tenant with credit, or a turn at most. -/
theorem balance_cases {a b : String} (wa wb : Nat) (credited : self.Credited) (different : a ≠ b)
    (first : a ∈ self.order) :
    (self.balance a b wa wb = self.credit a * wb - wa * wb ∧ (self.credit b * wa : Int) = 0) ∨
      (self.balance a b wa wb = -(self.credit b * wa) ∧ (self.credit a * wb : Int) = 0) ∨
      (self.balance a b wa wb = -(wa * wb) ∧ (self.credit a * wb : Int) = 0 ∧
        (self.credit b * wa : Int) = 0) := by
  by_cases before : self.order.idxOf a < self.order.idxOf b
  · have none := credited.behind before
    rw [balance_first before none]
    by_cases spent : self.credit a = 0
    · rw [if_pos spent, none, spent]
      exact .inr (.inl ⟨by simp, by simp⟩)
    · rw [if_neg spent, none]
      exact .inl ⟨rfl, by simp⟩
  · have apart : self.order.idxOf a ≠ self.order.idxOf b := fun same =>
      different ((idxOf_inj first).mp same)
    have none := credited.behind (lt_of_le_of_ne (not_lt.mp before) apart.symm)
    rw [balance_second before none]
    by_cases spent : self.credit b = 0
    · rw [if_pos spent, none, spent]
      exact .inr (.inr ⟨by simp, by simp, by simp⟩)
    · rw [if_neg spent, none]
      exact .inr (.inl ⟨sub_zero _, by simp⟩)

/-- What is left of a turn, in services times weights, is a turn at most or no more than it was. -/
theorem credit_times {now was weight : Nat} (other : Nat) (bound : now ≤ max weight was) :
    now * other ≤ weight * other ∨ now * other ≤ was * other :=
  (le_max_iff.mp bound).imp (Nat.mul_le_mul_right other) (Nat.mul_le_mul_right other)

/-- Two tenants that stay in the ring with their weights are served in that ratio, but for two
turns of each. -/
theorem ratio_of_together {a b : String} {wa wb : Nat} (turning : self.Turning)
    {calls : List DrrCall} (together : self.Together a b wa wb calls)
    (first : self.credit a ≤ 2 * wa) (second : self.credit b ≤ 2 * wb) :
    |(self.timesServed a calls * wb : Int) - self.timesServed b calls * wa| ≤ 2 * wa * wb := by
  obtain ⟨standsFirst, standsSecond⟩ := together.start
  by_cases same : a = b
  · rw [same] at standsFirst ⊢
    have weights : wa = wb := Option.some.inj (standsFirst.symm.trans standsSecond)
    rw [weights, sub_self, abs_zero]
    positivity
  obtain ⟨lastFirst, -⟩ := together calls (prefix_refl _)
  have lastTurning := turning.run calls
  have start := balance_cases wa wb turning.credited same (standsFirst.mem turning.kept)
  have last := balance_cases wa wb lastTurning.credited same (lastFirst.mem lastTurning.kept)
  obtain ⟨creditFirst, creditSecond⟩ := credit_run turning together
  have timesFirst := credit_times wb creditFirst
  have timesSecond := credit_times wa creditSecond
  have startFirst := Nat.mul_le_mul_right wb first
  have startSecond := Nat.mul_le_mul_right wa second
  have turn : wb * wa = wa * wb := Nat.mul_comm wb wa
  rw [Nat.mul_assoc] at startFirst startSecond
  rw [turn] at startSecond timesSecond
  rw [balance_run turning same together, abs_le, mul_assoc]
  zify at timesFirst timesSecond startFirst startSecond
  have firstStart : (0 : Int) ≤ self.credit a * wb := by positivity
  have secondStart : (0 : Int) ≤ self.credit b * wa := by positivity
  have firstLast : (0 : Int) ≤ (machine.final self calls).credit a * wb := by positivity
  have secondLast : (0 : Int) ≤ (machine.final self calls).credit b * wa := by positivity
  have whole : (0 : Int) ≤ wa * wb := by positivity
  rcases start with ⟨start, none⟩ | ⟨start, none⟩ | ⟨start, none, gone⟩
  · rcases last with ⟨last, spent⟩ | ⟨last, spent⟩ | ⟨last, spent, gone⟩ <;> omega
  · rcases last with ⟨last, spent⟩ | ⟨last, spent⟩ | ⟨last, spent, gone⟩ <;> omega
  · rcases last with ⟨last, spent⟩ | ⟨last, spent⟩ | ⟨last, spent, gone⟩ <;> omega

/-! ## After any calls -/

/-- After any calls, a tenant whose queue a push fills is served after at most the greatest weight
for each tenant in the ring then, none of which is served again once its turn is over.  Two tenants
that stay in the ring with their weights are served in the ratio of the weights but for two turns,
when neither begins with more unspent credit than twice its weight. -/
theorem rounds_and_ratios (maxPerTenant maxTotal : Nat) (earlier : List DrrCall) :
    (∀ tenant jobId priority weight later,
      (machine.final (new maxPerTenant maxTotal) earlier).tenantJobs tenant = [] →
        ((machine.final (new maxPerTenant maxTotal) earlier).push tenant jobId priority
          weight).1 = .accepted →
        ((machine.final (new maxPerTenant maxTotal) earlier).push tenant jobId priority
          weight).2.ServedInRound tenant
            (machine.final (new maxPerTenant maxTotal) earlier).order later) ∧
    ∀ a b wa wb later,
      (machine.final (new maxPerTenant maxTotal) earlier).Together a b wa wb later →
        (machine.final (new maxPerTenant maxTotal) earlier).credit a ≤ 2 * wa →
        (machine.final (new maxPerTenant maxTotal) earlier).credit b ≤ 2 * wb →
        |((machine.final (new maxPerTenant maxTotal) earlier).timesServed a later * wb : Int) -
          (machine.final (new maxPerTenant maxTotal) earlier).timesServed b later * wa| ≤
            2 * wa * wb := by
  have turning := (turning_new maxPerTenant maxTotal).run earlier
  refine ⟨fun tenant jobId priority weight later idle accepted => ?_, fun a b wa wb later => ?_⟩
  · have joined := push_joins turning idle accepted
    have pushed := turning.call (.push tenant jobId priority weight)
    exact (pushed.servedAfter joined later).inRound pushed.credited
  · exact ratio_of_together turning

/-- Two tenants of weights two and one, both in the ring. -/
def weighted : List DrrCall :=
  [.push "a" "a1" .low 2, .push "a" "a2" .low 2, .push "a" "a3" .low 2, .push "b" "b1" .high 1,
    .push "b" "b2" .high 1]

theorem together_of_all {a b : String} {wa wb : Nat} {calls : List DrrCall}
    (all : ∀ early ∈ calls.inits,
      ((machine.final self early).queues.lookup a).map TenantQueue.quantum = some wa ∧
        ((machine.final self early).queues.lookup b).map TenantQueue.quantum = some wb) :
    self.Together a b wa wb calls :=
  fun early short => all early ((mem_inits early calls).mpr short)

theorem weighted_served :
    (((machine.final (new 4 9) weighted).push "c" "c1" .low 7).2.ServedInRound "c" ["a", "b"]
      [.pop, .pop, .pop, .pop, .pop, .pop]) ∧
    |((machine.final (new 4 9) weighted).timesServed "a" [.pop, .pop, .pop] * (1 : Nat) : Int) -
      (machine.final (new 4 9) weighted).timesServed "b" [.pop, .pop, .pop] * (2 : Nat)| ≤
        2 * (2 : Nat) * (1 : Nat) :=
  ⟨(rounds_and_ratios 4 9 weighted).1 "c" "c1" .low 7 _ (by decide) (by decide),
    (rounds_and_ratios 4 9 weighted).2 "a" "b" 2 1 _ (together_of_all (by decide)) (by decide)
      (by decide)⟩

/-- The first tenant has credit of the weight it had before. -/
def reweighted : List DrrCall :=
  [.push "a" "a1" .low 5, .push "a" "a2" .low 5, .push "a" "a3" .low 5, .push "a" "a4" .low 5,
    .push "b" "b1" .low 1, .pop, .push "a" "a5" .low 1]

theorem ratio_with_old_credit :
    ¬ ∀ (maxPerTenant maxTotal : Nat) (earlier : List DrrCall) (a b : String) (wa wb : Nat)
      (later : List DrrCall),
      (machine.final (new maxPerTenant maxTotal) earlier).Together a b wa wb later →
        |((machine.final (new maxPerTenant maxTotal) earlier).timesServed a later * wb : Int) -
          (machine.final (new maxPerTenant maxTotal) earlier).timesServed b later * wa| ≤
            2 * wa * wb := by
  intro all
  have bound := all 9 9 reweighted "a" "b" 1 1 [.pop, .pop, .pop] (together_of_all (by decide))
  revert bound
  decide

end DrrState

end RaisinDB.Jobs
