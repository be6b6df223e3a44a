import Mathlib

/-!
# Relaxing the edges of a weighted graph

Distances only go down, each time an edge offers a shorter way, and the target of the edge is
looked at again.  When nothing is left to look at, the distances are least weights of walks.  With
rational weights that point is reached exactly if no walk can lose weight by going in a circle.
-/

namespace RaisinDB.Foundation

open List

variable {ν : Type} [DecidableEq ν]

/-- A distance is infinite as long as no way is known. -/
structure RelaxState (ν : Type) where
  distances : ν → Option ℚ
  heap : List (ℚ × ν)

/-- The distance would go down. -/
def shorter (offer : ℚ) : Option ℚ → Bool
  | none => true
  | some old => offer < old

def relaxLink (base : ℚ) (state : RelaxState ν) (link : ν × ℚ) : RelaxState ν :=
  if shorter (base + link.2) (state.distances link.1) then
    ⟨Function.update state.distances link.1 (some (base + link.2)),
      (base + link.2, link.1) :: state.heap⟩
  else state

/-- An entry of the heap is stale when the distance of its node has gone down since. -/
def stale (distance : ℚ) : Option ℚ → Bool
  | none => false
  | some known => known < distance

/-- How the heap gives an entry away. -/
structure HeapPop (ν : Type) where
  pop : List (ℚ × ν) → Option ((ℚ × ν) × List (ℚ × ν))
  perm : ∀ heap entry rest, pop heap = some (entry, rest) → heap ~ entry :: rest
  empties : ∀ heap, pop heap = none ↔ heap = []

def relaxStep (popper : HeapPop ν) (links : ν → List (ν × ℚ)) (state : RelaxState ν) :
    RelaxState ν :=
  match popper.pop state.heap with
  | none => state
  | some ((distance, node), rest) =>
      if stale distance (state.distances node) then ⟨state.distances, rest⟩
      else (links node).foldl (relaxLink distance) ⟨state.distances, rest⟩

/-- Steps until the heap is empty; no value if it is not within the fuel. -/
def relaxRun (popper : HeapPop ν) (links : ν → List (ν × ℚ)) :
    Nat → RelaxState ν → Option (RelaxState ν)
  | fuel, state =>
      if state.heap.isEmpty then some state
      else
        match fuel with
        | 0 => none
        | fuel + 1 => relaxRun popper links fuel (relaxStep popper links state)

/-! ## Walks -/

/-- A walk with the sum of its weights. -/
inductive Walk (edge : ν → ν → ℚ → Prop) (start : ν) : ν → ℚ → Prop where
  | here : Walk edge start start 0
  | step {node target : ν} {weight link : ℚ} (walk : Walk edge start node weight)
      (away : edge node target link) : Walk edge start target (weight + link)

/-- The least weight of the walks to a node. -/
def LeastWeight (edge : ν → ν → ℚ → Prop) (start node : ν) (weight : ℚ) : Prop :=
  Walk edge start node weight ∧ ∀ other, Walk edge start node other → weight ≤ other

/-- No circle that can be reached has a negative weight. -/
def NoNegativeCircle (edge : ν → ν → ℚ → Prop) (start : ν) : Prop :=
  ∀ node weight, Walk edge start node weight → ∀ circle, Walk edge node node circle → 0 ≤ circle

/-- The edges to the links of a node. -/
def Linked (links : ν → List (ν × ℚ)) (node target : ν) (weight : ℚ) : Prop :=
  (target, weight) ∈ links node

variable {edge : ν → ν → ℚ → Prop} {links : ν → List (ν × ℚ)} {start : ν}

namespace Walk

omit [DecidableEq ν] in
theorem append {middle node : ν} {first second : ℚ} (walk : Walk edge start middle first)
    (further : Walk edge middle node second) : Walk edge start node (first + second) := by
  induction further with
  | here =>
    rw [add_zero]
    exact walk
  | step _ mem ih =>
    rw [← add_assoc]
    exact ih.step mem

omit [DecidableEq ν] in
theorem mono {other : ν → ν → ℚ → Prop} (wider : ∀ u v w, edge u v w → other u v w) {node : ν}
    {weight : ℚ} (walk : Walk edge start node weight) : Walk other start node weight := by
  induction walk with
  | here => exact .here
  | step _ mem ih => exact ih.step (wider _ _ _ mem)

omit [DecidableEq ν] in
/-- A walk goes round at its start, and then away without coming back. -/
theorem leave {node : ν} {weight : ℚ} (walk : Walk edge start node weight) :
    ∃ circle, Walk edge start start circle ∧ (node = start ∧ weight = circle ∨
      ∃ target link rest, edge start target link ∧ target ≠ start ∧
        Walk (fun u v w => edge u v w ∧ v ≠ start) target node rest ∧
        weight = circle + link + rest) := by
  induction walk with
  | here => exact ⟨0, .here, .inl ⟨rfl, rfl⟩⟩
  | @step node target weight link walk mem ih =>
    by_cases back : target = start
    · subst back
      exact ⟨_, walk.step mem, .inl ⟨rfl, rfl⟩⟩
    · obtain ⟨circle, round, ⟨rfl, rfl⟩ | ⟨first, away, rest, left, apart, walk', rfl⟩⟩ := ih
      · exact ⟨_, round, .inr ⟨target, link, 0, mem, back, .here, (add_zero _).symm⟩⟩
      · exact ⟨circle, round, .inr ⟨first, away, rest + link, left, apart,
          walk'.step ⟨mem, back⟩, add_assoc _ _ _⟩⟩

end Walk

/-- Without negative circles the weights of the walks to finitely many nodes are bounded. -/
theorem Walk.bounded {least : ℚ} (nonpos : least ≤ 0) {inside : Finset ν} {start node : ν}
    {edge : ν → ν → ℚ → Prop}
    (within : ∀ u weight, Walk edge start u weight →
      u ∈ inside ∧ ∀ v link, edge u v link → least ≤ link)
    (rounds : NoNegativeCircle edge start) {weight : ℚ} (walk : Walk edge start node weight) :
    inside.card * least ≤ weight := by
  induction inside using Finset.strongInduction generalizing start node edge weight with
  | H inside ih =>
    obtain ⟨mem, low⟩ := within start 0 .here
    obtain ⟨circle, round, ⟨_, rfl⟩ | ⟨target, link, rest, left, apart, walk', rfl⟩⟩ := walk.leave
    · exact (mul_nonpos_of_nonneg_of_nonpos (Nat.cast_nonneg _) nonpos).trans
        (rounds start 0 .here _ round)
    · have back {u : ν} {weight : ℚ}
          (walk : Walk (fun u v w => edge u v w ∧ v ≠ start) target u weight) :
          Walk edge start u (0 + link + weight) :=
        (Walk.here.step left).append (walk.mono fun _ _ _ both => both.1)
      have further := ih (inside.erase start) (Finset.erase_ssubset mem)
        (fun u weight walk => ⟨Finset.mem_erase.mpr ⟨?_, (within u _ (back walk)).1⟩,
          fun v link both => (within u _ (back walk)).2 v link both.1⟩)
        (fun u weight walk circle round =>
          rounds u _ (back walk) circle (round.mono fun _ _ _ both => both.1)) walk'
      · have count : (inside.card : ℚ) = (inside.erase start).card + 1 := by
          rw [← Finset.card_erase_add_one mem]
          push_cast
          rfl
        have closed := rounds start 0 .here circle round
        have first := low target link left
        rw [count, add_mul, one_mul]
        linarith
      · cases walk with
        | here => exact apart
        | step _ both => exact both.2

/-! ## What relaxing keeps -/

/-- Distances have only gone down, and what changed is in the heap. -/
structure Relaxes (before after : RelaxState ν) : Prop where
  less : ∀ node old, before.distances node = some old →
    ∃ new, after.distances node = some new ∧ new ≤ old
  kept : before.heap ⊆ after.heap
  pushed : ∀ node new, after.distances node = some new →
    before.distances node = some new ∨ (new, node) ∈ after.heap

omit [DecidableEq ν] in
theorem Relaxes.refl (state : RelaxState ν) : Relaxes state state :=
  ⟨fun _ old found => ⟨old, found, le_refl old⟩, Subset.refl _, fun _ _ found => .inl found⟩

omit [DecidableEq ν] in
theorem Relaxes.trans {first second third : RelaxState ν} (before : Relaxes first second)
    (after : Relaxes second third) : Relaxes first third where
  less node old found := by
    obtain ⟨between, here, lower⟩ := before.less node old found
    obtain ⟨new, there, lower'⟩ := after.less node between here
    exact ⟨new, there, lower'.trans lower⟩
  kept := Subset.trans before.kept after.kept
  pushed node new found := by
    rcases after.pushed node new found with same | here
    · exact (before.pushed node new same).imp_right fun there => after.kept there
    · exact .inr here

/-- Some distance has gone down. -/
def Improves (before after : RelaxState ν) : Prop :=
  ∃ node new, after.distances node = some new ∧ shorter new (before.distances node) = true

omit [DecidableEq ν] in
theorem Improves.trans_right {first second third : RelaxState ν} (before : Relaxes first second)
    (after : Improves second third) : Improves first third := by
  obtain ⟨node, new, found, lower⟩ := after
  refine ⟨node, new, found, ?_⟩
  cases old : first.distances node with
  | none => rfl
  | some value =>
    obtain ⟨between, here, less⟩ := before.less node value old
    rw [here] at lower
    exact decide_eq_true ((of_decide_eq_true lower).trans_le less)

omit [DecidableEq ν] in
theorem Improves.trans_left {first second third : RelaxState ν} (before : Improves first second)
    (after : Relaxes second third) : Improves first third := by
  obtain ⟨node, new, found, lower⟩ := before
  obtain ⟨newer, here, less⟩ := after.less node new found
  refine ⟨node, newer, here, ?_⟩
  cases old : first.distances node with
  | none => rfl
  | some value =>
    rw [old] at lower
    exact decide_eq_true (less.trans_lt (of_decide_eq_true lower))

/-- One link: the state stays or a distance goes down, and the link offers nothing any more. -/
theorem relaxLink_spec (base : ℚ) (state : RelaxState ν) (link : ν × ℚ) :
    Relaxes state (relaxLink base state link) ∧
      (relaxLink base state link = state ∨ Improves state (relaxLink base state link)) ∧
      ∃ new, (relaxLink base state link).distances link.1 = some new ∧ new ≤ base + link.2 := by
  unfold relaxLink
  by_cases lower : shorter (base + link.2) (state.distances link.1) = true
  · rw [if_pos lower]
    refine ⟨⟨fun node old found => ?_, subset_cons_self _ _, fun node new found => ?_⟩,
      .inr ⟨link.1, base + link.2, Function.update_self _ _ _, lower⟩,
      base + link.2, Function.update_self _ _ _, le_refl _⟩
    · by_cases same : node = link.1
      · subst same
        rw [found] at lower
        exact ⟨base + link.2, Function.update_self _ _ _, (of_decide_eq_true lower).le⟩
      · exact ⟨old, (Function.update_of_ne same _ _).trans found, le_refl old⟩
    · dsimp only at found
      by_cases same : node = link.1
      · subst same
        rw [Function.update_self] at found
        rw [← Option.some.inj found]
        exact .inr mem_cons_self
      · rw [Function.update_of_ne same] at found
        exact .inl found
  · rw [if_neg lower]
    refine ⟨.refl state, .inl rfl, ?_⟩
    cases found : state.distances link.1 with
    | none => exact absurd (by rw [found]; rfl) lower
    | some old =>
      rw [found] at lower
      exact ⟨old, rfl, not_lt.mp fun less => lower (decide_eq_true less)⟩

theorem relaxAll_spec (base : ℚ) (out : List (ν × ℚ)) (state : RelaxState ν) :
    Relaxes state (out.foldl (relaxLink base) state) ∧
      (out.foldl (relaxLink base) state = state ∨
        Improves state (out.foldl (relaxLink base) state)) ∧
      ∀ link ∈ out, ∃ new,
        (out.foldl (relaxLink base) state).distances link.1 = some new ∧ new ≤ base + link.2 := by
  induction out generalizing state with
  | nil => exact ⟨.refl state, .inl rfl, fun _ mem => absurd mem not_mem_nil⟩
  | cons link rest ih =>
    obtain ⟨once, changed, offered⟩ := relaxLink_spec base state link
    obtain ⟨later, changed', offered'⟩ := ih (relaxLink base state link)
    rw [foldl_cons]
    refine ⟨once.trans later, ?_, forall_mem_cons.mpr ⟨?_, offered'⟩⟩
    · rcases changed with same | better
      · rcases changed' with same' | better'
        · exact .inl (same'.trans same)
        · exact .inr (.trans_right once better')
      · exact .inr (better.trans_left later)
    · obtain ⟨new, found, lower⟩ := offered
      obtain ⟨newer, found', lower'⟩ := later.less link.1 new found
      exact ⟨newer, found', lower'.trans lower⟩

/-- Distances and entries are weights of walks, and each node with a distance waits in the heap or
offers nothing any more. -/
structure Relaxing (links : ν → List (ν × ℚ)) (start : ν) (state : RelaxState ν) : Prop where
  walked : ∀ node weight, state.distances node = some weight → Walk (Linked links) start node weight
  waiting : ∀ entry ∈ state.heap, Walk (Linked links) start entry.2 entry.1
  started : ∃ weight, state.distances start = some weight ∧ weight ≤ 0
  settled : ∀ node weight, state.distances node = some weight → (weight, node) ∈ state.heap ∨
    ∀ link ∈ links node, ∃ new, state.distances link.1 = some new ∧ new ≤ weight + link.2

theorem walked_relaxAll {base : ℚ} {node : ν} (walk : Walk (Linked links) start node base)
    {out : List (ν × ℚ)} (inside : out ⊆ links node) {state : RelaxState ν}
    (walked : ∀ node weight, state.distances node = some weight →
      Walk (Linked links) start node weight)
    (waiting : ∀ entry ∈ state.heap, Walk (Linked links) start entry.2 entry.1) :
    (∀ node weight, (out.foldl (relaxLink base) state).distances node = some weight →
        Walk (Linked links) start node weight) ∧
      ∀ entry ∈ (out.foldl (relaxLink base) state).heap,
        Walk (Linked links) start entry.2 entry.1 := by
  induction out generalizing state with
  | nil => exact ⟨walked, waiting⟩
  | cons link rest ih =>
    obtain ⟨mem, inside⟩ := cons_subset.mp inside
    have reached : Walk (Linked links) start link.1 (base + link.2) := walk.step mem
    rw [foldl_cons]
    unfold relaxLink
    split
    · refine ih inside (fun other weight found => ?_) (forall_mem_cons.mpr ⟨reached, waiting⟩)
      dsimp only at found
      by_cases same : other = link.1
      · subst same
        rw [Function.update_self] at found
        rw [← Option.some.inj found]
        exact reached
      · rw [Function.update_of_ne same] at found
        exact walked other weight found
    · exact ih inside walked waiting

theorem Relaxing.step {popper : HeapPop ν} {state : RelaxState ν}
    (relaxing : Relaxing links start state) :
    Relaxing links start (relaxStep popper links state) := by
  unfold relaxStep
  split
  · exact relaxing
  · next distance node rest popped =>
    have perm := popper.perm _ _ _ popped
    have walk := relaxing.waiting (distance, node) (perm.symm.subset mem_cons_self)
    have others : ∀ entry ∈ rest, Walk (Linked links) start entry.2 entry.1 :=
      fun entry mem => relaxing.waiting entry (perm.symm.subset (mem_cons_of_mem _ mem))
    split
    · next old =>
      refine ⟨relaxing.walked, others, relaxing.started, fun other weight found => ?_⟩
      refine (relaxing.settled other weight found).imp_left fun mem => ?_
      refine (mem_cons.mp (perm.subset mem)).resolve_left fun same => ?_
      cases same
      dsimp only at found
      rw [found] at old
      exact absurd (of_decide_eq_true old) (lt_irrefl _)
    · obtain ⟨relaxed, _, offered⟩ :=
        relaxAll_spec distance (links node) ⟨state.distances, rest⟩
      obtain ⟨walked, waiting⟩ := @walked_relaxAll _ _ links start distance node walk (links node)
        (Subset.refl _) ⟨state.distances, rest⟩ relaxing.walked others
      refine ⟨walked, waiting, ?_, fun other weight found => ?_⟩
      · obtain ⟨old, here, low⟩ := relaxing.started
        obtain ⟨new, there, lower⟩ := relaxed.less start old here
        exact ⟨new, there, lower.trans low⟩
      · rcases relaxed.pushed other weight found with same | pushed
        · rcases relaxing.settled other weight same with mem | quiet
          · rcases mem_cons.mp (perm.subset mem) with equal | inside
            · cases equal
              exact .inr offered
            · exact .inl (relaxed.kept inside)
          · refine .inr fun link mem => ?_
            obtain ⟨old, here, low⟩ := quiet link mem
            obtain ⟨new, there, lower⟩ := relaxed.less link.1 old here
            exact ⟨new, there, lower.trans low⟩
        · exact .inl pushed

/-! ## Runs -/

/-- Before the first step only the start has a distance. -/
def relaxStart (start : ν) : RelaxState ν :=
  ⟨Function.update (fun _ => none) start (some 0), [(0, start)]⟩

theorem relaxing_relaxStart (start : ν) : Relaxing links start (relaxStart start) := by
  have only {node : ν} {weight : ℚ} (found : (relaxStart start).distances node = some weight) :
      node = start ∧ weight = 0 := by
    dsimp only [relaxStart] at found
    by_cases same : node = start
    · subst same
      rw [Function.update_self] at found
      exact ⟨rfl, (Option.some.inj found).symm⟩
    · rw [Function.update_of_ne same] at found
      cases found
  have own : (relaxStart start).distances start = some 0 := by
    dsimp only [relaxStart]
    exact Function.update_self _ _ _
  refine ⟨fun node weight found => ?_, fun entry mem => ?_, ⟨0, own, le_refl 0⟩,
    fun node weight found => .inl ?_⟩
  · obtain ⟨rfl, rfl⟩ := only found
    exact .here
  · rw [mem_singleton.mp mem]
    exact .here
  · obtain ⟨rfl, rfl⟩ := only found
    exact mem_singleton_self _

theorem Relaxing.run {popper : HeapPop ν} {fuel : Nat} {state result : RelaxState ν}
    (relaxing : Relaxing links start state)
    (ran : relaxRun popper links fuel state = some result) :
    Relaxing links start result ∧ result.heap = [] := by
  induction fuel generalizing state with
  | zero =>
    unfold relaxRun at ran
    split at ran
    · next done =>
      cases ran
      exact ⟨relaxing, List.isEmpty_iff.mp done⟩
    · cases ran
  | succ fuel ih =>
    unfold relaxRun at ran
    split at ran
    · next done =>
      cases ran
      exact ⟨relaxing, List.isEmpty_iff.mp done⟩
    · exact ih relaxing.step ran

omit [DecidableEq ν] in
/-- With an empty heap no walk is shorter than the distance of its end. -/
theorem Relaxing.le_of_empty {state : RelaxState ν} (relaxing : Relaxing links start state)
    (done : state.heap = []) {node : ν} {weight : ℚ}
    (walk : Walk (Linked links) start node weight) :
    ∃ least, state.distances node = some least ∧ least ≤ weight := by
  induction walk with
  | here => exact relaxing.started
  | @step node target weight link _ mem ih =>
    obtain ⟨least, found, low⟩ := ih
    rcases relaxing.settled node least found with waits | quiet
    · rw [done] at waits
      cases waits
    · obtain ⟨new, there, lower⟩ := quiet (target, link) mem
      exact ⟨new, there, lower.trans (add_le_add_left low link)⟩

omit [DecidableEq ν] in
/-- With an empty heap the distances are least weights, and no circle has a negative one. -/
theorem Relaxing.least_of_empty {state : RelaxState ν} (relaxing : Relaxing links start state)
    (done : state.heap = []) :
    (∀ node weight, state.distances node = some weight ↔
        LeastWeight (Linked links) start node weight) ∧
      NoNegativeCircle (Linked links) start := by
  refine ⟨fun node weight => ⟨fun found => ?_, fun ⟨walk, least⟩ => ?_⟩,
    fun node weight walk circle round => ?_⟩
  · refine ⟨relaxing.walked node weight found, fun other walk => ?_⟩
    obtain ⟨least, here, low⟩ := relaxing.le_of_empty done walk
    rw [found] at here
    rw [Option.some.inj here]
    exact low
  · obtain ⟨best, here, low⟩ := relaxing.le_of_empty done walk
    rw [here, le_antisymm low (least best (relaxing.walked node best here))]
  · obtain ⟨best, here, _⟩ := relaxing.le_of_empty done walk
    obtain ⟨other, there, low⟩ :=
      relaxing.le_of_empty done ((relaxing.walked node best here).append round)
    rw [here] at there
    rw [← Option.some.inj there] at low
    linarith

/-! ## Termination -/

/-- A step shortens the heap or lowers a distance. -/
theorem relaxStep_progress (popper : HeapPop ν) (links : ν → List (ν × ℚ)) {state : RelaxState ν}
    (waits : state.heap ≠ []) :
    (relaxStep popper links state).distances = state.distances ∧
        (relaxStep popper links state).heap.length < state.heap.length ∨
      Improves state (relaxStep popper links state) ∧
        ∀ node old, state.distances node = some old →
          ∃ new, (relaxStep popper links state).distances node = some new ∧ new ≤ old := by
  unfold relaxStep
  split
  · next none => exact absurd ((popper.empties _).mp none) waits
  · next distance node rest popped =>
    have shorter := (popper.perm _ _ _ popped).length_eq
    split
    · exact .inl ⟨rfl, by rw [shorter]; exact Nat.lt_succ_self _⟩
    · obtain ⟨relaxed, same | better, _⟩ :=
        relaxAll_spec distance (links node) ⟨state.distances, rest⟩
      · rw [same]
        exact .inl ⟨rfl, by rw [shorter]; exact Nat.lt_succ_self _⟩
      · exact .inr ⟨better, relaxed.less⟩

/-- The number of grid steps a distance lies above the bound. -/
def rank (scale : Nat) (bound : ℚ) : Option ℚ → WithTop Nat
  | none => ⊤
  | some distance => ((⌊distance * scale - bound⌋₊ : Nat) : WithTop Nat)

theorem rank_le {scale : Nat} {bound : ℚ} {old : Option ℚ} {new : ℚ}
    (lower : ∀ value, old = some value → new ≤ value) :
    rank scale bound (some new) ≤ rank scale bound old := by
  cases old with
  | none => exact le_top
  | some value =>
    have scaled := mul_le_mul_of_nonneg_right (lower value rfl)
      (Nat.cast_nonneg scale : (0 : ℚ) ≤ scale)
    exact WithTop.coe_le_coe.mpr (Nat.floor_le_floor (sub_le_sub_right scaled bound))

/-- The weights of the walks to finitely many nodes lie on a grid above a bound. -/
structure OnGrid (links : ν → List (ν × ℚ)) (start : ν) (inside : Finset ν) (scale : Nat)
    (bound : ℚ) : Prop where
  positive : 0 < scale
  within : ∀ node weight, Walk (Linked links) start node weight → node ∈ inside
  grid : ∀ node weight, Walk (Linked links) start node weight →
    ∃ steps : Nat, weight * scale - bound = steps

namespace OnGrid

variable {inside : Finset ν} {scale : Nat} {bound : ℚ}

omit [DecidableEq ν] in
theorem rank_lt (onGrid : OnGrid links start inside scale bound) {node : ν} {old : Option ℚ}
    {new : ℚ} (walk : Walk (Linked links) start node new)
    (walked : ∀ value, old = some value → Walk (Linked links) start node value)
    (lower : shorter new old = true) : rank scale bound (some new) < rank scale bound old := by
  cases old with
  | none => exact WithTop.coe_lt_top _
  | some value =>
    obtain ⟨few, here⟩ := onGrid.grid node new walk
    obtain ⟨more, there⟩ := onGrid.grid node value (walked value rfl)
    refine WithTop.coe_lt_coe.mpr ?_
    rw [here, there, Nat.floor_natCast, Nat.floor_natCast]
    have scaled := mul_lt_mul_of_pos_right (of_decide_eq_true lower)
      (Nat.cast_pos.mpr onGrid.positive : (0 : ℚ) < scale)
    exact Nat.cast_lt.mp (show (few : ℚ) < more by linarith)

end OnGrid

/-- On a grid the distances can go down only finitely often, and the heap gets shorter between. -/
theorem relaxRun_ends (popper : HeapPop ν) {inside : Finset ν} {scale : Nat} {bound : ℚ}
    (onGrid : OnGrid links start inside scale bound) {state : RelaxState ν}
    (relaxing : Relaxing links start state) :
    ∃ fuel result, relaxRun popper links fuel state = some result := by
  let ranks (state : RelaxState ν) (node : inside) : WithTop Nat :=
    rank scale bound (state.distances node)
  induction high : ranks state using WellFoundedLT.induction generalizing state with
  | ind height lower =>
    induction size : state.heap.length using Nat.strongRecOn generalizing state with
    | ind count fewer =>
      by_cases done : state.heap = []
      · exact ⟨0, state, by rw [relaxRun, done]; rfl⟩
      · have again {fuel : Nat} {result : RelaxState ν}
            (ran : relaxRun popper links fuel (relaxStep popper links state) = some result) :
            relaxRun popper links (fuel + 1) state = some result := by
          rw [relaxRun, if_neg fun empty => done (List.isEmpty_iff.mp empty)]
          exact ran
        rcases relaxStep_progress popper links done with ⟨same, short⟩ | ⟨better, less⟩
        · have kept : ranks (relaxStep popper links state) = height := by
            rw [← high]
            funext node
            dsimp only [ranks]
            rw [same]
          obtain ⟨fuel, result, ran⟩ := fewer _ (size ▸ short) relaxing.step kept rfl
          exact ⟨fuel + 1, result, again ran⟩
        · have down : ranks (relaxStep popper links state) < ranks state := by
            refine Pi.lt_def.mpr ⟨fun node => ?_, ?_⟩
            · dsimp only [ranks]
              cases old : state.distances node with
              | none => exact le_top
              | some value =>
                obtain ⟨new, here, low⟩ := less node value old
                rw [here]
                refine rank_le fun other same => ?_
                rw [← Option.some.inj same]
                exact low
            · obtain ⟨node, new, here, low⟩ := better
              have walk := relaxing.step.walked node new here
              refine ⟨⟨node, onGrid.within node new walk⟩, ?_⟩
              dsimp only [ranks]
              rw [here]
              exact onGrid.rank_lt walk (fun value => relaxing.walked node value) low
          obtain ⟨fuel, result, ran⟩ := lower _ (high ▸ down) relaxing.step rfl
          exact ⟨fuel + 1, result, again ran⟩

/-! ## The grid -/

omit [DecidableEq ν] in
/-- Finitely many links have a common denominator. -/
theorem exists_scale (links : ν → List (ν × ℚ)) (inside : Finset ν) :
    ∃ scale : Nat, 0 < scale ∧ ∀ node ∈ inside, ∀ link ∈ links node,
      ∃ steps : ℤ, link.2 * scale = steps := by
  refine ⟨∏ node ∈ inside, ((links node).map fun link => link.2.den).prod,
    Finset.prod_pos fun node _ => List.prod_pos ?_, fun node mem link found => ?_⟩
  · intro den mem
    obtain ⟨link, _, rfl⟩ := mem_map.mp mem
    exact link.2.den_pos
  · have row : link.2.den ∣ ((links node).map fun link => link.2.den).prod :=
      List.dvd_prod (mem_map.mpr ⟨link, found, rfl⟩)
    obtain ⟨times, whole⟩ := row.trans (Finset.dvd_prod_of_mem
      (fun node => ((links node).map fun link => link.2.den).prod) mem)
    refine ⟨link.2.num * times, ?_⟩
    rw [whole]
    push_cast
    rw [← mul_assoc, Rat.mul_den_eq_num]

omit [DecidableEq ν] in
/-- Finitely many links have weights above a number that is not positive. -/
theorem exists_least (links : ν → List (ν × ℚ)) (inside : Finset ν) :
    ∃ least : ℤ, least ≤ 0 ∧ ∀ node ∈ inside, ∀ link ∈ links node, (least : ℚ) ≤ link.2 := by
  obtain ⟨least, low⟩ := (insert 0 (inside.biUnion fun node =>
    ((links node).map fun link => ⌊link.2⌋).toFinset)).bddBelow
  refine ⟨least, low (Finset.mem_insert_self _ _), fun node mem link found => ?_⟩
  have below : least ≤ ⌊link.2⌋ := low (Finset.mem_insert_of_mem (Finset.mem_biUnion.mpr
    ⟨node, mem, List.mem_toFinset.mpr (mem_map.mpr ⟨link, found, rfl⟩)⟩))
  exact (Int.cast_le.mpr below).trans (Int.floor_le _)

theorem exists_onGrid {inside : Finset ν} (mem : start ∈ inside)
    (closed : ∀ node ∈ inside, ∀ link ∈ links node, link.1 ∈ inside)
    (rounds : NoNegativeCircle (Linked links) start) :
    ∃ scale bound, OnGrid links start inside scale bound := by
  obtain ⟨scale, positive, whole⟩ := exists_scale links inside
  obtain ⟨least, nonpos, low⟩ := exists_least links inside
  have within (node : ν) (weight : ℚ) (walk : Walk (Linked links) start node weight) :
      node ∈ inside ∧ ∃ steps : ℤ, weight * scale = steps := by
    induction walk with
    | here => exact ⟨mem, 0, by rw [zero_mul, Int.cast_zero]⟩
    | @step node target weight link _ found ih =>
      obtain ⟨here, steps, even⟩ := ih
      obtain ⟨more, even'⟩ := whole node here _ found
      refine ⟨closed node here _ found, steps + more, ?_⟩
      rw [add_mul, even, even', Int.cast_add]
  have above (node : ν) (weight : ℚ) (walk : Walk (Linked links) start node weight) :
      (inside.card * least : ℚ) ≤ weight :=
    walk.bounded (Int.cast_nonpos.mpr nonpos) (fun u weight walk =>
      ⟨(within u weight walk).1, fun v link => low u (within u weight walk).1 (v, link)⟩) rounds
  refine ⟨scale, ((inside.card * least * scale : ℤ) : ℚ), positive,
    fun node weight walk => (within node weight walk).1, fun node weight walk => ?_⟩
  obtain ⟨_, steps, even⟩ := within node weight walk
  have high := mul_le_mul_of_nonneg_right (above node weight walk)
    (Nat.cast_nonneg scale : (0 : ℚ) ≤ scale)
  rw [even] at high ⊢
  have enough : (inside.card * least * scale : ℤ) ≤ steps := by exact_mod_cast high
  refine ⟨(steps - inside.card * least * scale).toNat, ?_⟩
  rw [← Int.cast_sub, ← Int.cast_natCast (R := ℚ), Int.toNat_of_nonneg (sub_nonneg.mpr enough)]

/-- Relaxing ends exactly if no circle that can be reached has a negative weight. -/
theorem relaxRun_ends_iff (popper : HeapPop ν) {inside : Finset ν} (mem : start ∈ inside)
    (closed : ∀ node ∈ inside, ∀ link ∈ links node, link.1 ∈ inside) :
    (∃ fuel result, relaxRun popper links fuel (relaxStart start) = some result) ↔
      NoNegativeCircle (Linked links) start := by
  constructor
  · rintro ⟨fuel, result, ran⟩
    obtain ⟨relaxing, done⟩ := (relaxing_relaxStart start).run ran
    exact (relaxing.least_of_empty done).2
  · intro rounds
    obtain ⟨scale, bound, onGrid⟩ := exists_onGrid mem closed rounds
    exact relaxRun_ends popper onGrid (relaxing_relaxStart start)

end RaisinDB.Foundation
