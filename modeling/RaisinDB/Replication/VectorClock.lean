import Mathlib

/-!
# Vector clocks

A vector clock is a hash map from cluster node ids to counters.  A missing entry
reads as zero, but a stored zero is still an entry: it counts for emptiness and
for equality of the maps, and for nothing else.
-/

namespace RaisinDB.Replication

/-- Unchecked `u64` arithmetic wraps around. -/
def wrapU64 (value : Nat) : Nat := value % 2 ^ 64

structure VectorClock where
  clock : Finmap (fun _ : String => Nat)
  deriving DecidableEq

inductive ClockOrdering where
  | before
  | after
  | concurrent
  | equal
  deriving DecidableEq, Repr

/-- The mirror image of an answer. -/
def ClockOrdering.swap : ClockOrdering → ClockOrdering
  | .before => .after
  | .after => .before
  | .concurrent => .concurrent
  | .equal => .equal

namespace VectorClock

/-- The empty clock. -/
def new : VectorClock := ⟨∅⟩

def withInitial (clusterNodeId : String) (counter : Nat) : VectorClock :=
  ⟨Finmap.singleton clusterNodeId counter⟩

/-- The clock with the listed entries; a later duplicate is ignored. -/
def ofEntries (entries : List (String × Nat)) : VectorClock :=
  ⟨(entries.map fun entry => (⟨entry.1, entry.2⟩ : Sigma fun _ : String => Nat)).toFinmap⟩

def get (self : VectorClock) (clusterNodeId : String) : Nat :=
  (self.clock.lookup clusterNodeId).getD 0

/-- Count one local event; the new counter is returned beside the clock. -/
def increment (self : VectorClock) (clusterNodeId : String) : VectorClock × Nat :=
  let counter := wrapU64 (self.get clusterNodeId + 1)
  (⟨self.clock.insert clusterNodeId counter⟩, counter)

/-- Setting a counter to zero removes the entry. -/
def set (self : VectorClock) (clusterNodeId : String) (counter : Nat) : VectorClock :=
  if 0 < counter then ⟨self.clock.insert clusterNodeId counter⟩
  else ⟨self.clock.erase clusterNodeId⟩

def isEmpty (self : VectorClock) : Bool := self.clock.keys = ∅

/-- Raise one entry of the map to at least `counter`. -/
def raise (clock : Finmap (fun _ : String => Nat)) (clusterNodeId : String)
    (counter : Nat) : Finmap (fun _ : String => Nat) :=
  clock.insert clusterNodeId (max ((clock.lookup clusterNodeId).getD 0) counter)

theorem lookup_raise (clock : Finmap (fun _ : String => Nat)) (node query : String)
    (counter : Nat) :
    (raise clock node counter).lookup query =
      if query = node then some (max ((clock.lookup node).getD 0) counter)
      else clock.lookup query := by
  by_cases same : query = node
  · subst same
    simp [raise]
  · simp [raise, same]

/-- Raising entries commutes, so the iteration order of a hash map cannot show. -/
theorem raise_comm (clock : Finmap (fun _ : String => Nat)) (first : String) (counter : Nat)
    (second : String) (other : Nat) :
    raise (raise clock first counter) second other =
      raise (raise clock second other) first counter := by
  apply Finmap.ext_lookup
  intro query
  simp only [lookup_raise]
  by_cases same : first = second
  · subst same
    by_cases here : query = first <;> simp [here, max_right_comm]
  · by_cases here : query = first <;> by_cases there : query = second <;> simp_all [Ne.symm same]

/-- Take the larger counter entry by entry. -/
def merge (self other : VectorClock) : VectorClock :=
  ⟨other.clock.foldl raise raise_comm self.clock⟩

def compare (self other : VectorClock) : ClockOrdering :=
  let allNodes := self.clock.keys ∪ other.clock.keys
  let anyLess := decide (∃ node ∈ allNodes, self.get node < other.get node)
  let anyGreater := decide (∃ node ∈ allNodes, other.get node < self.get node)
  match anyLess, anyGreater with
  | false, false => .equal
  | true, false => .before
  | false, true => .after
  | true, true => .concurrent

def happensBefore (self other : VectorClock) : Bool := self.compare other = .before

def happensAfter (self other : VectorClock) : Bool := self.compare other = .after

def concurrentWith (self other : VectorClock) : Bool := self.compare other = .concurrent

/-! ## Entries -/

@[simp] theorem get_new (node : String) : new.get node = 0 := rfl

@[simp] theorem get_ofEntries_singleton (node : String) (counter : Nat) :
    (ofEntries [(node, counter)]).get node = counter := by
  rw [get, ofEntries, Finmap.dlookup_list_toFinmap, List.map_cons, List.dlookup_cons_eq]
  rfl

theorem get_eq_zero_of_notMem {self : VectorClock} {node : String}
    (absent : node ∉ self.clock.keys) : self.get node = 0 := by
  rw [Finmap.mem_keys, ← Finmap.lookup_eq_none] at absent
  simp [get, absent]

theorem get_eq_zero_of_isEmpty {self : VectorClock} (empty : self.isEmpty) (node : String) :
    self.get node = 0 := by
  apply get_eq_zero_of_notMem
  rw [isEmpty, decide_eq_true_iff] at empty
  rw [empty]
  exact Finset.notMem_empty node

theorem mem_keys_of_get_pos {self : VectorClock} {node : String}
    (positive : 0 < self.get node) : node ∈ self.clock.keys := by
  by_contra absent
  rw [get_eq_zero_of_notMem absent] at positive
  exact absurd positive (lt_irrefl 0)

@[simp] theorem get_set (self : VectorClock) (node query : String) (counter : Nat) :
    (self.set node counter).get query = if query = node then counter else self.get query := by
  unfold set get
  split <;> by_cases same : query = node
  · subst same; simp
  · simp [same]
  · subst same
    simp
    omega
  · simp [same]

@[simp] theorem get_increment (self : VectorClock) (node query : String) :
    (self.increment node).1.get query =
      if query = node then wrapU64 (self.get node + 1) else self.get query := by
  unfold increment
  by_cases same : query = node
  · subst same; simp [get]
  · simp [get, same]

theorem lookup_foldl_raise (entries : List (Sigma fun _ : String => Nat))
    (distinct : entries.NodupKeys) (clock : Finmap (fun _ : String => Nat))
    (query : String) :
    ((entries.foldl (fun acc entry => raise acc entry.1 entry.2) clock).lookup query).getD 0 =
      max ((clock.lookup query).getD 0) ((entries.dlookup query).getD 0) := by
  induction entries generalizing clock with
  | nil => simp
  | cons entry rest ih =>
      obtain ⟨node, counter⟩ := entry
      obtain ⟨fresh, distinctRest⟩ := List.nodupKeys_cons.mp distinct
      rw [List.foldl_cons, ih distinctRest, lookup_raise]
      by_cases same : query = node
      · subst same
        have absent : rest.dlookup query = none := List.dlookup_eq_none.mpr fresh
        simp [absent]
      · rw [if_neg same, List.dlookup_cons_ne rest ⟨node, counter⟩ same]

/-- Merging takes the maximum of every entry. -/
@[simp] theorem get_merge (self other : VectorClock) (query : String) :
    (self.merge other).get query = max (self.get query) (other.get query) := by
  obtain ⟨clock⟩ := other
  induction clock using Finmap.induction_on with
  | H entries => exact lookup_foldl_raise entries.entries entries.nodupKeys self.clock query

theorem le_merge (self other : VectorClock) (query : String) :
    self.get query ≤ (self.merge other).get query := by
  rw [get_merge]
  exact le_max_left _ _

/-! ## Comparison -/

theorem exists_mem_keys_lt_iff (self other : VectorClock) :
    (∃ node ∈ self.clock.keys ∪ other.clock.keys, self.get node < other.get node) ↔
      ∃ node, self.get node < other.get node := by
  constructor
  · rintro ⟨node, _, less⟩
    exact ⟨node, less⟩
  · rintro ⟨node, less⟩
    exact ⟨node, Finset.mem_union_right _ (mem_keys_of_get_pos (by omega)), less⟩

/-- The two flags of the comparison loop decide the answer. -/
theorem compare_cases (self other : VectorClock) :
    ((∃ node, self.get node < other.get node) ∧
        (∀ node, self.get node ≤ other.get node) ∧ self.compare other = .before) ∨
      ((∃ node, other.get node < self.get node) ∧
        (∀ node, other.get node ≤ self.get node) ∧ self.compare other = .after) ∨
      ((∃ node, self.get node < other.get node) ∧
        (∃ node, other.get node < self.get node) ∧ self.compare other = .concurrent) ∨
      ((∀ node, self.get node = other.get node) ∧ self.compare other = .equal) := by
  have less := exists_mem_keys_lt_iff self other
  have greater := exists_mem_keys_lt_iff other self
  rw [Finset.union_comm] at greater
  by_cases anyLess : ∃ node, self.get node < other.get node <;>
    by_cases anyGreater : ∃ node, other.get node < self.get node
  · exact Or.inr (Or.inr (Or.inl ⟨anyLess, anyGreater, by
      simp only [compare, less.mpr anyLess, greater.mpr anyGreater, decide_true]⟩))
  · refine Or.inl ⟨anyLess, fun node => ?_, ?_⟩
    · exact not_lt.mp fun bad => anyGreater ⟨node, bad⟩
    · simp only [compare, less.mpr anyLess, mt greater.mp anyGreater, decide_true, decide_false]
  · refine Or.inr (Or.inl ⟨anyGreater, fun node => ?_, ?_⟩)
    · exact not_lt.mp fun bad => anyLess ⟨node, bad⟩
    · simp only [compare, mt less.mp anyLess, greater.mpr anyGreater, decide_true, decide_false]
  · refine Or.inr (Or.inr (Or.inr ⟨fun node => ?_, ?_⟩))
    · exact le_antisymm (not_lt.mp fun bad => anyGreater ⟨node, bad⟩)
        (not_lt.mp fun bad => anyLess ⟨node, bad⟩)
    · simp only [compare, mt less.mp anyLess, mt greater.mp anyGreater, decide_false]

/-- `Before` is the pointwise order without equality. -/
theorem compare_eq_before_iff (self other : VectorClock) :
    self.compare other = .before ↔
      (∀ node, self.get node ≤ other.get node) ∧ ∃ node, self.get node < other.get node := by
  rcases compare_cases self other with
    ⟨less, le, hcmp⟩ | ⟨⟨node, greater⟩, _, hcmp⟩ | ⟨_, ⟨node, greater⟩, hcmp⟩ | ⟨same, hcmp⟩
  · exact ⟨fun _ => ⟨le, less⟩, fun _ => hcmp⟩
  · refine ⟨fun h => absurd (hcmp.symm.trans h) (by decide), fun h => ?_⟩
    exact absurd (h.1 node) (not_le.mpr greater)
  · refine ⟨fun h => absurd (hcmp.symm.trans h) (by decide), fun h => ?_⟩
    exact absurd (h.1 node) (not_le.mpr greater)
  · refine ⟨fun h => absurd (hcmp.symm.trans h) (by decide), fun h => ?_⟩
    obtain ⟨node, less⟩ := h.2
    exact absurd (same node) (ne_of_lt less)

theorem compare_swap (self other : VectorClock) :
    other.compare self = ClockOrdering.swap (self.compare other) := by
  unfold compare
  rw [Finset.union_comm other.clock.keys self.clock.keys]
  dsimp only
  generalize decide (∃ node ∈ self.clock.keys ∪ other.clock.keys,
    self.get node < other.get node) = anyLess
  generalize decide (∃ node ∈ self.clock.keys ∪ other.clock.keys,
    other.get node < self.get node) = anyGreater
  cases anyLess <;> cases anyGreater <;> rfl

theorem compare_eq_after_iff (self other : VectorClock) :
    self.compare other = .after ↔ other.compare self = .before := by
  rw [compare_swap self other]
  cases self.compare other <;> simp [ClockOrdering.swap]

theorem compare_self (self : VectorClock) : self.compare self = .equal := by
  rcases compare_cases self self with
    ⟨⟨node, less⟩, _⟩ | ⟨⟨node, less⟩, _⟩ | ⟨⟨node, less⟩, _⟩ | ⟨_, hcmp⟩
  · exact absurd less (lt_irrefl _)
  · exact absurd less (lt_irrefl _)
  · exact absurd less (lt_irrefl _)
  · exact hcmp

/-- Causal precedence is transitive. -/
theorem before_trans {first second third : VectorClock}
    (early : first.compare second = .before) (late : second.compare third = .before) :
    first.compare third = .before := by
  rw [compare_eq_before_iff] at early late ⊢
  refine ⟨fun node => (early.1 node).trans (late.1 node), ?_⟩
  obtain ⟨node, less⟩ := early.2
  exact ⟨node, less.trans_le (late.1 node)⟩

end VectorClock

end RaisinDB.Replication
