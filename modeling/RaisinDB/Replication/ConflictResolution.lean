import Mathlib.Data.List.AList
import RaisinDB.Replication.CausalSort

/-!
# Divergent logs

The logs of the local node and of the peers are joined, every operation id is kept once, and the
operations are sorted with the comparator of the replay engine.  An id that two operations share
loses one of them.
-/

namespace RaisinDB.Replication

open RaisinDB.Foundation List

/-! ## The merged log -/

/-- What one call leaves to the library: the sort and the orders of the two hash maps. -/
structure ResolverRuntime where
  sorter : SliceSort Operation
  peers : HashOrder (Sigma fun _ : String => List Operation)
  unique : HashOrder Operation

/-- Both maps are read in the order of their entries. -/
def ResolverRuntime.plain (sorter : SliceSort Operation) : ResolverRuntime :=
  ⟨sorter, .inserted _, .inserted _⟩

abbrev PeerLogs := AList fun _ : String => List Operation

def compareOperations (a b : Operation) : Ordering :=
  match a.vectorClock.compare b.vectorClock with
  | .before => .lt
  | .after => .gt
  | .equal | .concurrent =>
      match compare a.timestampMs b.timestampMs with
      | .eq => compare a.clusterNodeId b.clusterNodeId
      | other => other

/-- The last operation of every id. -/
def uniqueOps (operations : List Operation) : AList fun _ : Uuid => Operation :=
  operations.foldl (fun unique op => unique.insert op.opId op) ∅

def values (unique : AList fun _ : Uuid => Operation) : List Operation :=
  unique.entries.map Sigma.snd

def resolveDivergentLogs (runtime : ResolverRuntime) (localOps : List Operation)
    (peerLogs : PeerLogs) : List Operation :=
  let allOps := localOps ++ (runtime.peers.order peerLogs.entries).flatMap Sigma.snd
  runtime.sorter.sortBy compareOperations (runtime.unique.order (values (uniqueOps allOps)))

/-- Every operation of a log. -/
def everyOp (localOps : List Operation) (peerLogs : PeerLogs) : List Operation :=
  localOps ++ peerLogs.entries.flatMap Sigma.snd

theorem compareOperations_eq : compareOperations = compareCausal := by
  funext a b
  rw [compareCausal_eq]
  unfold compareOperations compareOperationsLww
  cases a.vectorClock.compare b.vectorClock <;> cases compare a.timestampMs b.timestampMs <;> rfl

/-! ## One operation an id -/

theorem uniqueOps_append (operations : List Operation) (op : Operation) :
    uniqueOps (operations ++ [op]) = (uniqueOps operations).insert op.opId op := by
  rw [uniqueOps, foldl_append, foldl_cons, foldl_nil, uniqueOps]

theorem lookup_uniqueOps (operations : List Operation) (opId : Uuid) :
    (uniqueOps operations).lookup opId =
      operations.reverse.find? fun op => op.opId = opId := by
  induction operations using reverseRecOn with
  | nil => rfl
  | append_singleton operations op ih =>
      rw [uniqueOps_append, reverse_append, reverse_singleton, singleton_append, find?_cons]
      by_cases same : op.opId = opId
      · rw [← same, AList.lookup_insert, decide_eq_true rfl]
      · rw [AList.lookup_insert_ne (Ne.symm same), ih, decide_eq_false same]

theorem lookup_uniqueOps_some {operations : List Operation} {opId : Uuid} {op : Operation}
    (found : (uniqueOps operations).lookup opId = some op) :
    op.opId = opId ∧ op ∈ operations := by
  rw [lookup_uniqueOps] at found
  exact ⟨by simpa using find?_some found, mem_reverse.mp (mem_of_find?_eq_some found)⟩

theorem mem_values {operations : List Operation} {op : Operation} :
    op ∈ values (uniqueOps operations) ↔ (uniqueOps operations).lookup op.opId = some op := by
  constructor
  · intro member
    obtain ⟨⟨opId, held⟩, entry, rfl⟩ := mem_map.mp member
    have found := AList.mem_lookup_iff.mpr entry
    rw [Option.mem_def] at found
    rw [(lookup_uniqueOps_some found).1]
    exact found
  · intro found
    exact mem_map.mpr ⟨⟨op.opId, op⟩, AList.mem_lookup_iff.mp found, rfl⟩

theorem values_ids_nodup (operations : List Operation) :
    ((values (uniqueOps operations)).map Operation.opId).Nodup := by
  have keys : (values (uniqueOps operations)).map Operation.opId =
      (uniqueOps operations).entries.map Sigma.fst := by
    rw [values, map_map]
    refine map_congr_left fun entry member => ?_
    obtain ⟨opId, held⟩ := entry
    exact (lookup_uniqueOps_some (AList.mem_lookup_iff.mpr member)).1
  rw [keys]
  exact (uniqueOps operations).nodupKeys

theorem values_nodup (operations : List Operation) : (values (uniqueOps operations)).Nodup :=
  (values_ids_nodup operations).of_map

theorem values_subset {operations : List Operation} {op : Operation}
    (member : op ∈ values (uniqueOps operations)) : op ∈ operations :=
  (lookup_uniqueOps_some (mem_values.mp member)).2

/-- Where ids identify operations, all of them are kept. -/
theorem mem_values_iff {operations : List Operation} (identify : IdsIdentify operations)
    {op : Operation} : op ∈ values (uniqueOps operations) ↔ op ∈ operations := by
  refine ⟨values_subset, fun member => ?_⟩
  rw [mem_values]
  cases found : (uniqueOps operations).lookup op.opId with
  | none =>
      rw [lookup_uniqueOps] at found
      have absent := find?_eq_none.mp found op (mem_reverse.mpr member)
      exact absurd (decide_eq_true rfl) absent
  | some other =>
      obtain ⟨same, inside⟩ := lookup_uniqueOps_some found
      rw [identify other inside op member same]

/-! ## The order of the merged log -/

section Members

variable {first second : List Operation} (members : ∀ op, op ∈ first ↔ op ∈ second)

include members

theorem straddled_congr : Straddled first ↔ Straddled second := by
  unfold Straddled
  simp only [members]

theorem tied_congr : Tied first ↔ Tied second := by
  unfold Tied
  simp only [members]

theorem idsIdentify_congr : IdsIdentify first ↔ IdsIdentify second := by
  unfold IdsIdentify
  simp only [members]

end Members

/-- The operations of a log, each of them once and none before one that precedes it. -/
structure Resolved (operations sorted : List Operation) : Prop where
  members : ∀ op, op ∈ sorted ↔ op ∈ operations
  nodup : sorted.Nodup
  ordered : sorted.Pairwise fun first later => ¬ Precedes later first

/-- The operations that a call sorts. -/
def sortedInput (runtime : ResolverRuntime) (localOps : List Operation) (peerLogs : PeerLogs) :
    List Operation :=
  localOps ++ (runtime.peers.order peerLogs.entries).flatMap Sigma.snd

theorem resolveDivergentLogs_eq (runtime : ResolverRuntime) (localOps : List Operation)
    (peerLogs : PeerLogs) :
    resolveDivergentLogs runtime localOps peerLogs = causalSort runtime.sorter
      (runtime.unique.order (values (uniqueOps (sortedInput runtime localOps peerLogs)))) := by
  unfold resolveDivergentLogs
  rw [compareOperations_eq]
  rfl

theorem mem_sortedInput {runtime : ResolverRuntime} {localOps : List Operation}
    {peerLogs : PeerLogs} (op : Operation) :
    op ∈ sortedInput runtime localOps peerLogs ↔ op ∈ everyOp localOps peerLogs := by
  have entries := (runtime.peers.perm peerLogs.entries).flatMap_right Sigma.snd
  rw [sortedInput, everyOp, mem_append, mem_append, entries.mem_iff]

/-- What a call answers is some arrangement of the kept operations. -/
theorem resolve_perm (runtime : ResolverRuntime) (localOps : List Operation)
    (peerLogs : PeerLogs) :
    resolveDivergentLogs runtime localOps peerLogs ~
      values (uniqueOps (sortedInput runtime localOps peerLogs)) := by
  rw [resolveDivergentLogs_eq]
  exact (runtime.sorter.perm _ _).trans (runtime.unique.perm _)

theorem resolve_ids_nodup (runtime : ResolverRuntime) (localOps : List Operation)
    (peerLogs : PeerLogs) :
    ((resolveDivergentLogs runtime localOps peerLogs).map Operation.opId).Nodup :=
  ((resolve_perm runtime localOps peerLogs).map Operation.opId).nodup_iff.mpr (values_ids_nodup _)

theorem mem_resolve_iff {runtime : ResolverRuntime} {localOps : List Operation}
    {peerLogs : PeerLogs} (identify : IdsIdentify (everyOp localOps peerLogs)) (op : Operation) :
    op ∈ resolveDivergentLogs runtime localOps peerLogs ↔ op ∈ everyOp localOps peerLogs := by
  rw [(resolve_perm runtime localOps peerLogs).mem_iff,
    mem_values_iff ((idsIdentify_congr mem_sortedInput).mpr identify), mem_sortedInput]

/-- What is sorted is the log, where ids identify its operations. -/
theorem mem_input_iff (runtime : ResolverRuntime) {localOps : List Operation}
    {peerLogs : PeerLogs} (identify : IdsIdentify (everyOp localOps peerLogs)) (op : Operation) :
    op ∈ runtime.unique.order (values (uniqueOps (sortedInput runtime localOps peerLogs))) ↔
      op ∈ everyOp localOps peerLogs := by
  rw [runtime.unique.mem_order,
    mem_values_iff ((idsIdentify_congr mem_sortedInput).mpr identify), mem_sortedInput]

theorem resolved_iff (localOps : List Operation) (peerLogs : PeerLogs) :
    (∀ runtime, Resolved (everyOp localOps peerLogs)
        (resolveDivergentLogs runtime localOps peerLogs)) ↔
      IdsIdentify (everyOp localOps peerLogs) ∧ ¬ Straddled (everyOp localOps peerLogs) := by
  constructor
  · intro resolved
    have identify : IdsIdentify (everyOp localOps peerLogs) := by
      intro a ha b hb same
      have members := (resolved (.plain (insertionSlice _))).members
      exact inj_on_of_nodup_map (resolve_ids_nodup (.plain (insertionSlice _)) localOps peerLogs)
        ((members a).mpr ha) ((members b).mpr hb) same
    refine ⟨identify, ?_⟩
    rw [← straddled_congr (mem_input_iff (.plain (insertionSlice _)) identify), ← totalOrderOn_iff,
      ← SliceSort.respects_iff precedes_irrefl (fun a b => compareCausal_gt_of_precedes)
        exists_precedes]
    intro sorter
    have ordered := (resolved (.plain sorter)).ordered
    rw [resolveDivergentLogs_eq] at ordered
    exact ordered
  · rintro ⟨identify, none⟩ runtime
    refine ⟨mem_resolve_iff identify, (resolve_ids_nodup runtime localOps peerLogs).of_map, ?_⟩
    rw [← straddled_congr (mem_input_iff runtime identify)] at none
    rw [resolveDivergentLogs_eq]
    exact ((linearExtension_iff _).mpr none runtime.sorter).ordered

/-! ## The same answer for every assignment -/

/-- An order that answers one input with the given arrangement. -/
def answering {α : Type} [DecidableEq α] {items shuffled : List α} (perm : shuffled ~ items) :
    HashOrder α where
  order entries := if entries = items then shuffled else entries
  perm entries := by
    split
    · next same => exact same ▸ perm
    · exact Perm.refl _

/-- The answer is one for all assignments of the operations to logs and all orders of the maps. -/
def OneAnswer (localOps : List Operation) (peerLogs : PeerLogs) : Prop :=
  ∀ runtime runtime' localOps' peerLogs', runtime'.sorter = runtime.sorter →
    (∀ op, op ∈ everyOp localOps' peerLogs' ↔ op ∈ everyOp localOps peerLogs) →
    resolveDivergentLogs runtime' localOps' peerLogs' =
      resolveDivergentLogs runtime localOps peerLogs

theorem everyOp_local (localOps : List Operation) : everyOp localOps ∅ = localOps :=
  append_nil localOps

/-- The last operation of its id is kept. -/
theorem last_mem_resolve (sorter : SliceSort Operation) (operations : List Operation)
    (op : Operation) :
    op ∈ resolveDivergentLogs (.plain sorter) (operations ++ [op]) ∅ := by
  rw [(resolve_perm _ _ _).mem_iff]
  have input : sortedInput (.plain sorter) (operations ++ [op]) ∅ = operations ++ [op] :=
    append_nil _
  rw [input, mem_values, uniqueOps_append, AList.lookup_insert]

theorem OneAnswer.identify {localOps : List Operation} {peerLogs : PeerLogs}
    (one : OneAnswer localOps peerLogs) : IdsIdentify (everyOp localOps peerLogs) := by
  intro a ha b hb same
  have again : ∀ op ∈ everyOp localOps peerLogs, ∀ other,
      other ∈ everyOp (everyOp localOps peerLogs ++ [op]) ∅ ↔
        other ∈ everyOp localOps peerLogs := by
    intro op member other
    rw [everyOp_local, mem_append, mem_singleton]
    exact ⟨fun either => either.elim id fun equal => equal ▸ member, .inl⟩
  have kept : ∀ op ∈ everyOp localOps peerLogs,
      op ∈ resolveDivergentLogs (.plain (insertionSlice _)) localOps peerLogs := by
    intro op member
    rw [← one (.plain (insertionSlice _)) (.plain (insertionSlice _)) _ ∅ rfl (again op member)]
    exact last_mem_resolve _ _ op
  exact inj_on_of_nodup_map (resolve_ids_nodup _ localOps peerLogs) (kept a ha) (kept b hb) same

theorem oneAnswer_iff (localOps : List Operation) (peerLogs : PeerLogs) :
    OneAnswer localOps peerLogs ↔
      IdsIdentify (everyOp localOps peerLogs) ∧ ¬ Straddled (everyOp localOps peerLogs) ∧
        ¬ Tied (everyOp localOps peerLogs) := by
  constructor
  · intro one
    have identify := one.identify
    refine ⟨identify, ?_⟩
    have members := mem_input_iff (.plain (insertionSlice _)) identify
    have nodup := values_nodup (sortedInput (.plain (insertionSlice _)) localOps peerLogs)
    rw [← straddled_congr members, ← tied_congr members]
    refine (deterministic_iff nodup).mp fun sorter shuffled perm => ?_
    have answer := one (.plain sorter) ⟨sorter, .inserted _, answering perm⟩ localOps peerLogs rfl
      fun _ => Iff.rfl
    rw [resolveDivergentLogs_eq, resolveDivergentLogs_eq] at answer
    have shuffles : (answering perm).order
        (values (uniqueOps (sortedInput ⟨sorter, .inserted _, answering perm⟩ localOps
          peerLogs))) = shuffled := if_pos rfl
    rw [shuffles] at answer
    exact answer
  · rintro ⟨identify, none, untied⟩ runtime runtime' localOps' peerLogs' sorter same
    have members := mem_input_iff runtime identify
    have members' : ∀ op, op ∈ runtime'.unique.order
        (values (uniqueOps (sortedInput runtime' localOps' peerLogs'))) ↔
          op ∈ everyOp localOps peerLogs := fun op =>
      (mem_input_iff runtime' ((idsIdentify_congr same).mpr identify) op).trans (same op)
    have perm : runtime'.unique.order
        (values (uniqueOps (sortedInput runtime' localOps' peerLogs'))) ~
          runtime.unique.order (values (uniqueOps (sortedInput runtime localOps peerLogs))) :=
      (perm_ext_iff_of_nodup ((runtime'.unique.perm _).nodup_iff.mpr (values_nodup _))
        ((runtime.unique.perm _).nodup_iff.mpr (values_nodup _))).mpr fun op =>
          (members' op).trans (members op).symm
    rw [← straddled_congr members, ← totalOrderOn_iff] at none
    rw [← tied_congr members, not_tied_iff] at untied
    rw [resolveDivergentLogs_eq, resolveDivergentLogs_eq, sorter]
    exact runtime.sorter.sortBy_eq runtime.sorter none untied perm

/-! ## When causality decides -/

/-- The sort and the merge of logs keep causality exactly where no operation is straddled, and
forget the order of arrival exactly where also no two are tied; merged logs lose operations that
share an id. -/
theorem causal_order_iff (operations localOps : List Operation) (peerLogs : PeerLogs) :
    ((∀ sorter, LinearExtension operations (causalSort sorter operations)) ↔
        ¬ Straddled operations) ∧
      (operations.Pairwise (fun a b => a.vectorClock ≠ b.vectorClock) →
        ((∀ sorter shuffled, shuffled ~ operations →
            causalSort sorter shuffled = causalSort sorter operations) ↔
          ¬ Straddled operations ∧ ¬ Tied operations)) ∧
      ((∀ runtime, Resolved (everyOp localOps peerLogs)
          (resolveDivergentLogs runtime localOps peerLogs)) ↔
        IdsIdentify (everyOp localOps peerLogs) ∧
          ¬ Straddled (everyOp localOps peerLogs)) ∧
      (OneAnswer localOps peerLogs ↔
        IdsIdentify (everyOp localOps peerLogs) ∧ ¬ Straddled (everyOp localOps peerLogs) ∧
          ¬ Tied (everyOp localOps peerLogs)) := by
  refine ⟨linearExtension_iff operations, fun clocks => deterministic_iff ?_,
    resolved_iff localOps peerLogs, oneAnswer_iff localOps peerLogs⟩
  exact clocks.imp fun different same => different (congrArg Operation.vectorClock same)

theorem two_writes_in_order :
    (∀ sorter, LinearExtension (skewedWrites.take 2)
        (causalSort sorter (skewedWrites.take 2))) ∧
      (∀ sorter shuffled, shuffled ~ skewedWrites.take 2 →
        causalSort sorter shuffled = causalSort sorter (skewedWrites.take 2)) ∧
      OneAnswer (skewedWrites.take 2) ∅ := by
  obtain ⟨extension, deterministic, -, one⟩ :=
    causal_order_iff (skewedWrites.take 2) (skewedWrites.take 2) ∅
  refine ⟨extension.mpr (by decide), (deterministic (by decide)).mpr (by decide), one.mpr ?_⟩
  rw [everyOp_local]
  decide

/-- Two writes of one node, the later with the earlier time, and one of another node between. -/
theorem skewed_writes_out_of_order :
    ¬ LinearExtension (skewedWrites.rotate 1)
        (causalSort (insertionSlice _) (skewedWrites.rotate 1)) ∧
      ¬ Resolved (everyOp (skewedWrites.rotate 1).reverse ∅)
        (resolveDivergentLogs (.plain (insertionSlice _)) (skewedWrites.rotate 1).reverse ∅) :=
  ⟨fun sorted => absurd sorted.ordered (by decide),
    fun resolved => absurd resolved.ordered (by decide)⟩

end RaisinDB.Replication
