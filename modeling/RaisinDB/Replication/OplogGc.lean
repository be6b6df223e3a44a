import RaisinDB.Replication.Operation

/-!
# Garbage collection of the operation log

An operation is deleted when as many peers acknowledged it as there are known peers and when its
sequence number is not above the watermark of any of them.  The peers are counted and not compared,
so one that was removed stands in for one that has not acknowledged the operation.
-/

namespace RaisinDB.Replication

/-- The highest sequence number that each peer has acknowledged. -/
structure PeerWatermarks where
  watermarks : Finmap (fun _ : String => Nat)

namespace PeerWatermarks

def new : PeerWatermarks := ⟨∅⟩

def update (self : PeerWatermarks) (nodeId : String) (opSeq : Nat) : PeerWatermarks :=
  match self.watermarks.lookup nodeId with
  | some existing =>
      if existing < opSeq then ⟨self.watermarks.insert nodeId opSeq⟩ else self
  | none => ⟨self.watermarks.insert nodeId opSeq⟩

def getWatermark (self : PeerWatermarks) (nodeId : String) : Nat :=
  (self.watermarks.lookup nodeId).getD 0

def peers (self : PeerWatermarks) : Finset String := self.watermarks.keys

/-- The lowest watermark, and zero without peers. -/
def minWatermark (self : PeerWatermarks) : Nat :=
  (self.peers.image self.getWatermark).min.untopD 0

def removePeer (self : PeerWatermarks) (nodeId : String) : PeerWatermarks :=
  ⟨self.watermarks.erase nodeId⟩

theorem lookup_update (self : PeerWatermarks) (nodeId query : String) (opSeq : Nat) :
    (self.update nodeId opSeq).watermarks.lookup query =
      if query = nodeId then some (max (self.getWatermark nodeId) opSeq)
      else self.watermarks.lookup query := by
  unfold update getWatermark
  by_cases same : query = nodeId
  · subst same
    cases found : self.watermarks.lookup query with
    | none => simp
    | some existing =>
        by_cases higher : existing < opSeq
        · simp [higher, higher.le]
        · simp [higher, found, not_lt.mp higher]
  · cases found : self.watermarks.lookup nodeId with
    | none => simp [same]
    | some existing =>
        by_cases higher : existing < opSeq
        · simp [same, higher]
        · simp [same, higher]

/-- The order in which a set of peers is read cannot show. -/
theorem update_comm (self : PeerWatermarks) (opSeq : Nat) (first second : String) :
    (self.update first opSeq).update second opSeq =
      (self.update second opSeq).update first opSeq := by
  have same : ((self.update first opSeq).update second opSeq).watermarks =
      ((self.update second opSeq).update first opSeq).watermarks := by
    apply Finmap.ext_lookup
    intro query
    simp only [lookup_update, getWatermark]
    by_cases here : query = first
    · by_cases there : query = second
      · subst here
        subst there
        rfl
      · simp [← here, there]
    · by_cases there : query = second
      · simp [here, ← there]
      · simp [here, there]
  exact congrArg PeerWatermarks.mk same

instance (opSeq : Nat) :
    RightCommutative fun (self : PeerWatermarks) (nodeId : String) => self.update nodeId opSeq :=
  ⟨fun self first second => update_comm self opSeq first second⟩

end PeerWatermarks

/-! ## The collector -/

structure GcConfig where
  /-- How many peers are waited for, and zero for all of them. -/
  minPeerAcknowledgments : Nat

structure GarbageCollector where
  config : GcConfig
  watermarks : PeerWatermarks

inductive GcCall where
  | updateWatermarksFromOperations (operations : List Operation)
  | acknowledgeOperation (nodeId : String) (opSeq : Nat)
  | removePeer (nodeId : String)

namespace GarbageCollector

def withConfig (config : GcConfig) : GarbageCollector := ⟨config, .new⟩

def updateWatermarksFromOperations (self : GarbageCollector) (operations : List Operation) :
    GarbageCollector :=
  { self with
    watermarks := operations.foldl (fun watermarks op =>
      op.acknowledgedBy.val.foldl (fun known peerId => known.update peerId op.opSeq) watermarks)
      self.watermarks }

def acknowledgeOperation (self : GarbageCollector) (nodeId : String) (opSeq : Nat) :
    GarbageCollector :=
  { self with watermarks := self.watermarks.update nodeId opSeq }

def removePeer (self : GarbageCollector) (nodeId : String) : GarbageCollector :=
  { self with watermarks := self.watermarks.removePeer nodeId }

def call (self : GarbageCollector) : GcCall → GarbageCollector
  | .updateWatermarksFromOperations operations => self.updateWatermarksFromOperations operations
  | .acknowledgeOperation nodeId opSeq => self.acknowledgeOperation nodeId opSeq
  | .removePeer nodeId => self.removePeer nodeId

def run (self : GarbageCollector) (calls : List GcCall) : GarbageCollector := calls.foldl call self

def canDelete (self : GarbageCollector) (op : Operation) : Bool :=
  let ackCount := op.acknowledgedBy.card
  let peerCount := self.watermarks.peers.card
  if self.config.minPeerAcknowledgments = 0 then
    peerCount ≤ ackCount ∧ 0 < peerCount ∧ op.opSeq ≤ self.watermarks.minWatermark
  else
    self.config.minPeerAcknowledgments ≤ ackCount ∧ op.opSeq ≤ self.watermarks.minWatermark

def collectAcknowledgmentBased (self : GarbageCollector) (operations : List Operation) :
    List Uuid :=
  (operations.filter self.canDelete).map Operation.opId

/-! ## What is deleted -/

def AcknowledgedByAll (self : GarbageCollector) (op : Operation) : Prop :=
  ∀ peer ∈ self.watermarks.peers, peer ∈ op.acknowledgedBy

/-- Some known peers have not acknowledged the operation, at least as many have that are not known,
and no known peer is behind it. -/
def Overcounted (self : GarbageCollector) (op : Operation) : Prop :=
  op.opSeq ≤ self.watermarks.minWatermark ∧
    0 < (self.watermarks.peers \ op.acknowledgedBy).card ∧
    (self.watermarks.peers \ op.acknowledgedBy).card ≤
      (op.acknowledgedBy \ self.watermarks.peers).card

instance (self : GarbageCollector) (op : Operation) : Decidable (self.AcknowledgedByAll op) :=
  inferInstanceAs (Decidable (∀ peer ∈ self.watermarks.peers, peer ∈ op.acknowledgedBy))

instance (self : GarbageCollector) (op : Operation) : Decidable (self.Overcounted op) := by
  unfold Overcounted
  infer_instance

theorem config_run (self : GarbageCollector) (calls : List GcCall) :
    (self.run calls).config = self.config := by
  induction calls generalizing self with
  | nil => rfl
  | cons first rest ih =>
      have kept : (self.call first).config = self.config := by cases first <;> rfl
      exact (ih (self.call first)).trans kept

theorem acknowledgedByAll_iff (self : GarbageCollector) (op : Operation) :
    self.AcknowledgedByAll op ↔ (self.watermarks.peers \ op.acknowledgedBy).card = 0 := by
  rw [Finset.card_eq_zero, Finset.sdiff_eq_empty_iff_subset]
  rfl

/-- The peers that are missing and those that are unknown make the difference of the counts. -/
theorem peers_add_unknown (self : GarbageCollector) (op : Operation) :
    self.watermarks.peers.card + (op.acknowledgedBy \ self.watermarks.peers).card =
      op.acknowledgedBy.card + (self.watermarks.peers \ op.acknowledgedBy).card := by
  have known := Finset.card_sdiff_add_card self.watermarks.peers op.acknowledgedBy
  have acknowledged := Finset.card_sdiff_add_card op.acknowledgedBy self.watermarks.peers
  rw [Finset.union_comm] at acknowledged
  omega

/-- An operation that is deleted and not acknowledged by all is one that is overcounted. -/
theorem canDelete_iff {self : GarbageCollector} (all : self.config.minPeerAcknowledgments = 0)
    {op : Operation} (missing : ¬ self.AcknowledgedByAll op) :
    self.canDelete op ↔ self.Overcounted op := by
  rw [acknowledgedByAll_iff] at missing
  have counts := self.peers_add_unknown op
  have some : 0 < (self.watermarks.peers \ op.acknowledgedBy).card := Nat.pos_of_ne_zero missing
  have known := Finset.card_le_card
    (Finset.sdiff_subset : self.watermarks.peers \ op.acknowledgedBy ⊆ self.watermarks.peers)
  unfold canDelete Overcounted
  rw [if_pos all, decide_eq_true_iff]
  constructor
  · rintro ⟨enough, -, low⟩
    exact ⟨low, some, by omega⟩
  · rintro ⟨low, -, hidden⟩
    exact ⟨by omega, by omega, low⟩

theorem mem_collectAcknowledgmentBased {self : GarbageCollector} {operations : List Operation}
    {opId : Uuid} : opId ∈ self.collectAcknowledgmentBased operations ↔
      ∃ op ∈ operations, self.canDelete op ∧ op.opId = opId := by
  simp [collectAcknowledgmentBased, and_assoc]

/-- What is collected was acknowledged by every known peer exactly when the log holds no operation
that is overcounted, unless under the id of one that was acknowledged by all. -/
theorem collect_acknowledgment_based_safe_iff (calls : List GcCall) (operations : List Operation) :
    (∀ opId ∈ ((withConfig ⟨0⟩).run calls).collectAcknowledgmentBased operations,
        ∃ op ∈ operations, op.opId = opId ∧ ((withConfig ⟨0⟩).run calls).AcknowledgedByAll op) ↔
      ∀ op ∈ operations, ((withConfig ⟨0⟩).run calls).Overcounted op →
        ∃ twin ∈ operations, twin.opId = op.opId ∧
          ((withConfig ⟨0⟩).run calls).AcknowledgedByAll twin := by
  have all : ((withConfig ⟨0⟩).run calls).config.minPeerAcknowledgments = 0 := by
    rw [config_run]
    rfl
  constructor
  · intro safe op mem overcounted
    have missing : ¬ ((withConfig ⟨0⟩).run calls).AcknowledgedByAll op := by
      rw [acknowledgedByAll_iff]
      exact overcounted.2.1.ne'
    refine safe op.opId (mem_collectAcknowledgmentBased.mpr ⟨op, mem, ?_, rfl⟩)
    exact (canDelete_iff all missing).mpr overcounted
  · intro free opId collected
    obtain ⟨op, mem, deletable, rfl⟩ := mem_collectAcknowledgmentBased.mp collected
    by_cases acknowledged : ((withConfig ⟨0⟩).run calls).AcknowledgedByAll op
    · exact ⟨op, mem, rfl, acknowledged⟩
    · exact free op mem ((canDelete_iff all acknowledged).mp deletable)

/-- The peers of which an operation was first told are two, and one of them is replaced. -/
def replacedPeer : List GcCall :=
  [.acknowledgeOperation "a" 1, .acknowledgeOperation "c" 1, .removePeer "c",
    .acknowledgeOperation "b" 7]

/-- The first operation of a node, acknowledged by one peer that stayed and one that was removed. -/
def halfAcknowledged : Operation :=
  { makeOp 1 "node1" 10 [("node1", 1)] (.updateBranch ⟨"main"⟩) with
    acknowledgedBy := {"a", "c"} }

/-- The peer that has not acknowledged the operation has acknowledged a later one of another node,
and the removed peer is counted in its place. -/
theorem removed_peer_is_counted :
    ¬ ∀ (calls : List GcCall) (operations : List Operation),
      ∀ opId ∈ ((withConfig ⟨0⟩).run calls).collectAcknowledgmentBased operations,
        ∃ op ∈ operations, op.opId = opId ∧
          ((withConfig ⟨0⟩).run calls).AcknowledgedByAll op := by
  intro safe
  obtain ⟨op, mem, -, acknowledged⟩ := safe replacedPeer [halfAcknowledged] 1 (by decide)
  rw [List.mem_singleton.mp mem] at acknowledged
  exact absurd acknowledged (by decide)

end GarbageCollector

end RaisinDB.Replication
