import RaisinDB.Replication.Operation

/-!
# Conflict registers

Only competing writes of one register may be merged down to one winner.  The
replay engine names the register by a text built from the operation's target and
a suffix.  This module takes that text apart again: it says which pairs of
operations share it, and so which pairs compete although they write different
stored entities.
-/

namespace RaisinDB.Replication

open RaisinDB.Foundation

/-- The register text by which the replay engine groups operations. -/
def conflictGroupKey (op : Operation) : String :=
  let target := op.target.toText
  match op.opType with
  | .addRelation _ _ relationType targetId _
  | .removeRelation _ _ relationType targetId _ =>
      target ++ "#rel:" ++ relationType ++ ":" ++ targetId
  | .deleteNodeSnapshot .. => target ++ "#delete"
  | .upsertNodeSnapshot .. => target ++ "#snapshot"
  -- whole-entity register updates: last write wins per target
  | .updateBranch _ | .updateUser _ | .updateTenant _ | .updateRepository _ _
  | .updateNodeType _ | .updateArchetype _ | .updateElementType _ | .updateWorkspace _ =>
      target ++ "#update"
  -- everything else applies individually
  | _ => target ++ "#op:" ++ op.opId.toText

/-! ## Stored entities -/

/-- The operation types whose stored entity lives on one branch. -/
def OpType.branchScoped : OpType → Bool
  | .upsertNodeSnapshot .. | .deleteNodeSnapshot .. | .addRelation .. | .removeRelation ..
  | .updateNodeType _ | .deleteNodeType _ | .updateArchetype _ | .deleteArchetype _
  | .updateElementType _ | .deleteElementType _ => true
  | _ => false

/-- Source, source workspace, type, target and target workspace of a relation. -/
structure RelationKey where
  sourceId : String
  sourceWorkspace : String
  relationType : String
  targetId : String
  targetWorkspace : String
  deriving DecidableEq

def OpType.relationKey : OpType → Option RelationKey
  | .addRelation sourceId sourceWorkspace relationType targetId targetWorkspace
  | .removeRelation sourceId sourceWorkspace relationType targetId targetWorkspace =>
      some ⟨sourceId, sourceWorkspace, relationType, targetId, targetWorkspace⟩
  | _ => none

/-- Both operations write the same stored entity. -/
structure SameStoredEntity (a b : Operation) : Prop where
  tenantId : a.tenantId = b.tenantId
  repoId : a.repoId = b.repoId
  branch : a.opType.branchScoped → a.branch = b.branch
  target : a.target = b.target
  relationKey : a.opType.relationKey = b.opType.relationKey

instance (a b : Operation) : Decidable (SameStoredEntity a b) :=
  decidable_of_iff
    (a.tenantId = b.tenantId ∧ a.repoId = b.repoId ∧
      (a.opType.branchScoped → a.branch = b.branch) ∧ a.target = b.target ∧
      a.opType.relationKey = b.opType.relationKey)
    ⟨fun h => ⟨h.1, h.2.1, h.2.2.1, h.2.2.2.1, h.2.2.2.2⟩,
      fun h => ⟨h.tenantId, h.repoId, h.branch, h.target, h.relationKey⟩⟩

/-! ## The register behind the text -/

/-- What of its target an operation writes. -/
inductive Slot where
  | relation (relationType targetId : String)
  | delete
  | snapshot
  | update
  | single (opId : Uuid)
  deriving DecidableEq

def Slot.toText : Slot → String
  | .relation relationType targetId => "rel:" ++ relationType ++ ":" ++ targetId
  | .delete => "delete"
  | .snapshot => "snapshot"
  | .update => "update"
  | .single opId => "op:" ++ opId.toText

def Operation.slot (op : Operation) : Slot :=
  match op.opType with
  | .addRelation _ _ relationType targetId _
  | .removeRelation _ _ relationType targetId _ => .relation relationType targetId
  | .deleteNodeSnapshot .. => .delete
  | .upsertNodeSnapshot .. => .snapshot
  | .updateBranch _ | .updateUser _ | .updateTenant _ | .updateRepository _ _
  | .updateNodeType _ | .updateArchetype _ | .updateElementType _ | .updateWorkspace _ =>
      .update
  | _ => .single op.opId

def Operation.isRelation (op : Operation) : Bool := op.opType.relationKey.isSome

/-- The register text joins the target and the slot with one `#`. -/
theorem conflictGroupKey_eq (op : Operation) :
    conflictGroupKey op = op.target.toText ++ "#" ++ op.slot.toText := by
  unfold conflictGroupKey Operation.slot
  cases op.opType <;> simp only [Slot.toText, String.append_assoc] <;> rfl

/-! ## Taking the text apart -/

theorem take_append_take_drop (digits : List Char) (start width : Nat) :
    (digits.drop start).take width ++ digits.drop (start + width) = digits.drop start := by
  rw [← List.drop_drop, List.take_append_drop]

/-- Dropping the hyphens gives the digits back. -/
theorem hyphenated_filter {digits : List Char} (free : '-' ∉ digits) :
    (hyphenated digits).filter (· ≠ '-') = digits := by
  have keep : ∀ part : List Char, part ⊆ digits → part.filter (· ≠ '-') = part := by
    intro part inside
    apply List.filter_eq_self.mpr
    intro digit hmem
    simpa using fun same : digit = '-' => free (same ▸ inside hmem)
  have dropped (start : Nat) : digits.drop start ⊆ digits := List.drop_subset start digits
  have group (start : Nat) : (digits.drop start).take 4 ⊆ digits :=
    fun digit hmem => dropped start (List.take_subset 4 _ hmem)
  have hyphen (rest : List Char) :
      ('-' :: rest).filter (· ≠ '-') = rest.filter (· ≠ '-') := rfl
  rw [hyphenated]
  simp only [List.filter_append, List.append_assoc, List.cons_append, hyphen,
    keep _ (List.take_subset 8 digits), keep _ (group _), keep _ (dropped _)]
  rw [take_append_take_drop digits 16 4, take_append_take_drop digits 12 4,
    take_append_take_drop digits 8 4, List.take_append_drop]

theorem mem_hyphenated {digits : List Char} {char : Char} (hmem : char ∈ hyphenated digits) :
    char = '-' ∨ char ∈ digits := by
  simp only [hyphenated, List.mem_append, List.mem_cons] at hmem
  have dropped (start : Nat) (inside : char ∈ digits.drop start) : char ∈ digits :=
    List.drop_subset start digits inside
  have group (start : Nat) (inside : char ∈ (digits.drop start).take 4) : char ∈ digits :=
    dropped start (List.take_subset 4 _ inside)
  rcases hmem with (((first | rfl | second) | rfl | third) | rfl | fourth) | rfl | last
  · exact Or.inr (List.take_subset 8 digits first)
  · exact Or.inl rfl
  · exact Or.inr (group 8 second)
  · exact Or.inl rfl
  · exact Or.inr (group 12 third)
  · exact Or.inl rfl
  · exact Or.inr (group 16 fourth)
  · exact Or.inl rfl
  · exact Or.inr (dropped 20 last)

theorem Uuid.toText_injective {first second : Uuid} (same : first.toText = second.toText) :
    first = second := by
  have free (id : Uuid) : '-' ∉ hexDigits 32 id.toNat := by
    intro hmem
    exact absurd (mem_hexDigits hmem) (by decide)
  have text := congrArg (fun text => (String.toList text).filter (· ≠ '-')) same
  simp only [Uuid.toText, String.toList_ofList] at text
  rw [hyphenated_filter (free first), hyphenated_filter (free second)] at text
  have small (id : Uuid) : id.toNat < 16 ^ 32 := by
    have bound := id.isLt
    norm_num at bound ⊢
    exact bound
  exact BitVec.eq_of_toNat_eq (hexDigits_injective (small first) (small second) text)

theorem Uuid.hash_notMem_toText (id : Uuid) : '#' ∉ id.toText.toList := by
  rw [Uuid.toText, String.toList_ofList]
  intro hmem
  rcases mem_hyphenated hmem with hyphen | digit
  · exact absurd hyphen (by decide)
  · exact absurd (mem_hexDigits digit) (by decide)

/-- The target named by a kind and an identifier. -/
def OperationTarget.ofKind (kind id : String) : Option OperationTarget :=
  match kind with
  | "node" => some (.node id)
  | "node_type" => some (.nodeType id)
  | "archetype" => some (.archetype id)
  | "element_type" => some (.elementType id)
  | "workspace" => some (.workspace id)
  | "branch" => some (.branch id)
  | "tag" => some (.tag id)
  | "user" => some (.user id)
  | "tenant" => some (.tenant id)
  | "deployment" => some (.deployment id)
  | "repository" => some (.repository id)
  | "permission" => some (.permission id)
  | "identity" => some (.identity id)
  | "session" => some (.session id)
  | "oauth_client" => some (.oauthClient id)
  | "oauth_refresh_token" => some (.oauthRefreshToken id)
  | "oauth_refresh_family" => some (.oauthRefreshFamily id)
  | "api_key" => some (.apiKey id)
  | "secret" => some (.secret id)
  | "revision" => some (.revision id)
  | "unknown" => some (.unknown id)
  | _ => none

theorem OperationTarget.ofKind_kind (target : OperationTarget) :
    ofKind target.kind target.id = some target := by
  cases target <;> rfl

theorem OperationTarget.eq_of_kind_of_id {first second : OperationTarget}
    (kind : first.kind = second.kind) (id : first.id = second.id) : first = second := by
  apply Option.some.inj
  rw [← ofKind_kind first, ← ofKind_kind second, kind, id]

theorem OperationTarget.colon_notMem_kind (target : OperationTarget) :
    ':' ∉ target.kind.toList := by
  cases target <;> simp only [kind] <;> decide

/-- The register text without the kind of its target. -/
def Operation.registerText (op : Operation) : String :=
  op.target.id ++ "#" ++ op.slot.toText

theorem conflictGroupKey_eq_iff (a b : Operation) :
    conflictGroupKey a = conflictGroupKey b ↔
      a.target.kind = b.target.kind ∧ a.registerText = b.registerText := by
  have shape (op : Operation) : conflictGroupKey op =
      op.target.kind ++ ":" ++ op.registerText := by
    rw [conflictGroupKey_eq, OperationTarget.toText, Operation.registerText]
    simp only [String.append_assoc]
  rw [shape a, shape b]
  constructor
  · intro same
    have chars := congrArg String.toList same
    simp only [String.toList_append, List.append_assoc] at chars
    obtain ⟨kind, rest⟩ := split_at_first a.target.colon_notMem_kind
      b.target.colon_notMem_kind chars
    exact ⟨String.toList_inj.mp kind, String.toList_inj.mp rest⟩
  · rintro ⟨kind, rest⟩
    rw [kind, rest]

/-! ## Registers that share a text -/

theorem Operation.slot_of_relation {op : Operation} {key : RelationKey}
    (relation : op.opType.relationKey = some key) :
    op.slot = .relation key.relationType key.targetId ∧ op.target = .node key.sourceId := by
  unfold Operation.slot Operation.target
  cases shape : op.opType <;> rw [shape] at relation <;>
    simp only [OpType.relationKey, reduceCtorEq, Option.some.injEq] at relation
  all_goals
    subst relation
    exact ⟨rfl, rfl⟩

theorem Operation.relation_of_slot {op : Operation} {relationType targetId : String}
    (slot : op.slot = .relation relationType targetId) :
    ∃ key, op.opType.relationKey = some key ∧
      key.relationType = relationType ∧ key.targetId = targetId := by
  unfold Operation.slot at slot
  cases shape : op.opType <;> rw [shape] at slot <;>
    simp only [reduceCtorEq, Slot.relation.injEq] at slot
  all_goals exact ⟨_, rfl, slot.1, slot.2⟩

theorem Slot.hash_notMem_toText {slot : Slot}
    (plain : ∀ relationType targetId, slot ≠ .relation relationType targetId) :
    '#' ∉ slot.toText.toList := by
  cases slot with
  | relation relationType targetId => exact absurd rfl (plain relationType targetId)
  | delete => decide
  | snapshot => decide
  | update => decide
  | single opId =>
      rw [toText, String.toList_append, List.mem_append, not_or]
      exact ⟨by decide, opId.hash_notMem_toText⟩

theorem Slot.toText_injective {first second : Slot}
    (plainFirst : ∀ relationType targetId, first ≠ .relation relationType targetId)
    (plainSecond : ∀ relationType targetId, second ≠ .relation relationType targetId)
    (same : first.toText = second.toText) : first = second := by
  -- the first letter tells the slots apart, except that all `single`s share it
  have initials := congrArg (fun text => (String.toList text).head?) same
  cases first <;> cases second <;>
    simp only [toText, String.toList_append, reduceCtorEq] at initials plainFirst plainSecond ⊢
  case relation.relation => exact absurd rfl (plainFirst _ _)
  case single.single first second =>
      have texts := congrArg String.toList same
      simp only [toText, String.toList_append] at texts
      rw [Uuid.toText_injective (String.toList_inj.mp (List.append_cancel_left texts))]
  all_goals first
    | exact absurd rfl (plainFirst _ _)
    | exact absurd rfl (plainSecond _ _)
    | (exfalso; revert initials; decide)
    | (exfalso; simp at initials)

/-- The workspaces a relation starts and ends in. -/
def OpType.relationWorkspaces : OpType → Option (String × String)
  | .addRelation _ sourceWorkspace _ _ targetWorkspace
  | .removeRelation _ sourceWorkspace _ _ targetWorkspace =>
      some (sourceWorkspace, targetWorkspace)
  | _ => none

/-- The operations differ in a component of the stored key that the register lacks. -/
def ScopeMismatch (a b : Operation) : Prop :=
  a.tenantId ≠ b.tenantId ∨ a.repoId ≠ b.repoId ∨
    (a.opType.branchScoped ∧ a.branch ≠ b.branch) ∨
    a.opType.relationWorkspaces ≠ b.opType.relationWorkspaces

instance (a b : Operation) : Decidable (ScopeMismatch a b) := by
  unfold ScopeMismatch
  infer_instance

/-- The id of the second operation goes on behind that of the first, a relation, and what stands in
the place of its slot is the end of the relation's target or of its type and target; or the ids are
one and a `:` in the other relation's type splits the text at another place. -/
def Imitates (a b : Operation) : Prop :=
  ∃ relationType targetId, a.slot = .relation relationType targetId ∧ b.target.kind = "node" ∧
    ((∃ rest, b.target.id = a.target.id ++ "#rel:" ++ relationType ++ ":" ++ rest ∧
        targetId = rest ++ "#" ++ b.slot.toText) ∨
      (∃ front rest, b.target.id = a.target.id ++ "#rel:" ++ front ∧
        relationType = front ++ "#" ++ rest ∧ b.slot.toText = rest ++ ":" ++ targetId) ∨
      (b.target.id = a.target.id ∧ ∃ rest other,
        b.slot = .relation (relationType ++ ":" ++ rest) other ∧
          targetId = rest ++ ":" ++ other))

/-- Two registers of nodes whose joined texts agree. -/
def SeparatorClash (a b : Operation) : Prop := Imitates a b ∨ Imitates b a

/-- The ways in which two operations on different entities end up in one group. -/
def Collides (a b : Operation) : Prop :=
  ((a.target, a.slot) = (b.target, b.slot) ∧ ScopeMismatch a b) ∨ SeparatorClash a b

theorem Operation.isRelation_iff (op : Operation) :
    op.isRelation ↔ ∃ relationType targetId, op.slot = .relation relationType targetId := by
  constructor
  · intro relation
    obtain ⟨key, found⟩ := Option.isSome_iff_exists.mp relation
    exact ⟨_, _, (slot_of_relation found).1⟩
  · rintro ⟨relationType, targetId, slot⟩
    obtain ⟨key, found, _⟩ := relation_of_slot slot
    exact Option.isSome_iff_exists.mpr ⟨key, found⟩

theorem clash_cases {id relationType targetId other slot : String}
    (same : id ++ "#" ++ ("rel:" ++ relationType ++ ":" ++ targetId) = other ++ "#" ++ slot) :
    (other = id ∧ slot = "rel:" ++ relationType ++ ":" ++ targetId) ∨
    (∃ rest, other = id ++ "#rel:" ++ relationType ++ ":" ++ rest ∧
      targetId = rest ++ "#" ++ slot) ∨
    (∃ front rest, other = id ++ "#rel:" ++ front ∧ relationType = front ++ "#" ++ rest ∧
      slot = rest ++ ":" ++ targetId) ∨
    ∃ rest, id = other ++ "#" ++ rest ∧
      slot = rest ++ "#" ++ ("rel:" ++ relationType ++ ":" ++ targetId) := by
  have text {first second : String} (chars : first.toList = second.toList) : first = second :=
    String.toList_inj.mp chars
  have chars : id.toList ++ '#' :: 'r' :: 'e' :: 'l' :: ':' ::
      (relationType.toList ++ ':' :: targetId.toList) = other.toList ++ '#' :: slot.toList := by
    simpa using congrArg String.toList same
  rcases split_joined chars with ⟨ids, _, slots⟩ | ⟨more, long, slots⟩ | ⟨more, long, slots⟩
  · exact .inl ⟨text ids.symm, text (by simpa using slots.symm)⟩
  · rcases more with _ | ⟨_, _ | ⟨_, _ | ⟨_, _ | ⟨_, front⟩⟩⟩⟩ <;> simp at slots
    obtain ⟨rfl, rfl, rfl, rfl, joint⟩ := slots
    rcases split_joined joint with ⟨_, clash, _⟩ | ⟨more, ends, target⟩ | ⟨more, ends, target⟩
    · exact absurd clash (by decide)
    · refine .inr (.inl ⟨.ofList more, text ?_, text ?_⟩) <;> simp [long, ends, target]
    · refine .inr (.inr (.inl ⟨.ofList front, .ofList more, text ?_, text ?_, text ?_⟩)) <;>
        simp [long, ends, target]
  · refine .inr (.inr (.inr ⟨.ofList more, text ?_, text ?_⟩)) <;> simp [long, slots]

theorem typed_cases {relationType targetId other target : String}
    (same : "rel:" ++ relationType ++ ":" ++ targetId = "rel:" ++ other ++ ":" ++ target) :
    (relationType = other ∧ targetId = target) ∨
    (∃ rest, other = relationType ++ ":" ++ rest ∧ targetId = rest ++ ":" ++ target) ∨
    ∃ rest, relationType = other ++ ":" ++ rest ∧ target = rest ++ ":" ++ targetId := by
  have text {first second : String} (chars : first.toList = second.toList) : first = second :=
    String.toList_inj.mp chars
  have joint : relationType.toList ++ ':' :: targetId.toList =
      other.toList ++ ':' :: target.toList := by
    simpa using congrArg String.toList same
  rcases split_joined joint with ⟨types, _, targets⟩ | ⟨more, long, targets⟩ | ⟨more, long, targets⟩
  · exact .inl ⟨text types, text targets⟩
  · refine .inr (.inl ⟨.ofList more, text ?_, text ?_⟩) <;> simp [long, targets]
  · refine .inr (.inr ⟨.ofList more, text ?_, text ?_⟩) <;> simp [long, targets]


theorem Imitates.clash {a b : Operation} (imitates : Imitates a b) :
    (a.target, a.slot) ≠ (b.target, b.slot) ∧ a.isRelation ∧
      (a.target.kind = "node" ∧ b.target.kind = "node") ∧ a.registerText = b.registerText := by
  obtain ⟨relationType, targetId, slot, kind, spelled⟩ := imitates
  refine ⟨fun same => ?_, a.isRelation_iff.mpr ⟨_, _, slot⟩, ⟨?_, kind⟩, ?_⟩
  rotate_left
  · obtain ⟨key, found, _⟩ := Operation.relation_of_slot slot
    rw [(Operation.slot_of_relation found).2]
    rfl
  rotate_left
  · obtain ⟨target, slots⟩ := Prod.mk.inj same
    have ids := congrArg (fun target => target.id.toList.length) target
    rcases spelled with ⟨_, long, _⟩ | ⟨_, _, long, _⟩ | ⟨_, _, _, other, _⟩
    · simp [long] at ids
    · simp [long] at ids
    · have types := congrArg (fun type => type.toList.length)
        (Slot.relation.inj (slot.symm.trans (slots.trans other))).1
      simp at types
  · rw [Operation.registerText, Operation.registerText, slot]
    apply String.toList_inj.mp
    rcases spelled with ⟨_, long, rfl⟩ | ⟨_, _, long, rfl, text⟩ | ⟨same, _, _, text, rfl⟩
    · simp [long, Slot.toText.eq_1]
    · simp [long, text, Slot.toText.eq_1]
    · simp [same, text, Slot.toText.eq_1]

theorem imitates_of_text {a b : Operation} (relation : a.isRelation)
    (kind : b.target.kind = "node") (apart : (a.target, a.slot) ≠ (b.target, b.slot))
    (text : a.registerText = b.registerText) : Imitates a b ∨ Imitates b a := by
  obtain ⟨relationType, targetId, slot⟩ := a.isRelation_iff.mp relation
  have kindA : a.target.kind = "node" := by
    obtain ⟨key, found, _⟩ := Operation.relation_of_slot slot
    rw [(Operation.slot_of_relation found).2]
    rfl
  rw [Operation.registerText, Operation.registerText, slot] at text
  have relB {text : String} (spelled : b.slot.toText = text) (hash : '#' ∈ text.toList ∨ ∃ rest, text = "rel:" ++ rest) :
      ∃ other target, b.slot = .relation other target := by
    by_contra plain
    have free := Slot.hash_notMem_toText fun other target same => plain ⟨other, target, same⟩
    rcases hash with hash | ⟨rest, rfl⟩
    · exact free (spelled ▸ hash)
    · cases shape : b.slot <;> rw [shape] at spelled
      case relation => exact plain ⟨_, _, shape⟩
      all_goals
        have := congrArg (fun text => text.toList.take 4) spelled
        simp [Slot.toText] at this
  rcases clash_cases text with ⟨ids, slots⟩ | target | type | ⟨rest, id, slots⟩
  · obtain ⟨other, target, shape⟩ := relB slots
      (.inr ⟨relationType ++ (":" ++ targetId), by simp only [String.append_assoc]⟩)
    rw [shape] at slots
    rcases typed_cases slots.symm with ⟨rfl, rfl⟩ | ⟨rest, rfl, rfl⟩ | ⟨rest, rfl, rfl⟩
    · rw [slot, shape, OperationTarget.eq_of_kind_of_id (kindA.trans kind.symm) ids.symm] at apart
      exact absurd rfl apart
    · exact .inl ⟨_, _, slot, kind, .inr (.inr ⟨ids, rest, target, shape, rfl⟩)⟩
    · exact .inr ⟨_, _, shape, kindA, .inr (.inr ⟨ids.symm, rest, targetId, slot, rfl⟩)⟩
  · exact .inl ⟨_, _, slot, kind, .inl target⟩
  · exact .inl ⟨_, _, slot, kind, .inr (.inl type)⟩
  · obtain ⟨other, target, shape⟩ := relB slots (.inl (by simp))
    rw [shape] at text
    have longer := congrArg (fun id => id.toList.length) id
    rcases clash_cases text.symm with ⟨ids, _⟩ | inTarget | inType | ⟨_, ids, _⟩
    · simp [ids] at longer
    · exact .inr ⟨_, _, shape, kindA, .inl (slot ▸ inTarget)⟩
    · exact .inr ⟨_, _, shape, kindA, .inr (.inl (slot ▸ inType))⟩
    · have := congrArg (fun id => id.toList.length) ids
      simp at longer this
      omega

theorem separatorClash_iff (a b : Operation) :
    SeparatorClash a b ↔ (a.target, a.slot) ≠ (b.target, b.slot) ∧ (a.isRelation ∨ b.isRelation) ∧
      a.target.kind = "node" ∧ b.target.kind = "node" ∧ a.registerText = b.registerText := by
  constructor
  · rintro (imitates | imitates)
    · obtain ⟨apart, relation, kinds, text⟩ := imitates.clash
      exact ⟨apart, .inl relation, kinds.1, kinds.2, text⟩
    · obtain ⟨apart, relation, kinds, text⟩ := imitates.clash
      exact ⟨apart.symm, .inr relation, kinds.2, kinds.1, text.symm⟩
  · rintro ⟨apart, relation | relation, kindA, kindB, text⟩
    · exact imitates_of_text relation kindB apart text
    · exact (imitates_of_text relation kindA apart.symm text.symm).symm

instance (a b : Operation) : Decidable (SeparatorClash a b) :=
  decidable_of_iff _ (separatorClash_iff a b).symm

instance (a b : Operation) : Decidable (Collides a b) := by
  unfold Collides
  infer_instance

theorem OpType.relationKey_workspaces (opType : OpType) :
    opType.relationWorkspaces =
      opType.relationKey.map fun key => (key.sourceWorkspace, key.targetWorkspace) := by
  cases opType <;> rfl

/-- Within one register the workspaces are what is left of the relation's key. -/
theorem relationKey_eq_iff {a b : Operation} (target : a.target = b.target)
    (slot : a.slot = b.slot) :
    a.opType.relationKey = b.opType.relationKey ↔
      a.opType.relationWorkspaces = b.opType.relationWorkspaces := by
  rw [OpType.relationKey_workspaces, OpType.relationKey_workspaces]
  cases keyA : a.opType.relationKey with
  | none =>
      cases keyB : b.opType.relationKey with
      | none => simp
      | some key =>
          have plain : ¬ a.isRelation := by simp [Operation.isRelation, keyA]
          exact absurd (a.isRelation_iff.mpr
            ⟨_, _, slot.trans (Operation.slot_of_relation keyB).1⟩) plain
  | some key =>
      obtain ⟨slotA, targetA⟩ := Operation.slot_of_relation keyA
      obtain ⟨other, keyB, sameType, sameTarget⟩ :=
        Operation.relation_of_slot (slot.symm.trans slotA)
      obtain ⟨_, targetB⟩ := Operation.slot_of_relation keyB
      have source : key.sourceId = other.sourceId :=
        OperationTarget.node.inj (targetA.symm.trans (target.trans targetB))
      rw [keyB]
      obtain ⟨_, _, _, _, _⟩ := key
      obtain ⟨_, _, _, _, _⟩ := other
      simp_all

/-- Operations of one register write one entity unless the scope differs. -/
theorem sameStoredEntity_iff {a b : Operation} (target : a.target = b.target)
    (slot : a.slot = b.slot) : SameStoredEntity a b ↔ ¬ ScopeMismatch a b := by
  have relation := relationKey_eq_iff target slot
  constructor
  · rintro same (tenant | repo | ⟨onBranch, branch⟩ | workspaces)
    · exact tenant same.tenantId
    · exact repo same.repoId
    · exact branch (same.branch onBranch)
    · exact workspaces (relation.mp same.relationKey)
  · intro matched
    simp only [ScopeMismatch, not_or, not_and, not_not] at matched
    obtain ⟨tenant, repo, branch, workspaces⟩ := matched
    exact ⟨tenant, repo, branch, target, relation.mpr workspaces⟩

/-- Different registers share a text only through the separators of a relation. -/
theorem separatorClash_of_key {a b : Operation}
    (key : conflictGroupKey a = conflictGroupKey b)
    (apart : (a.target, a.slot) ≠ (b.target, b.slot)) : SeparatorClash a b := by
  obtain ⟨kind, text⟩ := (conflictGroupKey_eq_iff a b).mp key
  have nodeKind {op : Operation} (relation : op.isRelation) : op.target.kind = "node" := by
    obtain ⟨found, shape⟩ := Option.isSome_iff_exists.mp relation
    rw [(Operation.slot_of_relation shape).2]
    rfl
  by_cases relationA : a.isRelation
  · exact imitates_of_text relationA (kind ▸ nodeKind relationA) apart text
  · by_cases relationB : b.isRelation
    · exact (imitates_of_text relationB (kind ▸ nodeKind relationB) apart.symm text.symm).symm
    · -- plain slots are free of the separator, so its last occurrence is the joint
      have plain {op : Operation} (noRelation : ¬ op.isRelation) :
          ∀ relationType targetId, op.slot ≠ .relation relationType targetId :=
        fun relationType targetId slot =>
          noRelation (op.isRelation_iff.mpr ⟨relationType, targetId, slot⟩)
      have chars := congrArg String.toList text
      simp only [Operation.registerText, String.toList_append, List.append_assoc] at chars
      obtain ⟨id, slot⟩ := split_at_last
        (Slot.hash_notMem_toText (plain relationA))
        (Slot.hash_notMem_toText (plain relationB)) chars
      refine absurd ?_ apart
      rw [OperationTarget.eq_of_kind_of_id kind (String.toList_inj.mp id),
        Slot.toText_injective (plain relationA) (plain relationB) (String.toList_inj.mp slot)]

theorem not_sameStoredEntity_of_clash {a b : Operation} (clash : SeparatorClash a b) :
    ¬ SameStoredEntity a b := by
  obtain ⟨apart, relation, _, _, _⟩ := (separatorClash_iff a b).mp clash
  intro same
  apply apart
  have found : ∃ key, a.opType.relationKey = some key := by
    rcases relation with relation | relation
    · exact Option.isSome_iff_exists.mp relation
    · obtain ⟨key, shape⟩ := Option.isSome_iff_exists.mp relation
      exact ⟨key, same.relationKey.trans shape⟩
  obtain ⟨key, shape⟩ := found
  rw [same.target, (Operation.slot_of_relation shape).1,
    (Operation.slot_of_relation (same.relationKey.symm.trans shape)).1]

theorem conflictGroupKey_of_collides {a b : Operation} (collides : Collides a b) :
    conflictGroupKey a = conflictGroupKey b := by
  rcases collides with ⟨register, _⟩ | clash
  · obtain ⟨target, slot⟩ := Prod.mk.inj register
    rw [conflictGroupKey_eq, conflictGroupKey_eq, target, slot]
  · obtain ⟨_, _, kindA, kindB, text⟩ := (separatorClash_iff a b).mp clash
    exact (conflictGroupKey_eq_iff a b).mpr ⟨kindA.trans kindB.symm, text⟩

/-- One register text means one stored entity exactly for pairs that do not collide. -/
theorem sameStoredEntity_of_key_iff (a b : Operation) :
    (conflictGroupKey a = conflictGroupKey b → SameStoredEntity a b) ↔ ¬ Collides a b := by
  constructor
  · intro safe collides
    have same := safe (conflictGroupKey_of_collides collides)
    rcases collides with ⟨register, mismatch⟩ | clash
    · obtain ⟨target, slot⟩ := Prod.mk.inj register
      exact (sameStoredEntity_iff target slot).mp same mismatch
    · exact not_sameStoredEntity_of_clash clash same
  · intro free key
    by_cases register : (a.target, a.slot) = (b.target, b.slot)
    · obtain ⟨target, slot⟩ := Prod.mk.inj register
      exact (sameStoredEntity_iff target slot).mpr
        fun mismatch => free (Or.inl ⟨register, mismatch⟩)
    · exact absurd (Or.inr (separatorClash_of_key key register)) free

/-! ## Sharing an entity -/

/-- Whether the entity of a register lives on one branch. -/
def registerOnBranch (target : OperationTarget) (slot : Slot) : Bool :=
  match slot, target with
  | .relation _ _, _ | .delete, _ | .snapshot, _ => true
  | _, .nodeType _ | _, .archetype _ | _, .elementType _ => true
  | _, _ => false

theorem branchScoped_eq (op : Operation) :
    op.opType.branchScoped = registerOnBranch op.target op.slot := by
  unfold Operation.target Operation.slot
  cases op.opType <;> rfl

/-- Two operations of one register that share an entity with a third share it. -/
theorem SameStoredEntity.of_common {a b common : Operation} (left : SameStoredEntity a common)
    (right : SameStoredEntity b common) (slots : a.slot = b.slot) : SameStoredEntity a b where
  tenantId := left.tenantId.trans right.tenantId.symm
  repoId := left.repoId.trans right.repoId.symm
  branch onBranch := by
    have other : b.opType.branchScoped := by
      rw [branchScoped_eq, ← slots, right.target, ← left.target, ← branchScoped_eq]
      exact onBranch
    exact (left.branch onBranch).trans (right.branch other).symm
  target := left.target.trans right.target.symm
  relationKey := left.relationKey.trans right.relationKey.symm

theorem SameStoredEntity.refl (op : Operation) : SameStoredEntity op op :=
  ⟨rfl, rfl, fun _ => rfl, rfl, rfl⟩

theorem SameStoredEntity.slot_eq {a b : Operation} (same : SameStoredEntity a b)
    (key : conflictGroupKey a = conflictGroupKey b) : a.slot = b.slot := by
  by_contra apart
  exact not_sameStoredEntity_of_clash
    (separatorClash_of_key key fun register => apart (Prod.mk.inj register).2) same

end RaisinDB.Replication
