import Mathlib
import RaisinDB.Agents.OwedEffects
import RaisinDB.Foundation.SegmentPatterns

/-!
# What a run may do

A child that asks for write roots gets them only inside its parent's, as the two are written; one
that asks for none keeps its parent's.  The tools that it may call are those of its own objective.
-/

namespace RaisinDB.Agents

open List
open RaisinDB.Foundation

/-! ## Paths -/

/-- The segments of a path in turn; a climb gives back the last one that was taken. -/
def normalizeFrom : List (List Char) → List (List Char) → Option (List (List Char))
  | taken, [] => some taken.reverse
  | taken, segment :: rest =>
      if segment = [] ∨ segment = ['.'] then normalizeFrom taken rest
      else if segment = ['.', '.'] then
        if taken = [] then none else normalizeFrom taken.tail rest
      else normalizeFrom (segment :: taken) rest

/-- None when the path climbs above the root. -/
def normalize (path : String) : Option (List Char) :=
  (normalizeFrom [] (path.toList.splitOn '/')).map (pathText '/')

/-- Is a path another one, or below it? -/
def isWithin (path root : List Char) : Bool :=
  root == ['/'] || path == root || (trimEnd '/' root ++ ['/']).isPrefixOf path

/-- The segments that a path without climbs comes to. -/
def namesOf (path : String) : List (List Char) :=
  (segmentsOf '/' path.toList).filter fun segment => segment ≠ ['.']

def ClimbFree (path : String) : Prop := ['.', '.'] ∉ segmentsOf '/' path.toList

theorem normalizeFrom_climbFree {segments : List (List Char)}
    (climbFree : ['.', '.'] ∉ segments) (taken : List (List Char)) :
    normalizeFrom taken segments =
      some (taken.reverse ++ (segments.filter fun segment => !segment.isEmpty).filter
        fun segment => segment ≠ ['.']) := by
  induction segments generalizing taken with
  | nil => simp [normalizeFrom]
  | cons segment rest ih =>
    obtain ⟨other, climbFree⟩ := not_or.mp (mt mem_cons.mpr climbFree)
    rw [normalizeFrom]
    by_cases skipped : segment = [] ∨ segment = ['.']
    · rw [if_pos skipped, ih climbFree]
      rcases skipped with rfl | rfl <;> simp
    · obtain ⟨some, named⟩ := not_or.mp skipped
      rw [if_neg skipped, if_neg (Ne.symm other), ih climbFree]
      simp [some, named]

theorem normalize_climbFree {path : String} (climbFree : ClimbFree path) :
    normalize path = some (pathText '/' (namesOf path)) := by
  have free : ['.', '.'] ∉ path.toList.splitOn '/' := by
    intro mem
    exact climbFree (mem_filter.mpr ⟨mem, rfl⟩)
  rw [normalize, normalizeFrom_climbFree free []]
  rfl

theorem segments_namesOf (path : String) : Segments '/' (namesOf path) :=
  fun segment mem => segments_segmentsOf path.toList segment (mem_filter.mp mem).1

theorem trimEnd_below {names : List (List Char)} (segments : Segments '/' names) :
    trimEnd '/' (below '/' names) = below '/' names := by
  have ends : (below '/' names).getLast? ≠ some '/' := by
    rcases eq_nil_or_concat names with rfl | ⟨front, last, rfl⟩
    · exact fun same => by cases same
    · rw [concat_eq_append] at segments ⊢
      obtain ⟨⟨some, plain⟩, -⟩ := segments.right.cons
      obtain ⟨start, char, rfl⟩ := (eq_nil_or_concat last).resolve_left some
      rw [concat_eq_append] at plain ⊢
      rw [below_append, below_cons, below_nil, append_nil, ← cons_append, ← append_assoc,
        getLast?_concat]
      exact fun same => plain (mem_append_right _ (mem_singleton.mpr (Option.some.inj same).symm))
  exact trimEnd_of_getLast ends

theorem isWithin_pathText {names : List (List Char)} (segments : Segments '/' names)
    (path : List Char) :
    isWithin path (pathText '/' names) ↔
      names = [] ∨ path = below '/' names ∨ below '/' names ++ ['/'] <+: path := by
  cases names with
  | nil => simp [isWithin, pathText]
  | cons segment rest =>
    obtain ⟨⟨some, plain⟩, -⟩ := segments.cons
    have root : below '/' (segment :: rest) ≠ ['/'] := by
      rw [below_cons]
      exact fun same => some (append_eq_nil_iff.mp (cons.inj same).2).1
    rw [isWithin, pathText_of_ne (cons_ne_nil _ _), trimEnd_below segments]
    rw [Bool.or_eq_true, Bool.or_eq_true, beq_iff_eq, beq_iff_eq, isPrefixOf_iff_prefix, or_assoc,
      or_iff_right root, or_iff_right (cons_ne_nil _ _)]

/-- What lies below a path lies below every path above it. -/
theorem isWithin_of_append {front rest : List (List Char)} (segments : Segments '/' (front ++ rest))
    {path : List Char} (inside : isWithin path (pathText '/' (front ++ rest))) :
    isWithin path (pathText '/' front) := by
  rw [isWithin_pathText segments] at inside
  rw [isWithin_pathText segments.left]
  rcases inside with none | rfl | starts
  · exact .inl (append_eq_nil_iff.mp none).1
  · cases rest with
    | nil => exact .inr (.inl (by rw [append_nil]))
    | cons segment rest =>
      refine .inr (.inr ?_)
      rw [below_append, below_cons]
      exact (prefix_append_right_inj _).mpr ⟨_, rfl⟩
  · refine .inr (.inr (IsPrefix.trans ?_ starts))
    rw [below_append, append_assoc]
    refine (prefix_append_right_inj _).mpr ?_
    cases rest with
    | nil => exact prefix_rfl
    | cons segment rest => exact ⟨_, rfl⟩

/-! ## Write roots -/

/-- Something that a run wants to write: a normalized path and an operation there. -/
structure Write where
  workspace : String
  path : List Char
  operation : String

/-- The operations that a root grants; no list grants every one. -/
def rootAllows (root : Value) (operation : String) : Bool :=
  match root.get "ops" with
  | none => true
  | some .null => true
  | some (.array ops) => ops.contains (.string operation)
  | some _ => false

/-- A write root grants a write. -/
def rootCovers (root : Value) (write : Write) : Bool :=
  strOf "workspace" root == some write.workspace &&
    ((normalize ((strOf "path" root).getD "/")).any fun normal => isWithin write.path normal) &&
    rootAllows root write.operation

/-- Is a path written inside another one? -/
def WrittenInside (path root : String) : Prop :=
  trimEnd '/' root.toList = [] ∨ path.toList = trimEnd '/' root.toList ∨
    trimEnd '/' root.toList ++ ['/'] <+: path.toList

theorem segmentsOf_of_inside {path root : String} (inside : WrittenInside path root) :
    ∃ rest, segmentsOf '/' path.toList = segmentsOf '/' root.toList ++ rest := by
  have trimmed : segmentsOf '/' (trimEnd '/' root.toList) = segmentsOf '/' root.toList :=
    segmentsOf_trimEnd root.toList
  rcases inside with empty | same | ⟨later, starts⟩
  · rw [empty, segmentsOf_nil] at trimmed
    exact ⟨_, by rw [← trimmed, nil_append]⟩
  · exact ⟨[], by rw [same, trimmed, append_nil]⟩
  · refine ⟨segmentsOf '/' later, ?_⟩
    rw [← starts, append_assoc, singleton_append, segmentsOf_append_sep, trimmed]

/-- What a path without a climb grants, a path that it is written inside grants too. -/
theorem isWithin_of_inside {path root : String} (inside : WrittenInside path root)
    (climbFree : ClimbFree path) {target : List Char}
    (covered : (normalize path).any fun normal => isWithin target normal) :
    (normalize root).any fun normal => isWithin target normal := by
  obtain ⟨rest, segments⟩ := segmentsOf_of_inside inside
  have rootFree : ClimbFree root := fun mem => climbFree (segments ▸ mem_append_left rest mem)
  have names : namesOf path = namesOf root ++ rest.filter fun segment => segment ≠ ['.'] := by
    rw [namesOf, segments, filter_append, namesOf]
  rw [normalize_climbFree climbFree, Option.any_some, names] at covered
  rw [normalize_climbFree rootFree, Option.any_some]
  exact isWithin_of_append (names ▸ segments_namesOf path) covered

theorem get_inheritOps {key : String} (other : "ops" ≠ key) (root parent : Value) :
    (inheritOps root parent).get key = root.get key := by
  unfold inheritOps
  split_ifs
  · split
    · exact Value.lookup_insertField_of_ne other _ _
    · rfl
  · rfl

theorem strOf_inheritOps {key : String} (other : "ops" ≠ key) (root parent : Value) :
    strOf key (inheritOps root parent) = strOf key root := by
  rw [strOf, get_inheritOps other, strOf]

theorem within_parts {child parent : Value} (inside : within child parent) :
    strOf "workspace" child = strOf "workspace" parent ∧
      WrittenInside ((strOf "path" child).getD "/") ((strOf "path" parent).getD "/") := by
  rw [within] at inside
  split_ifs at inside with other
  rw [Bool.and_eq_true, Bool.or_eq_true, Bool.or_eq_true, List.isEmpty_iff, beq_iff_eq,
    isPrefixOf_iff_prefix, or_assoc] at inside
  exact ⟨not_not.mp other, inside.1⟩

/-- Operations that are named stand in the list of the other root. -/
theorem within_ops {child parent asked granted : Value} (inside : within child parent)
    (childOps : child.get "ops" = some asked) (parentOps : parent.get "ops" = some granted) :
    ∃ fewer more, asked = .array fewer ∧ granted = .array more ∧ fewer ⊆ more := by
  rw [within, childOps, parentOps] at inside
  split_ifs at inside
  have ops := (Bool.and_eq_true_iff.mp inside).2
  cases asked with
  | array fewer =>
    cases granted with
    | array more =>
      refine ⟨fewer, more, rfl, rfl, fun op mem => ?_⟩
      simpa using all_eq_true.mp ops op mem
    | null | bool | number | string | object => cases ops
  | null | bool | number | string | object => cases granted <;> cases ops

theorem rootAllows_of_within {child parent : Value} (inside : within child parent)
    {fields : List (String × Value)} (object : child = .object fields) {operation : String}
    (allows : rootAllows (inheritOps child parent) operation) : rootAllows parent operation := by
  unfold rootAllows at allows ⊢
  cases parentOps : parent.get "ops" with
  | none => rfl
  | some granted =>
    cases childOps : child.get "ops" with
    | none =>
      have inherited : (inheritOps child parent).get "ops" = some granted := by
        subst object
        simp only [inheritOps, childOps, parentOps, Option.isNone_none, if_true]
        exact Value.lookup_insertField_self _ _ _
      rw [inherited] at allows
      exact allows
    | some asked =>
      have kept : inheritOps child parent = child := by simp [inheritOps, childOps]
      obtain ⟨fewer, more, rfl, rfl, subset⟩ := within_ops inside childOps parentOps
      rw [kept, childOps] at allows
      have mem : Value.string operation ∈ fewer := by simpa using allows
      simpa using subset mem

/-- A root that is written inside another without a climb grants nothing that the other does
not. -/
theorem covers_of_within {child parent : Value} (inside : within child parent)
    (climbFree : ClimbFree ((strOf "path" child).getD "/")) {write : Write}
    (covers : rootCovers (inheritOps child parent) write) : rootCovers parent write := by
  rw [rootCovers, Bool.and_eq_true, Bool.and_eq_true, strOf_inheritOps (by decide),
    strOf_inheritOps (by decide), beq_iff_eq] at covers
  obtain ⟨⟨workspace, path⟩, operation⟩ := covers
  obtain ⟨same, written⟩ := within_parts inside
  have object : ∃ fields, child = .object fields := by
    cases child with
    | object fields => exact ⟨fields, rfl⟩
    | null | bool | number | string | array => cases workspace
  obtain ⟨fields, object⟩ := object
  rw [rootCovers, Bool.and_eq_true, Bool.and_eq_true, ← same, beq_iff_eq]
  exact ⟨⟨workspace, isWithin_of_inside written climbFree path⟩,
    rootAllows_of_within inside object operation⟩

/-! ## What is granted -/

/-- The write roots in the fields of a configuration. -/
def rootsIn (fields : List (String × Value)) : Option (List Value) :=
  ((Value.lookup "node_dev" fields).bind (Value.get "roots")).bind Value.asArray

theorem grantedRoots_eq (config : Option Value) :
    grantedRoots config = rootsIn (objectFields config) := by
  cases config with
  | none => rfl
  | some value => cases value <;> rfl

theorem rootsIn_overlay (fields extra : List (String × Value)) :
    rootsIn (overlay fields extra) = rootsIn fields := by
  unfold overlay
  induction extra generalizing fields with
  | nil => rfl
  | cons field rest ih =>
    rw [foldl_cons, ih]
    split_ifs with own
    · rfl
    · rw [rootsIn, Value.lookup_insertField_of_ne own, rootsIn]

theorem rootsIn_setRoots (fields : List (String × Value)) (roots : List Value) :
    rootsIn (setRoots fields roots) = some roots := by
  rw [rootsIn, setRoots, Value.lookup_insertField_self, Option.bind_some]
  split
  · rw [Value.get, Value.lookup_insertField_self]
    rfl
  · rfl
  · rfl

/-- The configuration that comes of the fields, with the tools of an objective. -/
def configOf (tools : List String) (fields : List (String × Value)) : Option Value :=
  let fields :=
    if tools = [] then fields
    else Value.insertField "allowed_tools" (.array (tools.map Value.string)) fields
  if fields = [] then none else some (.object fields)

theorem grantedRoots_configOf (tools : List String) (fields : List (String × Value)) :
    grantedRoots (configOf tools fields) = rootsIn fields := by
  have kept : rootsIn (if tools = [] then fields
      else Value.insertField "allowed_tools" (.array (tools.map Value.string)) fields) =
        rootsIn fields := by
    split_ifs
    · rfl
    · rw [rootsIn, Value.lookup_insertField_of_ne (by decide), rootsIn]
  rw [← kept, configOf]
  generalize (if tools = [] then fields
    else Value.insertField "allowed_tools" (.array (tools.map Value.string)) fields) = fields
  rw [grantedRoots_eq]
  split_ifs with empty
  · rw [empty]
    rfl
  · rfl

/-- The parent's configuration with what the request adds. -/
def mergedConfig (parent : AgentRunRecord) (req : SpawnChild) : List (String × Value) :=
  overlay (objectFields parent.executorConfig) (objectFields req.executorConfig)

theorem executorConfig_none {parent : AgentRunRecord} {req : SpawnChild}
    (asked : req.objective.allowedWrites = none) : executorConfig parent req =
      .ok (configOf req.objective.allowedTools (mergedConfig parent req)) := by
  simp only [executorConfig, asked]
  rfl

theorem executorConfig_some {parent : AgentRunRecord} {req : SpawnChild} {requested : List Value}
    (asked : req.objective.allowedWrites = some requested) : executorConfig parent req =
      (narrowRoots (grantedRoots parent.executorConfig) requested).map fun roots =>
        configOf req.objective.allowedTools (setRoots (mergedConfig parent req) roots) := by
  simp only [executorConfig, asked]
  cases narrowRoots (grantedRoots parent.executorConfig) requested <;> rfl

/-- The roots of a child: its parent's, or those it asked for, narrowed. -/
theorem grantedRoots_child {parent : AgentRunRecord} {req : SpawnChild} {config : Option Value}
    (configured : executorConfig parent req = .ok config) :
    (req.objective.allowedWrites = none ∧
        grantedRoots config = grantedRoots parent.executorConfig) ∨
      ∃ requested roots, req.objective.allowedWrites = some requested ∧
        narrowRoots (grantedRoots parent.executorConfig) requested = .ok roots ∧
        grantedRoots config = some roots := by
  cases asked : req.objective.allowedWrites with
  | none =>
    rw [executorConfig_none asked] at configured
    cases configured
    refine .inl ⟨rfl, ?_⟩
    rw [grantedRoots_configOf, mergedConfig, rootsIn_overlay, grantedRoots_eq]
  | some requested =>
    rw [executorConfig_some asked] at configured
    obtain ⟨roots, narrowed, configured⟩ := ok_of_bind configured
    cases configured
    refine .inr ⟨requested, roots, rfl, narrowed, ?_⟩
    rw [grantedRoots_configOf, rootsIn_setRoots]

theorem narrowRoot_inside {parents : List Value} {asked root : Value}
    (narrowed : narrowRoot (some parents) asked = .ok root) :
    ∃ parent ∈ parents, within asked parent ∧ root = inheritOps asked parent := by
  unfold narrowRoot at narrowed
  split at narrowed
  · cases narrowed
  · simp only [] at narrowed
    cases found : parents.find? (within asked ·) with
    | none => rw [found] at narrowed; cases narrowed
    | some parent =>
      rw [found] at narrowed
      cases narrowed
      exact ⟨parent, mem_of_find?_eq_some found, find?_some found, rfl⟩

/-- A root of a child comes from one it asked for, inside a root of its parent. -/
theorem narrowRoots_inside {parents requested roots : List Value}
    (narrowed : narrowRoots (some parents) requested = .ok roots) {root : Value}
    (mem : root ∈ roots) :
    ∃ asked ∈ requested, ∃ parent ∈ parents, within asked parent ∧
      root = inheritOps asked parent := by
  induction requested generalizing roots with
  | nil =>
    cases narrowed
    cases mem
  | cons asked rest ih =>
    rw [narrowRoots, mapM_cons] at narrowed
    obtain ⟨narrow, first, narrowed⟩ := ok_of_bind narrowed
    obtain ⟨later, others, narrowed⟩ := ok_of_bind narrowed
    cases narrowed
    rcases mem_cons.mp mem with rfl | mem
    · obtain ⟨parent, granted, inside, shape⟩ := narrowRoot_inside first
      exact ⟨asked, mem_cons_self, parent, granted, inside, shape⟩
    · obtain ⟨asked, within, found⟩ := ih others mem
      exact ⟨asked, mem_cons_of_mem _ within, found⟩

/-! ## Lineages -/

/-- Some write root of a configuration covers a write. -/
def Grants (config : Option Value) (write : Write) : Prop :=
  ∃ roots ∈ grantedRoots config, ∃ root ∈ roots, rootCovers root write

/-- A tool call with this tool is not refused. -/
def AdmitsTool (record : AgentRunRecord) (tool : String) : Prop :=
  deniedTool record .toolCall (some (.object [("tool", .string tool)])) = none

/-- A run, and what its ancestors were when they spawned the next one, the nearest first. -/
inductive Lineage (asks : SpawnChild → Prop) : AgentRunRecord → List AgentRunRecord → Prop where
  | root (record : AgentRunRecord) : Lineage asks record []
  | later {ancestors : List AgentRunRecord} {service : Service} {run next : StoredRun}
      {call : Call} {commit : Commit} (lineage : Lineage asks run.record ancestors)
      (committed : Committed service run call commit next) : Lineage asks next.record ancestors
  | child {parent : AgentRunRecord} {ancestors : List AgentRunRecord} {req : SpawnChild}
      {childId : RunId} {now : Nat} {transition : Transition} {plan : ChildPlan}
      (lineage : Lineage asks parent ancestors) (asked : asks req)
      (spawned : applySpawn parent req childId now = .ok (transition, plan)) (scope : RunScope)
      (created : Nat) : Lineage asks (materialize plan scope created) (parent :: ancestors)

/-- No write root that is asked for climbs. -/
def AsksWithoutClimbs (req : SpawnChild) : Prop :=
  ∀ requested ∈ req.objective.allowedWrites, ∀ root ∈ requested,
    ClimbFree ((strOf "path" root).getD "/")

theorem Adjusted.authority {service : Service} {run : StoredRun} {record start : AgentRunRecord}
    {action : Action} (adjusted : Adjusted service run record action start) :
    start.executorConfig = record.executorConfig ∧
      start.allowedTools = record.allowedTools := by
  cases adjusted <;> exact ⟨rfl, rfl⟩

theorem Committed.authority {service : Service} {run next : StoredRun} {call : Call}
    {commit : Commit} (committed : Committed service run call commit next) :
    next.record.executorConfig = run.record.executorConfig ∧
      next.record.allowedTools = run.record.allowedTools := by
  obtain ⟨start, adjusted, follows⟩ := committed.follows
  have config : commit.transition.record.executorConfig = start.executorConfig :=
    congrArg Origin.executorConfig follows.origin
  have objective : commit.transition.record.delegation.map Delegation.objective =
      start.delegation.map Delegation.objective := congrArg Origin.objective follows.origin
  have tools (record : AgentRunRecord) : record.allowedTools =
      (record.delegation.map Delegation.objective).map ChildObjective.allowedTools := by
    rw [Option.map_map]
    rfl
  rw [committed.record, config, tools, objective, ← tools]
  exact adjusted.authority

theorem applySpawn_authority {parent : AgentRunRecord} {req : SpawnChild} {childId : RunId}
    {now : Nat} {transition : Transition} {plan : ChildPlan}
    (spawned : applySpawn parent req childId now = .ok (transition, plan)) (scope : RunScope)
    (created : Nat) :
    executorConfig parent req = .ok (materialize plan scope created).executorConfig ∧
      (materialize plan scope created).allowedTools = some req.objective.allowedTools := by
  obtain ⟨budgets, config, selected, _, _, configured, _, _, rfl⟩ := applySpawn_ok spawned
  exact ⟨configured, rfl⟩

/-- A child is granted no write that its parent is not, if the parent is held to write roots. -/
theorem grants_parent {parent : AgentRunRecord} {req : SpawnChild} {config : Option Value}
    (asked : AsksWithoutClimbs req) (configured : executorConfig parent req = .ok config)
    (held : (grantedRoots parent.executorConfig).isSome) :
    (grantedRoots config).isSome ∧
      ∀ write, Grants config write → Grants parent.executorConfig write := by
  obtain ⟨parents, granted⟩ := Option.isSome_iff_exists.mp held
  rcases grantedRoots_child configured with ⟨_, same⟩ | ⟨requested, roots, writes, narrowed, own⟩
  · unfold Grants
    rw [same]
    exact ⟨held, fun _ grants => grants⟩
  · rw [own]
    refine ⟨rfl, ?_⟩
    rintro write ⟨_, some, root, mem, covers⟩
    obtain rfl := Option.mem_unique some own
    rw [granted] at narrowed
    obtain ⟨asking, within, outer, among, inside, rfl⟩ := narrowRoots_inside narrowed mem
    exact ⟨parents, granted, outer, among,
      covers_of_within inside (asked requested writes asking within) covers⟩

/-- What an ancestor that is held to write roots is not granted, no run below it is. -/
theorem Lineage.grants {record : AgentRunRecord} {ancestors : List AgentRunRecord}
    (lineage : Lineage AsksWithoutClimbs record ancestors) :
    ∀ ancestor ∈ ancestors, (grantedRoots ancestor.executorConfig).isSome →
      (grantedRoots record.executorConfig).isSome ∧
        ∀ write, Grants record.executorConfig write → Grants ancestor.executorConfig write := by
  induction lineage with
  | root record => exact fun _ mem => (not_mem_nil mem).elim
  | later lineage committed ih =>
    rw [committed.authority.1]
    exact ih
  | child lineage asked spawned scope created ih =>
    have step := grants_parent asked (applySpawn_authority spawned scope created).1
    intro ancestor mem held
    rcases mem_cons.mp mem with rfl | mem
    · exact step held
    · obtain ⟨parentHeld, below⟩ := ih ancestor mem held
      exact ⟨(step parentHeld).1,
        fun write grants => below write ((step parentHeld).2 write grants)⟩

/-- A run may call the tools of its own objective. -/
theorem admitsTool_iff (record : AgentRunRecord) (tool : String) :
    AdmitsTool record tool ↔ toolAllowed (record.allowedTools.getD []) tool := by
  have named : toolOf (some (.object [("tool", .string tool)])) = some tool := rfl
  rw [AdmitsTool, deniedTool, named, AgentRunRecord.allowedTools]
  cases record.delegation with
  | none => simp [toolAllowed]
  | some delegation =>
    rw [Option.map_some, Option.getD_some]
    cases tools : delegation.objective.allowedTools with
    | nil => simp [tools, toolAllowed]
    | cons first rest => simp [tools]

/-- A descendant may do nothing that an ancestor which is a child may not. -/
def NeverWidens : Prop :=
  ∀ record ancestors, Lineage (fun _ => True) record ancestors →
    ∀ ancestor ∈ ancestors, ancestor.delegation.isSome →
      (∀ tool, AdmitsTool record tool → AdmitsTool ancestor tool) ∧
        ((grantedRoots ancestor.executorConfig).isSome →
          ∀ write, Grants record.executorConfig write → Grants ancestor.executorConfig write)

/-- Write roots are narrowed all the way down; the tools of a child are those that it was spawned
with, whatever its parent may call. -/
theorem delegation_narrows_writes {record : AgentRunRecord} {ancestors : List AgentRunRecord}
    (lineage : Lineage AsksWithoutClimbs record ancestors) :
    (∀ ancestor ∈ ancestors, (grantedRoots ancestor.executorConfig).isSome →
      ∀ write, Grants record.executorConfig write → Grants ancestor.executorConfig write) ∧
    (∀ tool, AdmitsTool record tool ↔ toolAllowed (record.allowedTools.getD []) tool) ∧
    ∀ req childId now transition plan scope created,
      applySpawn record req childId now = .ok (transition, plan) →
        (materialize plan scope created).allowedTools = some req.objective.allowedTools := by
  refine ⟨fun ancestor mem held => (lineage.grants ancestor mem held).2, admitsTool_iff record, ?_⟩
  intro req childId now transition plan scope created spawned
  exact (applySpawn_authority spawned scope created).2

/-! ## Two children -/

/-- Ask for a child that may call some tools and write below some roots. -/
def spawnWith (tools : List String) (writes : Option (List Value)) : SpawnChild where
  objective :=
    { title := "task"
      context := .none
      allowedTools := tools
      allowedWrites := writes
      expectedArtifacts := []
      acceptanceChecks := []
      requiredFields := [] }
  budgets := {}
  onExceeded := none
  spawnKey := none
  subject := none
  asAgent := none
  agentRef := none
  input := .null
  executorConfig := none
  reducer := none

def childOf (parent : AgentRunRecord) (req : SpawnChild) (childId : RunId) : AgentRunRecord :=
  match applySpawn parent req childId 0 with
  | .ok (_, plan) => materialize plan plainRequest.scope 0
  | .error _ => parent

theorem Lineage.childOf {asks : SpawnChild → Prop} {parent : AgentRunRecord}
    {ancestors : List AgentRunRecord} (lineage : Lineage asks parent ancestors) (req : SpawnChild)
    (asked : asks req) (childId : RunId)
    (admitted : (applySpawn parent req childId 0).toOption.isSome) :
    Lineage asks (Agents.childOf parent req childId) (parent :: ancestors) := by
  unfold Agents.childOf
  cases spawned : applySpawn parent req childId 0 with
  | error refused => rw [spawned] at admitted; cases admitted
  | ok result => exact .child lineage asked spawned plainRequest.scope 0

def writeRoot (path : String) : Value :=
  .object [("workspace", .string "functions"), ("path", .string path)]

/-- May write below `/lib`. -/
def libraryRecord : AgentRunRecord :=
  newRecord { plainRequest with
    executorConfig :=
      some (.object [("node_dev", .object [("roots", .array [writeRoot "/lib"])])]) } "run" 0

theorem library_lineage : Lineage AsksWithoutClimbs
    (childOf libraryRecord (spawnWith [] (some [writeRoot "/lib/app"])) "child")
    [libraryRecord] := by
  refine (Lineage.root libraryRecord).childOf _ ?_ "child" rfl
  rintro _ ⟨⟩ root mem
  rw [mem_singleton.mp mem, ClimbFree]
  decide +kernel

def appWrite : Write := ⟨"functions", "/lib/app/main.js".toList, "write"⟩

def appChild : AgentRunRecord :=
  childOf libraryRecord (spawnWith [] (some [writeRoot "/lib/app"])) "child"

theorem appChild_grants : Grants appChild.executorConfig appWrite := by
  refine ⟨_, rfl, _, mem_cons_self, ?_⟩
  decide +kernel

theorem app_child_narrows :
    Grants appChild.executorConfig appWrite ∧ Grants libraryRecord.executorConfig appWrite :=
  ⟨appChild_grants, (delegation_narrows_writes library_lineage).1 libraryRecord mem_cons_self rfl
    appWrite appChild_grants⟩

/-- A child that may only read. -/
def reader : AgentRunRecord := childOf plainRecord (spawnWith ["read"] none) "child"

def readerChild (tools : List String) : AgentRunRecord :=
  childOf reader (spawnWith tools none) "grandchild"

/-- The reader's own child may write, whether it lists no tool or that one. -/
theorem grandchild_calls_any_tool :
    (∀ tools ∈ [[], ["write"]],
      AdmitsTool (readerChild tools) "write" ∧ ¬AdmitsTool reader "write") ∧ ¬NeverWidens := by
  have widens : ∀ tools ∈ [[], ["write"]],
      AdmitsTool (readerChild tools) "write" ∧ ¬AdmitsTool reader "write" := by
    simp only [admitsTool_iff]
    decide +kernel
  refine ⟨widens, fun narrows => ?_⟩
  have child : Lineage (fun _ => True) reader [plainRecord] :=
    (Lineage.root plainRecord).childOf (spawnWith ["read"] none) trivial "child" rfl
  have lineage : Lineage (fun _ => True) (readerChild ["write"]) [reader, plainRecord] :=
    child.childOf (spawnWith ["write"] none) trivial "grandchild" rfl
  have listed := widens ["write"] (by simp)
  exact listed.2 ((narrows _ _ lineage reader mem_cons_self rfl).1 "write" listed.1)

end RaisinDB.Agents
