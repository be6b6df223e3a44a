import RaisinDB.Agents.Authority

/-!
# Working roots

A request names paths inside its working roots.  A path is normalized before it is compared, a
relative one stands under the first root, and an operation on it has to be granted by a root that
the path lies in.  A grant narrows the roots: each of them has to lie in a granted root, and keeps
the operations that this one grants.
-/

namespace RaisinDB.NodeDev

open List RaisinDB.Foundation
open RaisinDB.Agents (normalizeFrom isWithin isWithin_pathText isWithin_of_append isWhiteSpace)

inductive OpKind where
  | read
  | create
  | update
  | delete
  | move
  | copy
  deriving DecidableEq

namespace OpKind

def all : List OpKind := [read, create, update, delete, move, copy]

theorem mem_all (op : OpKind) : op ∈ all := by cases op <;> decide

def name : OpKind → String
  | read => "Read"
  | create => "Create"
  | update => "Update"
  | delete => "Delete"
  | move => "Move"
  | copy => "Copy"

end OpKind

inductive NodeDevError where
  | invalid (message : String)
  | escape (message : String)
  | forbidden (message : String)
  deriving DecidableEq

structure WorkRoot where
  workspace : String
  path : List Char
  ops : Option (List OpKind)
  deriving DecidableEq

/-- Without a list of operations a root allows them all. -/
def WorkRoot.allows (root : WorkRoot) (op : OpKind) : Bool :=
  root.ops.all fun ops => ops.contains op

/-! ## Normal paths -/

/-- None when `..` climbs above the root. -/
def normalize (path : List Char) : Option (List Char) :=
  (normalizeFrom [] (path.splitOn '/')).map (pathText '/')

def join (parent name : List Char) : List Char :=
  if parent = ['/'] then '/' :: name else trimEnd '/' parent ++ '/' :: name

/-- Names of nodes, none of them empty, `.` or `..`. -/
def Names (names : List (List Char)) : Prop :=
  Segments '/' names ∧ ['.'] ∉ names ∧ ['.', '.'] ∉ names

/-- The text of an absolute path without empty, `.` or `..` segments. -/
def Normal (path : List Char) : Prop := ∃ names, Names names ∧ path = pathText '/' names

theorem normalizeFrom_names {segments : List (List Char)} (plain : ∀ segment ∈ segments,
    '/' ∉ segment) {taken names : List (List Char)} (start : Names taken)
    (normal : normalizeFrom taken segments = some names) : Names names := by
  induction segments generalizing taken with
  | nil =>
    obtain rfl := Option.some.inj normal
    obtain ⟨segments, dot, dots⟩ := start
    exact ⟨fun segment mem => segments segment (mem_reverse.mp mem), by simpa using dot,
      by simpa using dots⟩
  | cons segment rest ih =>
    have later := fun other mem => plain other (mem_cons_of_mem segment mem)
    rw [normalizeFrom] at normal
    by_cases skipped : segment = [] ∨ segment = ['.']
    · rw [if_pos skipped] at normal
      exact ih later start normal
    rw [if_neg skipped] at normal
    by_cases climbs : segment = ['.', '.']
    · rw [if_pos climbs] at normal
      split_ifs at normal
      refine ih later ?_ normal
      obtain ⟨segments, dot, dots⟩ := start
      exact ⟨fun other mem => segments other (mem_of_mem_tail mem),
        fun mem => dot (mem_of_mem_tail mem), fun mem => dots (mem_of_mem_tail mem)⟩
    · rw [if_neg climbs] at normal
      obtain ⟨some, named⟩ := not_or.mp skipped
      obtain ⟨segments, dot, dots⟩ := start
      refine ih later ⟨?_, ?_, ?_⟩ normal
      · intro other mem
        rcases mem_cons.mp mem with rfl | old
        · exact ⟨some, plain _ mem_cons_self⟩
        · exact segments other old
      · exact not_mem_cons_of_ne_of_not_mem (Ne.symm named) dot
      · exact not_mem_cons_of_ne_of_not_mem (Ne.symm climbs) dots

theorem normal_normalize {path normal : List Char} (normalized : normalize path = some normal) :
    Normal normal := by
  obtain ⟨names, taken, rfl⟩ := Option.map_eq_some_iff.mp normalized
  refine ⟨names, normalizeFrom_names (fun _ mem => not_mem_of_mem_splitOn mem) ?_ taken, rfl⟩
  exact ⟨fun _ mem => (nomatch mem), not_mem_nil, not_mem_nil⟩

theorem pathText_inj {left right : List (List Char)} (leftSegments : Segments '/' left)
    (rightSegments : Segments '/' right) (same : pathText '/' left = pathText '/' right) :
    left = right := by
  rw [← segmentsOf_pathText leftSegments, same, segmentsOf_pathText rightSegments]

/-- A normal path is within another one exactly when its names begin with the other's. -/
theorem isWithin_iff_starts {names root : List (List Char)} (segments : Segments '/' names)
    (rootSegments : Segments '/' root) :
    isWithin (pathText '/' names) (pathText '/' root) ↔ root <+: names := by
  rw [isWithin_pathText rootSegments]
  constructor
  · rintro (rfl | same | starts)
    · exact nil_prefix
    · rcases eq_or_ne root [] with rfl | some
      · exact nil_prefix
      · rw [← pathText_of_ne some] at same
        exact (pathText_inj segments rootSegments same) ▸ prefix_rfl
    · rcases eq_or_ne names [] with rfl | some
      · have short := starts.length_le
        cases root with
        | nil => exact nil_prefix
        | cons segment rest => simp [pathText] at short
      · rw [pathText_of_ne some] at starts
        obtain ⟨front, rest, rfl, -, same⟩ := (append_sep_prefix_below segments).mp starts
        rcases eq_or_ne root [] with rfl | someRoot
        · exact nil_prefix
        · have someFront : front ≠ [] := by
            rintro rfl
            cases root with
            | nil => exact someRoot rfl
            | cons segment rest => cases same
          rw [← pathText_of_ne someRoot, ← pathText_of_ne someFront] at same
          exact pathText_inj rootSegments segments.left same ▸ prefix_append _ _
  · rintro ⟨rest, rfl⟩
    cases rest with
    | nil =>
      rcases eq_or_ne root [] with rfl | some
      · exact .inl rfl
      · exact .inr (.inl (by rw [append_nil, pathText_of_ne some]))
    | cons segment rest =>
      refine .inr (.inr ?_)
      rw [pathText_of_ne (by simp)]
      exact (append_sep_prefix_below segments).mpr ⟨root, segment :: rest, rfl, by simp, rfl⟩

/-- Of two normal paths that some path is within, one is within the other. -/
theorem isWithin_comparable {path : List Char} {left right : List (List Char)}
    (leftSegments : Segments '/' left) (rightSegments : Segments '/' right)
    (inLeft : isWithin path (pathText '/' left)) (inRight : isWithin path (pathText '/' right)) :
    left <+: right ∨ right <+: left := by
  rcases (isWithin_pathText leftSegments path).mp inLeft with rfl | rfl | startsLeft
  · exact .inl nil_prefix
  · rcases eq_or_ne left [] with rfl | some
    · exact .inl nil_prefix
    · rw [← pathText_of_ne some] at inRight
      exact .inr ((isWithin_iff_starts leftSegments rightSegments).mp inRight)
  rcases (isWithin_pathText rightSegments path).mp inRight with rfl | rfl | startsRight
  · exact .inr nil_prefix
  · rcases eq_or_ne right [] with rfl | some
    · exact .inr nil_prefix
    · rw [← pathText_of_ne some] at inLeft
      exact .inl ((isWithin_iff_starts rightSegments leftSegments).mp inLeft)
  -- both texts end in a separator, and one is the beginning of the other
  have shorter : ∀ {inner outer : List (List Char)}, Segments '/' inner → Segments '/' outer →
      below '/' inner ++ ['/'] <+: below '/' outer ++ ['/'] → inner <+: outer := by
    intro inner outer innerSegments outerSegments starts
    rcases prefix_concat_iff.mp starts with same | inside
    · have texts := append_cancel_right same
      have names := congrArg (segmentsOf '/') texts
      rw [segmentsOf_below innerSegments, segmentsOf_below outerSegments] at names
      exact names ▸ prefix_rfl
    · obtain ⟨front, rest, rfl, -, same⟩ := (append_sep_prefix_below outerSegments).mp inside
      have names := congrArg (segmentsOf '/') same
      rw [segmentsOf_below innerSegments, segmentsOf_below outerSegments.left] at names
      exact names ▸ prefix_append _ _
  rcases prefix_or_prefix_of_prefix startsLeft startsRight with less | more
  · exact .inl (shorter leftSegments rightSegments less)
  · exact .inr (shorter rightSegments leftSegments more)

/-! ## Roots -/

/-- The working roots of a request. -/
structure Roots where
  roots : List WorkRoot
  some : roots ≠ []
  normal : ∀ root ∈ roots, Normal root.path

def normalizeRoot (root : WorkRoot) : Except NodeDevError WorkRoot :=
  if root.workspace.toList.all isWhiteSpace then .error (.invalid "a root needs a workspace")
  else
    match normalize root.path with
    | none => .error (.escape ("root '" ++ String.ofList root.path ++ "' climbs above /"))
    | some path => .ok { root with path }

def normalizeRoots : List WorkRoot → Except NodeDevError (List WorkRoot)
  | [] => .ok []
  | root :: rest => do
      let root ← normalizeRoot root
      let rest ← normalizeRoots rest
      .ok (root :: rest)

theorem normalizeRoot_normal {root normalized : WorkRoot}
    (ok : normalizeRoot root = .ok normalized) : Normal normalized.path := by
  unfold normalizeRoot at ok
  split_ifs at ok
  cases path : normalize root.path with
  | none => rw [path] at ok; cases ok
  | some normal =>
    rw [path] at ok
    rw [← Except.ok.inj ok]
    exact normal_normalize path

theorem normalizeRoots_normal {given roots : List WorkRoot}
    (ok : normalizeRoots given = .ok roots) :
    roots.length = given.length ∧ ∀ root ∈ roots, Normal root.path := by
  induction given generalizing roots with
  | nil => rw [← Except.ok.inj ok]; exact ⟨rfl, fun _ mem => (nomatch mem)⟩
  | cons root rest ih =>
    rw [normalizeRoots] at ok
    cases first : normalizeRoot root with
    | error refused => rw [first] at ok; cases ok
    | ok normalized =>
      cases later : normalizeRoots rest with
      | error refused => rw [first, later] at ok; cases ok
      | ok others =>
        rw [first, later] at ok
        obtain ⟨length, normal⟩ := ih later
        rw [← Except.ok.inj ok]
        refine ⟨by rw [length_cons, length_cons, length], ?_⟩
        intro other mem
        rcases mem_cons.mp mem with rfl | old
        · exact normalizeRoot_normal first
        · exact normal other old

namespace Roots

def new (given : List WorkRoot) : Except NodeDevError Roots :=
  if empty : given = [] then .error (.invalid "at least one root is required")
  else
    match made : normalizeRoots given with
    | .error refused => .error refused
    | .ok roots =>
        .ok ⟨roots, fun none => empty (length_eq_zero_iff.mp
          ((normalizeRoots_normal made).1.symm.trans (congrArg length none))),
          (normalizeRoots_normal made).2⟩

def first (roots : Roots) : WorkRoot := roots.roots.head roots.some

/-- A path as a request names it, absolute or under the first root, in some workspace. -/
def absolute (roots : Roots) (workspace : Option String) (path : List Char) :
    Except NodeDevError (List Char) :=
  let escapes := NodeDevError.escape ("'" ++ String.ofList path ++ "' escapes its root")
  if path.head? = Option.some '/' then
    match normalize path with
    | Option.some normal => .ok normal
    | none => .error escapes
  else if workspace.any fun name => name ≠ roots.first.workspace then
    .error (.invalid ("a relative path resolves against the first root; " ++
      "name an absolute path for another workspace"))
  else
    match (normalize (join roots.first.path path)).filter fun normal =>
        isWithin normal roots.first.path with
    | Option.some normal => .ok normal
    | none => .error escapes

def resolve (roots : Roots) (workspace : Option String) (path : List Char) :
    Except NodeDevError (String × List Char) := do
  let name := workspace.getD roots.first.workspace
  let normal ← roots.absolute workspace path
  if roots.roots.any fun root => root.workspace == name && isWithin normal root.path then
    .ok (name, normal)
  else
    .error (.escape (name ++ ":" ++ String.ofList normal ++ " is outside the working roots"))

/-- The roots that a path lies in. -/
def inside (roots : Roots) (workspace : String) (path : List Char) : List WorkRoot :=
  roots.roots.filter fun root => root.workspace == workspace && isWithin path root.path

def check (roots : Roots) (workspace : String) (path : List Char) (op : OpKind) :
    Except NodeDevError Unit :=
  if (roots.inside workspace path).isEmpty then
    .error (.escape (workspace ++ ":" ++ String.ofList path ++ " is outside the working roots"))
  else if (roots.inside workspace path).any fun root => root.allows op then .ok ()
  else
    .error (.forbidden
      (op.name ++ " is not granted at " ++ workspace ++ ":" ++ String.ofList path))

/-- The granted root that decides what a root keeps: the first one that it lies in. -/
def firstAround (grant : Roots) (root : WorkRoot) : Option WorkRoot :=
  grant.roots.find? fun granted =>
    granted.workspace == root.workspace && isWithin root.path granted.path

def keepGranted (root granted : WorkRoot) : WorkRoot :=
  { root with ops := Option.some (OpKind.all.filter fun op => root.allows op && granted.allows op) }

def narrowRoots (grant : Roots) : List WorkRoot → Except NodeDevError (List WorkRoot)
  | [] => .ok []
  | root :: rest =>
      match grant.firstAround root with
      | none => .error (.forbidden ("root " ++ root.workspace ++ ":" ++ String.ofList root.path ++
          " is outside the run's grant"))
      | Option.some granted => do
          let others ← narrowRoots grant rest
          .ok (keepGranted root granted :: others)

/-- What narrowing keeps, root by root. -/
theorem mem_narrowRoots {grant : Roots} {roots kept : List WorkRoot}
    (ok : narrowRoots grant roots = .ok kept) (narrowed : WorkRoot) :
    narrowed ∈ kept ↔ ∃ root ∈ roots, ∃ granted, grant.firstAround root = Option.some granted ∧
      narrowed = keepGranted root granted := by
  induction roots generalizing kept with
  | nil => rw [← Except.ok.inj ok]; simp
  | cons root rest ih =>
    rw [narrowRoots] at ok
    cases around : grant.firstAround root with
    | none => rw [around] at ok; cases ok
    | some granted =>
      cases later : narrowRoots grant rest with
      | error refused => rw [around, later] at ok; cases ok
      | ok others =>
        rw [around, later] at ok
        rw [← Except.ok.inj ok, mem_cons, ih later]
        simp [around]

theorem narrowRoots_normal {grant : Roots} {roots kept : List WorkRoot}
    (ok : narrowRoots grant roots = .ok kept) (some : roots ≠ [])
    (normal : ∀ root ∈ roots, Normal root.path) :
    kept ≠ [] ∧ ∀ root ∈ kept, Normal root.path := by
  constructor
  · cases roots with
    | nil => exact absurd rfl some
    | cons root rest =>
      cases around : grant.firstAround root with
      | none => rw [narrowRoots, around] at ok; cases ok
      | some granted =>
        exact ne_nil_of_mem ((mem_narrowRoots ok _).mpr ⟨root, mem_cons_self, granted, around, rfl⟩)
  · intro narrowed mem
    obtain ⟨root, rootMem, granted, -, rfl⟩ := (mem_narrowRoots ok narrowed).mp mem
    exact normal root rootMem

/-- Narrow the roots by a grant that a request cannot widen. -/
def narrowedBy (roots : Roots) (grant : List WorkRoot) : Except NodeDevError Roots :=
  match Roots.new grant with
  | .error refused => .error refused
  | .ok grant =>
      match made : narrowRoots grant roots.roots with
      | .error refused => .error refused
      | .ok kept =>
          .ok ⟨kept, (narrowRoots_normal made roots.some roots.normal).1,
            (narrowRoots_normal made roots.some roots.normal).2⟩

/-- One grant after the other. -/
def narrowedByAll (roots : Roots) : List (List WorkRoot) → Except NodeDevError Roots
  | [] => .ok roots
  | grant :: rest => do
      let narrowed ← roots.narrowedBy grant
      narrowed.narrowedByAll rest

/-! ## What roots allow -/

/-- An operation is granted at a path. -/
def Allows (roots : Roots) (workspace : String) (path : List Char) (op : OpKind) : Prop :=
  ∃ root ∈ roots.roots, root.workspace = workspace ∧ isWithin path root.path ∧ root.allows op

theorem check_iff (roots : Roots) (workspace : String) (path : List Char) (op : OpKind) :
    roots.check workspace path op = .ok () ↔ roots.Allows workspace path op := by
  have allowed : ((roots.inside workspace path).any fun root => root.allows op) = true ↔
      roots.Allows workspace path op := by
    simp [inside, Allows, and_assoc]
  unfold check
  by_cases none : (roots.inside workspace path).isEmpty = true
  · rw [if_pos none]
    have nothing := List.isEmpty_iff.mp none
    rw [nothing] at allowed
    simp only [reduceCtorEq, false_iff]
    exact fun allows => absurd (allowed.mpr allows) (by simp)
  · rw [if_neg none]
    by_cases some : ((roots.inside workspace path).any fun root => root.allows op) = true
    · rw [if_pos some]
      exact iff_of_true rfl (allowed.mp some)
    · rw [if_neg some]
      exact iff_of_false (by simp) (fun allows => some (allowed.mpr allows))

theorem normal_absolute {roots : Roots} {workspace : Option String} {path normal : List Char}
    (ok : roots.absolute workspace path = .ok normal) : Normal normal := by
  unfold absolute at ok
  simp only at ok
  split_ifs at ok
  · cases found : normalize path with
    | none => rw [found] at ok; cases ok
    | some other =>
      rw [found] at ok
      rw [← Except.ok.inj ok]
      exact normal_normalize found
  · cases found : (normalize (join roots.first.path path)).filter fun normal =>
        isWithin normal roots.first.path with
    | none => rw [found] at ok; cases ok
    | some other =>
      rw [found] at ok
      rw [← Except.ok.inj ok]
      exact normal_normalize (Option.filter_eq_some_iff.mp found).1

theorem normal_resolve {roots : Roots} {workspace : Option String} {path normal : List Char}
    {name : String} (ok : roots.resolve workspace path = .ok (name, normal)) : Normal normal := by
  unfold resolve at ok
  obtain ⟨other, found, ok⟩ := ok_of_bind ok
  split_ifs at ok
  obtain ⟨-, rfl⟩ := Prod.mk.inj (Except.ok.inj ok)
  exact normal_absolute found

/-- What is resolved and checked lies at or below a root of its workspace that allows the
operation, name by name. -/
def Confined (roots : Roots) : Prop :=
  ∀ workspace path op name normal, roots.resolve workspace path = .ok (name, normal) →
    roots.check name normal op = .ok () →
      ∃ names, Names names ∧ normal = pathText '/' names ∧
        ∃ root ∈ roots.roots, root.workspace = name ∧ root.allows op ∧
          ∃ above rest, Names above ∧ root.path = pathText '/' above ∧ names = above ++ rest

theorem confined (roots : Roots) : roots.Confined := by
  intro workspace path op name normal resolved checked
  obtain ⟨names, named, rfl⟩ := normal_resolve resolved
  obtain ⟨root, mem, same, within, allows⟩ := (roots.check_iff name _ op).mp checked
  obtain ⟨above, aboveNamed, rootPath⟩ := roots.normal root mem
  rw [rootPath, isWithin_iff_starts named.1 aboveNamed.1] at within
  obtain ⟨rest, rfl⟩ := within
  exact ⟨_, named, rfl, root, mem, same, allows, above, rest, aboveNamed, rootPath, rfl⟩

/-! ## What a grant leaves -/

theorem keepGranted_allows (root granted : WorkRoot) (op : OpKind) :
    (keepGranted root granted).allows op = (root.allows op && granted.allows op) := by
  simp [keepGranted, WorkRoot.allows, OpKind.mem_all]

theorem narrowedBy_ok {roots narrowed : Roots} {given : List WorkRoot}
    (ok : roots.narrowedBy given = .ok narrowed) :
    ∃ grant, Roots.new given = .ok grant ∧
      narrowRoots grant roots.roots = .ok narrowed.roots := by
  unfold narrowedBy at ok
  split at ok
  · cases ok
  · rename_i grant made
    split at ok
    · cases ok
    · rename_i kept keeps
      rw [← Except.ok.inj ok]
      exact ⟨grant, made, keeps⟩

/-- The narrowed roots allow what a root allows together with the granted root it keeps to. -/
theorem allows_narrowed_iff {roots narrowed grant : Roots}
    (ok : narrowRoots grant roots.roots = .ok narrowed.roots) (workspace : String)
    (path : List Char) (op : OpKind) :
    narrowed.Allows workspace path op ↔
      ∃ root ∈ roots.roots, root.workspace = workspace ∧ isWithin path root.path ∧
        root.allows op ∧ ∃ granted, grant.firstAround root = Option.some granted ∧
          granted.allows op := by
  unfold Allows
  constructor
  · rintro ⟨kept, mem, same, within, allows⟩
    obtain ⟨root, rootMem, granted, around, rfl⟩ := (mem_narrowRoots ok kept).mp mem
    rw [keepGranted_allows, Bool.and_eq_true] at allows
    exact ⟨root, rootMem, same, within, allows.1, granted, around, allows.2⟩
  · rintro ⟨root, rootMem, same, within, allows, granted, around, grants⟩
    refine ⟨keepGranted root granted, (mem_narrowRoots ok _).mpr
      ⟨root, rootMem, granted, around, rfl⟩, same, within, ?_⟩
    rw [keepGranted_allows, allows, grants]
    rfl

theorem firstAround_some {grant : Roots} {root granted : WorkRoot}
    (around : grant.firstAround root = Option.some granted) :
    granted ∈ grant.roots ∧ granted.workspace = root.workspace ∧
      isWithin root.path granted.path := by
  have found := find?_some around
  rw [Bool.and_eq_true, beq_iff_eq] at found
  exact ⟨mem_of_find?_eq_some around, found.1, found.2⟩

/-- A path within a path that is within a third one. -/
theorem isWithin_trans {path inner outer : List Char} (innerNormal : Normal inner)
    (outerNormal : Normal outer) (within : isWithin path inner) (inside : isWithin inner outer) :
    isWithin path outer := by
  obtain ⟨names, named, rfl⟩ := innerNormal
  obtain ⟨above, aboveNamed, rfl⟩ := outerNormal
  obtain ⟨rest, rfl⟩ := (isWithin_iff_starts named.1 aboveNamed.1).mp inside
  exact isWithin_of_append named.1 within

theorem isWithin_self {path : List Char} (normal : Normal path) : isWithin path path := by
  obtain ⟨names, named, rfl⟩ := normal
  exact (isWithin_iff_starts named.1 named.1).mpr prefix_rfl

/-- Nothing is allowed that the roots or the grant refuse. -/
theorem allows_of_narrowed {roots narrowed grant : Roots}
    (ok : narrowRoots grant roots.roots = .ok narrowed.roots) {workspace : String}
    {path : List Char} {op : OpKind} (allows : narrowed.Allows workspace path op) :
    roots.Allows workspace path op ∧ grant.Allows workspace path op := by
  obtain ⟨root, mem, same, within, allowed, granted, around, grants⟩ :=
    (allows_narrowed_iff ok workspace path op).mp allows
  obtain ⟨grantedMem, sameGranted, inside⟩ := firstAround_some around
  refine ⟨⟨root, mem, same, within, allowed⟩, granted, grantedMem, sameGranted.trans same, ?_,
    grants⟩
  exact isWithin_trans (roots.normal root mem) (grant.normal granted grantedMem) within inside

/-- Where a root and a granted root of one workspace overlap and both allow an operation, some
root around the inner one allows it together with the granted root it keeps to. -/
def Overlaps (roots grant : Roots) : Prop :=
  ∀ root ∈ roots.roots, ∀ granted ∈ grant.roots, granted.workspace = root.workspace →
    ∀ op, root.allows op → granted.allows op → ∀ inner,
      (inner = root.path ∧ isWithin root.path granted.path ∨
        inner = granted.path ∧ isWithin granted.path root.path) →
      ∃ other ∈ roots.roots, other.workspace = root.workspace ∧ isWithin inner other.path ∧
        other.allows op ∧ ∃ around, grant.firstAround other = Option.some around ∧
          around.allows op

theorem narrowed_exact_iff {roots narrowed grant : Roots}
    (ok : narrowRoots grant roots.roots = .ok narrowed.roots) :
    (∀ workspace path op, narrowed.Allows workspace path op ↔
      roots.Allows workspace path op ∧ grant.Allows workspace path op) ↔
      roots.Overlaps grant := by
  constructor
  · intro exact root mem granted grantedMem same op allows grants inner overlap
    have innerWithin : isWithin inner root.path ∧ isWithin inner granted.path := by
      rcases overlap with ⟨rfl, inside⟩ | ⟨rfl, inside⟩
      · exact ⟨isWithin_self (roots.normal root mem), inside⟩
      · exact ⟨inside, isWithin_self (grant.normal granted grantedMem)⟩
    exact (allows_narrowed_iff ok root.workspace inner op).mp
      ((exact root.workspace inner op).mpr
        ⟨⟨root, mem, rfl, innerWithin.1, allows⟩, granted, grantedMem, same, innerWithin.2, grants⟩)
  · intro overlaps workspace path op
    refine ⟨allows_of_narrowed ok, ?_⟩
    rintro ⟨⟨root, mem, rfl, within, allows⟩, granted, grantedMem, same, withinGranted, grants⟩
    have rootNormal := roots.normal root mem
    have grantedNormal := grant.normal granted grantedMem
    -- the path lies in both, so one of them lies in the other
    have overlap : ∃ inner, Normal inner ∧ isWithin path inner ∧
        (inner = root.path ∧ isWithin root.path granted.path ∨
          inner = granted.path ∧ isWithin granted.path root.path) := by
      obtain ⟨names, named, rootPath⟩ := rootNormal
      obtain ⟨above, aboveNamed, grantedPath⟩ := grantedNormal
      rw [rootPath] at within
      rw [grantedPath] at withinGranted
      rw [rootPath, grantedPath, isWithin_iff_starts named.1 aboveNamed.1,
        isWithin_iff_starts aboveNamed.1 named.1]
      rcases isWithin_comparable named.1 aboveNamed.1 within withinGranted with less | more
      · exact ⟨_, ⟨above, aboveNamed, rfl⟩, withinGranted, .inr ⟨rfl, less⟩⟩
      · exact ⟨_, ⟨names, named, rfl⟩, within, .inl ⟨rfl, more⟩⟩
    obtain ⟨inner, innerNormal, pathWithin, overlap⟩ := overlap
    obtain ⟨other, otherMem, otherSame, innerWithin, otherAllows, around⟩ :=
      overlaps root mem granted grantedMem same op allows grants inner overlap
    exact (allows_narrowed_iff ok root.workspace path op).mpr ⟨other, otherMem, otherSame,
      isWithin_trans innerNormal (roots.normal other otherMem) pathWithin innerWithin,
      otherAllows, around⟩

/-! ## A chain of grants -/

/-- A list of grants allows an operation at a path. -/
def GrantAllows (given : List WorkRoot) (workspace : String) (path : List Char) (op : OpKind) :
    Prop :=
  ∃ grant, Roots.new given = .ok grant ∧ grant.Allows workspace path op

theorem grantAllows_iff {given : List WorkRoot} {grant : Roots} (made : Roots.new given = .ok grant)
    {workspace : String} {path : List Char} {op : OpKind} :
    GrantAllows given workspace path op ↔ grant.Allows workspace path op := by
  constructor
  · rintro ⟨other, madeOther, allows⟩
    exact Except.ok.inj (madeOther.symm.trans made) ▸ allows
  · exact fun allows => ⟨grant, made, allows⟩

/-- However far the chain is followed, the roots cannot be escaped, and they allow what the first
roots and every grant allow. -/
structure Holds (roots : Roots) (grants : List (List WorkRoot)) : Prop where
  confined : ∀ done narrowed, done <+: grants → roots.narrowedByAll done = .ok narrowed →
    narrowed.Confined
  exact : ∀ done narrowed, done <+: grants → roots.narrowedByAll done = .ok narrowed →
    ∀ workspace path op, narrowed.Allows workspace path op ↔
      roots.Allows workspace path op ∧ ∀ given ∈ done, GrantAllows given workspace path op

/-- At each grant that narrows the roots, what overlaps is decided alike. -/
def AllOverlap (roots : Roots) (grants : List (List WorkRoot)) : Prop :=
  ∀ done given before narrowed grant, done ++ [given] <+: grants →
    roots.narrowedByAll done = .ok before → before.narrowedBy given = .ok narrowed →
      Roots.new given = .ok grant → before.Overlaps grant

theorem narrowedByAll_append (roots : Roots) (done : List (List WorkRoot))
    (given : List WorkRoot) :
    roots.narrowedByAll (done ++ [given]) =
      (roots.narrowedByAll done).bind fun before => before.narrowedBy given := by
  induction done generalizing roots with
  | nil =>
    simp only [nil_append, narrowedByAll, Except.bind]
    cases roots.narrowedBy given <;> rfl
  | cons grant rest ih =>
    rw [cons_append, narrowedByAll, narrowedByAll]
    cases roots.narrowedBy grant with
    | error refused => rfl
    | ok narrowed => exact ih narrowed

/-- Working roots cannot be escaped, and a chain of grants leaves exactly what every grant
allows if and only if the overlaps of each grant with the roots are decided alike. -/
theorem holds_iff (roots : Roots) (grants : List (List WorkRoot)) :
    roots.Holds grants ↔ roots.AllOverlap grants := by
  constructor
  · intro holds done given before narrowed grant starts reached narrows made
    obtain ⟨grant', made', ok⟩ := narrowedBy_ok narrows
    obtain rfl := Except.ok.inj (made.symm.trans made')
    refine (narrowed_exact_iff ok).mp fun workspace path op => ?_
    have reachedAll : roots.narrowedByAll (done ++ [given]) = .ok narrowed := by
      rw [narrowedByAll_append, reached]
      exact narrows
    rw [holds.exact _ _ starts reachedAll,
      holds.exact _ _ ((prefix_append done [given]).trans starts) reached]
    simp only [mem_append, mem_singleton, or_imp, forall_and, forall_eq, grantAllows_iff made,
      and_assoc]
  · intro overlap
    refine ⟨fun _ narrowed _ _ => narrowed.confined, ?_⟩
    intro done
    induction done using reverseRecOn with
    | nil =>
        intro narrowed starts reached workspace path op
        rw [← Except.ok.inj reached]
        simp
    | append_singleton done given ih =>
        intro narrowed starts reachedAll workspace path op
        rw [narrowedByAll_append] at reachedAll
        cases reached : roots.narrowedByAll done with
        | error refused => rw [reached] at reachedAll; cases reachedAll
        | ok before =>
            rw [reached] at reachedAll
            obtain ⟨grant, made, ok⟩ := narrowedBy_ok reachedAll
            have overlaps := overlap done given before narrowed grant starts reached reachedAll made
            have step := (narrowed_exact_iff ok).mpr overlaps workspace path op
            have earlier := ih before ((prefix_append done [given]).trans starts) reached
              workspace path op
            rw [step, earlier]
            simp only [mem_append, mem_singleton, or_imp, forall_and, forall_eq,
              grantAllows_iff made, and_assoc]

/-! ## Two overlapping grants -/

def buildPath : List Char := "/libs/build".toList

/-- May be read, and below `/libs/build` may be changed in any way. -/
def overlappingGrant : List WorkRoot :=
  [⟨"apps", ['/'], Option.some [.read]⟩, ⟨"apps", buildPath, none⟩]

theorem normal_buildPath : Normal buildPath :=
  normal_normalize (show normalize buildPath = Option.some buildPath by decide +kernel)

def buildRoots : Roots where
  roots := [⟨"apps", buildPath, none⟩]
  some := by simp
  normal := by
    rintro root mem
    rw [mem_singleton.mp mem]
    exact normal_buildPath

/-- The first grant hides the second one, though that allows an update and so does the root. -/
theorem first_grant_hides_second : ¬buildRoots.Holds [overlappingGrant] := by
  intro holds
  have made : (Roots.new overlappingGrant).map Roots.roots = .ok overlappingGrant := by
    decide +kernel
  have narrow : (buildRoots.narrowedByAll [overlappingGrant]).map Roots.roots =
      .ok [⟨"apps", buildPath, Option.some [.read]⟩] := by
    decide +kernel
  cases reached : buildRoots.narrowedByAll [overlappingGrant] with
  | error refused => rw [reached] at narrow; cases narrow
  | ok narrowed =>
      cases granted : Roots.new overlappingGrant with
      | error refused => rw [granted] at made; cases made
      | ok grant =>
          rw [reached] at narrow
          rw [granted] at made
          have narrowedRoots := Except.ok.inj narrow
          have grantRoots := Except.ok.inj made
          have within : isWithin buildPath buildPath := isWithin_self normal_buildPath
          have allowed := (holds.exact [overlappingGrant] narrowed prefix_rfl reached "apps"
            buildPath .update).mpr
            ⟨⟨_, mem_singleton_self _, rfl, within, rfl⟩, fun given mem => by
              rw [mem_singleton.mp mem]
              refine ⟨grant, granted, ⟨"apps", buildPath, none⟩, ?_, rfl, within, rfl⟩
              rw [grantRoots]
              exact mem_cons_of_mem _ mem_cons_self⟩
          obtain ⟨root, mem, -, -, allows⟩ := allowed
          rw [narrowedRoots] at mem
          rw [mem_singleton.mp mem] at allows
          cases allows

end Roots

end RaisinDB.NodeDev
