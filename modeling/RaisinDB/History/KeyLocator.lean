import RaisinDB.Branches.BranchCopy

/-!
# The versions of an entity

Garbage collection looks at the keys of a column family without knowing what they
name.  A table tells it which keys hold a revision and where: a tag at a fixed
segment gives the shape, and the revision is found from the end of the key.  The
bytes before the revision and those behind it name the entity.
-/

namespace RaisinDB.History

open RaisinDB.Branches RaisinDB.Foundation RaisinDB.Oplog RaisinDB.Replication List

/-! ## The table -/

inductive Locator where
  | tail
  | beforeTrailing (count : Nat)
  deriving DecidableEq

structure TagLayout where
  tagIndex : Nat
  /-- Any value, where there is none. -/
  tag : Option String
  locator : Locator
  deriving DecidableEq

/-- Families that a branch copy knows, and the revisions of a repository. -/
inductive GcFamily where
  | branch (cf : ColumnFamily)
  | revisions
  deriving DecidableEq

structure GcTarget where
  cf : GcFamily
  branchScoped : Bool
  layouts : List TagLayout
  dropOrphanTombstones : Bool
  deriving DecidableEq

def tagged (tagIndex : Nat) (tag : String) (locator : Locator) : TagLayout :=
  ⟨tagIndex, some tag, locator⟩

def gcTargets : List GcTarget :=
  [⟨.branch .nodes, true, [tagged 4 "nodes" .tail], true⟩,
    ⟨.branch .pathIndex, true, [tagged 4 "path" .tail], true⟩,
    ⟨.branch .nodePath, true, [tagged 4 "node_path" .tail], true⟩,
    ⟨.branch .propertyIndex, true,
      [tagged 4 "prop" (.beforeTrailing 1), tagged 4 "prop_pub" (.beforeTrailing 1)], false⟩,
    ⟨.branch .referenceIndex, true,
      [tagged 4 "ref" .tail, tagged 4 "ref_pub" .tail, tagged 4 "ref_rev" .tail,
        tagged 4 "ref_rev_pub" .tail], false⟩,
    ⟨.branch .relationIndex, true,
      [tagged 4 "rel" (.beforeTrailing 1), tagged 4 "rel_rev" (.beforeTrailing 1),
        tagged 3 "rel_global" (.beforeTrailing 4)], false⟩,
    ⟨.branch .orderedChildren, true, [tagged 4 "ordered" (.beforeTrailing 1)], false⟩,
    ⟨.branch .translationData, true,
      [tagged 4 "translations" .tail, tagged 4 "trans_meta" .tail], false⟩,
    ⟨.branch .blockTranslations, true, [tagged 4 "block_trans" .tail], false⟩,
    ⟨.branch .spatialIndex, true, [tagged 4 "geo" (.beforeTrailing 1)], false⟩,
    ⟨.branch .compoundIndex, true,
      [tagged 4 "cidx" (.beforeTrailing 1), tagged 4 "cidx_pub" (.beforeTrailing 1)], false⟩,
    ⟨.branch .uniqueIndex, true, [tagged 4 "uniq" .tail], false⟩,
    ⟨.branch .localizedNameIndex, true,
      [tagged 4 "lname" .tail, tagged 4 "lname_of" .tail], false⟩,
    ⟨.branch .embeddings, true, [⟨4, none, .tail⟩], false⟩,
    ⟨.revisions, false, [tagged 2 "snapshots" .tail, tagged 2 "trans_snapshots" .tail], false⟩]

/-! ## Locating the revision -/

structure Located where
  scopeEnd : Nat
  revStart : Nat
  deriving DecidableEq

namespace Located

/-- The bytes before the revision and its separator. -/
def chunk (located : Located) (key : Key) : Key := key.take (located.revStart - 1)

/-- The bytes behind the revision, without a separator. -/
def tail (located : Located) (key : Key) : Key :=
  key.drop (min (located.revStart + 17) key.length)

def revision (located : Located) (key : Key) : List UInt8 :=
  (key.take (located.revStart + 16)).drop located.revStart

end Located

/-- The first separator from an offset on. -/
def nextSeparator (key : Key) (start : Nat) : Option Nat :=
  ((key.drop start).findIdx? (· == sep)).map (start + ·)

/-- The next separators from an offset on. -/
def leadingSeparators (key : Key) : Nat → Nat → Option (List Nat)
  | 0, _ => some []
  | count + 1, start => do
      let pos ← nextSeparator key start
      let others ← leadingSeparators key count (pos + 1)
      return pos :: others

/-- Where the part of the key ends that has the revision at its end. -/
def boundary (key : Key) : Locator → Option Nat
  | .tail => some key.length
  | .beforeTrailing count => (beforeTrailing count key).map length

/-- A layout is of another shape than the key, ends the search or gives the place. -/
inductive Tried where
  | otherShape
  | nothing
  | found (located : Located)
  deriving DecidableEq

def placeRevision (branchScoped : Bool) (key : Key) (locator : Locator) (seps : List Nat)
    (tagEnd : Nat) : Tried :=
  match boundary key locator with
  | none => .nothing
  | some bound =>
      if bound < 16 then .nothing
      else
        let revStart := bound - 16
        -- there is an entity between the tag and the revision
        if revStart ≤ tagEnd + 1 ∨ key[revStart - 1]? ≠ some sep then .otherShape
        else
          match seps[if branchScoped then 2 else 1]? with
          | none => .nothing
          | some scopeEnd =>
              if revStart ≤ scopeEnd then .otherShape else .found ⟨scopeEnd, revStart⟩

def tryLayout (branchScoped : Bool) (key : Key) (layout : TagLayout) : Tried :=
  match leadingSeparators key (layout.tagIndex + 1) 0 with
  | none => .otherShape
  | some seps =>
      let tagStart := if layout.tagIndex = 0 then 0 else seps.getD (layout.tagIndex - 1) 0 + 1
      let tagEnd := seps.getD layout.tagIndex 0
      if layout.tag.any fun tag => (key.take tagEnd).drop tagStart ≠ utf8Bytes tag then
        .otherShape
      else placeRevision branchScoped key layout.locator seps tagEnd

def locateIn (branchScoped : Bool) (key : Key) : List TagLayout → Option Located
  | [] => none
  | layout :: others =>
      match tryLayout branchScoped key layout with
      | .otherShape => locateIn branchScoped key others
      | .nothing => none
      | .found located => some located

/-- The layouts are tried in their order. -/
def locate (target : GcTarget) (key : Key) : Option Located :=
  locateIn target.branchScoped key target.layouts

/-- What the versions of an entity share. -/
def groupOf (target : GcTarget) (key : Key) : Option (Key × Key) :=
  (locate target key).map fun located => (located.chunk key, located.tail key)

/-! ## Segments -/

/-- Segments with a separator behind each. -/
def closed (segments : List (List UInt8)) : List UInt8 := segments.flatMap (· ++ [sep])

@[simp] theorem closed_nil : closed [] = [] := rfl

@[simp] theorem closed_cons (first : List UInt8) (others : List (List UInt8)) :
    closed (first :: others) = first ++ sep :: closed others := by
  simp [closed]

@[simp] theorem closed_append (first second : List (List UInt8)) :
    closed (first ++ second) = closed first ++ closed second := flatMap_append

theorem length_closed_pos {segments : List (List UInt8)} (nonempty : segments ≠ []) :
    0 < (closed segments).length := by
  cases segments with
  | nil => exact absurd rfl nonempty
  | cons first others => simp

/-- What is closed ends with a separator. -/
theorem closed_last {segments : List (List UInt8)} (nonempty : segments ≠ []) :
    ∃ before, closed segments = before ++ [sep] := by
  induction segments using reverseRecOn with
  | nil => exact absurd rfl nonempty
  | append_singleton segments last _ =>
    exact ⟨closed segments ++ last, by simp⟩

/-- Offsets of the separators behind segments that begin at an offset. -/
def separatorsOf (start : Nat) : List (List UInt8) → List Nat
  | [] => []
  | segment :: others =>
      (start + segment.length) :: separatorsOf (start + segment.length + 1) others

@[simp] theorem length_separatorsOf (start : Nat) (segments : List (List UInt8)) :
    (separatorsOf start segments).length = segments.length := by
  induction segments generalizing start with
  | nil => rfl
  | cons segment others ih => simp [separatorsOf, ih]

theorem separatorsOf_append (start : Nat) (first second : List (List UInt8)) :
    separatorsOf start (first ++ second) =
      separatorsOf start first ++ separatorsOf (start + (closed first).length) second := by
  induction first generalizing start with
  | nil => simp [separatorsOf]
  | cons segment others ih =>
    rw [cons_append, separatorsOf, ih, separatorsOf, closed_cons, cons_append]
    simp only [length_append, length_cons]
    congr 3
    omega

/-- Each separator lies within what its segments fill. -/
theorem separatorsOf_lt {start pos : Nat} {segments : List (List UInt8)}
    (mem : pos ∈ separatorsOf start segments) : pos < start + (closed segments).length := by
  induction segments generalizing start with
  | nil => simp [separatorsOf] at mem
  | cons segment others ih =>
    simp only [separatorsOf, mem_cons] at mem
    simp only [closed_cons, length_append, length_cons]
    rcases mem with rfl | later
    · omega
    · have := ih later
      omega

/-- The scope ends at the second or third of enough separators. -/
theorem exists_scopeEnd {segments : List (List UInt8)} (branchScoped : Bool)
    (enough : 3 ≤ segments.length) :
    ∃ scopeEnd, (separatorsOf 0 segments)[if branchScoped then 2 else 1]? = some scopeEnd ∧
      scopeEnd < (closed segments).length := by
  have within : (if branchScoped then 2 else 1) < (separatorsOf 0 segments).length := by
    rw [length_separatorsOf]
    split <;> omega
  have early := separatorsOf_lt (getElem_mem within)
  exact ⟨_, getElem?_eq_getElem within, by rwa [Nat.zero_add] at early⟩

theorem nextSeparator_append {segment : List UInt8} (free : sep ∉ segment)
    (before rest : List UInt8) :
    nextSeparator (before ++ (segment ++ sep :: rest)) before.length =
      some (before.length + segment.length) := by
  have first : (segment ++ sep :: rest).findIdx? (· == sep) = some segment.length := by
    rw [findIdx?_append]
    have none_before : segment.findIdx? (· == sep) = none := by
      rw [findIdx?_eq_none_iff]
      intro byte hbyte
      exact beq_eq_false_iff_ne.mpr fun same => free (same ▸ hbyte)
    rw [none_before]
    simp [findIdx?_cons]
  rw [nextSeparator, drop_left, first]
  rfl

theorem leadingSeparators_append {segments : List (List UInt8)}
    (free : ∀ segment ∈ segments, sep ∉ segment) (before rest : List UInt8) :
    leadingSeparators (before ++ (closed segments ++ rest)) segments.length before.length =
      some (separatorsOf before.length segments) := by
  induction segments generalizing before with
  | nil => rfl
  | cons segment others ih =>
    have here := nextSeparator_append (free segment mem_cons_self) before (closed others ++ rest)
    have there := ih (fun later hlater => free later (mem_cons_of_mem _ hlater))
      (before ++ (segment ++ [sep]))
    have split : before ++ (closed (segment :: others) ++ rest) =
        before ++ (segment ++ sep :: (closed others ++ rest)) := by simp
    have again : before ++ (segment ++ sep :: (closed others ++ rest)) =
        before ++ (segment ++ [sep]) ++ (closed others ++ rest) := by simp
    rw [length_cons, leadingSeparators, split, here, Option.bind_eq_bind, Option.bind_some, again]
    have length : before.length + segment.length + 1 = (before ++ (segment ++ [sep])).length := by
      simp [Nat.add_assoc]
    rw [length, there, separatorsOf, ← length]
    rfl

/-! ## One layout -/

section Layout

variable {branchScoped : Bool} {layout : TagLayout} {segments : List (List UInt8)}
  {segment : List UInt8}

/-- A layout asks for its tag in the last of the leading segments. -/
theorem tryLayout_segments (free : ∀ part ∈ segments ++ [segment], sep ∉ part)
    (index : segments.length = layout.tagIndex) (rest : List UInt8) :
    tryLayout branchScoped (closed (segments ++ [segment]) ++ rest) layout =
      if layout.tag.any fun tag => segment ≠ utf8Bytes tag then .otherShape
      else placeRevision branchScoped (closed (segments ++ [segment]) ++ rest) layout.locator
        (separatorsOf 0 (segments ++ [segment])) ((closed segments).length + segment.length) := by
  have leading := leadingSeparators_append free [] rest
  rw [nil_append, length_append, length_singleton, index, length_nil] at leading
  have seps_eq : separatorsOf 0 (segments ++ [segment]) =
      separatorsOf 0 segments ++ [(closed segments).length + segment.length] := by
    rw [separatorsOf_append, Nat.zero_add]
    rfl
  have tagEnd : (separatorsOf 0 (segments ++ [segment])).getD layout.tagIndex 0 =
      (closed segments).length + segment.length := by
    rw [seps_eq, getD_append_right _ _ _ _ (by simp [index])]
    simp [index]
  have tagStart : (if layout.tagIndex = 0 then 0 else
      (separatorsOf 0 (segments ++ [segment])).getD (layout.tagIndex - 1) 0 + 1) =
        (closed segments).length := by
    induction segments using reverseRecOn with
    | nil => simp [← index]
    | append_singleton others last _ =>
      rw [length_append, length_singleton] at index
      rw [if_neg (by omega), separatorsOf_append, separatorsOf_append, getD_append _ _ _ _ (by
        simp; omega), getD_append_right _ _ _ _ (by simp; omega)]
      simp [← index, separatorsOf, Nat.add_assoc]
  have tag_eq : ((closed (segments ++ [segment]) ++ rest).take
      ((closed segments).length + segment.length)).drop (closed segments).length = segment := by
    have split : closed (segments ++ [segment]) ++ rest =
        closed segments ++ segment ++ (sep :: rest) := by simp
    rw [split, ← length_append, take_left, drop_left]
  rw [tryLayout, leading]
  simp only [tagEnd, tagStart, tag_eq]

theorem tryLayout_otherTag (branchScoped : Bool)
    (free : ∀ part ∈ segments ++ [segment], sep ∉ part)
    (index : segments.length = layout.tagIndex) {tag : String} (wants : layout.tag = some tag)
    (other : segment ≠ utf8Bytes tag) (rest : List UInt8) :
    tryLayout branchScoped (closed (segments ++ [segment]) ++ rest) layout = .otherShape := by
  rw [tryLayout_segments free index, wants, if_pos]
  simpa using other

/-- The bytes at which a layout ends the key. -/
theorem boundary_append {locator : Locator} {trail : List (List UInt8)}
    (free : ∀ name ∈ trail, sep ∉ name)
    (counts : locator = if trail = [] then .tail else .beforeTrailing trail.length)
    (before : List UInt8) :
    boundary (before ++ trail.flatMap (sep :: ·)) locator = some before.length := by
  by_cases empty : trail = []
  · rw [counts, if_pos empty, empty, flatMap_nil, append_nil]
    rfl
  · rw [counts, if_neg empty, boundary, beforeTrailing_append free]
    rfl

/-! ## A versioned key -/

/-- A key with segments before its revision and names behind it. -/
def versioned (lead : List (List UInt8)) (revision : List UInt8) (trail : List (List UInt8)) :
    Key :=
  closed lead ++ revision ++ trail.flatMap (sep :: ·)

variable {lead trail : List (List UInt8)} {revision : List UInt8}

theorem placeRevision_versioned (nonempty : lead ≠ []) (revisionLength : revision.length = 16)
    {locator : Locator} {seps : List Nat} {tagEnd : Nat}
    (bound : boundary (versioned lead revision trail) locator =
      some (closed lead ++ revision).length) :
    placeRevision branchScoped (versioned lead revision trail) locator seps tagEnd =
      if (closed lead).length ≤ tagEnd + 1 then .otherShape
      else
        match seps[if branchScoped then 2 else 1]? with
        | none => .nothing
        | some scopeEnd =>
          if (closed lead).length ≤ scopeEnd then .otherShape
          else .found ⟨scopeEnd, (closed lead).length⟩ := by
  obtain ⟨before, before_eq⟩ := closed_last nonempty
  have separated : (versioned lead revision trail)[(closed lead).length - 1]? = some sep := by
    rw [versioned, before_eq, length_append, length_singleton, Nat.add_sub_cancel, append_assoc,
      append_assoc, getElem?_append_right (le_refl _), Nat.sub_self]
    rfl
  have place : (closed lead ++ revision).length - 16 = (closed lead).length := by
    rw [length_append, revisionLength, Nat.add_sub_cancel]
  have long : ¬(closed lead ++ revision).length < 16 := by
    rw [length_append, revisionLength]
    omega
  simp only [placeRevision, bound, if_neg long, place, separated, ne_eq, not_true_eq_false,
    or_false]

/-- A layout with the tag and the trailing names of the key finds its revision. -/
theorem tryLayout_versioned (branchScoped : Bool) {entity : List (List UInt8)}
    (lead_eq : lead = segments ++ [segment] ++ entity)
    (free : ∀ part ∈ segments ++ [segment], sep ∉ part)
    (index : segments.length = layout.tagIndex) (deep : 2 ≤ segments.length)
    (tag : layout.tag.all fun tag => segment = utf8Bytes tag)
    (trailFree : ∀ name ∈ trail, sep ∉ name) (revisionLength : revision.length = 16)
    (counts : layout.locator = if trail = [] then .tail else .beforeTrailing trail.length) :
    ∃ scopeEnd, tryLayout branchScoped (versioned lead revision trail) layout =
      if entity = [] then .otherShape else .found ⟨scopeEnd, (closed lead).length⟩ := by
  have bound := boundary_append trailFree counts (closed lead ++ revision)
  have nonempty : lead ≠ [] := by
    rw [lead_eq]
    simp
  have split : versioned lead revision trail = closed (segments ++ [segment]) ++
      (closed entity ++ revision ++ trail.flatMap (sep :: ·)) := by
    rw [versioned, lead_eq, closed_append, append_assoc, append_assoc, append_assoc]
  have wanted : ¬(layout.tag.any fun tag => decide (segment ≠ utf8Bytes tag)) = true := by
    cases known : layout.tag <;> simp_all
  have tagEnd : (closed (segments ++ [segment])).length =
      (closed segments).length + segment.length + 1 := by
    simp [Nat.add_assoc]
  obtain ⟨scopeEnd, scope_eq, scope_lt⟩ := exists_scopeEnd branchScoped
    (show 3 ≤ (segments ++ [segment]).length by rw [length_append, length_singleton]; omega)
  have whole : (closed lead).length = (closed (segments ++ [segment])).length +
      (closed entity).length := by
    rw [lead_eq, closed_append, length_append]
  refine ⟨scopeEnd, ?_⟩
  rw [split, tryLayout_segments free index, if_neg wanted, ← split,
    placeRevision_versioned nonempty revisionLength bound, scope_eq]
  by_cases empty : entity = []
  · rw [if_pos empty, if_pos]
    rw [whole, empty, closed_nil, length_nil, tagEnd, Nat.add_zero]
  · have positive := length_closed_pos empty
    rw [if_neg empty, if_neg (by omega)]
    exact if_neg (by omega)

/-- A layout whose tag is the last segment before the revision, and that expects fewer names behind
it, reads the sixteen bytes before the last name. -/
theorem tryLayout_shifted (branchScoped : Bool) (layout : TagLayout) {tagText : String}
    {names : List (List UInt8)} {last : List UInt8} (lead_eq : lead = segments ++ [segment])
    (free : ∀ part ∈ segments ++ [segment], sep ∉ part)
    (index : segments.length = layout.tagIndex) (deep : 2 ≤ segments.length)
    (tag : layout.tag = some tagText)
    (tag_eq : segment = utf8Bytes tagText) (lastFree : sep ∉ last)
    (revisionLength : revision.length = 16) (some_names : names ≠ [])
    (counts : layout.locator = .beforeTrailing 1) :
    ∃ scopeEnd, tryLayout branchScoped (versioned lead revision (names ++ [last])) layout =
      if (revision ++ names.flatMap (sep :: ·))[
          (revision ++ names.flatMap (sep :: ·)).length - 17]? = some sep then
        .found ⟨scopeEnd, (closed lead).length + (names.flatMap (sep :: ·)).length⟩
      else .otherShape := by
  set between := revision ++ names.flatMap (sep :: ·) with between_eq
  have split : versioned lead revision (names ++ [last]) =
      closed lead ++ between ++ [last].flatMap (sep :: ·) := by
    simp [versioned, between_eq]
  have again : versioned lead revision (names ++ [last]) =
      closed (segments ++ [segment]) ++ (between ++ [last].flatMap (sep :: ·)) := by
    rw [split, lead_eq, append_assoc]
  have bound : boundary (versioned lead revision (names ++ [last])) layout.locator =
      some (closed lead ++ between).length := by
    rw [split]
    refine boundary_append (by simpa using lastFree) ?_ _
    rw [counts, if_neg (cons_ne_nil _ _), length_singleton]
  have longer : between.length = 16 + (names.flatMap (sep :: ·)).length := by
    rw [between_eq, length_append, revisionLength]
  have positive : 0 < (names.flatMap (sep :: ·)).length := by
    obtain ⟨name, others, rfl⟩ := exists_cons_of_ne_nil some_names
    simp
  have tagEnd : (closed lead).length = (closed segments).length + segment.length + 1 := by
    simp [lead_eq, Nat.add_assoc]
  obtain ⟨scopeEnd, scope_eq, scope_lt⟩ := exists_scopeEnd branchScoped
    (show 3 ≤ (segments ++ [segment]).length by rw [length_append, length_singleton]; omega)
  rw [← lead_eq] at scope_lt
  have wanted : ¬(layout.tag.any fun tag => decide (segment ≠ utf8Bytes tag)) = true := by
    simp [tag, tag_eq]
  have before_last : (versioned lead revision (names ++ [last]))[
      (closed lead ++ between).length - 16 - 1]? = between[between.length - 17]? := by
    have place : (closed lead ++ between).length - 16 - 1 =
        (closed lead).length + (between.length - 17) := by
      rw [length_append]
      omega
    rw [place, split, append_assoc, getElem?_append_right (by omega), Nat.add_sub_cancel_left,
      getElem?_append_left (by omega)]
  have place : (closed lead ++ between).length - 16 =
      (closed lead).length + (names.flatMap (sep :: ·)).length := by
    rw [length_append]
    omega
  refine ⟨scopeEnd, ?_⟩
  rw [again, tryLayout_segments free index, if_neg wanted, ← again, placeRevision, bound]
  dsimp only
  rw [if_neg (by rw [length_append]; omega), before_last, place, scope_eq]
  by_cases separated : between[between.length - 17]? = some sep
  · have placed : ¬((closed lead).length + (names.flatMap (sep :: ·)).length ≤
        (closed segments).length + segment.length + 1 ∨
          between[between.length - 17]? ≠ some sep) := by
      rintro (early | other)
      · omega
      · exact other separated
    rw [if_pos separated, if_neg placed]
    exact if_neg (by omega)
  · rw [if_neg separated, if_pos (Or.inr separated)]

/-- What is before the revision, up to its separator. -/
theorem chunk_versioned (nonempty : lead ≠ []) (scopeEnd : Nat) :
    Located.chunk ⟨scopeEnd, (closed lead).length⟩ (versioned lead revision trail) ++ [sep] =
      closed lead := by
  obtain ⟨before, before_eq⟩ := closed_last nonempty
  have split : versioned lead revision trail =
      before ++ (sep :: (revision ++ trail.flatMap (sep :: ·))) := by
    simp [versioned, before_eq]
  rw [Located.chunk, split, before_eq, length_append, length_singleton, Nat.add_sub_cancel,
    take_left]

theorem tail_versioned (revisionLength : revision.length = 16) (scopeEnd : Nat) :
    Located.tail ⟨scopeEnd, (closed lead).length⟩ (versioned lead revision trail) =
      (trail.flatMap (sep :: ·)).drop 1 := by
  have reach : (closed lead).length + 17 = (closed lead ++ revision).length + 1 := by
    rw [length_append, revisionLength]
  have whole : ∀ key : Key, ∀ count, key.drop (min count key.length) = key.drop count := by
    intro key count
    rcases le_total count key.length with within | beyond
    · rw [min_eq_left within]
    · rw [min_eq_right beyond, drop_length, drop_of_length_le beyond]
  rw [Located.tail, whole, reach, versioned, drop_append]
  simp

/-- The key has the tag of the layout. -/
def recognises (lead : List (List UInt8)) (layout : TagLayout) : Bool :=
  layout.tag.all fun tag => lead[layout.tagIndex]? = some (utf8Bytes tag)

/-- The tag of the layout lies among the first segments, which have no separator. -/
structure InReach (lead : List (List UInt8)) (layout : TagLayout) : Prop where
  deep : 2 ≤ layout.tagIndex
  within : layout.tagIndex < lead.length
  free : ∀ part ∈ lead.take (layout.tagIndex + 1), sep ∉ part

theorem InReach.split (reach : InReach lead layout) :
    ∃ segment, lead[layout.tagIndex]? = some segment ∧
      (∀ part ∈ lead.take layout.tagIndex ++ [segment], sep ∉ part) ∧
      lead = lead.take layout.tagIndex ++ [segment] ++ lead.drop (layout.tagIndex + 1) := by
  have within := reach.within
  have taken : lead.take (layout.tagIndex + 1) =
      lead.take layout.tagIndex ++ [lead[layout.tagIndex]] :=
    take_succ_eq_append_getElem within
  refine ⟨lead[layout.tagIndex], getElem?_eq_getElem within, ?_, ?_⟩
  · rw [← taken]
    exact reach.free
  · rw [← taken, take_append_drop]

theorem tryLayout_unrecognised (reach : InReach lead layout)
    (other : recognises lead layout = false) :
    tryLayout branchScoped (versioned lead revision trail) layout = .otherShape := by
  obtain ⟨segment, here, free, split⟩ := reach.split
  have index : (lead.take layout.tagIndex).length = layout.tagIndex :=
    length_take_of_le reach.within.le
  cases wants : layout.tag with
  | none => simp [recognises, wants] at other
  | some tag =>
    have differs : segment ≠ utf8Bytes tag := by
      simpa [recognises, wants, here] using other
    have missed := tryLayout_otherTag branchScoped free index wants differs
      (closed (lead.drop (layout.tagIndex + 1)) ++ revision ++ trail.flatMap (sep :: ·))
    rwa [← append_assoc, ← append_assoc, ← closed_append, ← split] at missed

/-- The first layout whose tag the key has finds its revision. -/
theorem locateIn_versioned (branchScoped : Bool) {layouts : List TagLayout}
    (reach : ∀ layout ∈ layouts, InReach lead layout)
    (found : layouts.find? (recognises lead) = some layout)
    (entity : layout.tagIndex + 1 < lead.length) (trailFree : ∀ name ∈ trail, sep ∉ name)
    (revisionLength : revision.length = 16)
    (counts : layout.locator = if trail = [] then .tail else .beforeTrailing trail.length) :
    ∃ scopeEnd, locateIn branchScoped (versioned lead revision trail) layouts =
      some ⟨scopeEnd, (closed lead).length⟩ := by
  induction layouts with
  | nil => simp at found
  | cons first others ih =>
    have reached := reach first mem_cons_self
    cases mine : recognises lead first with
    | false =>
      rw [find?_cons_of_neg (by simp [mine])] at found
      rw [locateIn, tryLayout_unrecognised reached mine]
      exact ih (fun later hlater => reach later (mem_cons_of_mem _ hlater)) found
    | true =>
      rw [find?_cons_of_pos mine] at found
      obtain rfl := Option.some.inj found
      obtain ⟨segment, here, free, split⟩ := reached.split
      have index : (lead.take first.tagIndex).length = first.tagIndex :=
        length_take_of_le reached.within.le
      have tag : first.tag.all fun tag => segment = utf8Bytes tag := by
        simpa [recognises, here] using mine
      have deep : 2 ≤ (lead.take first.tagIndex).length := index.symm ▸ reached.deep
      obtain ⟨scopeEnd, tried⟩ := tryLayout_versioned branchScoped split free index deep tag
        trailFree revisionLength counts
      have present : lead.drop (first.tagIndex + 1) ≠ [] := by
        rw [ne_eq, drop_eq_nil_iff]
        omega
      rw [if_neg present] at tried
      exact ⟨scopeEnd, by rw [locateIn, tried]⟩

/-- Without an entity behind the tag there is nothing to be found. -/
theorem locateIn_without_entity (branchScoped : Bool) (reach : InReach lead layout)
    (found : recognises lead layout)
    (entity : lead.length = layout.tagIndex + 1) (trailFree : ∀ name ∈ trail, sep ∉ name)
    (revisionLength : revision.length = 16)
    (counts : layout.locator = if trail = [] then .tail else .beforeTrailing trail.length) :
    locateIn branchScoped (versioned lead revision trail) [layout] = none := by
  obtain ⟨segment, here, free, split⟩ := reach.split
  have index : (lead.take layout.tagIndex).length = layout.tagIndex :=
    length_take_of_le reach.within.le
  have tag : layout.tag.all fun tag => segment = utf8Bytes tag := by
    simpa [recognises, here] using found
  have deep : 2 ≤ (lead.take layout.tagIndex).length := index.symm ▸ reach.deep
  obtain ⟨scopeEnd, tried⟩ := tryLayout_versioned branchScoped split free index
    deep tag trailFree revisionLength counts
  rw [if_pos (drop_eq_nil_iff.mpr entity.le)] at tried
  rw [locateIn, tried, locateIn]

end Layout

end RaisinDB.History
