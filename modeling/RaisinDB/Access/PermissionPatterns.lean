import Mathlib
import RaisinDB.Access.PatternRegex

/-!
# What a permission's patterns grant

The paths that a pattern is documented to match, and those that its regex does: of whole `**`
segments in a row every second one takes at least one segment, and no `**` takes a newline.  A
scope's pattern that is no glob takes everything.
-/

namespace RaisinDB.Access

open List Foundation

/-! ## Segment matchers -/

/-- The parts of a pattern: a whole segment `**` takes any number of segments. -/
def documentedParts (segments : List (List Char)) : List (PatternPart Char) :=
  segments.map fun segment =>
    if segment = wildSegment then .wild 0 else .segment (segmentTokens segment)

/-- The same, but behind a `**` that is the first of two the second one takes a segment. -/
def strictParts : Bool → List (List Char) → List (PatternPart Char)
  | _, [] => []
  | second, segment :: rest =>
      if segment = wildSegment then .wild second.toNat :: strictParts (!second) rest
      else .segment (segmentTokens segment) :: strictParts false rest

def normalizedPath (path : String) : List Char := path.toList.dropWhile (· = '/')

/-- The documented matcher accepts a path. -/
def DocumentedMatch (pattern path : String) : Prop :=
  normalizedPath path ∈ pathTexts '/' Set.univ (documentedParts (patternSegments pattern))

/-- It accepts the path in a way in which no `**` takes a newline, and of whole `**` segments in a
row every second one takes at least one segment. -/
def StrictMatch (pattern path : String) : Prop :=
  normalizedPath path ∈ pathTexts '/' dots (strictParts false (patternSegments pattern))

/-! ## The items of a pattern take its strict parts -/

theorem slash_mem_dots : '/' ∈ dots := by
  intro same
  exact absurd same (by decide)

@[simp] theorem itemsLanguage_nil : itemsLanguage [] = 1 := rfl

@[simp] theorem itemsLanguage_cons (item : RegexItem) (items : List RegexItem) :
    itemsLanguage (item :: items) = item.language * itemsLanguage items := by
  simp [itemsLanguage]

theorem itemsLanguage_segment (segment : List Char) (items : List RegexItem) :
    itemsLanguage (segmentItems segment ++ items) =
      tokensLanguage '/' dots (segmentTokens segment) * itemsLanguage items := by
  rw [itemsLanguage, map_append, prod_append, segmentItems, map_map]
  rfl

theorem language_slash : (RegexItem.token (.symbol '/')).language = slash := rfl

theorem language_between :
    RegexItem.between.language = namesFrom '/' dots 0 * slash := by
  rw [namesFrom_zero slash_mem_dots, add_mul, one_mul, add_comm]
  rfl

theorem slash_mul_lead :
    slash * RegexItem.lead.language = namesFrom '/' dots 0 * slash := by
  rw [namesFrom_zero slash_mem_dots, add_mul, one_mul]
  simp only [RegexItem.language, mul_add, mul_one, slash, mul_assoc]

theorem language_trail : RegexItem.trail.language = namesFrom '/' dots 0 := by
  rw [namesFrom_zero slash_mem_dots]
  rfl

/-- The first segment, when those behind it are known. -/
theorem slash_mul_headItems (segment : List Char) (rest : List (List Char))
    (later : itemsLanguage (tailItems rest) = followTexts '/' dots (strictParts false rest)) :
    slash * itemsLanguage (headItems (segment :: rest)) =
      followTexts '/' dots (strictParts true (segment :: rest)) := by
  rw [headItems, itemsLanguage_segment, later, strictParts]
  by_cases wild : segment = wildSegment
  · subst wild
    have any : tokensLanguage '/' dots (segmentTokens wildSegment) = freeTexts dots :=
      mul_one (freeTexts dots)
    rw [if_pos rfl, followTexts_wild, Bool.toNat_true, namesFrom_one slash_mem_dots, any, mul_assoc]
    rfl
  · rw [if_neg wild, followTexts_segment]
    rfl

theorem strictParts_of_ne {segment : List Char} (other : segment ≠ wildSegment) (second : Bool)
    (rest : List (List Char)) :
    strictParts second (segment :: rest) = strictParts true (segment :: rest) := by
  rw [strictParts, strictParts, if_neg other, if_neg other]

theorem itemsLanguage_tailItems (segments : List (List Char)) :
    itemsLanguage (tailItems segments) = followTexts '/' dots (strictParts false segments) := by
  induction segments using tailItems.induct with
  | case1 => exact followTexts_nil.symm
  | case2 =>
    rw [tailItems, if_pos rfl, itemsLanguage_cons, language_trail, strictParts, if_pos rfl,
      followTexts_wild, strictParts, followTexts_nil, itemsLanguage_nil]
    rfl
  | case3 segment other =>
    have last := slash_mul_headItems segment [] followTexts_nil.symm
    rw [strictParts_of_ne other, ← last, tailItems, if_neg other, itemsLanguage_cons,
      language_slash, headItems, tailItems, append_nil]
  | case4 next rest ih =>
    have head := slash_mul_headItems next rest ih
    rw [tailItems, if_pos rfl, itemsLanguage_cons, language_between, mul_assoc, strictParts,
      if_pos rfl, followTexts_wild]
    exact congrArg _ head
  | case5 segment next rest other ih =>
    have head := slash_mul_headItems segment _ ih
    rw [strictParts_of_ne other, ← head, tailItems, if_neg other, itemsLanguage_cons,
      language_slash, headItems]

theorem strictParts_ne_nil {segments : List (List Char)} (nonempty : segments ≠ [])
    (second : Bool) : strictParts second segments ≠ [] := by
  obtain ⟨segment, rest, rfl⟩ := exists_cons_of_ne_nil nonempty
  rw [strictParts]
  split_ifs <;> exact cons_ne_nil _ _

/-- The regex of a pattern's items takes the texts of its strict parts. -/
theorem mem_itemsLanguage_iff {segments : List (List Char)} (nonempty : segments ≠ [])
    {text : List Char} :
    text ∈ itemsLanguage (patternItems segments) ↔
      text ∈ pathTexts '/' dots (strictParts false segments) := by
  have behind : '/' :: text ∈ slash * itemsLanguage (patternItems segments) ↔
    text ∈ itemsLanguage (patternItems segments) := cons_mem_sepText_mul
  rw [mem_pathTexts_iff (strictParts_ne_nil nonempty false), ← behind]
  obtain ⟨segment, rest, rfl⟩ := exists_cons_of_ne_nil nonempty
  have head := slash_mul_headItems segment rest (itemsLanguage_tailItems rest)
  by_cases wild : segment = wildSegment
  · subst wild
    cases rest with
    | nil =>
      -- nothing but `**`
      have names : followTexts '/' dots (strictParts false [wildSegment]) =
          1 + slash * freeTexts dots := by
        rw [strictParts, if_pos rfl, strictParts, followTexts_wild, followTexts_nil, mul_one]
        exact namesFrom_zero slash_mem_dots
      have any : itemsLanguage (patternItems [wildSegment]) = freeTexts dots :=
        mul_one (freeTexts dots)
      rw [names, any]
      exact (or_iff_right (cons_ne_nil _ _)).symm
    | cons next rest =>
      have later := slash_mul_headItems next rest (itemsLanguage_tailItems rest)
      rw [patternItems, if_pos rfl, itemsLanguage_cons, ← mul_assoc, strictParts, if_pos rfl,
        followTexts_wild, Bool.not_false, ← later, ← mul_assoc]
      exact iff_of_eq (congrArg (fun language => '/' :: text ∈ language * _) slash_mul_lead)
  · rw [strictParts_of_ne wild, ← head]
    cases rest with
    | nil => exact Iff.rfl
    | cons next rest => rw [patternItems, if_neg wild]

/-! ## Paths -/

theorem plain_segmentItems (segment : List Char) :
    ∀ item ∈ segmentItems segment, item.Plain := by
  induction segment using segmentTokens.induct with
  | case1 => exact fun _ mem => (not_mem_nil mem).elim
  | case2 rest ih => exact forall_mem_cons.mpr ⟨trivial, ih⟩
  | case3 char rest single ih =>
    rw [segmentItems, segmentTokens.eq_3 char rest single, map_cons, forall_mem_cons]
    refine ⟨?_, ih⟩
    split_ifs with star question
    · trivial
    · trivial
    · exact ⟨star, question⟩

theorem plain_tailItems (segments : List (List Char)) :
    ∀ item ∈ tailItems segments, item.Plain := by
  have slash : (RegexItem.token (.symbol '/')).Plain := ⟨by decide, by decide⟩
  induction segments using tailItems.induct with
  | case1 => exact fun _ mem => (not_mem_nil mem).elim
  | case2 => exact forall_mem_cons.mpr ⟨trivial, fun _ mem => (not_mem_nil mem).elim⟩
  | case3 segment other =>
    rw [tailItems, if_neg other]
    exact forall_mem_cons.mpr ⟨slash, plain_segmentItems segment⟩
  | case4 next rest ih =>
    rw [tailItems, if_pos rfl]
    exact forall_mem_cons.mpr ⟨trivial, forall_mem_append.mpr ⟨plain_segmentItems next, ih⟩⟩
  | case5 segment next rest other ih =>
    rw [tailItems, if_neg other]
    exact forall_mem_cons.mpr ⟨slash, forall_mem_append.mpr ⟨plain_segmentItems segment, ih⟩⟩

theorem plain_patternItems (segments : List (List Char)) :
    ∀ item ∈ patternItems segments, item.Plain := by
  have head : ∀ segments : List (List Char), ∀ item ∈ headItems segments, item.Plain
    | [] => fun _ mem => (not_mem_nil mem).elim
    | segment :: rest =>
      forall_mem_append.mpr ⟨plain_segmentItems segment, plain_tailItems rest⟩
  unfold patternItems
  split
  · split_ifs
    · exact forall_mem_cons.mpr ⟨trivial, head _⟩
    · exact head _
  · exact head _

theorem patternSegments_ne_nil (pattern : String) : patternSegments pattern ≠ [] := by
  rw [patternSegments]
  split_ifs
  · exact cons_ne_nil _ _
  · exact splitOn_ne_nil _ _

section

variable {F : Type} {engine : Engine F}

/-- A pattern matches as its strict parts say. -/
theorem matchesPath_iff_strictMatch (regex : engine.ImplementsRegex) (permission : Permission)
    (nulFree : '\x00' ∉ permission.path.toList) (path : String) :
    permission.matchesPath engine path ↔ StrictMatch permission.path path := by
  obtain ⟨isMatch, compiled, accepts⟩ :=
    regex (patternItems (patternSegments permission.path)) (plain_patternItems _)
  rw [Permission.matchesPath, patternToRegex_eq nulFree, compiled]
  rw [accepts, String.toList_ofList, mem_itemsLanguage_iff (patternSegments_ne_nil _)]
  exact Iff.rfl

end

theorem looser_strictParts (second : Bool) (segments : List (List Char)) :
    Forall₂ PatternPart.Looser (documentedParts segments) (strictParts second segments) := by
  induction segments generalizing second with
  | nil => exact .nil
  | cons segment rest ih =>
    rw [documentedParts, map_cons, strictParts]
    split_ifs
    · exact .cons (.wild (Nat.zero_le _)) (ih _)
    · exact .cons (.segment _) (ih _)

/-- The regex matches nothing that the documented matcher does not. -/
theorem StrictMatch.documented {pattern path : String} (strict : StrictMatch pattern path) :
    DocumentedMatch pattern path :=
  pathTexts_looser (Set.subset_univ _) (looser_strictParts false _) strict

/-- No two whole `**` segments stand in a row. -/
def Apart (segments : List (List Char)) : Prop :=
  segments.IsChain fun first second => first = wildSegment → second ≠ wildSegment

theorem strictParts_of_apart {second : Bool} {segments : List (List Char)} (apart : Apart segments)
    (first : second → segments.head? ≠ some wildSegment) :
    strictParts second segments = documentedParts segments := by
  induction segments generalizing second with
  | nil => rfl
  | cons segment rest ih =>
    obtain ⟨next, later⟩ := isChain_cons.mp apart
    rw [strictParts, documentedParts, map_cons]
    by_cases wild : segment = wildSegment
    · subst wild
      have behind : rest.head? ≠ some wildSegment := fun same => next _ same rfl rfl
      cases second with
      | false => rw [if_pos rfl, if_pos rfl, ih later fun _ => behind]; rfl
      | true => exact absurd rfl (first rfl)
    · have ahead : false = true → rest.head? ≠ some wildSegment := fun unset => by cases unset
      rw [if_neg wild, if_neg wild, ih later ahead]
      rfl

/-- Where neither can happen, the regex is the documented matcher. -/
theorem DocumentedMatch.strict {pattern path : String} (documented : DocumentedMatch pattern path)
    (apart : Apart (patternSegments pattern)) (line : '\n' ∉ path.toList) :
    StrictMatch pattern path := by
  have parts := strictParts_of_apart apart fun second : false = true => absurd second (by decide)
  rw [StrictMatch, parts]
  exact pathTexts_within documented fun char mem newline =>
    line (newline ▸ (dropWhile_suffix _).subset mem)

/-! ## Scopes -/

section Scopes

variable {F : Type} [RustStd F] (engine : Engine F)

/-- No pattern, nothing but blanks, or `*`. -/
def Unrestricted (F : Type) [RustStd F] (pattern : Option String) : Prop :=
  ∀ text ∈ pattern, RustStd.trim F text = "" ∨ RustStd.trim F text = "*"

/-- A pattern is missing, or blank, or `*`, or a glob that matches. -/
def GrantsScope (pattern : Option String) (value : String) : Prop :=
  Unrestricted F pattern ∨
    ∃ text ∈ pattern, ∃ isMatch ∈ engine.glob (RustStd.trim F text), isMatch value

/-- A pattern that is no glob. -/
def Malformed (pattern : Option String) : Prop :=
  ¬Unrestricted F pattern ∧ ∃ text ∈ pattern, engine.glob (RustStd.trim F text) = none

/-- A glob that does not match. -/
def RejectsScope (pattern : Option String) (value : String) : Prop :=
  ¬Unrestricted F pattern ∧
    ∃ text ∈ pattern, ∃ isMatch ∈ engine.glob (RustStd.trim F text), isMatch value = false

variable {engine}

theorem unrestricted_some {text : String} : Unrestricted F (some text) ↔
    RustStd.trim F text = "" ∨ RustStd.trim F text = "*" := by
  simp [Unrestricted]

/-- A pattern compiles to nothing, or to the glob that it is. -/
theorem all_compilePattern_iff {pattern : Option String} {value : String} :
    ((compilePattern engine pattern).all fun isMatch => isMatch value) ↔
      GrantsScope engine pattern value ∨ Malformed engine pattern := by
  cases pattern with
  | none => simp [compilePattern, GrantsScope, Unrestricted]
  | some text =>
    rw [compilePattern, Option.bind_some, GrantsScope, Malformed, unrestricted_some]
    by_cases blank : RustStd.trim F text = "" ∨ RustStd.trim F text = "*"
    · simp [blank]
    · rw [if_neg blank]
      cases glob : engine.glob (RustStd.trim F text) <;> simp [blank, glob]

theorem rejectsScope_iff {pattern : Option String} {value : String} :
    RejectsScope engine pattern value ↔
      ¬((compilePattern engine pattern).all fun isMatch => isMatch value) := by
  cases pattern with
  | none => simp [compilePattern, RejectsScope, Unrestricted]
  | some text =>
    rw [compilePattern, Option.bind_some, RejectsScope, unrestricted_some]
    by_cases blank : RustStd.trim F text = "" ∨ RustStd.trim F text = "*"
    · simp [blank]
    · rw [if_neg blank]
      cases glob : engine.glob (RustStd.trim F text) <;> simp [blank, glob]

theorem Malformed.not_grants {pattern : Option String} (malformed : Malformed engine pattern)
    (value : String) : ¬GrantsScope engine pattern value := by
  obtain ⟨restricted, text, rfl, none⟩ := malformed
  rintro (unrestricted | ⟨other, same, isMatch, some, -⟩)
  · exact restricted unrestricted
  · rw [← Option.mem_some.mp same, none] at some
    cases some

end Scopes

/-! ## Grants -/

/-- A permission matches the paths that its pattern is documented to match, and only scopes that
both of its patterns grant. -/
structure GrantsAsWritten {F : Type} [RustStd F] (engine : Engine F) (permission : Permission)
    (path : String) (scope : PermissionScope) : Prop where
  path : permission.matchesPath engine path ↔ DocumentedMatch permission.path path
  scope : permission.appliesToScope engine scope →
    GrantsScope engine permission.workspace scope.workspace ∧
      GrantsScope engine permission.branchPattern scope.branch

/-- A path that the documented matcher accepts has a strict reading, and a scope that one malformed
pattern lets in is rejected by the other one. -/
structure WithinSyntax {F : Type} [RustStd F] (engine : Engine F) (permission : Permission)
    (path : String) (scope : PermissionScope) : Prop where
  path : DocumentedMatch permission.path path → StrictMatch permission.path path
  workspace : Malformed engine permission.workspace →
    RejectsScope engine permission.branchPattern scope.branch
  branch : Malformed engine permission.branchPattern →
    RejectsScope engine permission.workspace scope.workspace

theorem permission_patterns_grant_as_written {F : Type} [RustStd F] {engine : Engine F}
    (regex : engine.ImplementsRegex) (permission : Permission)
    (nulFree : '\x00' ∉ permission.path.toList) (path : String) (scope : PermissionScope) :
    GrantsAsWritten engine permission path scope ↔
      WithinSyntax engine permission path scope := by
  have strict := matchesPath_iff_strictMatch regex permission nulFree path
  have applies : permission.appliesToScope engine scope ↔
      (GrantsScope engine permission.workspace scope.workspace ∨
          Malformed engine permission.workspace) ∧
        (GrantsScope engine permission.branchPattern scope.branch ∨
          Malformed engine permission.branchPattern) := by
    rw [Permission.appliesToScope, Bool.and_eq_true, all_compilePattern_iff,
      all_compilePattern_iff]
  constructor
  · intro grants
    have both := grants.scope
    rw [applies] at both
    refine ⟨fun documented => strict.mp (grants.path.mpr documented), fun malformed => ?_,
      fun malformed => ?_⟩
    · rw [rejectsScope_iff, all_compilePattern_iff]
      exact fun open_ => malformed.not_grants _ (both ⟨.inr malformed, open_⟩).1
    · rw [rejectsScope_iff, all_compilePattern_iff]
      exact fun open_ => malformed.not_grants _ (both ⟨open_, .inr malformed⟩).2
  · intro within
    have workspace := within.workspace
    have branch := within.branch
    rw [rejectsScope_iff, all_compilePattern_iff] at workspace branch
    refine ⟨⟨fun accepted => (strict.mp accepted).documented,
      fun documented => strict.mpr (within.path documented)⟩, fun accepted => ?_⟩
    obtain ⟨inWorkspace, inBranch⟩ := applies.mp accepted
    exact ⟨inWorkspace.resolve_right fun malformed => workspace malformed inBranch,
      inBranch.resolve_right fun malformed => branch malformed inWorkspace⟩

/-! ## A regex engine -/

/-- An item takes a text. -/
def RegexItem.takes : RegexItem → List Char → Bool
  | .token .anything, text => text.all (· != '\n')
  | .token .run, text => text.all (· != '/')
  | .token .single, text => text.length == 1 && text.all (· != '/')
  | .token (.symbol char), text => text == [char]
  | .lead, text => text == [] || text.all (· != '\n') && text.getLast? == some '/'
  | .between, text =>
      text == ['/'] || text.all (· != '\n') && text.head? == some '/' &&
        text.tail.getLast? == some '/'
  | .trail, text => text == [] || text.all (· != '\n') && text.head? == some '/'

/-- Every item takes its part of a text, in order. -/
def takesAll : List RegexItem → List Char → Bool
  | [], text => text.isEmpty
  | item :: items, text => (List.range (text.length + 1)).any fun cut =>
      item.takes (text.take cut) && takesAll items (text.drop cut)

theorem mem_freeTexts_dots {text : List Char} :
    text ∈ freeTexts dots ↔ text.all (· != '\n') := by
  simp [mem_freeTexts, dots]

theorem mem_lead_iff {text : List Char} : text ∈ RegexItem.lead.language ↔
    text = [] ∨ text ∈ freeTexts dots ∧ text.getLast? = some '/' := by
  refine or_congr Iff.rfl ?_
  constructor
  · rintro ⟨front, free, _, rfl, rfl⟩
    exact ⟨freeTexts_append.mpr ⟨free, by simp [mem_freeTexts, slash_mem_dots]⟩, getLast?_concat⟩
  · rintro ⟨free, last⟩
    obtain ⟨front, rfl⟩ := getLast?_eq_some_iff.mp last
    exact ⟨front, (freeTexts_append.mp free).1, ['/'], rfl, rfl⟩

theorem mem_trail_iff {text : List Char} : text ∈ RegexItem.trail.language ↔
    text = [] ∨ text ∈ freeTexts dots ∧ text.head? = some '/' := by
  refine or_congr Iff.rfl ?_
  constructor
  · rintro ⟨_, rfl, back, free, rfl⟩
    exact ⟨freeTexts_append.mpr ⟨by simp [mem_freeTexts, slash_mem_dots], free⟩, rfl⟩
  · rintro ⟨free, head⟩
    obtain ⟨back, rfl⟩ := head?_eq_some_iff.mp head
    exact ⟨['/'], rfl, back, fun char mem => free char (mem_cons_of_mem '/' mem), rfl⟩

theorem mem_between_iff {text : List Char} : text ∈ RegexItem.between.language ↔
    text = ['/'] ∨ text ∈ freeTexts dots ∧ text.head? = some '/' ∧
      text.tail.getLast? = some '/' := by
  refine or_comm.trans (or_congr Iff.rfl ?_)
  constructor
  · rintro ⟨_, ⟨_, rfl, middle, free, rfl⟩, _, rfl, rfl⟩
    have single : ['/'] ∈ freeTexts dots := by simp [mem_freeTexts, slash_mem_dots]
    exact ⟨freeTexts_append.mpr ⟨freeTexts_append.mpr ⟨single, free⟩, single⟩, rfl, getLast?_concat⟩
  · rintro ⟨free, head, last⟩
    obtain ⟨back, rfl⟩ := head?_eq_some_iff.mp head
    obtain ⟨middle, rfl⟩ := getLast?_eq_some_iff.mp last
    refine ⟨_, ⟨['/'], rfl, middle, ?_, rfl⟩, ['/'], rfl, rfl⟩
    exact fun char mem => free char (mem_cons_of_mem '/' (mem_append_left ['/'] mem))

theorem RegexItem.takes_iff (item : RegexItem) (text : List Char) :
    item.takes text ↔ text ∈ item.language := by
  cases item with
  | lead => simp [mem_lead_iff, mem_freeTexts_dots, takes]
  | between => simp [mem_between_iff, mem_freeTexts_dots, takes, and_assoc]
  | trail => simp [mem_trail_iff, mem_freeTexts_dots, takes]
  | token place =>
    cases place with
    | anything => exact mem_freeTexts_dots.symm
    | run =>
      have mem : text ∈ (RegexItem.token .run).language ↔ '/' ∉ text := Iff.rfl
      rw [mem, takes, all_eq_true]
      exact ⟨fun all slash => by simpa using all '/' slash,
        fun plain char mem => by simpa using fun same : char = '/' => plain (same ▸ mem)⟩
    | single =>
      have mem : text ∈ (RegexItem.token .single).language ↔
        ∃ char, char ≠ '/' ∧ text = [char] := Iff.rfl
      rw [mem, takes, Bool.and_eq_true, beq_iff_eq, length_eq_one_iff]
      constructor
      · rintro ⟨⟨char, rfl⟩, other⟩
        exact ⟨char, by simpa using other, rfl⟩
      · rintro ⟨char, other, rfl⟩
        exact ⟨⟨char, rfl⟩, by simpa using other⟩
    | symbol char => exact beq_iff_eq

theorem takesAll_iff (items : List RegexItem) (text : List Char) :
    takesAll items text ↔ text ∈ itemsLanguage items := by
  induction items generalizing text with
  | nil => simp [takesAll, Language.mem_one]
  | cons item items ih =>
    rw [takesAll, itemsLanguage_cons, any_eq_true, Language.mem_mul]
    constructor
    · rintro ⟨cut, -, taken⟩
      rw [Bool.and_eq_true, item.takes_iff, ih] at taken
      exact ⟨_, taken.1, _, taken.2, take_append_drop cut text⟩
    · rintro ⟨front, first, back, later, rfl⟩
      refine ⟨front.length, mem_range.mpr (by rw [length_append]; omega), ?_⟩
      rw [Bool.and_eq_true, item.takes_iff, ih, take_left, drop_left]
      exact ⟨first, later⟩

/-- The items of fixed texts, those that start like another one first. -/
def fixedItems : List RegexItem :=
  [.lead, .between, .trail, .token .anything, .token .run, .token .single]

/-- The first item of a regex, and what is left of it. -/
def decodeItem (text : List Char) : Option (RegexItem × List Char) :=
  (fixedItems.findSome? fun item => (stripStart item.text text).map fun rest => (item, rest)).or
    (match text with
      | '\\' :: char :: rest => some (.token (.symbol char), rest)
      | char :: rest => some (.token (.symbol char), rest)
      | [] => none)

def decodeItems : Nat → List Char → Option (List RegexItem)
  | _, [] => some []
  | 0, _ :: _ => none
  | fuel + 1, char :: rest =>
      (decodeItem (char :: rest)).bind fun decoded =>
        (decodeItems fuel decoded.2).map fun items => decoded.1 :: items

theorem stripStart_cons (first char : Char) (start text : List Char) :
    stripStart (first :: start) (char :: text) =
      if first = char then stripStart start text else none := by
  rw [stripStart, stripStart, isPrefixOf_cons_cons]
  by_cases same : first = char <;> simp [same]

theorem text_lead : RegexItem.lead.text = ['(', '.', '*', '/', ')', '?'] := rfl

theorem text_between : RegexItem.between.text = ['(', '/', '.', '*', '/', '|', '/', ')'] := rfl

theorem text_trail : RegexItem.trail.text = ['(', '/', '.', '*', ')', '?'] := rfl

theorem text_stars : (RegexItem.token .anything).text = ['.', '*'] := rfl

theorem text_class : (RegexItem.token .single).text = ['[', '^', '/', ']'] := rfl

theorem text_classes : (RegexItem.token .run).text = ['[', '^', '/', ']', '*'] := rfl

theorem decodeItem_plain {char : Char} {rest : List Char}
    (other : char ≠ '(' ∧ char ≠ '.' ∧ char ≠ '[') :
    decodeItem (char :: rest) = match char :: rest with
      | '\\' :: char :: rest => some (.token (.symbol char), rest)
      | char :: rest => some (.token (.symbol char), rest)
      | [] => none := by
  simp only [decodeItem, fixedItems, findSome?_cons, findSome?_nil, text_lead, text_between,
    text_trail, text_stars, text_class, text_classes, stripStart_cons, if_neg other.1.symm,
    if_neg other.2.1.symm, if_neg other.2.2.symm, Option.map_none, Option.none_or]

theorem decodeItem_symbol (char : Char) (rest : List Char) :
    decodeItem ((RegexItem.token (.symbol char)).text ++ rest) =
      some (.token (.symbol char), rest) := by
  rw [text_symbol]
  split_ifs with special
  · rw [cons_append, decodeItem_plain (by decide)]
    rfl
  · have other : char ≠ '(' ∧ char ≠ '.' ∧ char ≠ '[' ∧ char ≠ '\\' := by
      refine ⟨?_, ?_, ?_, ?_⟩ <;> (rintro rfl; exact special (by decide))
    rw [cons_append, decodeItem_plain ⟨other.1, other.2.1, other.2.2.1⟩]
    split
    · rename_i same
      exact absurd (cons.inj same).1 other.2.2.2
    · rename_i same
      obtain ⟨rfl, rfl⟩ := cons.inj same
      rfl
    · rename_i same
      cases same

/-- A regex is read item by item. -/
theorem decodeItem_text (item : RegexItem) {rest : List Char} (other : rest.head? ≠ some '*') :
    decodeItem (item.text ++ rest) = some (item, rest) := by
  cases item with
  | lead => rw [text_lead]; rfl
  | between => rw [text_between]; rfl
  | trail => rw [text_trail]; rfl
  | token place =>
    cases place with
    | anything => rw [text_stars]; rfl
    | run => rw [text_classes]; rfl
    | single =>
      cases rest with
      | nil => rfl
      | cons char rest =>
        have star : '*' ≠ char := fun same => other (by rw [same, head?_cons])
        simp only [decodeItem, fixedItems, findSome?_cons, findSome?_nil, text_lead,
          text_between, text_trail, text_stars, text_class, text_classes, stripStart_cons,
          cons_append, nil_append, if_neg star]
        rfl
    | symbol char => exact decodeItem_symbol char rest

theorem text_ne_nil (item : RegexItem) : item.text ≠ [] := by
  cases item with
  | lead | between | trail => exact cons_ne_nil _ _
  | token place =>
    cases place with
    | anything | run | single => exact cons_ne_nil _ _
    | symbol char => rw [text_symbol]; split_ifs <;> exact cons_ne_nil _ _

theorem head_text_ne_star {item : RegexItem} (plain : item.Plain) :
    item.text.head? ≠ some '*' := by
  cases item with
  | lead | between | trail => decide
  | token place =>
    cases place with
    | anything | run | single => decide
    | symbol char =>
      rw [text_symbol]
      split_ifs
      · exact fun same => absurd (Option.some.inj same) (by decide)
      · exact fun same => plain.1 (Option.some.inj same)

theorem head_texts_ne_star {items : List RegexItem} (plain : ∀ item ∈ items, item.Plain) :
    (items.flatMap RegexItem.text).head? ≠ some '*' := by
  cases items with
  | nil => exact fun same => by cases same
  | cons item items =>
    rw [flatMap_cons, head?_append_of_ne_nil _ (text_ne_nil item)]
    exact head_text_ne_star (plain item mem_cons_self)

theorem decodeItems_texts {items : List RegexItem} (plain : ∀ item ∈ items, item.Plain)
    {fuel : Nat} (enough : items.length ≤ fuel) :
    decodeItems fuel (items.flatMap RegexItem.text) = some items := by
  induction items generalizing fuel with
  | nil => cases fuel <;> rfl
  | cons item items ih =>
    obtain ⟨-, later⟩ := forall_mem_cons.mp plain
    cases fuel with
    | zero => exact absurd enough (Nat.not_succ_le_zero _)
    | succ fuel =>
      have step := decodeItem_text item (head_texts_ne_star later)
      rw [flatMap_cons]
      cases text : item.text with
      | nil => exact absurd text (text_ne_nil item)
      | cons char rest =>
        rw [text, cons_append] at step
        rw [cons_append, decodeItems, step, Option.bind_some,
          ih later (Nat.le_of_succ_le_succ enough), Option.map_some]

theorem length_le_texts (items : List RegexItem) :
    items.length ≤ (items.flatMap RegexItem.text).length := by
  induction items with
  | nil => exact le_rfl
  | cons item items ih =>
    have some := length_pos_iff.mpr (text_ne_nil item)
    rw [flatMap_cons, length_append, length_cons]
    omega

/-- A regex between `^` and `$`. -/
def compileRegex (text : String) : Option (String → Bool) :=
  let body := text.toList.tail
  if text.toList.head? = some '^' ∧ body.getLast? = some '$' then
    (decodeItems body.length body.dropLast).map fun items text => takesAll items text.toList
  else none

theorem compileRegex_text {items : List RegexItem} (plain : ∀ item ∈ items, item.Plain) :
    compileRegex (regexText items) = some fun text => takesAll items text.toList := by
  have long : items.length ≤ (items.flatMap RegexItem.text ++ ['$']).length := by
    rw [length_append]
    exact (length_le_texts items).trans (Nat.le_add_right _ _)
  have text : (regexText items).toList = '^' :: (items.flatMap RegexItem.text ++ ['$']) := by
    rw [regexText, String.toList_ofList]
    rfl
  rw [compileRegex, text, tail_cons, if_pos ⟨rfl, getLast?_concat⟩, dropLast_concat,
    decodeItems_texts plain long, Option.map_some]

/-- Globs without wildcards, and with a range that is not closed. -/
def patternEngine : Engine Unit where
  glob pattern := if '[' ∈ pattern.toList then none else some fun value => value == pattern
  regex := compileRegex
  parse _ := none

theorem patternEngine_implementsRegex : patternEngine.ImplementsRegex := by
  intro items plain
  exact ⟨_, compileRegex_text plain, fun text => takesAll_iff items text.toList⟩

/-- May read in one workspace, on every branch. -/
def readPermission (pattern : String) : Permission where
  workspace := some "content"
  branchPattern := none
  path := pattern
  nodeTypes := none
  operations := [.read]
  fields := none
  exceptFields := none
  condition := none

theorem readPermission_wellFormed (pattern : String) :
    ¬Malformed patternEngine (readPermission pattern).workspace ∧
      ¬Malformed patternEngine (readPermission pattern).branchPattern := by
  constructor
  · rintro ⟨-, text, same, malformed⟩
    obtain rfl := Option.mem_some.mp same
    exact absurd malformed (Option.some_ne_none _)
  · rintro ⟨-, text, same, -⟩
    cases same

theorem deep_child_is_granted :
    GrantsAsWritten patternEngine (readPermission "/a/**/b") "/a/x/b" ⟨"content", "main"⟩ :=
  (permission_patterns_grant_as_written patternEngine_implementsRegex _ (by decide) _ _).mpr
    { path := fun documented => documented.strict (by simp [Apart]; decide) (by decide)
      workspace := fun malformed => absurd malformed (readPermission_wellFormed _).1
      branch := fun malformed => absurd malformed (readPermission_wellFormed _).2 }

theorem child_of_two_wildcards_is_missed :
    ¬GrantsAsWritten patternEngine (readPermission "/a/**/**/b") "/a/b" ⟨"content", "main"⟩ := by
  intro grants
  have refused : ¬(readPermission "/a/**/**/b").matchesPath patternEngine "/a/b" := by
    decide +kernel
  have letter (char : Char) : [char] ∈ tokensLanguage '/' Set.univ [.symbol char] :=
    ⟨[char], rfl, [], rfl, rfl⟩
  have empty : ∀ name ∈ ([] : List (List Char)), '/' ∉ name ∧ name ∈ freeTexts Set.univ := by simp
  refine refused (grants.path.mpr ⟨[['a'], ['b']], ?_, by decide⟩)
  exact .segment (letter 'a') (.wild (Nat.zero_le _) empty
    (.wild (Nat.zero_le _) empty (.segment (letter 'b') .nil)))

end RaisinDB.Access
