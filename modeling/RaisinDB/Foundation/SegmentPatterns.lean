import Mathlib
import RaisinDB.Foundation.SeparatedPaths

/-!
# Patterns of segments

A pattern is a list of parts.  A part is one segment, made of symbols and wildcards, or stands for
segments of any number from some least one on.  The texts of a pattern are the segments that fit it
with separators between them; they are counted here as languages, part by part.
-/

namespace RaisinDB.Foundation

open List

/-- What stands in one place of a segment. -/
inductive SegmentToken (α : Type*) where
  | anything
  | run
  | single
  | symbol (char : α)
  deriving DecidableEq

/-- A whole part of a pattern. -/
inductive PatternPart (α : Type*) where
  | wild (least : Nat)
  | segment (tokens : List (SegmentToken α))

variable {α : Type*} (sep : α) (free : Set α)

/-- The texts that `anything` may take. -/
def freeTexts : Language α := {text | ∀ char ∈ text, char ∈ free}

def SegmentToken.language : SegmentToken α → Language α
  | .anything => freeTexts free
  | .run => {text | sep ∉ text}
  | .single => {text | ∃ char, char ≠ sep ∧ text = [char]}
  | .symbol char => {[char]}

def tokensLanguage (tokens : List (SegmentToken α)) : Language α :=
  (tokens.map fun token => token.language sep free).prod

/-- The pieces of a path that are taken by the parts of a pattern, in order. -/
inductive Fits : List (PatternPart α) → List (List α) → Prop where
  | nil : Fits [] []
  | wild {least parts names pieces} (many : least ≤ names.length)
      (plain : ∀ name ∈ names, sep ∉ name ∧ name ∈ freeTexts free) (rest : Fits parts pieces) :
      Fits (.wild least :: parts) (names ++ pieces)
  | segment {tokens parts piece pieces} (taken : piece ∈ tokensLanguage sep free tokens)
      (rest : Fits parts pieces) : Fits (.segment tokens :: parts) (piece :: pieces)

/-- The texts of a pattern: pieces that fit it, with separators between them. -/
def pathTexts (parts : List (PatternPart α)) : Language α :=
  {text | ∃ pieces, Fits sep free parts pieces ∧ [sep].intercalate pieces = text}

/-- The same with a separator before each piece. -/
def followTexts (parts : List (PatternPart α)) : Language α :=
  {text | ∃ pieces, Fits sep free parts pieces ∧ below sep pieces = text}

/-- Names, at least so many, each behind a separator. -/
def namesFrom (least : Nat) : Language α :=
  {text | ∃ names : List (List α), least ≤ names.length ∧
    (∀ name ∈ names, sep ∉ name ∧ name ∈ freeTexts free) ∧ below sep names = text}

/-- The separator alone. -/
def sepText : Language α := {[sep]}

variable {sep free}

theorem mem_freeTexts {text : List α} :
    text ∈ freeTexts free ↔ ∀ char ∈ text, char ∈ free := Iff.rfl

theorem freeTexts_append {front back : List α} :
    front ++ back ∈ freeTexts free ↔ front ∈ freeTexts free ∧ back ∈ freeTexts free := by
  simp only [mem_freeTexts, mem_append, or_imp, forall_and]

theorem cons_mem_sepText_mul {text : List α} {language : Language α} :
    sep :: text ∈ sepText sep * language ↔ text ∈ language := by
  constructor
  · rintro ⟨_, rfl, back, mem, same⟩
    obtain ⟨-, rfl⟩ := cons.injEq _ _ _ _ ▸ same
    exact mem
  · exact fun mem => ⟨[sep], rfl, text, mem, rfl⟩

theorem mem_sepText_mul {text : List α} {language : Language α} :
    text ∈ sepText sep * language ↔ ∃ back ∈ language, sep :: back = text := by
  constructor
  · rintro ⟨_, rfl, back, mem, same⟩
    exact ⟨back, mem, same⟩
  · rintro ⟨back, mem, rfl⟩
    exact cons_mem_sepText_mul.mpr mem

theorem below_eq_cons_intercalate (sep : α) {pieces : List (List α)} (nonempty : pieces ≠ []) :
    below sep pieces = sep :: [sep].intercalate pieces := by
  induction pieces with
  | nil => exact absurd rfl nonempty
  | cons piece rest ih =>
    cases rest with
    | nil => simp [below, intercalate]
    | cons other rest =>
      rw [below_cons, ih (cons_ne_nil _ _)]
      simp [intercalate, intersperse]

/-! ## Parts in turn -/

theorem followTexts_nil : followTexts sep free [] = 1 := by
  ext text
  constructor
  · rintro ⟨_, ⟨⟩, rfl⟩
    exact Set.mem_singleton []
  · rintro ⟨⟩
    exact ⟨[], .nil, rfl⟩

theorem followTexts_segment (tokens : List (SegmentToken α)) (parts : List (PatternPart α)) :
    followTexts sep free (.segment tokens :: parts) =
      sepText sep * (tokensLanguage sep free tokens * followTexts sep free parts) := by
  ext text
  constructor
  · rintro ⟨_, ⟨⟩ | ⟨⟩ | @⟨_, _, piece, pieces, taken, rest⟩, rfl⟩
    exact cons_mem_sepText_mul.mpr (Language.append_mem_mul taken ⟨pieces, rest, rfl⟩)
  · rintro ⟨_, rfl, _, ⟨piece, taken, _, ⟨pieces, rest, rfl⟩, rfl⟩, rfl⟩
    exact ⟨piece :: pieces, .segment taken rest, rfl⟩

theorem followTexts_wild (least : Nat) (parts : List (PatternPart α)) :
    followTexts sep free (.wild least :: parts) =
      namesFrom sep free least * followTexts sep free parts := by
  ext text
  constructor
  · rintro ⟨_, ⟨⟩ | @⟨_, _, names, pieces, many, plain, rest⟩ | ⟨⟩, rfl⟩
    rw [below_append]
    exact Language.append_mem_mul ⟨names, many, plain, rfl⟩ ⟨pieces, rest, rfl⟩
  · rintro ⟨_, ⟨names, many, plain, rfl⟩, _, ⟨pieces, rest, rfl⟩, rfl⟩
    exact ⟨names ++ pieces, .wild many plain rest, below_append names pieces⟩

/-- A path that is not of no parts is read behind a separator. -/
theorem mem_pathTexts_iff {parts : List (PatternPart α)} (nonempty : parts ≠ []) {text : List α} :
    text ∈ pathTexts sep free parts ↔ sep :: text ∈ followTexts sep free parts := by
  constructor
  · rintro ⟨pieces, fits, rfl⟩
    by_cases none : pieces = []
    · -- what fits no piece also fits an empty one
      subst none
      refine ⟨[[]], ?_, rfl⟩
      generalize empty : ([] : List (List α)) = pieces at fits
      cases fits with
      | nil => exact absurd rfl nonempty
      | segment => cases empty
      | @wild least parts names pieces many plain rest =>
        obtain ⟨rfl, rfl⟩ := append_eq_nil_iff.mp empty.symm
        have plain : ∀ name ∈ [([] : List α)], sep ∉ name ∧ name ∈ freeTexts free := by
          simp [mem_freeTexts]
        exact .wild (many.trans (Nat.zero_le _)) plain rest
    · exact ⟨pieces, fits, below_eq_cons_intercalate sep none⟩
  · rintro ⟨pieces, fits, same⟩
    refine ⟨pieces, fits, ?_⟩
    have some : pieces ≠ [] := fun none => by simp [none] at same
    rw [below_eq_cons_intercalate sep some, cons.injEq] at same
    exact same.2

/-! ## Names -/

/-- The names of a text that may hold separators. -/
theorem below_splitOn [DecidableEq α] (sep : α) (text : List α) :
    below sep (text.splitOn sep) = sep :: text := by
  rw [below_eq_cons_intercalate sep (splitOn_ne_nil sep text), intercalate_splitOn]

theorem mem_below_of_mem {names : List (List α)} {name : List α} (mem : name ∈ names) {char : α}
    (inside : char ∈ name) : char ∈ below sep names :=
  mem_flatMap.mpr ⟨name, mem, mem_cons_of_mem sep inside⟩

theorem namesFrom_one (sepFree : sep ∈ free) :
    namesFrom sep free 1 = sepText sep * freeTexts free := by
  classical
  ext text
  rw [mem_sepText_mul]
  constructor
  · rintro ⟨names, many, plain, rfl⟩
    have some : names ≠ [] := fun none => by simp [none] at many
    have all : ∀ char ∈ below sep names, char ∈ free := by
      intro char mem
      obtain ⟨name, inside, mem⟩ := mem_flatMap.mp mem
      rcases mem_cons.mp mem with rfl | mem
      · exact sepFree
      · exact (plain name inside).2 char mem
    refine ⟨_, ?_, (below_eq_cons_intercalate sep some).symm⟩
    exact fun char mem => all char (below_eq_cons_intercalate sep some ▸ mem_cons_of_mem sep mem)
  · rintro ⟨back, mem, rfl⟩
    refine ⟨back.splitOn sep, length_pos_iff.mpr (splitOn_ne_nil sep back), ?_,
      below_splitOn sep back⟩
    intro name inside
    refine ⟨not_mem_of_mem_splitOn inside, fun char within => ?_⟩
    have : char ∈ sep :: back := below_splitOn sep back ▸ mem_below_of_mem inside within
    rcases mem_cons.mp this with rfl | within
    · exact sepFree
    · exact mem char within

/-- No name at all, or at least one. -/
theorem namesFrom_zero (sepFree : sep ∈ free) :
    namesFrom sep free 0 = 1 + sepText sep * freeTexts free := by
  rw [← namesFrom_one sepFree]
  ext text
  constructor
  · rintro ⟨names, -, plain, rfl⟩
    cases names with
    | nil => exact .inl (Set.mem_singleton [])
    | cons name rest => exact .inr ⟨name :: rest, by simp, plain, rfl⟩
  · rintro (rfl | ⟨names, -, plain, rfl⟩)
    · exact ⟨[], by simp, by simp, rfl⟩
    · exact ⟨names, by simp, plain, rfl⟩

/-! ## Stricter patterns -/

theorem freeTexts_mono {some : Set α} (fewer : some ⊆ free) : freeTexts some ≤ freeTexts free :=
  fun _ mem char inside => fewer (mem char inside)

theorem tokensLanguage_mono {some : Set α} (fewer : some ⊆ free) (tokens : List (SegmentToken α)) :
    tokensLanguage sep some tokens ≤ tokensLanguage sep free tokens := by
  induction tokens with
  | nil => exact le_rfl
  | cons token rest ih =>
    have first : token.language sep some ≤ token.language sep free := by
      cases token with
      | anything => exact freeTexts_mono fewer
      | run | single | symbol => exact le_rfl
    simpa only [tokensLanguage, map_cons, prod_cons] using mul_le_mul' first ih

theorem tokensLanguage_within {some : Set α} (tokens : List (SegmentToken α)) {text : List α}
    (mem : text ∈ tokensLanguage sep free tokens) (within : text ∈ freeTexts some) :
    text ∈ tokensLanguage sep some tokens := by
  induction tokens generalizing text with
  | nil => exact mem
  | cons token rest ih =>
    rw [tokensLanguage, map_cons, prod_cons] at mem ⊢
    obtain ⟨front, first, back, later, rfl⟩ := mem
    obtain ⟨withinFront, withinBack⟩ := freeTexts_append.mp within
    refine Language.append_mem_mul ?_ (ih later withinBack)
    cases token with
    | anything => exact withinFront
    | run | single | symbol => exact first

/-- What is free matters only where it is taken. -/
theorem Fits.within {some : Set α} {parts : List (PatternPart α)} {pieces : List (List α)}
    (fits : Fits sep free parts pieces) (within : ∀ piece ∈ pieces, piece ∈ freeTexts some) :
    Fits sep some parts pieces := by
  induction fits with
  | nil => exact .nil
  | wild many plain _ ih =>
    obtain ⟨names, later⟩ := forall_mem_append.mp within
    exact .wild many (fun name mem => ⟨(plain name mem).1, names name mem⟩) (ih later)
  | segment taken _ ih =>
    obtain ⟨first, later⟩ := forall_mem_cons.mp within
    exact .segment (tokensLanguage_within _ taken first) (ih later)

theorem mem_intercalate_of_mem {pieces : List (List α)} {piece : List α} (inside : piece ∈ pieces)
    {char : α} (mem : char ∈ piece) : char ∈ [sep].intercalate pieces := by
  induction pieces with
  | nil => exact (not_mem_nil inside).elim
  | cons first rest ih =>
    by_cases last : rest = []
    · obtain rfl : piece = first := by simpa [last] using inside
      rw [last, intercalate_singleton]
      exact mem
    · rw [intercalate_cons_of_ne_nil last, mem_append, mem_append]
      rcases mem_cons.mp inside with rfl | inside
      · exact .inl (.inl mem)
      · exact .inr (ih inside)

theorem pathTexts_within {some : Set α} {parts : List (PatternPart α)} {text : List α}
    (mem : text ∈ pathTexts sep free parts) (within : text ∈ freeTexts some) :
    text ∈ pathTexts sep some parts := by
  obtain ⟨pieces, fits, rfl⟩ := mem
  exact ⟨pieces, fits.within fun piece inside char mem =>
    within char (mem_intercalate_of_mem inside mem), rfl⟩

/-- A part asks for no more than another. -/
inductive PatternPart.Looser : PatternPart α → PatternPart α → Prop where
  | wild {least more} (le : least ≤ more) : Looser (.wild least) (.wild more)
  | segment (tokens) : Looser (.segment tokens) (.segment tokens)

/-- What fits a stricter pattern fits the looser one. -/
theorem Fits.looser {some : Set α} (fewer : some ⊆ free) {loose strict : List (PatternPart α)}
    (parts : Forall₂ PatternPart.Looser loose strict) {pieces : List (List α)}
    (fits : Fits sep some strict pieces) : Fits sep free loose pieces := by
  induction fits generalizing loose with
  | nil => cases parts; exact .nil
  | wild many plain _ ih =>
    obtain _ | ⟨⟨le⟩, rest⟩ := parts
    exact .wild (le.trans many)
      (fun name mem => ⟨(plain name mem).1, freeTexts_mono fewer (plain name mem).2⟩) (ih rest)
  | segment taken _ ih =>
    obtain _ | ⟨⟨⟩, rest⟩ := parts
    exact .segment (tokensLanguage_mono fewer _ taken) (ih rest)

theorem pathTexts_looser {some : Set α} (fewer : some ⊆ free) {loose strict : List (PatternPart α)}
    (parts : Forall₂ PatternPart.Looser loose strict) :
    pathTexts sep some strict ≤ pathTexts sep free loose :=
  fun _ ⟨pieces, fits, same⟩ => ⟨pieces, fits.looser fewer parts, same⟩

end RaisinDB.Foundation
