import RaisinDB.Foundation.FirstFit
import Mathlib

/-!
# Glob patterns

A star tries the tails of a segment at every byte, and a byte inside a character breaks the match.
So a match is answered as patterns are meant wherever no star has to pass over a character of
several bytes.
-/

namespace RaisinDB.Packages

open List RaisinDB.Foundation

/-! ## The matcher -/

/-- A slice may begin behind the character only if the next byte begins a character. -/
def oneByte (char : Char) : Bool := char.utf8Size == 1

/-- Without a value the match has panicked at a slice. -/
def segmentMatches : List Char → List Char → Option Bool
  | [], segment => some segment.isEmpty
  | char :: rest, segment =>
      if char = '*' then
        if rest.isEmpty then some true else firstTail (segmentMatches rest) oneByte segment
      else match segment with
        | [] => some false
        | symbol :: tail =>
            if char = '?' ∨ symbol = char then segmentMatches rest tail else some false

def globMatchesParts : List (List Char) → List (List Char) → Option Bool
  | [], path => some path.isEmpty
  | part :: rest, path =>
      if part = ['*', '*'] then
        if rest.isEmpty then some true else firstTail (globMatchesParts rest) (fun _ => true) path
      else match path with
        | [] => some false
        | segment :: tail =>
            match segmentMatches part segment with
            | none => none
            | some false => some false
            | some true => globMatchesParts rest tail

def patternParts (pattern : String) : List (List Char) := pattern.toList.splitOn '/'

def pathParts (path : String) : List (List Char) :=
  (path.toList.splitOn '/').filter fun segment => !segment.isEmpty

def globMatches (pattern path : String) : Option Bool :=
  globMatchesParts (patternParts pattern) (pathParts path)

theorem segmentMatches_last (segment : List Char) : segmentMatches ['*'] segment = some true := rfl

theorem segmentMatches_star {rest : List Char} (more : rest ≠ []) (segment : List Char) :
    segmentMatches ('*' :: rest) segment = firstTail (segmentMatches rest) oneByte segment := by
  cases rest with
  | nil => exact absurd rfl more
  | cons => rfl

theorem segmentMatches_char_nil {char : Char} (plain : char ≠ '*') (rest : List Char) :
    segmentMatches (char :: rest) [] = some false := if_neg plain

theorem segmentMatches_char {char : Char} (plain : char ≠ '*') (rest : List Char) (symbol : Char)
    (tail : List Char) : segmentMatches (char :: rest) (symbol :: tail) =
      if char = '?' ∨ symbol = char then segmentMatches rest tail else some false := if_neg plain

theorem globMatchesParts_last (path : List (List Char)) :
    globMatchesParts [['*', '*']] path = some true := rfl

theorem globMatchesParts_any {rest : List (List Char)} (more : rest ≠ [])
    (path : List (List Char)) : globMatchesParts (['*', '*'] :: rest) path =
      firstTail (globMatchesParts rest) (fun _ => true) path := by
  cases rest with
  | nil => exact absurd rfl more
  | cons => rfl

theorem globMatchesParts_nil {part : List Char} (plain : part ≠ ['*', '*'])
    (rest : List (List Char)) : globMatchesParts (part :: rest) [] = some false := if_neg plain

theorem globMatchesParts_none {part segment : List Char} (plain : part ≠ ['*', '*'])
    (tested : segmentMatches part segment = none) (rest tail : List (List Char)) :
    globMatchesParts (part :: rest) (segment :: tail) = none := by
  rw [globMatchesParts.eq_def]
  dsimp only
  rw [if_neg plain, tested]

theorem globMatchesParts_some {part segment : List Char} {taken : Bool}
    (plain : part ≠ ['*', '*']) (tested : segmentMatches part segment = some taken)
    (rest tail : List (List Char)) : globMatchesParts (part :: rest) (segment :: tail) =
      if taken then globMatchesParts rest tail else some false := by
  rw [globMatchesParts.eq_def]
  dsimp only
  rw [if_neg plain, tested]
  cases taken <;> rfl

/-! ## What patterns mean -/

/-- A star stands for any characters and a question mark for one. -/
inductive SegmentFits : List Char → List Char → Prop where
  | nil : SegmentFits [] []
  | star {rest back : List Char} (front : List Char) (fits : SegmentFits rest back) :
      SegmentFits ('*' :: rest) (front ++ back)
  | single {rest tail : List Char} (symbol : Char) (fits : SegmentFits rest tail) :
      SegmentFits ('?' :: rest) (symbol :: tail)
  | same {char : Char} {rest tail : List Char} (plain : char ≠ '*') (fits : SegmentFits rest tail) :
      SegmentFits (char :: rest) (char :: tail)

/-- Two stars alone stand for any number of segments. -/
inductive PathFits : List (List Char) → List (List Char) → Prop where
  | nil : PathFits [] []
  | any {rest back : List (List Char)} (front : List (List Char)) (fits : PathFits rest back) :
      PathFits (['*', '*'] :: rest) (front ++ back)
  | segment {part segment : List Char} {rest tail : List (List Char)} (plain : part ≠ ['*', '*'])
      (taken : SegmentFits part segment) (fits : PathFits rest tail) :
      PathFits (part :: rest) (segment :: tail)

/-- The pattern takes the path, both split as the code splits them: an empty part of the pattern is a
part that only an empty segment fits, and empty segments of the path are dropped. -/
def GlobDescribes (pattern path : String) : Prop := PathFits (patternParts pattern) (pathParts path)

theorem segmentFits_nil_iff {segment : List Char} : SegmentFits [] segment ↔ segment = [] := by
  constructor
  · rintro ⟨⟩
    rfl
  · rintro rfl
    exact .nil

theorem segmentFits_star_iff {rest segment : List Char} : SegmentFits ('*' :: rest) segment ↔
    ∃ front back, segment = front ++ back ∧ SegmentFits rest back := by
  constructor
  · intro fits
    cases fits with
    | star front fits => exact ⟨front, _, rfl, fits⟩
    | same plain => exact absurd rfl plain
  · rintro ⟨front, back, rfl, fits⟩
    exact .star front fits

theorem segmentFits_char_iff {char : Char} {rest segment : List Char} (plain : char ≠ '*') :
    SegmentFits (char :: rest) segment ↔
      ∃ symbol tail, segment = symbol :: tail ∧ (char = '?' ∨ symbol = char) ∧
        SegmentFits rest tail := by
  constructor
  · intro fits
    cases fits with
    | star => exact absurd rfl plain
    | single symbol fits => exact ⟨symbol, _, rfl, .inl rfl, fits⟩
    | same _ fits => exact ⟨char, _, rfl, .inr rfl, fits⟩
  · rintro ⟨symbol, tail, rfl, rfl | rfl, fits⟩
    · exact .single symbol fits
    · exact .same plain fits

theorem pathFits_nil_iff {path : List (List Char)} : PathFits [] path ↔ path = [] := by
  constructor
  · rintro ⟨⟩
    rfl
  · rintro rfl
    exact .nil

theorem pathFits_any_iff {rest path : List (List Char)} : PathFits (['*', '*'] :: rest) path ↔
    ∃ front back, path = front ++ back ∧ PathFits rest back := by
  constructor
  · intro fits
    cases fits with
    | any front fits => exact ⟨front, _, rfl, fits⟩
    | segment plain => exact absurd rfl plain
  · rintro ⟨front, back, rfl, fits⟩
    exact .any front fits

theorem pathFits_segment_iff {part : List Char} {rest path : List (List Char)}
    (plain : part ≠ ['*', '*']) : PathFits (part :: rest) path ↔
      ∃ segment tail, path = segment :: tail ∧ SegmentFits part segment ∧ PathFits rest tail := by
  constructor
  · intro fits
    cases fits with
    | any => exact absurd rfl plain
    | segment _ taken fits => exact ⟨_, _, rfl, taken, fits⟩
  · rintro ⟨segment, tail, rfl, taken, fits⟩
    exact .segment plain taken fits

/-! ## Answers are right -/

theorem segmentMatches_answer {pattern segment : List Char} {answer : Bool}
    (found : segmentMatches pattern segment = some answer) :
    answer = true ↔ SegmentFits pattern segment := by
  induction pattern generalizing segment answer with
  | nil =>
    cases found
    rw [List.isEmpty_iff, segmentFits_nil_iff]
  | cons char rest ih =>
    by_cases star : char = '*'
    · subst star
      rw [segmentFits_star_iff]
      by_cases last : rest = []
      · subst last
        rw [segmentMatches_last] at found
        cases found
        exact iff_of_true rfl ⟨segment, [], (append_nil _).symm, .nil⟩
      · rw [segmentMatches_star last] at found
        exact firstTail_answer (fun back answer => ih) found
    · rw [segmentFits_char_iff star]
      cases segment with
      | nil =>
        rw [segmentMatches_char_nil star] at found
        cases found
        simp
      | cons symbol tail =>
        rw [segmentMatches_char star] at found
        by_cases same : char = '?' ∨ symbol = char
        · rw [if_pos same] at found
          rw [ih found]
          simp [same]
        · rw [if_neg same] at found
          cases found
          simp [same]

theorem globMatchesParts_answer {parts path : List (List Char)} {answer : Bool}
    (found : globMatchesParts parts path = some answer) :
    answer = true ↔ PathFits parts path := by
  induction parts generalizing path answer with
  | nil =>
    cases found
    rw [List.isEmpty_iff, pathFits_nil_iff]
  | cons part rest ih =>
    by_cases any : part = ['*', '*']
    · subst any
      rw [pathFits_any_iff]
      by_cases last : rest = []
      · subst last
        rw [globMatchesParts_last] at found
        cases found
        exact iff_of_true rfl ⟨path, [], (append_nil _).symm, .nil⟩
      · rw [globMatchesParts_any last] at found
        exact firstTail_answer (fun back answer => ih) found
    · rw [pathFits_segment_iff any]
      cases path with
      | nil =>
        rw [globMatchesParts_nil any] at found
        cases found
        simp
      | cons segment tail =>
        cases tested : segmentMatches part segment with
        | none =>
          rw [globMatchesParts_none any tested] at found
          cases found
        | some taken =>
          have here := segmentMatches_answer tested
          rw [globMatchesParts_some any tested] at found
          cases taken with
          | false =>
            cases found
            refine iff_of_false Bool.false_ne_true ?_
            rintro ⟨_, _, joined, fits, _⟩
            cases joined
            exact Bool.false_ne_true (here.mpr fits)
          | true =>
            rw [ih found]
            simp [here.mp rfl]

/-! ## Matches that come to an answer -/

/-- The characters that a star takes before the rest fits, or all if it fits nowhere, are of one
byte. -/
def SegmentSafe : List Char → List Char → Prop
  | [], _ => True
  | char :: rest, segment =>
      if char = '*' then
        rest = [] ∨ ∀ front back, segment = front ++ back → Tried (SegmentFits rest) front back →
          (∀ symbol ∈ front, oneByte symbol = true) ∧ (SegmentFits rest back → SegmentSafe rest back)
      else ∀ symbol tail, segment = symbol :: tail → (char = '?' ∨ symbol = char) →
        SegmentSafe rest tail

/-- So it is for every segment that is compared.  Two stars leave ever shorter paths to the rest,
up to the first that fits. -/
def PartsSafe : List (List Char) → List (List Char) → Prop
  | [], _ => True
  | part :: rest, path =>
      if part = ['*', '*'] then
        rest = [] ∨ ∀ front back, path = front ++ back → Tried (PathFits rest) front back →
          PartsSafe rest back
      else ∀ segment tail, path = segment :: tail → SegmentSafe part segment ∧
        (SegmentFits part segment → PartsSafe rest tail)

def GlobSafe (pattern path : String) : Prop := PartsSafe (patternParts pattern) (pathParts path)

theorem segmentSafe_of_oneByte (pattern : List Char) {segment : List Char}
    (all : ∀ symbol ∈ segment, oneByte symbol = true) : SegmentSafe pattern segment := by
  induction pattern generalizing segment with
  | nil => trivial
  | cons char rest ih =>
    rw [SegmentSafe]
    split
    · refine .inr fun front back joined _ => ?_
      subst joined
      exact ⟨fun symbol mem => all symbol (mem_append_left _ mem),
        fun _ => ih fun symbol mem => all symbol (mem_append_right _ mem)⟩
    · rintro symbol tail rfl -
      exact ih fun symbol mem => all symbol (mem_cons_of_mem _ mem)

/-- Where a pattern fits further on but not here, it is turned down before its first star. -/
theorem segmentSafe_of_later {pattern front back : List Char} (fits : SegmentFits pattern back)
    (unfit : ¬ SegmentFits pattern (front ++ back)) : SegmentSafe pattern (front ++ back) := by
  induction pattern generalizing front back with
  | nil => trivial
  | cons char rest ih =>
    rw [SegmentSafe]
    split
    · next star =>
      subst star
      obtain ⟨skipped, tail, rfl, later⟩ := segmentFits_star_iff.mp fits
      exact absurd (segmentFits_star_iff.mpr
        ⟨front ++ skipped, tail, (append_assoc _ _ _).symm, later⟩) unfit
    · next plain =>
      intro symbol tail joined same
      obtain ⟨symbol', tail', rfl, same', later⟩ := (segmentFits_char_iff plain).mp fits
      cases front with
      | nil => exact absurd fits unfit
      | cons first front =>
        obtain ⟨rfl, rfl⟩ := cons.inj joined
        have shifted : front ++ symbol' :: tail' = (front ++ [symbol']) ++ tail' := by simp
        change SegmentSafe rest (front ++ symbol' :: tail')
        rw [shifted]
        refine ih later fun here => unfit ?_
        rw [← shifted] at here
        exact (segmentFits_char_iff plain).mpr ⟨first, _, rfl, same, here⟩

/-- If no tail fits, all of them are tried. -/
theorem tried_whole {rest front back : List Char} (tried : Tried (SegmentFits rest) front back)
    (nowhere : ¬ ∃ front' back', back = front' ++ back' ∧ SegmentFits rest back') :
    Tried (SegmentFits rest) (front ++ back) [] := by
  intro front' back' joined _ fits
  rw [append_nil] at joined
  by_cases shorter : front'.length < front.length
  · exact tried front' back' joined shorter fits
  · have longer : front <+: front' := prefix_of_prefix_length_le (prefix_append _ _)
      (joined ▸ prefix_append _ _) (Nat.not_lt.mp shorter)
    obtain ⟨skipped, rfl⟩ := longer
    rw [append_assoc] at joined
    exact nowhere ⟨skipped, back', (append_cancel_left joined).symm, fits⟩

theorem segmentMatches_isSome_iff (pattern segment : List Char) :
    (segmentMatches pattern segment).isSome ↔ SegmentSafe pattern segment := by
  induction pattern generalizing segment with
  | nil => exact iff_of_true rfl trivial
  | cons char rest ih =>
    rw [SegmentSafe]
    by_cases star : char = '*'
    · subst star
      rw [if_pos rfl]
      by_cases last : rest = []
      · subst last
        exact iff_of_true rfl (.inl rfl)
      · rw [segmentMatches_star last,
          firstTail_isSome_iff fun back answer => segmentMatches_answer, or_iff_right last]
        constructor
        · intro reached front back joined tried
          obtain ⟨all, answers⟩ := reached front back joined tried
          exact ⟨all, fun _ => (ih back).mp answers⟩
        · intro reached front back joined tried
          obtain ⟨all, deep⟩ := reached front back joined tried
          refine ⟨all, (ih back).mpr ?_⟩
          by_cases here : SegmentFits rest back
          · exact deep here
          by_cases later : ∃ front' back', back = front' ++ back' ∧ SegmentFits rest back'
          · obtain ⟨front', back', rfl, fits⟩ := later
            exact segmentSafe_of_later fits here
          · have whole := (reached (front ++ back) [] (by rw [joined, append_nil])
              (tried_whole tried later)).1
            exact segmentSafe_of_oneByte rest fun symbol mem =>
              whole symbol (mem_append_right _ mem)
    · rw [if_neg star]
      cases segment with
      | nil =>
        rw [segmentMatches_char_nil star]
        exact iff_of_true rfl nofun
      | cons symbol tail =>
        rw [segmentMatches_char star]
        by_cases same : char = '?' ∨ symbol = char
        · rw [if_pos same, ih]
          constructor
          · rintro safe symbol' tail' ⟨⟩ -
            exact safe
          · exact fun reached => reached symbol tail rfl same
        · rw [if_neg same]
          refine iff_of_true rfl ?_
          rintro symbol' tail' ⟨⟩ other
          exact absurd other same

theorem globMatchesParts_isSome_iff (parts path : List (List Char)) :
    (globMatchesParts parts path).isSome ↔ PartsSafe parts path := by
  induction parts generalizing path with
  | nil => exact iff_of_true rfl trivial
  | cons part rest ih =>
    rw [PartsSafe]
    by_cases any : part = ['*', '*']
    · subst any
      rw [if_pos rfl]
      by_cases last : rest = []
      · subst last
        exact iff_of_true rfl (.inl rfl)
      · rw [globMatchesParts_any last,
          firstTail_isSome_iff fun back answer => globMatchesParts_answer, or_iff_right last]
        constructor
        · intro reached front back joined tried
          exact (ih back).mp (reached front back joined tried).2
        · intro reached front back joined tried
          exact ⟨fun _ _ => rfl, (ih back).mpr (reached front back joined tried)⟩
    · rw [if_neg any]
      cases path with
      | nil =>
        rw [globMatchesParts_nil any]
        exact iff_of_true rfl nofun
      | cons segment tail =>
        cases tested : segmentMatches part segment with
        | none =>
          rw [globMatchesParts_none any tested]
          refine iff_of_false Bool.false_ne_true fun reached => ?_
          have answers := (segmentMatches_isSome_iff part segment).mpr (reached segment tail rfl).1
          rw [tested] at answers
          exact Bool.false_ne_true answers
        | some taken =>
          have here := segmentMatches_answer tested
          have safe := (segmentMatches_isSome_iff part segment).mp (by rw [tested]; rfl)
          rw [globMatchesParts_some any tested]
          cases taken with
          | false =>
            refine iff_of_true rfl ?_
            rintro segment' tail' ⟨⟩
            exact ⟨safe, fun fits => absurd (here.mpr fits) Bool.false_ne_true⟩
          | true =>
            rw [if_pos rfl, ih]
            constructor
            · rintro deep segment' tail' ⟨⟩
              exact ⟨safe, fun _ => deep⟩
            · exact fun reached => (reached segment tail rfl).2 (here.mp rfl)

/-- A match answers as the pattern is meant, and it answers when it is safe. -/
theorem globMatches_answers_iff (pattern path : String) :
    (∃ answer, globMatches pattern path = some answer ∧
      (answer = true ↔ GlobDescribes pattern path)) ↔ GlobSafe pattern path := by
  rw [GlobSafe, ← globMatchesParts_isSome_iff, Option.isSome_iff_exists]
  constructor
  · rintro ⟨answer, found, _⟩
    exact ⟨answer, found⟩
  · rintro ⟨answer, found⟩
    exact ⟨answer, found, globMatchesParts_answer found⟩

example : globMatches "drafts/**/*.md" "drafts/a/b.md" = some true := by decide

end RaisinDB.Packages
