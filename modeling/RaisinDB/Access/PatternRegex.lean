import Mathlib
import RaisinDB.Access.RowFilter
import RaisinDB.Foundation.SegmentPatterns

/-!
# The regex of a pattern

A permission's pattern becomes a regex in three rewrites of its text.  Its segments say what comes
out: the pieces of the regex in order, and the paths that it matches.
-/

namespace RaisinDB.Access

open List Foundation

/-! ## Pieces of a regex -/

/-- What a pattern's regex is made of. -/
inductive RegexItem where
  | token (place : SegmentToken Char)
  | lead
  | between
  | trail
  deriving DecidableEq

/-- A dot takes no newline. -/
def dots : Set Char := {char | char ≠ '\n'}

def slash : Language Char := sepText '/'

def RegexItem.language : RegexItem → Language Char
  | .token place => place.language '/' dots
  | .lead => 1 + freeTexts dots * slash
  | .between => slash * freeTexts dots * slash + slash
  | .trail => 1 + slash * freeTexts dots

def itemsLanguage (items : List RegexItem) : Language Char := (items.map RegexItem.language).prod

def RegexItem.text : RegexItem → List Char
  | .token .anything => ".*".toList
  | .token .run => "[^/]*".toList
  | .token .single => "[^/]".toList
  | .token (.symbol char) => if char ∈ regexSpecials then ['\\', char] else [char]
  | .lead => "(.*/)?".toList
  | .between => "(/.*/|/)".toList
  | .trail => "(/.*)?".toList

def regexText (items : List RegexItem) : String :=
  String.ofList ("^".toList ++ items.flatMap RegexItem.text ++ "$".toList)

/-- No symbol is a wildcard. -/
def RegexItem.Plain : RegexItem → Prop
  | .token (.symbol char) => char ≠ '*' ∧ char ≠ '?'
  | _ => True

/-- The regex crate keeps to its syntax: a regex of these items compiles, and matches its
texts. -/
def Engine.ImplementsRegex {F : Type} (engine : Engine F) : Prop :=
  ∀ items : List RegexItem, (∀ item ∈ items, item.Plain) →
    ∃ isMatch, engine.regex (regexText items) = some isMatch ∧
      ∀ text : String, isMatch text ↔ text.toList ∈ itemsLanguage items

/-! ## The segments of a pattern -/

/-- What stands in a segment; two stars go together. -/
def segmentTokens : List Char → List (SegmentToken Char)
  | [] => []
  | '*' :: '*' :: rest => .anything :: segmentTokens rest
  | char :: rest =>
      (if char = '*' then .run else if char = '?' then .single else .symbol char) ::
        segmentTokens rest

def wildSegment : List Char := ['*', '*']

/-- The segments of a pattern; one of no text is `**`. -/
def patternSegments (pattern : String) : List (List Char) :=
  let normalized := pattern.toList.dropWhile (· = '/')
  if normalized = [] then [wildSegment] else normalized.splitOn '/'

def segmentItems (segment : List Char) : List RegexItem := (segmentTokens segment).map .token

/-- The items behind a segment that has been written. -/
def tailItems : List (List Char) → List RegexItem
  | [] => []
  | [segment] =>
      if segment = wildSegment then [.trail] else .token (.symbol '/') :: segmentItems segment
  | segment :: next :: rest =>
      if segment = wildSegment then .between :: (segmentItems next ++ tailItems rest)
      else .token (.symbol '/') :: (segmentItems segment ++ tailItems (next :: rest))

def headItems : List (List Char) → List RegexItem
  | [] => []
  | segment :: rest => segmentItems segment ++ tailItems rest

def patternItems : List (List Char) → List RegexItem
  | segment :: next :: rest =>
      if segment = wildSegment then .lead :: headItems (next :: rest)
      else headItems (segment :: next :: rest)
  | segments => headItems segments

/-! ## The rewrites of the text -/

/-- The marker for the end of a text. -/
def markTrail (marked : List Char) : List Char :=
  if "/**".toList.isSuffixOf marked then marked.take (marked.length - 3) ++ trail else marked

theorem markRecursive_append {front : List Char} (plain : '/' ∉ front) (rest : List Char) :
    markRecursive (front ++ rest) = front ++ markRecursive rest := by
  induction front with
  | nil => rfl
  | cons char front ih =>
    obtain ⟨other, plain⟩ := not_or.mp (mt mem_cons.mpr plain)
    rw [cons_append, markRecursive, ih plain, cons_append]
    rintro rest rfl
    exact absurd rfl other

theorem markRecursive_slash {rest : List Char} (other : ¬ "**/".toList <+: rest) :
    markRecursive ('/' :: rest) = '/' :: markRecursive rest := by
  rw [markRecursive]
  rintro later - rfl
  exact other ⟨later, rfl⟩

theorem markRecursive_wild (rest : List Char) :
    markRecursive ('/' :: (wildSegment ++ '/' :: rest)) = recursive ++ markRecursive rest := by
  rw [wildSegment, cons_append, cons_append, nil_append, markRecursive]

theorem markTrail_wild : markTrail ('/' :: wildSegment) = trail := by decide

theorem markTrail_nil : markTrail [] = [] := by decide

theorem markTrail_cons {char : Char} {rest : List Char}
    (other : char :: rest ≠ '/' :: wildSegment) :
    markTrail (char :: rest) = char :: markTrail rest := by
  have ends : "/**".toList <:+ char :: rest ↔ "/**".toList <:+ rest := by
    rw [suffix_cons_iff, or_iff_right]
    exact fun same => other same.symm
  by_cases within : "/**".toList <:+ rest
  · have long : 3 ≤ rest.length := within.length_le
    rw [markTrail, markTrail, if_pos (isSuffixOf_iff_suffix.mpr within),
      if_pos (isSuffixOf_iff_suffix.mpr (ends.mpr within)), length_cons,
      Nat.sub_add_comm long, take_succ_cons, cons_append]
  · rw [markTrail, markTrail, if_neg (mt isSuffixOf_iff_suffix.mp within),
      if_neg (mt isSuffixOf_iff_suffix.mp (mt ends.mp within))]

theorem markTrail_append {front : List Char} (plain : '/' ∉ front) (rest : List Char) :
    markTrail (front ++ rest) = front ++ markTrail rest := by
  induction front with
  | nil => rfl
  | cons char front ih =>
    obtain ⟨other, plain⟩ := not_or.mp (mt mem_cons.mpr plain)
    rw [cons_append, markTrail_cons, ih plain, cons_append]
    exact fun same => other (cons.inj same).1.symm

/-- Both rewrites behind the start of a pattern. -/
def markRest (text : List Char) : List Char := markTrail (markRecursive text)

theorem markRest_append {front : List Char} (plain : '/' ∉ front) (rest : List Char) :
    markRest (front ++ rest) = front ++ markRest rest := by
  rw [markRest, markRecursive_append plain, markTrail_append plain, markRest]

theorem markRest_wild : markRest ('/' :: wildSegment) = trail := by decide

theorem markRest_between (rest : List Char) :
    markRest ('/' :: (wildSegment ++ '/' :: rest)) = recursive ++ markRest rest := by
  have plain : '/' ∉ recursive := by decide
  rw [markRest, markRecursive_wild, markTrail_append plain, markRest]

theorem head_markRecursive_slash (rest : List Char) :
    (markRecursive ('/' :: rest)).head? ≠ some '*' := by
  by_cases wild : "**/".toList <+: rest
  · obtain ⟨later, rfl⟩ := wild
    have text : "**/".toList ++ later = wildSegment ++ '/' :: later := by simp [wildSegment]
    rw [text, markRecursive_wild, head?_append_of_ne_nil _ (by decide)]
    decide
  · simp [markRecursive_slash wild]

theorem head_markTrail {text : List Char} (other : text.head? ≠ some '*') :
    (markTrail text).head? ≠ some '*' := by
  cases text with
  | nil => simp [markTrail_nil]
  | cons char rest =>
    by_cases wild : char :: rest = '/' :: wildSegment
    · rw [wild, markTrail_wild]
      decide
    · rw [markTrail_cons wild]
      exact other

/-- What comes behind a segment is no star. -/
theorem head_markRest_below (later : List (List Char)) :
    (markRest (below '/' later)).head? ≠ some '*' := by
  cases later with
  | nil => decide
  | cons segment rest => exact head_markTrail (head_markRecursive_slash _)

/-- Up to a mark that a text does not hold. -/
theorem forall_ne_of_not_mem {mark : Char} {text : List Char} (free : mark ∉ text) :
    ∀ char ∈ text, decide (char ≠ mark) = true := by
  rintro char mem
  exact decide_eq_true fun same => free (same ▸ mem)

/-- Only the whole segment `**` stands before a separator as two stars. -/
theorem wildSegment_of_starts {segment : List Char} (plain : '/' ∉ segment)
    (later : List (List Char)) (starts : "**/".toList <+: segment ++ below '/' later) :
    segment = wildSegment := by
  obtain ⟨rest, same⟩ := starts
  have start : (segment ++ below '/' later).takeWhile (· ≠ '/') = segment := by
    rw [takeWhile_append_of_pos (forall_ne_of_not_mem plain)]
    cases later <;> simp
  rw [← same] at start
  exact start.symm.trans (by simp [wildSegment])

theorem markRest_segment {segment : List Char} (plain : '/' ∉ segment)
    (other : segment ≠ wildSegment) (later : List (List Char)) :
    markRest ('/' :: (segment ++ below '/' later)) =
      '/' :: (segment ++ markRest (below '/' later)) := by
  have single := mt (wildSegment_of_starts plain later) other
  have star : (markRecursive (below '/' later)).head? ≠ some '*' := by
    cases later with
    | nil => decide
    | cons segment rest => exact head_markRecursive_slash _
  have tail : '/' :: (segment ++ markRecursive (below '/' later)) ≠ '/' :: wildSegment := by
    intro same
    have same := (cons.inj same).2
    cases marked : markRecursive (below '/' later) with
    | nil => exact other (by rwa [marked, append_nil] at same)
    | cons char rest =>
      have mem : char ∈ wildSegment := same ▸ mem_append_right _ (marked ▸ mem_cons_self)
      have : char = '*' := by simpa [wildSegment] using mem
      exact star (by rw [marked, this, head?_cons])
  rw [markRest, markRecursive_slash single, markRecursive_append plain, markTrail_cons tail,
    markTrail_append plain, markRest]

/-! ## The regex of the markers -/

theorem takeWhile_marker {marker rest : List Char} (plain : '\x00' ∉ marker) :
    (marker ++ '\x00' :: rest).takeWhile (· ≠ '\x00') = marker := by
  rw [takeWhile_append_of_pos (forall_ne_of_not_mem plain)]
  simp

theorem dropWhile_marker {marker rest : List Char} (plain : '\x00' ∉ marker) :
    (marker ++ '\x00' :: rest).dropWhile (· ≠ '\x00') = '\x00' :: rest := by
  rw [dropWhile_append_of_pos (forall_ne_of_not_mem plain)]
  simp

theorem regexBody_marker (marker rest : List Char) (plain : '\x00' ∉ marker) :
    regexBody ('\x00' :: (marker ++ '\x00' :: rest)) = markerRegex marker ++ regexBody rest := by
  rw [regexBody, if_pos rfl, takeWhile_marker plain, dropWhile_marker plain, drop_succ_cons,
    drop_zero]
  simp

theorem regexBody_lead (rest : List Char) :
    regexBody (lead ++ rest) = RegexItem.lead.text ++ regexBody rest :=
  regexBody_marker "LEAD".toList rest (by decide)

theorem regexBody_recursive (rest : List Char) :
    regexBody (recursive ++ rest) = RegexItem.between.text ++ regexBody rest :=
  regexBody_marker "RECURSIVE".toList rest (by decide)

theorem regexBody_nil : regexBody [] = [] := by rw [regexBody]

theorem regexBody_trail : regexBody trail = RegexItem.trail.text := by
  have marked := regexBody_marker "TRAIL".toList [] (by decide)
  rw [regexBody_nil, append_nil] at marked
  exact marked

theorem text_run : (RegexItem.token .run).text = "[^/]*".toList := rfl

theorem text_single : (RegexItem.token .single).text = "[^/]".toList := rfl

theorem text_anything : (RegexItem.token .anything).text = ".*".toList := rfl

theorem text_symbol (char : Char) : (RegexItem.token (.symbol char)).text =
    if char ∈ regexSpecials then ['\\', char] else [char] := rfl

/-- What one character of a segment is, if it is not the first of two stars. -/
def placeOf (char : Char) : SegmentToken Char :=
  if char = '*' then .run else if char = '?' then .single else .symbol char

/-- One character that is not the first of two stars. -/
theorem regexBody_cons {char : Char} {rest : List Char} (nul : char ≠ '\x00')
    (single : char = '*' → rest.head? ≠ some '*') :
    regexBody (char :: rest) = (RegexItem.token (placeOf char)).text ++ regexBody rest := by
  have alone : ∀ later : List Char, char = '*' → rest = '*' :: later → False := by
    rintro later star rfl
    exact single star rfl
  rw [regexBody.eq_3 char rest alone, if_neg nul, placeOf]
  split_ifs with star question special
  · rw [text_run]
  · rw [text_single]
  · rw [text_symbol, if_pos special, cons_append, cons_append, nil_append]
  · rw [text_symbol, if_neg special, cons_append, nil_append]

theorem regexBody_slash (rest : List Char) :
    regexBody ('/' :: rest) = (RegexItem.token (.symbol '/')).text ++ regexBody rest :=
  regexBody_cons (by decide) fun star => absurd star (by decide)

theorem segmentItems_stars (rest : List Char) :
    segmentItems ('*' :: '*' :: rest) = .token .anything :: segmentItems rest := rfl

theorem segmentItems_cons {char : Char} {rest : List Char}
    (single : char = '*' → rest.head? ≠ some '*') :
    segmentItems (char :: rest) = .token (placeOf char) :: segmentItems rest := by
  have alone : ∀ later : List Char, char = '*' → rest = '*' :: later → False := by
    rintro later star rfl
    exact single star rfl
  rw [segmentItems, segmentTokens.eq_3 char rest alone, map_cons, segmentItems, placeOf]

theorem regexBody_segment {segment rest : List Char} (nulFree : '\x00' ∉ segment)
    (other : rest.head? ≠ some '*') :
    regexBody (segment ++ rest) =
      (segmentItems segment).flatMap RegexItem.text ++ regexBody rest := by
  induction segment using segmentTokens.induct with
  | case1 => rfl
  | case2 within ih =>
    have nulFree := fun mem => nulFree (mem_cons_of_mem '*' (mem_cons_of_mem '*' mem))
    rw [cons_append, cons_append, regexBody.eq_2, ih nulFree, segmentItems_stars, flatMap_cons,
      text_anything, append_assoc]
  | case3 char within single ih =>
    obtain ⟨nul, nulFree⟩ := not_or.mp (mt mem_cons.mpr nulFree)
    have inside : char = '*' → within.head? ≠ some '*' := by
      intro star same
      obtain ⟨later, rfl⟩ := head?_eq_some_iff.mp same
      exact single later star rfl
    have alone : char = '*' → (within ++ rest).head? ≠ some '*' := by
      intro star same
      cases within with
      | nil => exact other same
      | cons next later => exact inside star same
    rw [cons_append, regexBody_cons (Ne.symm nul) alone, ih nulFree, segmentItems_cons inside,
      flatMap_cons, append_assoc]

/-! ## The items of a pattern -/

/-- What the rewrites make of the segments behind one that has been written. -/
theorem regexBody_markRest {segments : List (List Char)}
    (plain : ∀ segment ∈ segments, '/' ∉ segment ∧ '\x00' ∉ segment) :
    regexBody (markRest (below '/' segments)) = (tailItems segments).flatMap RegexItem.text := by
  induction segments using tailItems.induct with
  | case1 => exact regexBody_nil
  | case2 =>
    rw [below_cons, below_nil, append_nil, markRest_wild, regexBody_trail, tailItems, if_pos rfl,
      flatMap_singleton]
  | case3 segment other =>
    obtain ⟨plain, nulFree⟩ := plain segment mem_cons_self
    rw [below_cons, markRest_segment plain other, regexBody_slash,
      regexBody_segment nulFree (head_markRest_below []), tailItems, if_neg other, flatMap_cons]
    simp [markRest, markRecursive, markTrail_nil, regexBody_nil]
  | case4 next rest ih =>
    obtain ⟨⟨plainNext, nulFree⟩, plain⟩ := forall_mem_cons.mp (forall_mem_cons.mp plain).2
    rw [below_cons, below_cons, markRest_between, regexBody_recursive, markRest_append plainNext,
      regexBody_segment nulFree (head_markRest_below rest), ih plain, tailItems, if_pos rfl,
      flatMap_cons, flatMap_append]
  | case5 segment next rest other ih =>
    obtain ⟨⟨plainFirst, nulFree⟩, plain⟩ := forall_mem_cons.mp plain
    rw [below_cons, markRest_segment plainFirst other, regexBody_slash,
      regexBody_segment nulFree (head_markRest_below _), ih plain, tailItems, if_neg other,
      flatMap_cons, flatMap_append]

theorem regexBody_head {segments : List (List Char)}
    (plain : ∀ segment ∈ segments, '/' ∉ segment ∧ '\x00' ∉ segment) {segment : List Char}
    (first : '/' ∉ segment ∧ '\x00' ∉ segment) :
    regexBody (markRest (segment ++ below '/' segments)) =
      (headItems (segment :: segments)).flatMap RegexItem.text := by
  rw [markRest_append first.1, regexBody_segment first.2 (head_markRest_below segments),
    regexBody_markRest plain, headItems, flatMap_append]

theorem intercalate_cons (segment : List Char) (rest : List (List Char)) :
    ['/'].intercalate (segment :: rest) = segment ++ below '/' rest := by
  have text := below_eq_cons_intercalate '/' (cons_ne_nil segment rest)
  rw [below_cons] at text
  exact (cons.inj text).2.symm

theorem markPattern_wild (segment : List Char) (rest : List (List Char)) :
    markPattern (['/'].intercalate (wildSegment :: segment :: rest)) =
      lead ++ markRest (segment ++ below '/' rest) := by
  have plain : '/' ∉ lead := by decide
  rw [← markRest_append plain, intercalate_cons, below_cons]
  rfl

theorem markPattern_segment {segment : List Char} (plain : '/' ∉ segment)
    (rest : List (List Char)) (other : segment = wildSegment → rest = []) :
    markPattern (['/'].intercalate (segment :: rest)) =
      markRest (segment ++ below '/' rest) := by
  have single : ¬ "**/".toList <+: segment ++ below '/' rest := by
    intro starts
    obtain rfl := wildSegment_of_starts plain rest starts
    rw [other rfl] at starts
    exact absurd starts.length_le (by decide)
  rw [intercalate_cons, markPattern, if_neg (mt isPrefixOf_iff_prefix.mp single)]
  rfl

theorem regexBody_markPattern {segments : List (List Char)} (nonempty : segments ≠ [])
    (plain : ∀ segment ∈ segments, '/' ∉ segment ∧ '\x00' ∉ segment) :
    regexBody (markPattern (['/'].intercalate segments)) =
      (patternItems segments).flatMap RegexItem.text := by
  obtain ⟨segment, rest, rfl⟩ := exists_cons_of_ne_nil nonempty
  obtain ⟨first, later⟩ := forall_mem_cons.mp plain
  cases rest with
  | nil =>
    rw [markPattern_segment first.1 [] fun _ => rfl, regexBody_head later first, patternItems]
    rintro _ _ _ ⟨⟩
  | cons next rest =>
    by_cases wild : segment = wildSegment
    · subst wild
      obtain ⟨second, last⟩ := forall_mem_cons.mp later
      rw [markPattern_wild, regexBody_lead, regexBody_head last second, patternItems,
        if_pos rfl, flatMap_cons]
    · rw [markPattern_segment first.1 _ fun same => absurd same wild,
        regexBody_head later first, patternItems, if_neg wild]

/-- The regex of a pattern is that of its items. -/
theorem patternToRegex_eq {pattern : String} (nulFree : '\x00' ∉ pattern.toList) :
    patternToRegex pattern = regexText (patternItems (patternSegments pattern)) := by
  set normalized := pattern.toList.dropWhile (· = '/') with trimmed
  by_cases empty : normalized = []
  · rw [patternToRegex, patternSegments, if_pos empty, if_pos empty]
    decide
  have plain : ∀ segment ∈ normalized.splitOn '/', '/' ∉ segment ∧ '\x00' ∉ segment := by
    intro segment mem
    refine ⟨not_mem_of_mem_splitOn mem, fun nul => nulFree ?_⟩
    have within : '\x00' ∈ '/' :: normalized :=
      below_splitOn '/' normalized ▸ mem_below_of_mem mem nul
    exact (dropWhile_suffix _).subset ((mem_cons.mp within).resolve_left (by decide))
  have body := regexBody_markPattern (splitOn_ne_nil '/' normalized) plain
  rw [intercalate_splitOn] at body
  rw [patternToRegex, patternSegments, if_neg empty, if_neg empty, regexText, ← trimmed, body]

end RaisinDB.Access
