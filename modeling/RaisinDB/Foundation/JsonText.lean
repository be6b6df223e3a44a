import Mathlib
import RaisinDB.Foundation.Json

/-!
# JSON text

Values are told apart by their text, if their numbers are spelled with the characters of numbers.
-/

namespace RaisinDB.Foundation.Value

open List

def isNumberChar (char : Char) : Bool := char.isDigit || ['-', '+', '.', 'e', 'E'].contains char

mutual

/-- Numbers are spelled with the characters of numbers, and the fields of an object have distinct
names. -/
def WellSpelled : Value → Prop
  | number text => text.toList ≠ [] ∧ ∀ char ∈ text.toList, isNumberChar char = true
  | array items => ItemsWellSpelled items
  | object fields => (fields.map Prod.fst).Nodup ∧ FieldsWellSpelled fields
  | _ => True

def ItemsWellSpelled : List Value → Prop
  | [] => True
  | value :: rest => WellSpelled value ∧ ItemsWellSpelled rest

def FieldsWellSpelled : List (String × Value) → Prop
  | [] => True
  | (_, value) :: rest => WellSpelled value ∧ FieldsWellSpelled rest

end

theorem lookup_of_nodup {members : List (String × Value)} (distinct : (members.map Prod.fst).Nodup)
    {member : String × Value} (mem : member ∈ members) :
    lookup member.1 members = some member.2 := by
  induction members with
  | nil => cases mem
  | cons first rest ih =>
    rw [map_cons, nodup_cons] at distinct
    rw [lookup]
    rcases mem_cons.mp mem with rfl | later
    · rw [if_pos rfl]
    · rw [if_neg, ih distinct.2 later]
      exact fun same => distinct.1 (same ▸ mem_map_of_mem later)

/-- What stands behind a value in a text. -/
def Closed (rest : List Char) : Prop := ∀ char ∈ rest.head?, char = ',' ∨ char = ']' ∨ char = '\x7d'

theorem Closed.cons {char : Char} (closes : char = ',' ∨ char = ']' ∨ char = '\x7d')
    (rest : List Char) : Closed (char :: rest) := by
  simpa [Closed] using closes

variable {rest rest' : List Char}

/-! ## Strings -/

theorem hexDigit_inj : ∀ i < 32, ∀ j < 32, hexDigit (i / 16) = hexDigit (j / 16) →
    hexDigit (i % 16) = hexDigit (j % 16) → i = j := by
  decide +kernel

/-- The character that is written as a backslash and the letter. -/
def ofLetter (letter : Char) : Char :=
  if letter = 'b' then '\x08'
  else if letter = 'f' then '\x0c'
  else if letter = 'n' then '\n'
  else if letter = 'r' then '\r'
  else if letter = 't' then '\t'
  else letter

theorem escapeChar_cases (char : Char) :
    (escapeChar char = [char] ∧ char ≠ '\\' ∧ char ≠ '"') ∨
      (∃ letter, escapeChar char = ['\\', letter] ∧ letter ≠ 'u' ∧ ofLetter letter = char) ∨
      (escapeChar char =
        ['\\', 'u', '0', '0', hexDigit (char.toNat / 16), hexDigit (char.toNat % 16)] ∧
        char.toNat < 32) := by
  unfold escapeChar
  split_ifs with quote slash back feed line ret tab low
  · exact Or.inr (Or.inl ⟨_, rfl, by decide, quote.symm⟩)
  · exact Or.inr (Or.inl ⟨_, rfl, by decide, slash.symm⟩)
  · exact Or.inr (Or.inl ⟨_, rfl, by decide, back.symm⟩)
  · exact Or.inr (Or.inl ⟨_, rfl, by decide, feed.symm⟩)
  · exact Or.inr (Or.inl ⟨_, rfl, by decide, line.symm⟩)
  · exact Or.inr (Or.inl ⟨_, rfl, by decide, ret.symm⟩)
  · exact Or.inr (Or.inl ⟨_, rfl, by decide, tab.symm⟩)
  · exact Or.inr (Or.inr ⟨rfl, low⟩)
  · exact Or.inl ⟨rfl, slash, quote⟩

theorem escapeChar_append {char char' : Char}
    (same : escapeChar char ++ rest = escapeChar char' ++ rest') :
    char = char' ∧ rest = rest' := by
  rcases escapeChar_cases char with ⟨code, bare, -⟩ | ⟨letter, code, other, rfl⟩ | ⟨code, low⟩ <;>
    rcases escapeChar_cases char' with ⟨code', bare', -⟩ | ⟨letter', code', other', rfl⟩ |
      ⟨code', low'⟩ <;>
    rw [code, code'] at same
  · simpa using same
  · simp [bare] at same
  · simp [bare] at same
  · simp [Ne.symm bare'] at same
  · obtain ⟨rfl, rfl⟩ : letter = letter' ∧ rest = rest' := by simpa using same
    exact ⟨rfl, rfl⟩
  · simp [other] at same
  · simp [Ne.symm bare'] at same
  · simp [Ne.symm other'] at same
  · obtain ⟨high, digit, later⟩ : hexDigit (char.toNat / 16) = hexDigit (char'.toNat / 16) ∧
        hexDigit (char.toNat % 16) = hexDigit (char'.toNat % 16) ∧ rest = rest' := by
      simpa using same
    exact ⟨Char.toNat_inj.mp (hexDigit_inj _ low _ low' high digit), later⟩

theorem escapeChar_ne_quote (char : Char) (rest rest' : List Char) :
    escapeChar char ++ rest ≠ '"' :: rest' := by
  rcases escapeChar_cases char with ⟨code, -, other⟩ | ⟨letter, code, -, -⟩ | ⟨code, -⟩ <;>
    simp_all

theorem escaped_append {text text' : List Char}
    (same : text.flatMap escapeChar ++ '"' :: rest = text'.flatMap escapeChar ++ '"' :: rest') :
    text = text' ∧ rest = rest' := by
  induction text generalizing text' with
  | nil =>
    cases text' with
    | nil => simpa using same
    | cons char' text' =>
      rw [flatMap_cons, append_assoc] at same
      exact absurd same.symm (escapeChar_ne_quote _ _ _)
  | cons char text ih =>
    cases text' with
    | nil =>
      rw [flatMap_cons, append_assoc] at same
      exact absurd same (escapeChar_ne_quote _ _ _)
    | cons char' text' =>
      rw [flatMap_cons, flatMap_cons, append_assoc, append_assoc] at same
      obtain ⟨rfl, later⟩ := escapeChar_append same
      obtain ⟨rfl, rfl⟩ := ih later
      exact ⟨rfl, rfl⟩

theorem quoted_append {text text' : String} (same : quoted text ++ rest = quoted text' ++ rest') :
    text = text' ∧ rest = rest' := by
  have inner : text.toList.flatMap escapeChar ++ '"' :: rest =
      text'.toList.flatMap escapeChar ++ '"' :: rest' := by
    simpa [quoted] using same
  exact (escaped_append inner).imp_left String.toList_inj.mp

/-! ## Numbers -/

theorem takeWhile_number {number : List Char} (spelled : ∀ char ∈ number, isNumberChar char = true)
    (closed : Closed rest) : (number ++ rest).takeWhile isNumberChar = number := by
  rw [takeWhile_append_of_pos spelled]
  cases rest with
  | nil => simp
  | cons char rest =>
    have : isNumberChar char = false := by
      rcases closed char (by simp) with rfl | rfl | rfl <;> rfl
    simp [this]

theorem number_append {number number' : List Char}
    (spelled : ∀ char ∈ number, isNumberChar char = true)
    (spelled' : ∀ char ∈ number', isNumberChar char = true) (closed : Closed rest)
    (closed' : Closed rest') (same : number ++ rest = number' ++ rest') :
    number = number' ∧ rest = rest' := by
  have first := takeWhile_number spelled closed
  rw [same, takeWhile_number spelled' closed'] at first
  subst first
  exact ⟨rfl, append_cancel_left same⟩

/-! ## Values -/

/-- No value of another kind starts as a number does. -/
theorem chars_number_ne {text : String} (spelled : (number text).WellSpelled) {value : Value}
    (other : ∀ text', value ≠ number text') (rest rest' : List Char) :
    (number text).chars ++ rest ≠ value.chars ++ rest' := by
  obtain ⟨nonempty, digits⟩ := spelled
  obtain ⟨char, later, whole⟩ := exists_cons_of_ne_nil nonempty
  have first := digits char (whole ▸ mem_cons_self)
  intro same
  rw [chars, whole] at same
  cases value with
  | number text' => exact other text' rfl
  | bool flag => cases flag <;> simp [chars] at same <;> simp [same.1, isNumberChar] at first
  | _ => simp [chars, quoted] at same; simp [same.1, isNumberChar] at first

theorem chars_ne_bracket {value : Value} (spelled : value.WellSpelled) (rest rest' : List Char) :
    value.chars ++ rest ≠ ']' :: rest' := by
  intro same
  cases value with
  | number text =>
    obtain ⟨nonempty, digits⟩ := spelled
    obtain ⟨char, later, whole⟩ := exists_cons_of_ne_nil nonempty
    have first := digits char (whole ▸ mem_cons_self)
    rw [chars, whole] at same
    simp at same
    simp [same.1, isNumberChar] at first
  | bool flag => cases flag <;> simp [chars] at same
  | _ => simp [chars, quoted] at same

/-- What stands behind the first item, up to the bracket. -/
def itemRest : List Value → List Char
  | [] => []
  | next :: later => ',' :: itemChars (next :: later)

/-- What stands behind the first field, up to the brace. -/
def fieldRest : List (String × Value) → List Char
  | [] => []
  | next :: later => ',' :: fieldChars (next :: later)

theorem itemChars_cons (value : Value) (later : List Value) :
    itemChars (value :: later) = value.chars ++ itemRest later := by
  cases later <;> simp [itemChars, itemRest]

theorem fieldChars_cons (key : String) (value : Value) (later : List (String × Value)) :
    fieldChars ((key, value) :: later) =
      quoted key ++ ':' :: (value.chars ++ fieldRest later) := by
  cases later <;> simp [fieldChars, fieldRest]

theorem closed_itemRest (later : List Value) (rest : List Char) :
    Closed (itemRest later ++ ']' :: rest) := by
  cases later <;> exact Closed.cons (by simp) _

theorem closed_fieldRest (later : List (String × Value)) (rest : List Char) :
    Closed (fieldRest later ++ '\x7d' :: rest) := by
  cases later <;> exact Closed.cons (by simp) _

mutual

/-- A value is read off a text up to what closes it. -/
theorem chars_append (value : Value) {value' : Value} (spelled : value.WellSpelled)
    (spelled' : value'.WellSpelled) {rest rest' : List Char} (closed : Closed rest)
    (closed' : Closed rest') (same : value.chars ++ rest = value'.chars ++ rest') :
    value = value' ∧ rest = rest' := by
  by_cases kind : ∃ text, value = number text
  · obtain ⟨text, rfl⟩ := kind
    by_cases kind' : ∃ text', value' = number text'
    · obtain ⟨text', rfl⟩ := kind'
      obtain ⟨alike, rfl⟩ := number_append spelled.2 spelled'.2 closed closed' same
      exact ⟨congrArg number (String.toList_inj.mp alike), rfl⟩
    · exact absurd same (chars_number_ne spelled (not_exists.mp kind') _ _)
  by_cases kind' : ∃ text', value' = number text'
  · obtain ⟨text', rfl⟩ := kind'
    exact absurd same.symm (chars_number_ne spelled' (not_exists.mp kind) _ _)
  cases value with
  | number text => exact absurd ⟨text, rfl⟩ kind
  | null => cases value' with
    | null => simpa [chars] using same
    | number text' => exact absurd ⟨text', rfl⟩ kind'
    | bool flag => cases flag <;> simp [chars] at same
    | _ => simp [chars, quoted] at same
  | bool flag => cases value' with
    | number text' => exact absurd ⟨text', rfl⟩ kind'
    | bool flag' => cases flag <;> cases flag' <;> simp_all [chars]
    | _ => cases flag <;> simp [chars, quoted] at same
  | string text => cases value' with
    | string text' => simpa using quoted_append same
    | number text' => exact absurd ⟨text', rfl⟩ kind'
    | bool flag => cases flag <;> simp [chars, quoted] at same
    | _ => simp [chars, quoted] at same
  | array items => cases value' with
    | array items' =>
      have inner : itemChars items ++ ']' :: rest = itemChars items' ++ ']' :: rest' := by
        simpa [chars] using same
      simpa using itemChars_append items spelled spelled' inner
    | number text' => exact absurd ⟨text', rfl⟩ kind'
    | bool flag => cases flag <;> simp [chars] at same
    | _ => simp [chars, quoted] at same
  | object fields => cases value' with
    | object fields' =>
      have inner : fieldChars fields ++ '\x7d' :: rest = fieldChars fields' ++ '\x7d' :: rest' := by
        simpa [chars] using same
      simpa using fieldChars_append fields spelled.2 spelled'.2 inner
    | number text' => exact absurd ⟨text', rfl⟩ kind'
    | bool flag => cases flag <;> simp [chars] at same
    | _ => simp [chars, quoted] at same

theorem itemChars_append (items : List Value) {items' : List Value}
    (spelled : ItemsWellSpelled items) (spelled' : ItemsWellSpelled items')
    {rest rest' : List Char}
    (same : itemChars items ++ ']' :: rest = itemChars items' ++ ']' :: rest') :
    items = items' ∧ rest = rest' := by
  match items, items' with
  | [], [] => simpa [itemChars] using same
  | [], value' :: later' =>
    rw [itemChars_cons, append_assoc] at same
    exact absurd same.symm (chars_ne_bracket spelled'.1 _ _)
  | value :: later, [] =>
    rw [itemChars_cons, append_assoc] at same
    exact absurd same (chars_ne_bracket spelled.1 _ _)
  | value :: later, value' :: later' =>
    rw [itemChars_cons, itemChars_cons, append_assoc, append_assoc] at same
    obtain ⟨rfl, behind⟩ := chars_append value spelled.1 spelled'.1 (closed_itemRest _ _)
      (closed_itemRest _ _) same
    match later, later' with
    | [], [] => simpa [itemRest] using behind
    | [], _ :: _ => simp [itemRest] at behind
    | _ :: _, [] => simp [itemRest] at behind
    | next :: later, next' :: later' =>
      have inner : itemChars (next :: later) ++ ']' :: rest =
          itemChars (next' :: later') ++ ']' :: rest' := by
        simpa [itemRest] using behind
      simpa using itemChars_append (next :: later) spelled.2 spelled'.2 inner

theorem fieldChars_append (fields : List (String × Value)) {fields' : List (String × Value)}
    (spelled : FieldsWellSpelled fields) (spelled' : FieldsWellSpelled fields')
    {rest rest' : List Char}
    (same : fieldChars fields ++ '\x7d' :: rest = fieldChars fields' ++ '\x7d' :: rest') :
    fields = fields' ∧ rest = rest' := by
  match fields, fields' with
  | [], [] => simpa [fieldChars] using same
  | [], (key', value') :: later' => simp [fieldChars, fieldChars_cons, quoted] at same
  | (key, value) :: later, [] => simp [fieldChars, fieldChars_cons, quoted] at same
  | (key, value) :: later, (key', value') :: later' =>
    rw [fieldChars_cons, fieldChars_cons, append_assoc, append_assoc] at same
    obtain ⟨rfl, behind⟩ := quoted_append same
    simp only [cons_append, cons.injEq, true_and, append_assoc] at behind
    obtain ⟨rfl, behind⟩ := chars_append value spelled.1 spelled'.1 (closed_fieldRest _ _)
      (closed_fieldRest _ _) behind
    match later, later' with
    | [], [] => simpa [fieldRest] using behind
    | [], _ :: _ => simp [fieldRest] at behind
    | _ :: _, [] => simp [fieldRest] at behind
    | next :: later, next' :: later' =>
      have inner : fieldChars (next :: later) ++ '\x7d' :: rest =
          fieldChars (next' :: later') ++ '\x7d' :: rest' := by
        simpa [fieldRest] using behind
      simpa using fieldChars_append (next :: later) spelled.2 spelled'.2 inner

end

/-- Two values are written alike only if they are the same. -/
theorem chars_inj {value value' : Value} (spelled : value.WellSpelled)
    (spelled' : value'.WellSpelled) (same : value.chars = value'.chars) : value = value' := by
  have closed : Closed [] := by simp [Closed]
  exact (chars_append value spelled spelled' closed closed (by rw [same])).1

end RaisinDB.Foundation.Value
