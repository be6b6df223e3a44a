import Mathlib.Data.List.Basic

/-!
# JSON values

An object is the list of its fields.  Equality of values is decided, a field is read
and replaced by its key, and a value is written as text without blanks.
-/

namespace RaisinDB.Foundation

open List

inductive Value where
  | null
  | bool (flag : Bool)
  | number (text : String)
  | string (text : String)
  | array (items : List Value)
  | object (fields : List (String × Value))
  deriving Inhabited

namespace Value

/-! ## Equality -/

mutual

def same : Value → Value → Bool
  | null, null => true
  | bool left, bool right => left == right
  | number left, number right => left == right
  | string left, string right => left == right
  | array left, array right => sameItems left right
  | object left, object right => sameFields left right
  | _, _ => false

def sameItems : List Value → List Value → Bool
  | [], [] => true
  | left :: lefts, right :: rights => same left right && sameItems lefts rights
  | _, _ => false

def sameFields : List (String × Value) → List (String × Value) → Bool
  | [], [] => true
  | (key, left) :: lefts, (key', right) :: rights =>
      key == key' && same left right && sameFields lefts rights
  | _, _ => false

end

mutual

theorem same_iff (left right : Value) : same left right = true ↔ left = right := by
  cases left <;> cases right <;> simp [same, sameItems_iff, sameFields_iff]

theorem sameItems_iff (left right : List Value) :
    sameItems left right = true ↔ left = right := by
  cases left <;> cases right <;> simp [sameItems, same_iff, sameItems_iff]

theorem sameFields_iff (left right : List (String × Value)) :
    sameFields left right = true ↔ left = right := by
  rcases left with _ | ⟨⟨key, left⟩, lefts⟩ <;> rcases right with _ | ⟨⟨key', right⟩, rights⟩ <;>
    simp [sameFields, same_iff, sameFields_iff]

end

instance : DecidableEq Value := fun left right =>
  decidable_of_iff (same left right = true) (same_iff left right)

/-! ## Fields -/

/-- The first field of an object that is called so. -/
def lookup (key : String) : List (String × Value) → Option Value
  | [] => none
  | (name, value) :: rest => if name = key then some value else lookup key rest

/-- Replace the field of that name, or add it. -/
def insertField (key : String) (value : Value) : List (String × Value) → List (String × Value)
  | [] => [(key, value)]
  | (name, old) :: rest =>
      if name = key then (key, value) :: rest else (name, old) :: insertField key value rest

def get (key : String) : Value → Option Value
  | object fields => lookup key fields
  | _ => none

def asStr : Value → Option String
  | string text => some text
  | _ => none

def asArray : Value → Option (List Value)
  | array items => some items
  | _ => none

def isNull : Value → Bool
  | null => true
  | _ => false

theorem lookup_insertField_self (key : String) (value : Value) (fields : List (String × Value)) :
    lookup key (insertField key value fields) = some value := by
  induction fields with
  | nil => simp [insertField, lookup]
  | cons field rest ih =>
      obtain ⟨name, old⟩ := field
      by_cases hname : name = key
      · simp [insertField, lookup, hname]
      · simp [insertField, lookup, hname, ih]

theorem lookup_insertField_of_ne {key other : String} (hne : other ≠ key) (value : Value)
    (fields : List (String × Value)) :
    lookup key (insertField other value fields) = lookup key fields := by
  induction fields with
  | nil => simp [insertField, lookup, hne]
  | cons field rest ih =>
      obtain ⟨name, old⟩ := field
      by_cases hname : name = other
      · have hkey : name ≠ key := hname ▸ hne
        simp [insertField, lookup, hname, hne]
      · by_cases hkey : name = key
        · simp [insertField, lookup, hkey, Ne.symm hne]
        · simp [insertField, lookup, hname, hkey, ih]

/-! ## Text -/

def hexDigit (digit : Nat) : Char :=
  if digit < 10 then Char.ofNat ('0'.toNat + digit) else Char.ofNat ('a'.toNat + (digit - 10))

def escapeChar (char : Char) : List Char :=
  if char = '"' then ['\\', '"']
  else if char = '\\' then ['\\', '\\']
  else if char = '\x08' then ['\\', 'b']
  else if char = '\x0c' then ['\\', 'f']
  else if char = '\n' then ['\\', 'n']
  else if char = '\r' then ['\\', 'r']
  else if char = '\t' then ['\\', 't']
  else if char.toNat < 32 then
    ['\\', 'u', '0', '0', hexDigit (char.toNat / 16), hexDigit (char.toNat % 16)]
  else [char]

def quoted (text : String) : List Char := '"' :: text.toList.flatMap escapeChar ++ ['"']

mutual

def chars : Value → List Char
  | null => "null".toList
  | bool flag => if flag then "true".toList else "false".toList
  | number text => text.toList
  | string text => quoted text
  | array items => '[' :: itemChars items ++ [']']
  | object fields => '\x7b' :: fieldChars fields ++ ['\x7d']

def itemChars : List Value → List Char
  | [] => []
  | [value] => chars value
  | value :: next :: rest => chars value ++ ',' :: itemChars (next :: rest)

def fieldChars : List (String × Value) → List Char
  | [] => []
  | [(key, value)] => quoted key ++ ':' :: chars value
  | (key, value) :: next :: rest =>
      quoted key ++ ':' :: chars value ++ ',' :: fieldChars (next :: rest)

end

/-- `serde_json::to_vec`. -/
def toVec (value : Value) : ByteArray := (String.ofList value.chars).toUTF8

end Value

end RaisinDB.Foundation
