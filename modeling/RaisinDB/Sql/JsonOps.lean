import RaisinDB.Sql.Comparisons

/-!
# JSON operators

What the JSON operators answer for the values of their two operands.
-/

namespace RaisinDB.Sql

open RaisinDB.Foundation (Value)

/-! ## Members -/

/-- Remove a member; the last one takes its place. -/
def swapRemove (key : String) (members : List (String × Value)) : List (String × Value) :=
  match members.findIdx? (fun member => member.1 == key), members.getLast? with
  | some i, some last =>
      if i + 1 = members.length then members.dropLast else members.dropLast.set i last
  | _, _ => members

def isDigits (chars : List Char) : Bool := !chars.isEmpty && chars.all Char.isDigit

def digitsValue (chars : List Char) : Nat :=
  chars.foldl (fun value char => value * 10 + (char.toNat - '0'.toNat)) 0

/-- A number that is written as a natural number of 64 bits. -/
def asU64 (text : String) : Option Nat :=
  if isDigits text.toList && decide (digitsValue text.toList < 2 ^ 64) then
    some (digitsValue text.toList)
  else none

def hasKey (json : Value) (key : String) : Option Bool :=
  match json with
  | .object members => some (Value.lookup key members).isSome
  | .array items => some (items.any fun item => item.asStr == some key)
  | _ => none

/-- One step of a path: the member or the item that it names. -/
def stepInto : Value → Value → Option Value
  | .object members, .string key => Value.lookup key members
  | .array items, .number text => (asU64 text).bind fun i => items[i]?
  | _, _ => none

def followPath (json : Value) : List Value → Option Value
  | [] => some json
  | element :: rest => (stepInto json element).bind fun child => followPath child rest

def removeAtPath (json : Value) : List Value → Value
  | [] => json
  | [element] =>
      match json, element with
      | .object members, .string key => .object (swapRemove key members)
      | .array items, .number text =>
          match asU64 text with
          | some i => .array (items.eraseIdx i)
          | none => json
      | _, _ => json
  | element :: next :: rest =>
      match json, element, stepInto json element with
      | .object members, .string key, some child =>
          .object (Value.insertField key (removeAtPath child (next :: rest))
            (swapRemove key members))
      | .array items, .number text, some child =>
          match asU64 text with
          | some i => .array (items.set i (removeAtPath child (next :: rest)))
          | none => json
      | _, _, _ => json

mutual

/-- Every member or item of the pattern is contained in one of the object. -/
def jsonContains : Value → Value → Bool
  | .object members, .object pattern => membersContain members pattern
  | .array items, .array pattern => itemsContain items pattern
  | object, pattern => jsonEq object pattern

def membersContain (members : List (String × Value)) : List (String × Value) → Bool
  | [] => true
  | (key, pattern) :: rest =>
      (match Value.lookup key members with
        | some value => jsonContains value pattern
        | none => false) && membersContain members rest

def itemsContain (items : List Value) : List Value → Bool
  | [] => true
  | pattern :: rest => items.any (fun item => jsonContains item pattern) && itemsContain items rest

end

/-! ## Operators -/

def jsonText (value : Value) : String := String.ofList value.chars

/-- A member as text: a string unquoted, null as NULL, anything else as its JSON text. -/
def jsonMemberText : Value → Literal
  | .null => .null
  | .string text => .text text
  | other => .text (jsonText other)

def jsonExtract : Literal → Literal → Outcome
  | .jsonB json, .text key =>
      match json.get key with
      | some value => .ok (.jsonB value)
      | none => .ok .null
  | left, right => .error (.jsonOperands "->" left right)

def jsonExtractText : Literal → Literal → Outcome
  | .jsonB json, .text key =>
      match json.get key with
      | some value => .ok (jsonMemberText value)
      | none => .ok .null
  | .null, .text _ => .ok .null
  | left, right => .error (.jsonOperands "->>" left right)

/-- Operators that are NULL on a NULL operand. -/
def nullOr (operator : String) (left right : Literal)
    (answer : Literal → Literal → Option Outcome) : Outcome :=
  match answer left right with
  | some outcome => outcome
  | none => if left.isNull || right.isNull then .ok .null
            else .error (.jsonOperands operator left right)

def jsonContainsOp (left right : Literal) : Outcome :=
  nullOr "@>" left right fun
    | .jsonB object, .jsonB pattern => some (.ok (.boolean (jsonContains object pattern)))
    | _, _ => none

def jsonKeyExists (left right : Literal) : Outcome :=
  nullOr "?" left right fun
    | .jsonB object, .text key => some (.ok (.boolean ((hasKey object key).getD false)))
    | _, _ => none

def jsonAnyKeyExists (left right : Literal) : Outcome :=
  nullOr "?|" left right fun
    | .jsonB object, .jsonB (.array keys) =>
        some (.ok (.boolean (keys.any fun key =>
          (key.asStr.bind (hasKey object)).getD false)))
    | .jsonB _, .jsonB _ => some (.error (.jsonOperands "?|" left right))
    | _, _ => none

def jsonAllKeyExists (left right : Literal) : Outcome :=
  nullOr "?&" left right fun
    | .jsonB (.object members), .jsonB (.array keys) =>
        some (.ok (.boolean (keys.all fun key =>
          (key.asStr.bind (hasKey (.object members))).getD false)))
    | .jsonB (.array items), .jsonB (.array keys) =>
        some (.ok (.boolean (keys.all fun key =>
          (key.asStr.bind (hasKey (.array items))).getD false)))
    | .jsonB _, .jsonB (.array _) => some (.ok (.boolean false))
    | .jsonB _, .jsonB _ => some (.error (.jsonOperands "?&" left right))
    | _, _ => none

def jsonExtractPath (left right : Literal) : Outcome :=
  nullOr "#>" left right fun
    | .jsonB object, .jsonB (.array path) =>
        some (.ok ((followPath object path).elim .null .jsonB))
    | .jsonB _, .jsonB _ => some (.error (.jsonOperands "#>" left right))
    | _, _ => none

def jsonExtractPathText (left right : Literal) : Outcome :=
  nullOr "#>>" left right fun
    | .jsonB object, .jsonB (.array path) =>
        some (.ok ((followPath object path).elim .null jsonMemberText))
    | .jsonB _, .jsonB _ => some (.error (.jsonOperands "#>>" left right))
    | _, _ => none

def removeIndex (object : Value) (index : Int) : Value :=
  match object with
  | .array items => if 0 ≤ index then .array (items.eraseIdx index.toNat) else object
  | _ => object

def jsonRemove (left right : Literal) : Outcome :=
  nullOr "-" left right fun
    | .jsonB (.object members), .text key => some (.ok (.jsonB (.object (swapRemove key members))))
    | .jsonB object, .text _ => some (.ok (.jsonB object))
    | .jsonB object, .int index => some (.ok (.jsonB (removeIndex object index.toInt)))
    | .jsonB object, .bigInt index => some (.ok (.jsonB (removeIndex object index.toInt)))
    | .jsonB (.object members), .jsonB (.array keys) =>
        some (.ok (.jsonB (.object (keys.foldl (fun left key =>
          match key.asStr with
          | some name => swapRemove name left
          | none => left) members))))
    | .jsonB object, .jsonB _ => some (.ok (.jsonB object))
    | _, _ => none

def jsonRemoveAtPath (left right : Literal) : Outcome :=
  nullOr "#-" left right fun
    | .jsonB object, .jsonB (.array path) => some (.ok (.jsonB (removeAtPath object path)))
    | .jsonB _, .jsonB _ => some (.error (.jsonOperands "#-" left right))
    | _, _ => none

/-- Both path operators: an unreadable path matches nothing. -/
def jsonPathOp (operator : String) (jsonPath : String → Value → Option Bool)
    (left right : Literal) : Outcome :=
  nullOr operator left right fun
    | .jsonB object, .text path => some (.ok (.boolean ((jsonPath path object).getD false)))
    | _, _ => none

end RaisinDB.Sql
