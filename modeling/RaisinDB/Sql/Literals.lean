import RaisinDB.Foundation.Binary64
import RaisinDB.Foundation.Json

/-!
# Values and rows

The literals of an analysed query, the stored values of a row, and how a column is found in a row
by its qualified or by its plain name.
-/

namespace RaisinDB.Sql

open RaisinDB.Foundation (Binary64 Value)

inductive DataType where
  | int
  | bigInt
  | double
  | boolean
  | text
  | uuid
  | timestampTz
  | interval
  | path
  | jsonB
  | vector (dimension : Nat)
  | geometry
  | tsVector
  | tsQuery
  | array (element : DataType)
  | nullable (inner : DataType)
  | unknown
  deriving DecidableEq

def DataType.baseType : DataType → DataType
  | nullable inner => inner
  | other => other

inductive Literal where
  | null
  | boolean (flag : Bool)
  | int (value : Int32)
  | bigInt (value : Int64)
  | double (value : Binary64)
  | text (text : String)
  | uuid (text : String)
  | path (text : String)
  | jsonB (json : Value)
  | vector (entries : List UInt32)
  | geometry (json : Value)
  | timestamp (nanos : Int)
  | interval (nanos : Int)
  | parameter (name : String)
  deriving DecidableEq

namespace Literal

def dataType : Literal → DataType
  | null => .unknown
  | boolean _ => .boolean
  | int _ => .int
  | bigInt _ => .bigInt
  | double _ => .double
  | text _ => .text
  | uuid _ => .uuid
  | path _ => .path
  | jsonB _ => .jsonB
  | vector entries => .vector entries.length
  | geometry _ => .geometry
  | timestamp _ => .timestampTz
  | interval _ => .interval
  | parameter _ => .unknown

def isNull : Literal → Bool
  | null => true
  | _ => false

def isNumeric : Literal → Bool
  | int _ | bigInt _ | double _ => true
  | _ => false

/-- Paths and texts are read alike by the hierarchy functions. -/
def pathOrText? : Literal → Option String
  | path name | text name => some name
  | _ => none

end Literal

/-! ## Stored values -/

/-- A stored property.  References, resources, composites and elements are kept as the JSON they are
read as, and the members of an object and the items of an array as JSON too. -/
inductive PropertyValue where
  | null
  | string (text : String)
  | integer (value : Int64)
  | float (value : Binary64)
  | decimal (value : Binary64)
  | boolean (flag : Bool)
  | date (nanos : Int)
  | url (text : String)
  | array (items : List Value)
  | object (members : List (String × Value))
  | structured (json : Value)
  | vector (entries : List UInt32)
  | geometry (json : Value)
  deriving DecidableEq

def fromPropertyValue : PropertyValue → Literal
  | .null => .null
  | .string text => .text text
  | .integer value => .bigInt value
  | .float value => .double value
  | .decimal value => .double value
  | .boolean flag => .boolean flag
  | .date nanos => .timestamp nanos
  | .url text => .text text
  | .array items => .jsonB (.array items)
  | .object members => .jsonB (.object members)
  | .structured json => .jsonB json
  | .vector entries => .vector entries
  | .geometry json => .geometry json

/-! ## Rows -/

/-- The columns of a row in the order in which they were added, each name once. -/
structure Row where
  columns : List (String × PropertyValue)
  distinct : (columns.map Prod.fst).Nodup

namespace Row

def empty : Row := ⟨[], by simp⟩

def find (name : String) : List (String × PropertyValue) → Option PropertyValue
  | [] => none
  | (key, value) :: rest => if key = name then some value else find name rest

def get (row : Row) (name : String) : Option PropertyValue := find name row.columns

/-- The column is called so behind some qualifier. -/
def endsWith (name key : String) : Bool := ('.' :: name.toList).isSuffixOf key.toList

/-- The column of that name, or else the first one with the name behind a qualifier. -/
def getByUnqualified (row : Row) (name : String) : Option PropertyValue :=
  match row.get name with
  | some value => some value
  | none => (row.columns.find? fun column => endsWith name column.1).map Prod.snd

def columnValue (table column : String) (row : Row) : Option PropertyValue :=
  match if table = "" then none else row.get (table ++ "." ++ column) with
  | some value => some value
  | none => row.getByUnqualified column

def insertColumn (name : String) (value : PropertyValue) :
    List (String × PropertyValue) → List (String × PropertyValue)
  | [] => [(name, value)]
  | (key, old) :: rest =>
      if key = name then (key, value) :: rest else (key, old) :: insertColumn name value rest

theorem names_insertColumn (name : String) (value : PropertyValue)
    (columns : List (String × PropertyValue)) :
    (insertColumn name value columns).map Prod.fst =
      if name ∈ columns.map Prod.fst then columns.map Prod.fst
      else columns.map Prod.fst ++ [name] := by
  induction columns with
  | nil => rfl
  | cons column rest ih =>
      obtain ⟨key, old⟩ := column
      by_cases here : key = name
      · simp [insertColumn, here]
      · simp only [insertColumn, here, if_false, List.map_cons, ih, List.mem_cons]
        by_cases there : name ∈ rest.map Prod.fst
        · rw [if_pos there, if_pos (Or.inr there)]
        · rw [if_neg there, if_neg (by rintro (same | later); exacts [here same.symm, there later])]
          rfl

theorem distinct_insertColumn {columns : List (String × PropertyValue)}
    (distinct : (columns.map Prod.fst).Nodup) (name : String) (value : PropertyValue) :
    ((insertColumn name value columns).map Prod.fst).Nodup := by
  rw [names_insertColumn]
  split
  · exact distinct
  · next fresh =>
    rw [List.nodup_append]
    refine ⟨distinct, by simp, ?_⟩
    intro key mem other mem' same
    rw [List.mem_singleton.mp mem'] at same
    exact fresh (same ▸ mem)

def insert (row : Row) (name : String) (value : PropertyValue) : Row :=
  ⟨insertColumn name value row.columns, distinct_insertColumn row.distinct name value⟩

/-- All columns of the left row, then those of the right one, whose values win. -/
def merge (left right : Row) : Row :=
  right.columns.foldl (fun merged column => merged.insert column.1 column.2) left

theorem find_insertColumn (name other : String) (value : PropertyValue)
    (columns : List (String × PropertyValue)) :
    find name (insertColumn other value columns) =
      if name = other then some value else find name columns := by
  induction columns with
  | nil =>
      by_cases same : name = other
      · simp [insertColumn, find, same]
      · simp [insertColumn, find, same, Ne.symm same]
  | cons column rest ih =>
      obtain ⟨key, old⟩ := column
      by_cases here : key = other
      · subst here
        by_cases same : name = key
        · simp [insertColumn, find, same]
        · simp [insertColumn, find, same, Ne.symm same]
      · by_cases same : key = name
        · subst same
          simp [insertColumn, find, here]
        · simp only [insertColumn, here, if_false, find, same, ih]

theorem get_insert (row : Row) (name other : String) (value : PropertyValue) :
    (row.insert other value).get name = if name = other then some value else row.get name :=
  find_insertColumn name other value row.columns

end Row

end RaisinDB.Sql
