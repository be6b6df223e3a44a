import RaisinDB.Branches.BranchKeys

/-!
# The property index entries of a node

A version of a node indexes its custom properties, a few fields under reserved names
and its membership in supertypes and mixins.  Whether the version is published is part
of every entry.
-/

namespace RaisinDB.Indexing

open RaisinDB.Branches RaisinDB.Foundation RaisinDB.Oplog List
open RaisinDB.Replication (HLC)

/-! ## Nodes -/

inductive GeometryType where
  | point
  | lineString
  | polygon
  | multiPoint
  | multiLineString
  | multiPolygon
  | geometryCollection
  deriving DecidableEq

def GeometryType.text : GeometryType → String
  | .point => "Point"
  | .lineString => "LineString"
  | .polygon => "Polygon"
  | .multiPoint => "MultiPoint"
  | .multiLineString => "MultiLineString"
  | .multiPolygon => "MultiPolygon"
  | .geometryCollection => "GeometryCollection"

/-- A property value with what the index reads of it.  Floats and decimals come with the text they
are shown as, arrays and objects with their JSON text, object keys sorted. -/
inductive PropertyValue where
  | null
  | string (value : String)
  | integer (value : Int)
  | float (shown : String)
  | decimal (shown : String)
  | boolean (value : Bool)
  | date (nanos : Option Int)
  | url (url : String)
  | reference (id : String)
  | resource (uuid : String)
  | element (uuid : String)
  | composite (uuid : String)
  | vector (dimensions : Nat)
  | geometry (kind : GeometryType)
  | array (items : List PropertyValue) (json : String)
  | object (json : String)

/-- A decimal number filled up with zeros behind its sign. -/
def zeroPadded (width : Nat) (value : Int) : String :=
  let digits := toString value.natAbs
  if value < 0 then
    "-" ++ String.ofList (replicate (width - 1 - digits.length) '0') ++ digits
  else String.ofList (replicate (width - digits.length) '0') ++ digits

def hashPropertyValue : PropertyValue → String
  | .null => "null"
  | .string value => value
  | .integer value => toString value
  | .float shown => shown
  | .decimal shown => shown
  | .boolean value => toString value
  | .date nanos => zeroPadded 20 (nanos.getD 0)
  | .url url => url
  | .reference id => "ref:" ++ id
  | .resource uuid => "resource:" ++ uuid
  | .element uuid => "block:" ++ uuid
  | .composite uuid => "container:" ++ uuid
  | .vector 0 => "[]"
  | .vector dimensions => "vector:" ++ toString dimensions ++ "d"
  | .geometry kind => "geometry:" ++ kind.text
  | .array _ json => json
  | .object json => json

/-- The fields of a node that the property index reads; times are microseconds. -/
structure Node where
  properties : AList fun _ : String => PropertyValue
  nodeType : String
  name : String
  archetype : Option String
  createdBy : Option String
  updatedBy : Option String
  createdAt : Option Int
  updatedAt : Option Int
  publishedAt : Option Int

def PropertyValue.asString? : PropertyValue → Option String
  | .string value => some value
  | _ => none

def readStringArray (properties : AList fun _ : String => PropertyValue) (key : String) :
    List String :=
  match properties.lookup key with
  | some (.array items _) => items.filterMap PropertyValue.asString?
  | _ => []

namespace Node

variable (node : Node)

def effectiveMixins : List String := readStringArray node.properties "$mixins"

def effectiveSupertypes : List String := readStringArray node.properties "$supertypes"

end Node

/-! ## Stored nodes -/

/-- What the reading of stored properties leaves to others: RFC 3339 texts, whose time may be out of
the range of nanoseconds, and the values that hold others. -/
structure PropertyCodec where
  parseRfc3339 : String → Option (Option Int)
  nested : PropertyValue → PropertyValue

/-- A list of one integer is read as a time in nanoseconds, if it is some minutes from the epoch;
before the epoch it has to be whole seconds. -/
def readsAsTime (nanos : Int) : Bool :=
  10 ^ 12 ≤ nanos.natAbs ∧ (0 ≤ nanos ∨ nanos % 10 ^ 9 = 0)

def PropertyValue.isNumber : PropertyValue → Bool
  | .integer _ => true
  | .float _ => true
  | _ => false

/-- A time is stored as the list of its nanoseconds. -/
def readTime (nanos : Int) : PropertyValue :=
  if readsAsTime nanos then .date (some nanos) else .vector 1

namespace PropertyCodec

variable (codec : PropertyCodec)

/-- A property value as it is read back from its record, which does not tell times from texts and
from lists of one number, nor vectors from lists of numbers.  Decimals and texts that look like
them are marked. -/
def classify : PropertyValue → PropertyValue
  | .string value =>
      match codec.parseRfc3339 value with
      | some nanos => .date nanos
      | none => .string value
  | .date nanos => readTime (nanos.getD (2 ^ 63 - 1))
  | .array [.integer value] _ => readTime value
  | .array items json =>
      if items.all PropertyValue.isNumber then .vector items.length
      else codec.nested (.array items json)
  | .resource uuid => codec.nested (.resource uuid)
  | .element uuid => codec.nested (.element uuid)
  | .composite uuid => codec.nested (.composite uuid)
  | .object json => codec.nested (.object json)
  | value => value

/-- The node that later writes and deletes find stored. -/
def storedNode (node : Node) : Node :=
  { node with properties :=
    ⟨node.properties.entries.map fun property => ⟨property.1, codec.classify property.2⟩, by
      have names := node.properties.nodupKeys
      rw [NodupKeys, keys] at names ⊢
      rwa [map_map]⟩ }

end PropertyCodec

/-! ## Entries -/

inductive EntryValue where
  | text (value : String)
  | micros (stamp : Int)
  deriving DecidableEq

/-- An entry without its revision. -/
structure PropertyEntry where
  published : Bool
  name : String
  value : EntryValue
  deriving DecidableEq

/-- Text under the reserved names is indexed when it is there and not empty. -/
def pseudoTexts (node : Node) : List (String × String) :=
  [("__name", some node.name), ("__archetype", node.archetype),
    ("__created_by", node.createdBy), ("__updated_by", node.updatedBy)].filterMap fun field =>
      (field.2.filter fun value => !value.isEmpty).map fun value => (field.1, value)

def pseudoTimes (node : Node) : List (String × Int) :=
  [("__created_at", node.createdAt), ("__updated_at", node.updatedAt)].filterMap fun field =>
    field.2.map fun micros => (field.1, micros)

def indexedTexts (node : Node) : List (String × String) :=
  (node.properties.entries.map fun property => (property.1, hashPropertyValue property.2)) ++
    [("__node_type", node.nodeType)] ++
    (node.effectiveSupertypes.map fun member => ("__supertype", member)) ++
    (node.effectiveMixins.map fun member => ("__mixin", member)) ++
    pseudoTexts node

/-- Every entry of a node, each once. -/
def entriesOf (node : Node) : List PropertyEntry :=
  let published := node.publishedAt.isSome
  (((indexedTexts node).map fun field => PropertyEntry.mk published field.1 (.text field.2)) ++
    (pseudoTimes node).map fun field =>
      PropertyEntry.mk published field.1 (.micros field.2)).dedup

/-! ## Keys -/

structure IndexCtx where
  tenantId : String
  repoId : String
  branch : String
  workspace : String

def EntryValue.keyValue : EntryValue → PropertyKeyValue
  | .text value => .hash value
  | .micros stamp => .timestamp stamp

namespace PropertyEntry

variable (entry : PropertyEntry) (ctx : IndexCtx)

/-- The bytes before the revision, which all versions of an entry share. -/
def valuePrefix : Key :=
  buildPrefix [utf8Bytes ctx.tenantId, utf8Bytes ctx.repoId, utf8Bytes ctx.branch,
    utf8Bytes ctx.workspace, utf8Bytes (if entry.published then "prop_pub" else "prop"),
    utf8Bytes entry.name, entry.value.keyValue.part.bytes]

end PropertyEntry

end RaisinDB.Indexing
