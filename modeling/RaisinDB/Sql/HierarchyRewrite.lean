import RaisinDB.Foundation.SeparatedPaths
import RaisinDB.Sql.Evaluator

/-!
# Hierarchy predicates

The conjuncts of a filter are turned into the predicates that the planner knows: a prefix and a
depth of a path, the children of a node, a column or a JSON member that equals a value, a range, a
distance.  A predicate is turned back into an expression where it is left to the rows.
-/

namespace RaisinDB.Sql

open RaisinDB.Foundation (Binary64 Value trimEnd)

/-! ## Functions of the path and the properties of a row -/

def childOfFunction (results : List Outcome) (row : Row) : Outcome :=
  match results with
  | [result] => do
      let parent ← result
      if parent.isNull then return .null
      else
        match parent.pathOrText?, (row.getByUnqualified "path").map fromPropertyValue with
        | none, _ => throw (.arguments "CHILD_OF" "requires a path argument")
        | some _, none => throw (.arguments "CHILD_OF" "requires row to have a 'path' column")
        | some _, some .null => return .null
        | some parent, some value =>
            match value.pathOrText? with
            | some path =>
                return .boolean (startsWith path parent &&
                  (segments path).length == (segments parent).length + 1)
            | none => throw (.arguments "CHILD_OF"
                "requires row to have a 'path' column with path/text type")
  | _ => .error (.arguments "CHILD_OF" "requires exactly 1 argument")

/-- The texts before and behind the first occurrence of a character. -/
def splitOnce (mark : Char) (text : String) : Option (String × String) :=
  match text.toList.dropWhile (· != mark) with
  | [] => none
  | _ :: rest => some (String.ofList (text.toList.takeWhile (· != mark)), String.ofList rest)

section Functions

-- Whether a property holds a reference to a path in a workspace.  The members of a stored object
-- are kept as JSON, that does not tell the references among them.
variable (checkForReference : PropertyValue → String → String → Bool)

def referencesFunction (results : List Outcome) (row : Row) : Outcome :=
  match results with
  | [result] => do
      match ← result with
      | .null => return .null
      | .text target =>
          match splitOnce ':' target, row.getByUnqualified "properties" with
          | none, _ => throw (.arguments "REFERENCES" ("target '" ++ target ++
              "' must be in 'workspace:/path' format"))
          | some _, none => throw (.arguments "REFERENCES"
              "row filter requires the 'properties' column to be materialized in the row")
          | some (targetWorkspace, targetPath), some properties =>
              return .boolean (checkForReference properties targetWorkspace targetPath)
      | _ => throw (.arguments "REFERENCES"
          "argument must be a text value in 'workspace:/path' format")
  | _ => .error (.arguments "REFERENCES" "requires exactly 1 argument: (target)")

/-- An engine that knows the two functions. -/
def Engine.withHierarchy (engine : Engine) : Engine :=
  { engine with
    call := fun name args results row =>
      match name with
      | "CHILD_OF" => childOfFunction results row
      | "REFERENCES" => referencesFunction checkForReference results row
      | other => engine.call other args results row }

end Functions

/-! ## Predicates -/

inductive ComparisonOp where
  | lt
  | ltEq
  | gt
  | gtEq
  deriving DecidableEq

namespace ComparisonOp

def fromBinaryOp : BinaryOperator → Option ComparisonOp
  | .lt => some lt
  | .ltEq => some ltEq
  | .gt => some gt
  | .gtEq => some gtEq
  | _ => none

def toBinaryOp : ComparisonOp → BinaryOperator
  | lt => .lt
  | ltEq => .ltEq
  | gt => .gt
  | gtEq => .gtEq

/-- The operator for the operands in the other order. -/
def reverse : ComparisonOp → ComparisonOp
  | lt => gt
  | ltEq => gtEq
  | gt => lt
  | gtEq => ltEq

end ComparisonOp

inductive CanonicalPredicate where
  | prefixRange (table pathCol start : String)
  | depthEq (table pathCol : String) (depthValue : Int32)
  | childOf (parentPath : String)
  | descendantOf (parentPath : String) (maxDepth : Option Int64)
  | columnEq (table column : String) (value : TypedExpr)
  | jsonPropertyEq (table jsonCol key : String) (value : Value)
  | columnIn (table column : String) (values : List TypedExpr)
  | jsonPropertyIn (table jsonCol key : String) (values : List Value)
  | rangeCompare (table column : String) (op : ComparisonOp) (value : TypedExpr)
  | jsonPropertyRange (table jsonCol key : String) (op : ComparisonOp) (value : String)
  | propertyPrefixRange (table column start : String)
  | spatialDWithin (table geometryColumn propertyName : String)
      (centerLon centerLat radiusMeters : Binary64) (isExact : Bool) (original : TypedExpr)
  | references (targetWorkspace targetPath : String)
  | typeMembership (indexProperty typeName : String) (original : TypedExpr)
  | other (expr : TypedExpr)

namespace CanonicalPredicate

/-- A call of a deterministic function without a filter. -/
def functionCall (name : String) (args : List TypedExpr) (returnType : DataType) : TypedExpr :=
  .function name args ⟨name, true⟩ none returnType

/-- The member of a JSON column as text. -/
def memberText (table jsonCol key : String) : TypedExpr :=
  .json .extractText (.column table jsonCol .jsonB) (.ofLiteral (.text key)) (.nullable .text)

/-- A JSON value as the text that `->>` shows for it. -/
def valueText : Value → String
  | .string text => text
  | json => jsonText json

def toExpr : CanonicalPredicate → TypedExpr
  | prefixRange table pathCol start =>
      functionCall "PATH_STARTS_WITH" [.column table pathCol .path, .ofLiteral (.path start)]
        .boolean
  | depthEq table pathCol depthValue =>
      .binaryOp (functionCall "DEPTH" [.column table pathCol .path] .int) .eq
        (.ofLiteral (.int depthValue)) .boolean
  | columnEq table column value =>
      .binaryOp (.column table column value.dataType) .eq value .boolean
  | childOf parentPath => functionCall "CHILD_OF" [.ofLiteral (.path parentPath)] .boolean
  | descendantOf parentPath maxDepth =>
      match maxDepth with
      | some depth =>
          functionCall "DESCENDANT_OF" [.ofLiteral (.path parentPath), .ofLiteral (.bigInt depth)]
            .boolean
      | none => functionCall "DESCENDANT_OF" [.ofLiteral (.path parentPath)] .boolean
  | jsonPropertyEq table jsonCol key value =>
      .binaryOp (memberText table jsonCol key) .eq (.ofLiteral (.text (valueText value))) .boolean
  | columnIn table column values =>
      .inList (.column table column ((values.head?.map TypedExpr.dataType).getD .text)) values false
        .boolean
  | jsonPropertyIn table jsonCol key values =>
      .inList (memberText table jsonCol key)
        (values.map fun value => .ofLiteral (.text (valueText value))) false .boolean
  | rangeCompare table column op value =>
      .binaryOp (.column table column value.dataType) op.toBinaryOp value .boolean
  | jsonPropertyRange table jsonCol key op value =>
      .binaryOp (memberText table jsonCol key) op.toBinaryOp (.ofLiteral (.text value)) .boolean
  | propertyPrefixRange table column start =>
      .like (.column table column .text) (.ofLiteral (.text (start ++ "%"))) false .boolean
  | spatialDWithin _ _ _ _ _ _ _ original | typeMembership _ _ original => original
  | references targetWorkspace targetPath =>
      functionCall "REFERENCES" [.ofLiteral (.text (targetWorkspace ++ ":" ++ targetPath))] .boolean
  | other expr => expr

end CanonicalPredicate

/-! ## Spatial predicates -/

/-- What is read of the constants of a spatial predicate: a geometry as GeoJSON, a number, whether a
geometry is in geographic coordinates, and the centre of its envelope with its circumradius. -/
structure SpatialConsts where
  constGeometry : TypedExpr → Option Value
  numericLiteral : TypedExpr → Option Binary64
  centerIsWgs84 : Value → Bool
  envelope : Value → Option (Binary64 × Binary64 × Binary64)

/-- The table, the column and the property that a geometry is read from. -/
def extractGeometrySource : TypedExpr → Option (String × String × String)
  | .cast inner .geometry _ => extractGeometrySource inner
  | .json .extractText object key _ | .json .extract object key _ =>
      match object.column?, key.literal? with
      | some (table, column), some (.text property) => some (table, column, property)
      | _, _ => none
  | .column table column _ => some (table, "properties", column)
  | _ => none

section Spatial

variable (consts : SpatialConsts)

/-- A distance that is finite and not negative. -/
def radiusOf (expr : TypedExpr) : Option Binary64 :=
  match consts.numericLiteral expr with
  | some .nan | some (.infinite _) => none
  | some radius => if radius.less (.zero false) then none else some radius
  | none => none

/-- One operand is where the geometries are read from and the other one a constant. -/
def sourceAndCenter (first second : TypedExpr) : Option ((String × String × String) × Value) :=
  match extractGeometrySource first, consts.constGeometry second, extractGeometrySource second,
    consts.constGeometry first with
  | some source, some center, _, none => some (source, center)
  | _, none, some source, some center => some (source, center)
  | some source, some center, some _, _ => some (source, center)
  | _, _, _, _ => none

def buildDwithin (source : String × String × String) (center : Value) (radius : Binary64)
    (exactWhenPoint : Bool) (original : TypedExpr) : Option CanonicalPredicate :=
  if consts.centerIsWgs84 center then
    (consts.envelope center).map fun (centerLon, centerLat, inflate) =>
      .spatialDWithin source.1 source.2.1 source.2.2 centerLon centerLat (radius.add inflate)
        (inflate.lessEq (.zero false) && exactWhenPoint) original
  else none

def matchDwithin (args : List TypedExpr) (original : TypedExpr) (exactWhenPoint : Bool) :
    Option CanonicalPredicate :=
  match args with
  | [first, second, distance] => do
      let radius ← radiusOf consts distance
      let (source, center) ← sourceAndCenter consts first second
      buildDwithin consts source center radius exactWhenPoint original
  | _ => none

def eqIgnoreAsciiCase (left right : String) : Bool :=
  left.toList.map Char.toLower == right.toList.map Char.toLower

def matchDistanceBound (distanceSide boundSide : TypedExpr) (op : BinaryOperator)
    (original : TypedExpr) : Option CanonicalPredicate :=
  match distanceSide with
  | .function name [first, second] _ _ _ =>
      if eqIgnoreAsciiCase name "ST_DISTANCE" then do
        let radius ← radiusOf consts boundSide
        let (source, center) ← sourceAndCenter consts first second
        buildDwithin consts source center radius (op == .ltEq) original
      else none
  | _ => none

def extractSpatialPredicate (expr : TypedExpr) : Option CanonicalPredicate :=
  match expr with
  | .function name args _ _ _ =>
      if eqIgnoreAsciiCase name "ST_DWITHIN" then matchDwithin consts args expr true
      else if eqIgnoreAsciiCase name "ST_3DDWITHIN" then matchDwithin consts args expr false
      else none
  | .binaryOp left .lt right _ => matchDistanceBound consts left right .lt expr
  | .binaryOp left .ltEq right _ => matchDistanceBound consts left right .ltEq expr
  | .binaryOp left .gt right _ => matchDistanceBound consts right left .lt expr
  | .binaryOp left .gtEq right _ => matchDistanceBound consts right left .ltEq expr
  | _ => none

end Spatial

/-! ## Rewriting -/

def rewriteChildOf (args : List TypedExpr) (expr : TypedExpr) : List CanonicalPredicate :=
  match args with
  | [.literal (.path parentPath) _] | [.literal (.text parentPath) _] => [.childOf parentPath]
  | _ => [.other expr]

def rewritePathStartsWith (args : List TypedExpr) (expr : TypedExpr) : List CanonicalPredicate :=
  match args with
  | [.column table column _, .literal (.path start) _]
  | [.column table column _, .literal (.text start) _] => [.prefixRange table column start]
  | _ => [.other expr]

def rewriteReferences (args : List TypedExpr) (expr : TypedExpr) : List CanonicalPredicate :=
  match args with
  | [.literal (.text target) _] =>
      match splitOnce ':' target with
      | some (workspace, path) => [.references workspace path]
      | none => [.other expr]
  | _ => [.other expr]

/-- A path without the slashes at its end. -/
def trimEndSlashes (path : String) : String :=
  String.ofList (trimEnd '/' path.toList)

/-- The children of a path: what lies under it, one level deeper. -/
def childrenOf (table column path : String) : List CanonicalPredicate :=
  let start := if path = "/" then "/" else trimEndSlashes path ++ "/"
  [.prefixRange table column start,
    .depthEq table column (Int32.ofNat ((segments path).length + 1))]

section Rewriting

variable (uppercase : String → String)

def rewriteEquality (left right expr : TypedExpr) : List CanonicalPredicate :=
  match left with
  | .function name [.column table column _] _ _ _ =>
      if uppercase name = "DEPTH" then
        match right with
        | .literal (.int depth) _ => [.depthEq table column depth]
        | _ => [.other expr]
      else if uppercase name = "PARENT" then
        match right with
        | .literal (.path path) _ | .literal (.text path) _ => childrenOf table column path
        | _ => [.other expr]
      else [.other expr]
  | .column table column _ => [.columnEq table column right]
  | _ => [.other expr]

def rewriteComparison (left : TypedExpr) (op : BinaryOperator) (right expr : TypedExpr) :
    List CanonicalPredicate :=
  match left.column?, right.column?, ComparisonOp.fromBinaryOp op with
  | some (table, column), _, some op => [.rangeCompare table column op right]
  | none, some (table, column), some op => [.rangeCompare table column op.reverse left]
  | _, _, _ => [.other expr]

def rewriteJsonContains (object pattern expr : TypedExpr) : List CanonicalPredicate :=
  match object, pattern with
  | .column table column _, .literal (.jsonB (.object [(key, value)])) _ =>
      [.jsonPropertyEq table column key value]
  | _, _ => [.other expr]

variable (consts : SpatialConsts)

def rewriteHierarchyPredicates (expr : TypedExpr) : List CanonicalPredicate :=
  match extractSpatialPredicate consts expr with
  | some spatial => [spatial]
  | none =>
      match expr with
      | .function name args _ _ _ =>
          match uppercase name with
          | "CHILD_OF" => rewriteChildOf args expr
          | "PATH_STARTS_WITH" => rewritePathStartsWith args expr
          | "REFERENCES" => rewriteReferences args expr
          | _ => [.other expr]
      | .binaryOp left op right _ =>
          match op with
          | .eq => rewriteEquality uppercase left right expr
          | .gt | .gtEq | .lt | .ltEq => rewriteComparison left op right expr
          | .and => rewriteHierarchyPredicates left ++ rewriteHierarchyPredicates right
          | _ => [.other expr]
      | .json .contains object pattern _ => rewriteJsonContains object pattern expr
      | _ => [.other expr]

end Rewriting

end RaisinDB.Sql
