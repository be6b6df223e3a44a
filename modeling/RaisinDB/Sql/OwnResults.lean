import RaisinDB.Sql.ResultNames

/-!
# Every call reads its own result

What an expression finds under a name comes from the last operator that wrote a column of that
name.  It is the expression's own result, whatever was computed, exactly when that was the call
itself.
-/

namespace RaisinDB.Sql

open List

/-! ## Reading a call -/

namespace AggregateCall

variable (engine : Engine)

/-- A call without modifiers. -/
def Plain (call : AggregateCall) : Prop := call.distinct = false ∧ call.orderBy = []

/-- The name that a call without modifiers tries next. -/
def oldName (call : AggregateCall) : String :=
  generateAggregateColumnName engine call.func.base call.args

theorem base_mem (func : AggregateFunction) : func.base ∈ aggregateNames := by
  cases func <;> decide

/-- The name of the function up to its modifiers. -/
theorem upper_words {engine : Engine} (texts : PlainTexts engine) (call : AggregateCall) :
    ∃ modifiers, (engine.uppercase call.spec.encode).toList = call.func.base.toList ++ modifiers ∧
      (call.Plain → modifiers = []) ∧ (¬ call.Plain → ∃ rest, modifiers = ' ' :: rest) := by
  rw [uppercase_encode texts]
  have base : call.func.base.toList.map Char.toUpper = call.func.base.toList := by
    cases call.func <;> decide
  have plain : call.plainChars.map Char.toUpper = call.func.base.toList ++
      (if call.distinct then " DISTINCT".toList else []) := by
    unfold plainChars
    rw [map_append, base]
    cases call.distinct <;> rfl
  by_cases ordered : call.orderBy = []
  · rw [call.encode_of_plain ordered, plain]
    refine ⟨_, rfl, fun still => by rw [still.1]; rfl, fun modified => ?_⟩
    have distinct : call.distinct = true := by
      cases distinct : call.distinct
      · exact absurd ⟨distinct, ordered⟩ modified
      · rfl
    exact ⟨"DISTINCT".toList, by rw [distinct]; rfl⟩
  · rw [call.encode_of_ordered ordered, map_append, plain, append_assoc]
    refine ⟨_, rfl, fun still => absurd still.2 ordered, fun _ => ?_⟩
    cases call.distinct
    · exact ⟨_, rfl⟩
    · exact ⟨_, rfl⟩

theorem takeWhile_base (func : AggregateFunction) (rest : List Char) :
    (func.base.toList ++ ' ' :: rest).takeWhile (· != ' ') = func.base.toList ∧
      func.base.toList.takeWhile (· != ' ') = func.base.toList := by
  have all : ∀ char ∈ func.base.toList, (char != ' ') = true := by
    intro char mem
    have other : char ≠ ' ' := fun same => base_free func (same ▸ mem)
    simpa using other
  constructor
  · rw [takeWhile_append_of_pos all, takeWhile_cons_of_neg (by decide), append_nil]
  · exact takeWhile_eq_self_iff.mpr all

theorem upper_word_mem {engine : Engine} (texts : PlainTexts engine) (call : AggregateCall) :
    String.ofList ((engine.uppercase call.spec.encode).toList.takeWhile (· != ' ')) ∈
      aggregateNames := by
  obtain ⟨modifiers, letters, plain, modified⟩ := upper_words texts call
  have word : (engine.uppercase call.spec.encode).toList.takeWhile (· != ' ') =
      call.func.base.toList := by
    rw [letters]
    by_cases still : call.Plain
    · rw [plain still, append_nil]
      exact (takeWhile_base call.func []).2
    · obtain ⟨rest, blank⟩ := modified still
      rw [blank]
      exact (takeWhile_base call.func rest).1
  rw [word, String.ofList_toList]
  exact base_mem call.func

/-- A call that finds no column is handed to the registry, which knows plain names only. -/
theorem evalFunction_call {engine : Engine} (texts : PlainTexts engine) (call : AggregateCall)
    (args : List TypedExpr) (results : List Outcome) (row : Row) :
    (call.Plain → evalFunction (withAggregates engine) call.spec.encode args results row =
      aggregateLookup engine call.func.base args row) ∧
    (¬ call.Plain → evalFunction (withAggregates engine) call.spec.encode args results row =
      .error (.unknownFunction (engine.uppercase call.spec.encode))) := by
  have word := upper_word_mem texts call
  have handed : evalFunction (withAggregates engine) call.spec.encode args results row =
      (withAggregates engine).call (engine.uppercase call.spec.encode) args results row := by
    unfold evalFunction
    rw [show (withAggregates engine).uppercase = engine.uppercase from rfl]
    split
    case h_7 => rfl
    all_goals
      next name =>
        rw [name] at word
        exact absurd word (by decide +kernel)
  rw [handed]
  obtain ⟨modifiers, letters, plain, modified⟩ := upper_words texts call
  constructor
  · intro still
    have base : engine.uppercase call.spec.encode = call.func.base := by
      apply String.toList_injective
      rw [letters, plain still, append_nil]
    rw [base]
    exact if_pos (base_mem call.func)
  · intro changed
    obtain ⟨rest, blank⟩ := modified changed
    have unnamed : engine.uppercase call.spec.encode ∉ aggregateNames := by
      intro mem
      have blanks : ∀ name ∈ aggregateNames, ' ' ∉ name.toList := by decide +kernel
      apply blanks _ mem
      rw [letters, blank]
      exact mem_append_right _ mem_cons_self
    unfold withAggregates
    simp only []
    rw [if_neg unnamed, if_pos word]

end AggregateCall

namespace ComputedQuery

variable (engine : Engine)

/-- Every call reads what was computed for it. -/
def OwnResults (query : ComputedQuery) (source : Row) : Prop :=
  ∀ (results : AggregateCall → PropertyValue) (windowResults : WindowCall → PropertyValue),
    (∀ call ∈ query.calls,
      evalExpr (withAggregates engine) (query.outputRow engine source results windowResults)
        call.expr = .ok (fromPropertyValue (results call))) ∧
    ∀ use ∈ query.uses,
      evalExpr (withAggregates engine) (query.outputRow engine source results windowResults)
        use.expr = .ok (fromPropertyValue (windowResults use.toWindowCall))

/-! ### Where a column comes from -/

/-- What wrote a column. -/
inductive Origin where
  | aggregate (call : AggregateCall)
  | window (call : WindowCall)
  | source (value : PropertyValue)

def Origin.value (results : AggregateCall → PropertyValue)
    (windowResults : WindowCall → PropertyValue) : Origin → PropertyValue
  | .aggregate call => results call
  | .window call => windowResults call
  | .source value => value

/-- The computed aggregate writes the column. -/
def Stores (name : String) (computed : AggregateExpr) : Prop :=
  name ∈ [computed.outputName, generateCanonicalAggregateName engine computed.toAggregateCall]

variable (query : ComputedQuery) (source : Row)

def aggregateOrigins : List (String × Origin) :=
  query.aggregates.flatMap fun computed =>
    [computed.outputName,
      generateCanonicalAggregateName engine computed.toAggregateCall].map fun name =>
        (name, Origin.aggregate computed.toAggregateCall)

def windowOrigins : List (String × Origin) :=
  query.windows.flatMap fun computed =>
    [computed.outputName].map fun name => (name, Origin.window computed.toWindowCall)

/-- The last writer of a column. -/
def origin (name : String) : Option Origin :=
  (lastWrite name query.windowOrigins).or
    ((lastWrite name (query.aggregateOrigins engine)).or ((source.get name).map .source))

theorem get_outputRow (results : AggregateCall → PropertyValue)
    (windowResults : WindowCall → PropertyValue) (name : String) :
    (query.outputRow engine source results windowResults).get name =
      (query.origin engine source name).map (Origin.value results windowResults) := by
  have aggregates : (query.aggregates.flatMap fun computed =>
      [(computed.outputName, results computed.toAggregateCall),
        (generateCanonicalAggregateName engine computed.toAggregateCall,
          results computed.toAggregateCall)]) =
      (query.aggregateOrigins engine).map fun write =>
        (write.1, write.2.value results windowResults) := by
    rw [aggregateOrigins, map_flatMap]
    rfl
  have windows : (query.windows.map fun computed =>
      (computed.outputName, windowResults computed.toWindowCall)) =
      query.windowOrigins.map fun write => (write.1, write.2.value results windowResults) := by
    rw [windowOrigins, map_flatMap, map_eq_flatMap]
    rfl
  rw [outputRow, windowRow, aggregateRow, Row.get_writeAll, Row.get_writeAll, aggregates, windows,
    lastWrite_map, lastWrite_map, origin, Option.map_or, Option.map_or, Option.map_map]
  congr 2
  cases source.get name <;> rfl

theorem windowOrigins_eq_none {name : String} : lastWrite name query.windowOrigins = none ↔
    ∀ computed ∈ query.windows, computed.outputName ≠ name := by
  rw [lastWrite_eq_none, windowOrigins]
  constructor
  · intro none computed mem
    exact none _ (mem_flatMap.mpr ⟨computed, mem, mem_cons_self⟩)
  · intro none write mem
    obtain ⟨computed, inside, written⟩ := mem_flatMap.mp mem
    rw [mem_singleton.mp written]
    exact none computed inside

theorem windowOrigins_eq_some {name : String} {origin : Origin} :
    lastWrite name query.windowOrigins = some origin ↔
      ∃ computed, IsLast (fun computed : WindowExpr => computed.outputName = name) query.windows
        computed ∧ .window computed.toWindowCall = origin := by
  rw [windowOrigins, lastWrite_flatMap]
  simp only [mem_singleton, eq_comm]

theorem aggregateOrigins_eq_some {name : String} {origin : Origin} :
    lastWrite name (query.aggregateOrigins engine) = some origin ↔
      ∃ computed, IsLast (Stores engine name) query.aggregates computed ∧
        .aggregate computed.toAggregateCall = origin := by
  rw [aggregateOrigins, lastWrite_flatMap]
  rfl

/-- No window writes the column, and the last aggregate that does is this call. -/
theorem origin_eq_aggregate (name : String) (call : AggregateCall) :
    query.origin engine source name = some (.aggregate call) ↔
      (∀ computed ∈ query.windows, computed.outputName ≠ name) ∧
      ∃ computed, IsLast (Stores engine name) query.aggregates computed ∧
        computed.toAggregateCall = call := by
  rw [origin, ← windowOrigins_eq_none]
  cases windows : lastWrite name query.windowOrigins with
  | some written =>
    obtain ⟨computed, _, same⟩ := query.windowOrigins_eq_some.mp windows
    rw [← same]
    simp
  | none =>
    rw [Option.none_or]
    cases aggregates : lastWrite name (query.aggregateOrigins engine) with
    | some written =>
      have found := (query.aggregateOrigins_eq_some engine).mp aggregates
      rw [Option.some_or, Option.some.injEq]
      constructor
      · rintro rfl
        obtain ⟨computed, last, same⟩ := found
        exact ⟨rfl, computed, last, Origin.aggregate.inj same⟩
      · rintro ⟨_, computed, last, same⟩
        have again := (query.aggregateOrigins_eq_some engine).mpr ⟨computed, last, rfl⟩
        rw [aggregates, same] at again
        exact Option.some.inj again
    | none =>
      rw [Option.none_or]
      constructor
      · intro written
        cases stored : source.get name <;> rw [stored] at written <;> cases written
      · rintro ⟨_, computed, last, _⟩
        have again := (query.aggregateOrigins_eq_some engine).mpr ⟨computed, last, rfl⟩
        rw [aggregates] at again
        cases again

theorem origin_eq_window (name : String) (call : WindowCall) :
    query.origin engine source name = some (.window call) ↔
      ∃ computed, IsLast (fun computed : WindowExpr => computed.outputName = name) query.windows
        computed ∧ computed.toWindowCall = call := by
  have found : query.origin engine source name = some (.window call) ↔
      lastWrite name query.windowOrigins = some (.window call) := by
    rw [origin]
    cases windows : lastWrite name query.windowOrigins with
    | some written => rw [Option.some_or]
    | none =>
      rw [Option.none_or]
      cases aggregates : lastWrite name (query.aggregateOrigins engine) with
      | some written =>
        obtain ⟨computed, _, same⟩ := (query.aggregateOrigins_eq_some engine).mp aggregates
        rw [← same]
        simp
      | none => cases source.get name <;> simp
  rw [found, windowOrigins_eq_some]
  simp only [Origin.window.injEq]

theorem origin_eq_none (name : String) :
    query.origin engine source name = none ↔
      (∀ computed ∈ query.windows, computed.outputName ≠ name) ∧
      (∀ computed ∈ query.aggregates, ¬ Stores engine name computed) ∧ source.get name = none := by
  have aggregates : lastWrite name (query.aggregateOrigins engine) = none ↔
      ∀ computed ∈ query.aggregates, ¬ Stores engine name computed := by
    rw [lastWrite_eq_none, aggregateOrigins]
    simp only [mem_flatMap, mem_map, forall_exists_index, and_imp, Stores]
    constructor
    · intro none computed mem stores
      exact none _ computed mem name stores rfl rfl
    · intro none write computed mem other stores same here
      rw [← same] at here
      exact none computed mem (here ▸ stores)
  rw [origin, Option.or_eq_none_iff, Option.or_eq_none_iff, windowOrigins_eq_none, aggregates,
    Option.map_eq_none_iff]

/-- A column gives a call its own value, whatever was computed, when the call wrote it. -/
theorem Origin.own_iff {origin : Origin} {call : AggregateCall} :
    (∀ results windowResults, fromPropertyValue (origin.value results windowResults) =
      fromPropertyValue (results call)) ↔ origin = .aggregate call := by
  classical
  constructor
  · intro own
    cases origin with
    | aggregate other =>
      have told := own (fun computed => .integer (if computed = call then 1 else 0))
        (fun _ => .null)
      by_cases same : other = call
      · rw [same]
      · simp [Origin.value, same, fromPropertyValue] at told
    | window other =>
      have told := own (fun _ => .integer 1) (fun _ => .null)
      cases told
    | source value =>
      have first := own (fun _ => .integer 1) (fun _ => .null)
      have second := own (fun _ => .integer 2) (fun _ => .null)
      have same := first.symm.trans second
      simp [fromPropertyValue] at same
  · rintro rfl _ _
    rfl

theorem Origin.own_window_iff {origin : Origin} {call : WindowCall} :
    (∀ results windowResults, fromPropertyValue (origin.value results windowResults) =
      fromPropertyValue (windowResults call)) ↔ origin = .window call := by
  classical
  constructor
  · intro own
    cases origin with
    | window other =>
      have told := own (fun _ => .null)
        (fun computed => .integer (if computed = call then 1 else 0))
      by_cases same : other = call
      · rw [same]
      · simp [Origin.value, same, fromPropertyValue] at told
    | aggregate other =>
      have told := own (fun _ => .null) (fun _ => .integer 1)
      cases told
    | source value =>
      have first := own (fun _ => .null) (fun _ => .integer 1)
      have second := own (fun _ => .null) (fun _ => .integer 2)
      have same := first.symm.trans second
      simp [fromPropertyValue] at same
  · rintro rfl _ _
    rfl

/-! ### Every call -/

/-- The registry has no part in names. -/
theorem argName_withAggregates (expr : TypedExpr) :
    argName (withAggregates engine) expr = argName engine expr := by
  fun_induction argName engine expr with
  | case1 table column ty => rfl
  | case2 name signature filter ty => rfl
  | case3 name arg signature filter ty ih => rw [argName, ih]; rfl
  | case4 name first second rest signature filter ty => rfl
  | case5 expr column call unary nary =>
    unfold argName
    split
    · exact absurd rfl (column _ _ _)
    · exact absurd rfl (call _ _ _ _)
    · exact absurd rfl (unary _ _ _ _ _)
    · exact absurd rfl (nary _ _ _ _ _ _ _)
    · rfl

theorem evalExpr_call {engine : Engine} (texts : PlainTexts engine) (call : AggregateCall)
    (row : Row) :
    (∀ value, row.get (call.lookupName engine) = some value →
      evalExpr (withAggregates engine) row call.expr = .ok (fromPropertyValue value)) ∧
    (row.get (call.lookupName engine) = none →
      (call.Plain → evalExpr (withAggregates engine) row call.expr =
        aggregateLookup engine call.func.base call.args row) ∧
      (¬ call.Plain → evalExpr (withAggregates engine) row call.expr =
        .error (.unknownFunction (engine.uppercase call.spec.encode)))) := by
  have name : functionColumnName (withAggregates engine) call.spec.encode
      (call.args ++ call.orderBy.map Prod.fst) call.filter = call.lookupName engine :=
    argName_withAggregates engine _
  constructor
  · intro value found
    rw [AggregateCall.expr, evalExpr, name, found]
  · intro missing
    have shape : evalExpr (withAggregates engine) row call.expr =
        evalFunction (withAggregates engine) call.spec.encode
          (call.args ++ call.orderBy.map Prod.fst)
          (evalAll (withAggregates engine) row (call.args ++ call.orderBy.map Prod.fst)) row := by
      rw [AggregateCall.expr, evalExpr, name, missing]
    rw [shape]
    have handed := call.evalFunction_call texts (call.args ++ call.orderBy.map Prod.fst)
      (evalAll (withAggregates engine) row (call.args ++ call.orderBy.map Prod.fst)) row
    refine ⟨fun plain => ?_, handed.2⟩
    have shown := handed.1 plain
    rw [plain.2, map_nil, append_nil] at shown ⊢
    exact shown

theorem evalExpr_use (use : WindowUse) {row : Row} {value : PropertyValue}
    (found : row.get use.lookupName = some value) :
    evalExpr (withAggregates engine) row use.expr = .ok (fromPropertyValue value) := by
  unfold WindowUse.expr
  unfold WindowUse.lookupName at found
  cases extracted : use.extracted with
  | none =>
    rw [extracted, Option.getD_none] at found
    simp only [evalExpr, found]
  | some name =>
    rw [extracted, Option.getD_some] at found
    simp only [evalExpr, columnLiteral, Row.columnValue, Row.getByUnqualified, found, if_true]

/-- What a call reads is its own result: no window has its column, and the last of the aggregates
that write the column, under the alias or under a name shown alike, is the call itself.  A call
without modifiers whose column nobody writes reads the alias of the old style. -/
inductive ReadsOwn (query : ComputedQuery) (source : Row) (call : AggregateCall) : Prop
  | column (computed : AggregateExpr)
      (last : IsLast (fun other : AggregateExpr => other.outputName = call.lookupName engine ∨
        other.toAggregateCall.ShownAs engine call) query.aggregates computed)
      (own : computed.toAggregateCall = call)
      (unshadowed : ∀ window ∈ query.windows, window.outputName ≠ call.lookupName engine)
  | oldAlias (computed : AggregateExpr) (plain : call.Plain)
      (unwritten : ∀ other ∈ query.aggregates, other.outputName ≠ call.lookupName engine ∧
        ¬ other.toAggregateCall.ShownAs engine call)
      (unshadowed : ∀ window ∈ query.windows, window.outputName ≠ call.lookupName engine ∧
        window.outputName ≠ call.oldName engine)
      (missing : source.get (call.lookupName engine) = none)
      (last : IsLast (fun other : AggregateExpr => other.outputName = call.oldName engine)
        query.aggregates computed)
      (own : computed.toAggregateCall = call)

/-- An occurrence of a window call reads its own result: the last window computed under the name
is the call itself. -/
def ReadsOwnWindow (query : ComputedQuery) (use : WindowUse) : Prop :=
  ∃ computed, IsLast (fun other : WindowExpr => other.outputName = use.lookupName) query.windows
    computed ∧ computed.toWindowCall = use.toWindowCall

theorem stores_lookupName {engine : Engine} (texts : PlainTexts engine) (call : AggregateCall) :
    Stores engine (call.lookupName engine) = fun other : AggregateExpr =>
      other.outputName = call.lookupName engine ∨
        other.toAggregateCall.ShownAs engine call := by
  funext other
  rw [eq_iff_iff, Stores, mem_cons, mem_singleton, eq_comm,
    ← AggregateCall.canonical_eq_lookupName texts]
  exact or_congr_right eq_comm

/-- The name of a plain function is written in capitals, and the alias of the old style is not. -/
theorem canonical_ne_oldName {engine : Engine} (texts : PlainTexts engine)
    (stored call : AggregateCall) :
    generateCanonicalAggregateName engine stored ≠ call.oldName engine := by
  have capital (func : AggregateFunction) (rest : List Char) :
      (func.base.toList ++ rest).head?.any Char.isUpper = true := by
    cases func <;> rfl
  have small (func : AggregateFunction) (rest : List Char) :
      (func.base.toList.map Char.toLower ++ rest).head?.any Char.isUpper = false := by
    cases func <;> rfl
  have ascii (func : AggregateFunction) : ∀ char ∈ func.base.toList, char.toNat < 128 := by
    have all : func.base.toList.all (fun char => decide (char.toNat < 128)) = true := by
      cases func <;> decide
    exact fun char mem => of_decide_eq_true (all_eq_true.mp all char mem)
  intro same
  have first : (generateCanonicalAggregateName engine stored).toList.head?.any Char.isUpper =
      true := by
    rw [generateCanonicalAggregateName, AggregateCall.withFilter_toList,
      AggregateSpec.encode_toList, append_assoc, append_assoc]
    exact capital _ _
  have lower (rest : String) : (engine.lowercase call.func.base ++ rest).toList.head?.any
      Char.isUpper = false := by
    rw [String.toList_append, texts.lowercase _ (ascii _), String.toList_ofList]
    exact small _ _
  have second : (call.oldName engine).toList.head?.any Char.isUpper = false := by
    unfold AggregateCall.oldName generateAggregateColumnName
    split
    · rfl
    · split
      · exact lower _
      · rw [String.append_assoc]
        exact lower _
      · rw [String.append_assoc]
        exact lower _
      · exact lower _
  rw [same, second] at first
  cases first

theorem stores_oldName {engine : Engine} (texts : PlainTexts engine) (call : AggregateCall) :
    Stores engine (call.oldName engine) = fun other : AggregateExpr =>
      other.outputName = call.oldName engine := by
  funext other
  have never := canonical_ne_oldName texts other.toAggregateCall call
  rw [eq_iff_iff, Stores, mem_cons, mem_singleton, eq_comm]
  exact or_iff_left fun same => never same.symm

theorem reads_own_call_iff {engine : Engine} (texts : PlainTexts engine) (query : ComputedQuery)
    (source : Row) (call : AggregateCall) :
    (∀ results windowResults, evalExpr (withAggregates engine)
      (query.outputRow engine source results windowResults) call.expr =
        .ok (fromPropertyValue (results call))) ↔ query.ReadsOwn engine source call := by
  have written := query.origin_eq_aggregate engine source (call.lookupName engine) call
  have aliased := query.origin_eq_aggregate engine source (call.oldName engine) call
  have unwritten := query.origin_eq_none engine source (call.lookupName engine)
  rw [stores_lookupName texts] at written unwritten
  rw [stores_oldName texts] at aliased
  cases found : query.origin engine source (call.lookupName engine) with
  | some origin =>
    have read (results : AggregateCall → PropertyValue)
        (windowResults : WindowCall → PropertyValue) : evalExpr (withAggregates engine)
          (query.outputRow engine source results windowResults) call.expr =
            .ok (fromPropertyValue (origin.value results windowResults)) := by
      apply (evalExpr_call texts call _).1
      rw [get_outputRow, found]
      rfl
    simp only [read, Except.ok.injEq]
    rw [Origin.own_iff]
    constructor
    · rintro rfl
      obtain ⟨unshadowed, computed, last, own⟩ := written.mp found
      exact .column computed last own unshadowed
    · rintro (⟨computed, last, own, unshadowed⟩ |
        ⟨computed, _, nobody, unshadowed, missing, _, _⟩)
      · have again := written.mpr ⟨unshadowed, computed, last, own⟩
        exact Option.some.inj (found.symm.trans again)
      · have none := unwritten.mpr ⟨fun window mem => (unshadowed window mem).1,
          fun other mem stores => stores.elim (nobody other mem).1 (nobody other mem).2, missing⟩
        rw [found] at none
        cases none
  | none =>
    obtain ⟨noWindow, noAggregate, missing⟩ := unwritten.mp found
    have read (results : AggregateCall → PropertyValue)
        (windowResults : WindowCall → PropertyValue) := (evalExpr_call texts call
          (query.outputRow engine source results windowResults)).2 (by
            rw [get_outputRow, found]
            rfl)
    by_cases plain : call.Plain
    · have shape (results : AggregateCall → PropertyValue)
          (windowResults : WindowCall → PropertyValue) : evalExpr (withAggregates engine)
            (query.outputRow engine source results windowResults) call.expr =
              ((query.origin engine source (call.oldName engine)).map
                (Origin.value results windowResults)).elim
                  (.error (.arguments call.func.base "result not found in row"))
                  fun value => .ok (fromPropertyValue value) := by
        rw [(read results windowResults).1 plain, aggregateLookup, ← get_outputRow,
          AggregateCall.oldName]
        cases (query.outputRow engine source results windowResults).get
          (generateAggregateColumnName engine call.func.base call.args) <;> rfl
      simp only [shape]
      cases old : query.origin engine source (call.oldName engine) with
      | some origin =>
        simp only [Option.map_some, Option.elim_some, Except.ok.injEq]
        rw [Origin.own_iff]
        constructor
        · rintro rfl
          obtain ⟨unshadowed, computed, last, own⟩ := aliased.mp old
          exact .oldAlias computed plain (fun other mem => not_or.mp (noAggregate other mem))
            (fun window mem => ⟨noWindow window mem, unshadowed window mem⟩) missing last own
        · rintro (⟨computed, last, own, _⟩ | ⟨computed, _, _, unshadowed, _, last, own⟩)
          · exact absurd (written.mpr ⟨noWindow, computed, last, own⟩) (by rw [found]; nofun)
          · have again := aliased.mpr ⟨fun window mem => (unshadowed window mem).2, computed,
              last, own⟩
            exact Option.some.inj (old.symm.trans again)
      | none =>
        constructor
        · intro own
          cases own (fun _ => .null) (fun _ => .null)
        · rintro (⟨computed, last, own, _⟩ | ⟨computed, _, _, unshadowed, _, last, own⟩)
          · exact absurd (written.mpr ⟨noWindow, computed, last, own⟩) (by rw [found]; nofun)
          · have again := aliased.mpr ⟨fun window mem => (unshadowed window mem).2, computed,
              last, own⟩
            exact absurd again (by rw [old]; nofun)
    · constructor
      · intro own
        have refused := (read (fun _ => .null) (fun _ => .null)).2 plain
        cases refused.symm.trans (own (fun _ => .null) (fun _ => .null))
      · rintro (⟨computed, last, own, _⟩ | ⟨_, still, _, _, _, _, _⟩)
        · exact absurd (written.mpr ⟨noWindow, computed, last, own⟩) (by rw [found]; nofun)
        · exact absurd still plain

theorem reads_own_window_iff {query : ComputedQuery} (source : Row) {use : WindowUse}
    (mem : use ∈ query.uses) :
    (∀ results windowResults, evalExpr (withAggregates engine)
      (query.outputRow engine source results windowResults) use.expr =
        .ok (fromPropertyValue (windowResults use.toWindowCall))) ↔ query.ReadsOwnWindow use := by
  have written := query.origin_eq_window engine source use.lookupName use.toWindowCall
  rw [ReadsOwnWindow, ← written]
  cases found : query.origin engine source use.lookupName with
  | some origin =>
    have read (results : AggregateCall → PropertyValue)
        (windowResults : WindowCall → PropertyValue) : evalExpr (withAggregates engine)
          (query.outputRow engine source results windowResults) use.expr =
            .ok (fromPropertyValue (origin.value results windowResults)) := by
      apply evalExpr_use
      rw [get_outputRow, found]
      rfl
    simp only [read, Except.ok.injEq]
    rw [Origin.own_window_iff, Option.some.injEq]
  | none =>
    refine iff_of_false (fun own => ?_) nofun
    have told := own (fun _ => .null) (fun _ => .null)
    have missing : (query.outputRow engine source (fun _ => .null) fun _ => .null).get
        use.lookupName = none := by
      rw [get_outputRow, found]
      rfl
    -- a call that was taken out is computed, so this one was not
    cases extracted : use.extracted with
    | none =>
      rw [WindowUse.lookupName, extracted, Option.getD_none] at missing
      simp only [WindowUse.expr, extracted, evalExpr, missing] at told
      cases told
    | some name =>
      obtain ⟨computed, inside, _, called⟩ := query.extracts use mem name extracted
      have nobody := (query.origin_eq_none engine source _).mp found
      apply nobody.1 computed inside
      rw [called, WindowUse.lookupName, extracted, Option.getD_some]

/-- Every call reads its own result exactly when no other call is stored in its column. -/
theorem reads_own_results_iff {engine : Engine} (texts : PlainTexts engine)
    (structuralHash : TypedExpr → String) (query : ComputedQuery) (source : ResultSource) :
    query.OwnResults engine (source.row engine structuralHash) ↔
      (∀ call ∈ query.calls, query.ReadsOwn engine (source.row engine structuralHash) call) ∧
      ∀ use ∈ query.uses, query.ReadsOwnWindow use := by
  generalize source.row engine structuralHash = row
  constructor
  · intro own
    constructor
    · intro call mem
      rw [← reads_own_call_iff texts]
      exact fun results windowResults => (own results windowResults).1 call mem
    · intro use mem
      rw [← reads_own_window_iff engine row mem]
      exact fun results windowResults => (own results windowResults).2 use mem
  · rintro ⟨calls, uses⟩ results windowResults
    constructor
    · intro call mem
      exact (reads_own_call_iff texts query row call).mpr (calls call mem) results windowResults
    · intro use mem
      exact (reads_own_window_iff engine row mem).mpr (uses use mem) results windowResults

/-! ### Two sums -/

theorem asciiTexts : PlainTexts asciiEngine where
  uppercase := fun _ _ => rfl
  lowercase := fun _ _ => rfl
  filterHash := fun _ _ mem => by cases mem

def sumOf (arg : TypedExpr) : AggregateCall where
  func := .sum
  args := [arg]
  filter := none
  distinct := false
  orderBy := []
  counts := ⟨nofun, nofun⟩
  valued := nofun

/-- A query that sums two expressions. -/
def twoSums (first second : TypedExpr) : ComputedQuery where
  aggregates := [⟨sumOf first, "SUM"⟩, ⟨sumOf second, "SUM"⟩]
  windows := []
  calls := [sumOf first, sumOf second]
  uses := []
  extracts := nofun

theorem two_column_sums : (twoSums (.column "t" "a" .int) (.column "t" "b" .int)).OwnResults
    asciiEngine ((ResultSource.group [] []).row asciiEngine fun _ => "") := by
  refine (reads_own_results_iff asciiTexts (fun _ => "") _ (.group [] [])).mpr ⟨?_, nofun⟩
  intro call mem
  rcases mem_cons.mp mem with rfl | mem
  · refine .column ⟨sumOf (.column "t" "a" .int), "SUM"⟩ ⟨[], _, rfl, ?_, ?_⟩ rfl nofun
    · exact .inr ⟨⟨rfl, rfl⟩, rfl, rfl, by decide +kernel, rfl⟩
    · intro later inside
      rw [mem_singleton.mp inside]
      rintro (same | shown)
      · exact absurd same (by decide +kernel)
      · exact absurd shown.argument (by decide +kernel)
  · rw [mem_singleton.mp mem]
    refine .column ⟨sumOf (.column "t" "b" .int), "SUM"⟩ ⟨[_], [], rfl, ?_, nofun⟩ rfl nofun
    exact .inr ⟨⟨rfl, rfl⟩, rfl, rfl, by decide +kernel, rfl⟩

def doubled (name : String) : TypedExpr :=
  .binaryOp (.column "t" name .int) .multiply (.literal (.int 2) .int) .int

/-- The result is named after the column that is summed. -/
def namedResult (call : AggregateCall) : PropertyValue :=
  match call.args with
  | [.binaryOp (.column _ name _) _ _ _] => .string name
  | _ => .null

theorem two_product_sums : ¬ (twoSums (doubled "a") (doubled "b")).OwnResults asciiEngine
    ((ResultSource.group [] []).row asciiEngine fun _ => "") := by
  intro own
  have first := (own namedResult fun _ => .null).1 (sumOf (doubled "a")) mem_cons_self
  exact absurd first (by decide +kernel)

end ComputedQuery

end RaisinDB.Sql
