import Mathlib.Data.List.Induction
import RaisinDB.Foundation.Json

/-!
# The outputs of steps in the variable bag

A flow keeps one bag of variables.  A step that finishes leaves its output under `step_outputs`,
one copy for each visit in the history, and the fields of its output directly in the bag.  A
step that is visited again first takes back what it left there the last time, as far as the bag
still holds an equal value.
-/

namespace RaisinDB.Flows

open List RaisinDB.Foundation

abbrev Fields := List (String × Value)

def stepOutputsKey : String := "step_outputs"

def historyKey : String := "__history"

def lastOutputKey : String := "__last_output"

def maxHistoryPerStep : ℕ := 20

/-- The keys of the bag that the runtime keeps for itself. -/
def isInternal (key : String) : Bool :=
  "__".toList.isPrefixOf key.toList || key == stepOutputsKey

theorem isInternal_stepOutputs : isInternal stepOutputsKey = true := by decide

theorem isInternal_history : isInternal historyKey = true := by decide

theorem isInternal_lastOutput : isInternal lastOutputKey = true := by decide

def removeField (key : String) (fields : Fields) : Fields :=
  fields.filter fun field => field.1 ≠ key

theorem lookup_removeField_self (key : String) (fields : Fields) :
    Value.lookup key (removeField key fields) = none := by
  induction fields with
  | nil => rfl
  | cons field rest ih =>
    obtain ⟨name, value⟩ := field
    by_cases same : name = key
    · simpa [removeField, same] using ih
    · simpa [removeField, Value.lookup, same] using ih

theorem lookup_removeField_of_ne {key other : String} (ne : other ≠ key) (fields : Fields) :
    Value.lookup key (removeField other fields) = Value.lookup key fields := by
  induction fields with
  | nil => rfl
  | cons field rest ih =>
    obtain ⟨name, value⟩ := field
    by_cases same : name = other
    · have away : name ≠ key := same ▸ ne
      simpa [removeField, Value.lookup, same, ne] using ih
    · by_cases hit : name = key
      · simp [removeField, Value.lookup, hit, ne.symm]
      · simpa [removeField, Value.lookup, same, hit] using ih

theorem lookup_eq_none_of_not_mem {key : String} {fields : Fields}
    (absent : key ∉ fields.map Prod.fst) : Value.lookup key fields = none := by
  induction fields with
  | nil => rfl
  | cons field rest ih =>
    obtain ⟨name, value⟩ := field
    have ne : name ≠ key := fun eq => absent (by simp [eq])
    have tail : key ∉ rest.map Prod.fst := fun mem => absent (List.mem_cons_of_mem _ mem)
    simp [Value.lookup, ne, ih tail]

/-! ## Recording an output -/

section Record

variable (same : Value → Value → Bool)

/-- Take one field of the previous output back, unless its key holds another value by now. -/
def retractField (vars : Fields) (field : String × Value) : Fields :=
  if isInternal field.1 then vars
  else
    match Value.lookup field.1 vars with
    | some held => if same held field.2 then removeField field.1 vars else vars
    | none => vars

def retract (previous : Value) (vars : Fields) : Fields :=
  match previous with
  | .object fields => fields.foldl (retractField same) vars
  | _ => vars

/-- What the step left under `step_outputs` on its previous visit. -/
def previousOutput (step : String) (vars : Fields) : Value :=
  (((Value.lookup stepOutputsKey vars).bind (Value.get step)).getD .null)

/-- Insert into the object a key of the bag holds, which is an empty one at first. -/
def updateObject (key : String) (change : Fields → Fields) (vars : Fields) : Fields :=
  match Value.lookup key vars with
  | none => Value.insertField key (.object (change [])) vars
  | some (.object fields) => Value.insertField key (.object (change fields)) vars
  | some _ => vars

/-- Only the newest visits of a step are kept. -/
def pushHistory (step : String) (output : Value) (history : Fields) : Fields :=
  match Value.lookup step history with
  | none => Value.insertField step (.array [output]) history
  | some (.array entries) =>
      Value.insertField step
        (.array ((entries ++ [output]).drop (entries.length + 1 - maxHistoryPerStep))) history
  | some _ => history

def mergeField (vars : Fields) (field : String × Value) : Fields :=
  if isInternal field.1 then vars else Value.insertField field.1 field.2 vars

def mergeOutput (output : Value) (vars : Fields) : Fields :=
  match output with
  | .object fields => fields.foldl mergeField vars
  | _ => vars

def recordStepOutput (vars : Fields) (step : String) (output : Value) : Fields :=
  let retracted := retract same (previousOutput step vars) vars
  let latest := updateObject stepOutputsKey (Value.insertField step output) retracted
  let recorded := updateObject historyKey (pushHistory step output) latest
  mergeOutput output (Value.insertField lastOutputKey output recorded)

end Record

/-- An output as a step returns it: an object has each key once. -/
def WellKeyed (output : Value) : Prop :=
  ∀ fields, output = .object fields → (fields.map Prod.fst).Nodup

structure Call where
  step : String
  output : Value
  keyed : WellKeyed output

/-- The bag after a sequence of calls, the last of them at the end. -/
def recordAll (same : Value → Value → Bool) (calls : List Call) : Fields :=
  calls.foldl (fun vars call => recordStepOutput same vars call.step call.output) []

theorem recordAll_append (same : Value → Value → Bool) (calls : List Call) (call : Call) :
    recordAll same (calls ++ [call]) =
      recordStepOutput same (recordAll same calls) call.step call.output := by
  simp [recordAll]

/-- The output of the last visit of a step. -/
def latestOutput (step : String) (calls : List Call) : Option Value :=
  calls.foldl (fun latest call => if call.step = step then some call.output else latest) none

theorem latestOutput_append (step : String) (calls : List Call) (call : Call) :
    latestOutput step (calls ++ [call]) =
      if call.step = step then some call.output else latestOutput step calls := by
  simp [latestOutput]

/-! ## What one call does to a key -/

theorem lookup_updateObject_of_ne {key other : String} (ne : other ≠ key)
    (change : Fields → Fields) (vars : Fields) :
    Value.lookup key (updateObject other change vars) = Value.lookup key vars := by
  unfold updateObject
  split
  · exact Value.lookup_insertField_of_ne ne _ _
  · exact Value.lookup_insertField_of_ne ne _ _
  · rfl

theorem ne_of_internal {key other : String} (internal : isInternal other = true)
    (flat : isInternal key = false) : other ≠ key := by
  rintro rfl
  rw [internal] at flat
  exact Bool.noConfusion flat

/-- Merging reads like looking the key up in the output first. -/
theorem lookup_merge_fields {key : String} (flat : isInternal key = false) (fields : Fields)
    (nodup : (fields.map Prod.fst).Nodup) (vars : Fields) :
    Value.lookup key (fields.foldl mergeField vars) =
      (Value.lookup key fields).or (Value.lookup key vars) := by
  induction fields generalizing vars with
  | nil => rfl
  | cons field rest ih =>
    obtain ⟨name, value⟩ := field
    obtain ⟨fresh, distinct⟩ := List.nodup_cons.mp nodup
    rw [List.foldl_cons, ih distinct]
    by_cases hit : name = key
    · subst hit
      have absent : Value.lookup name rest = none := lookup_eq_none_of_not_mem fresh
      simp [absent, mergeField, flat, Value.lookup, Value.lookup_insertField_self]
    · have kept : Value.lookup key (mergeField vars (name, value)) = Value.lookup key vars := by
        unfold mergeField
        split
        · rfl
        · exact Value.lookup_insertField_of_ne hit _ _
      rw [kept]
      simp [Value.lookup, hit]

/-- What is left of a key whose previous value is taken back. -/
def kept (same : Value → Value → Bool) (old held : Option Value) : Option Value :=
  held.filter fun value => !old.any (same value)

variable {same : Value → Value → Bool}

@[simp] theorem kept_none_left (held : Option Value) : kept same none held = held := by
  cases held <;> rfl

theorem lookup_retractField {key : String} (flat : isInternal key = false) (vars : Fields)
    (field : String × Value) :
    Value.lookup key (retractField same vars field) =
      if field.1 = key then kept same (some field.2) (Value.lookup key vars)
      else Value.lookup key vars := by
  obtain ⟨name, old⟩ := field
  by_cases hit : name = key
  · subst hit
    cases found : Value.lookup name vars with
    | none => simp [retractField, flat, found, kept]
    | some held =>
      by_cases equal : same held old = true
      · simp [retractField, flat, found, equal, kept, Option.filter, lookup_removeField_self]
      · simp [retractField, flat, found, equal, kept, Option.filter]
  · rw [if_neg hit]
    unfold retractField
    split
    · rfl
    · cases Value.lookup name vars with
      | none => rfl
      | some held =>
        dsimp only
        split
        · exact lookup_removeField_of_ne hit vars
        · rfl

theorem lookup_retract_fields {key : String} (flat : isInternal key = false) (fields : Fields)
    (nodup : (fields.map Prod.fst).Nodup) (vars : Fields) :
    Value.lookup key (fields.foldl (retractField same) vars) =
      kept same (Value.lookup key fields) (Value.lookup key vars) := by
  induction fields generalizing vars with
  | nil => simp [Value.lookup]
  | cons field rest ih =>
    obtain ⟨name, old⟩ := field
    obtain ⟨fresh, distinct⟩ := List.nodup_cons.mp nodup
    rw [List.foldl_cons, ih distinct, lookup_retractField flat]
    by_cases hit : name = key
    · subst hit
      have absent : Value.lookup name rest = none := lookup_eq_none_of_not_mem fresh
      simp [absent, Value.lookup]
    · simp [Value.lookup, hit]

theorem lookup_retract {key : String} (flat : isInternal key = false) {previous : Value}
    (keyed : WellKeyed previous) (vars : Fields) :
    Value.lookup key (retract same previous vars) =
      kept same (previous.get key) (Value.lookup key vars) := by
  cases previous with
  | object fields => exact lookup_retract_fields flat fields (keyed fields rfl) vars
  | null | bool | number | string | array => exact (kept_none_left _).symm

theorem lookup_mergeOutput {key : String} (flat : isInternal key = false) {output : Value}
    (keyed : WellKeyed output) (vars : Fields) :
    Value.lookup key (mergeOutput output vars) = (output.get key).or (Value.lookup key vars) := by
  cases output with
  | object fields => exact lookup_merge_fields flat fields (keyed fields rfl) vars
  | null | bool | number | string | array => rfl

/-- A key of the flow's own reads its new value after a call, or what the retraction left. -/
theorem lookup_recordStepOutput {key : String} (flat : isInternal key = false) {vars : Fields}
    {step : String} {output : Value} (previous : WellKeyed (previousOutput step vars))
    (keyed : WellKeyed output) :
    Value.lookup key (recordStepOutput same vars step output) =
      (output.get key).or
        (kept same ((previousOutput step vars).get key) (Value.lookup key vars)) := by
  rw [recordStepOutput, lookup_mergeOutput flat keyed,
    Value.lookup_insertField_of_ne (ne_of_internal isInternal_lastOutput flat),
    lookup_updateObject_of_ne (ne_of_internal isInternal_history flat),
    lookup_updateObject_of_ne (ne_of_internal isInternal_stepOutputs flat),
    lookup_retract flat previous]

/-! ## The latest outputs -/

/-- A retraction leaves the keys of the runtime alone. -/
theorem lookup_retract_internal {key : String} (internal : isInternal key = true)
    (previous : Value) (vars : Fields) :
    Value.lookup key (retract same previous vars) = Value.lookup key vars := by
  cases previous with
  | object fields =>
    simp only [retract]
    induction fields generalizing vars with
    | nil => rfl
    | cons field rest ih =>
      rw [List.foldl_cons, ih]
      unfold retractField
      split
      · rfl
      · have ne : field.1 ≠ key := fun eq =>
          absurd internal (eq ▸ ‹¬ isInternal field.1 = true›)
        cases Value.lookup field.1 vars with
        | none => rfl
        | some held =>
          dsimp only
          split
          · exact lookup_removeField_of_ne ne vars
          · rfl
  | null | bool | number | string | array => rfl

theorem lookup_mergeOutput_internal {key : String} (internal : isInternal key = true)
    (output : Value) (vars : Fields) :
    Value.lookup key (mergeOutput output vars) = Value.lookup key vars := by
  cases output with
  | object fields =>
    simp only [mergeOutput]
    induction fields generalizing vars with
    | nil => rfl
    | cons field rest ih =>
      rw [List.foldl_cons, ih]
      unfold mergeField
      split
      · rfl
      · have ne : field.1 ≠ key := fun eq =>
          absurd internal (eq ▸ ‹¬ isInternal field.1 = true›)
        exact Value.lookup_insertField_of_ne ne _ _
  | null | bool | number | string | array => rfl

/-- The bag holds the latest output of every step that was visited. -/
def HoldsLatest (calls : List Call) (vars : Fields) : Prop :=
  ∃ outputs, (Value.lookup stepOutputsKey vars).getD (.object []) = .object outputs ∧
    ∀ step, Value.lookup step outputs = latestOutput step calls

theorem lookup_updateObject_self {key : String} {change : Fields → Fields} {vars outputs : Fields}
    (held : (Value.lookup key vars).getD (.object []) = .object outputs) :
    Value.lookup key (updateObject key change vars) = some (.object (change outputs)) := by
  cases found : Value.lookup key vars with
  | none =>
    rw [found] at held
    cases held
    simp only [updateObject, found, Value.lookup_insertField_self]
  | some value =>
    rw [found] at held
    cases held
    simp only [updateObject, found, Value.lookup_insertField_self]

theorem HoldsLatest.record {calls : List Call} {vars : Fields} (latest : HoldsLatest calls vars)
    (call : Call) :
    HoldsLatest (calls ++ [call]) (recordStepOutput same vars call.step call.output) := by
  obtain ⟨outputs, held, reads⟩ := latest
  refine ⟨Value.insertField call.step call.output outputs, ?_, ?_⟩
  · rw [recordStepOutput, lookup_mergeOutput_internal isInternal_stepOutputs,
      Value.lookup_insertField_of_ne (by decide), lookup_updateObject_of_ne (by decide),
      lookup_updateObject_self (by rwa [lookup_retract_internal isInternal_stepOutputs])]
    rfl
  · intro step
    rw [latestOutput_append]
    by_cases hit : call.step = step
    · subst hit
      rw [if_pos rfl, Value.lookup_insertField_self]
    · rw [if_neg hit, Value.lookup_insertField_of_ne hit, reads]

theorem holdsLatest_recordAll (calls : List Call) : HoldsLatest calls (recordAll same calls) := by
  induction calls using List.reverseRecOn with
  | nil => exact ⟨[], rfl, fun _ => rfl⟩
  | append_singleton calls call ih =>
    rw [recordAll_append]
    exact ih.record call

theorem previousOutput_recordAll (step : String) (calls : List Call) :
    previousOutput step (recordAll same calls) = (latestOutput step calls).getD .null := by
  obtain ⟨outputs, held, reads⟩ : HoldsLatest calls (recordAll same calls) :=
    holdsLatest_recordAll calls
  unfold previousOutput
  cases found : Value.lookup stepOutputsKey (recordAll same calls) with
  | none =>
    rw [found] at held
    cases held
    rw [← reads step]
    rfl
  | some value =>
    rw [found] at held
    cases held
    rw [Option.bind_some, Value.get, reads]

theorem wellKeyed_latestOutput (step : String) (calls : List Call) :
    WellKeyed ((latestOutput step calls).getD .null) := by
  induction calls using List.reverseRecOn with
  | nil => exact fun fields eq => (nomatch eq)
  | append_singleton calls call ih =>
    rw [latestOutput_append]
    split
    · exact call.keyed
    · exact ih

/-- What a step wrote to a key on its latest visit. -/
def latestValue (step key : String) (calls : List Call) : Option Value :=
  (latestOutput step calls).bind (Value.get key)

/-- What one more call leaves under a key. -/
theorem lookup_recordAll_append {key : String} (flat : isInternal key = false)
    (calls : List Call) (call : Call) :
    Value.lookup key (recordAll same (calls ++ [call])) =
      (call.output.get key).or
        (kept same (latestValue call.step key calls)
          (Value.lookup key (recordAll same calls))) := by
  have read : ((latestOutput call.step calls).getD .null).get key =
      latestValue call.step key calls := by
    unfold latestValue
    cases latestOutput call.step calls <;> rfl
  have keyed : WellKeyed (previousOutput call.step (recordAll same calls)) := by
    rw [previousOutput_recordAll]
    exact wellKeyed_latestOutput call.step calls
  rw [recordAll_append, lookup_recordStepOutput flat keyed call.keyed, previousOutput_recordAll,
    read]

/-! ## Whose value a key holds -/

/-- `writer` is the last call whose output contained the key, and wrote `value` there. -/
structure LastWrite (calls : List Call) (key : String) (earlier : List Call) (writer : Call)
    (later : List Call) (value : Value) : Prop where
  split : calls = earlier ++ writer :: later
  wrote : writer.output.get key = some value
  silent : ∀ call ∈ later, call.output.get key = none

/-- The bag holds a key exactly when the step that wrote it last has not been recorded again
since, and then with the value written. -/
def OwnValues (same : Value → Value → Bool) (calls : List Call) : Prop :=
  ∀ key value, isInternal key = false →
    (Value.lookup key (recordAll same calls) = some value ↔
      ∃ earlier writer later, LastWrite calls key earlier writer later value ∧
        ∀ call ∈ later, call.step ≠ writer.step)

/-- A call of a step whose latest visit left an equal value under the key takes the value back. -/
def TakesBack (same : Value → Value → Bool) (key : String) (value : Value) (before : List Call)
    (step : String) : Prop :=
  ∃ old, latestValue step key before = some old ∧ same value old = true

/-- No call behind the last write of a key takes its value back for another step. -/
def NoneTakesBack (same : Value → Value → Bool) (calls : List Call) : Prop :=
  ∀ key value earlier writer later, isInternal key = false →
    LastWrite calls key earlier writer later value → (∀ call ∈ later, call.step ≠ writer.step) →
      ∀ between call rest, later = between ++ call :: rest →
        ¬TakesBack same key value (earlier ++ writer :: between) call.step

theorem kept_eq_some {old held : Option Value} {value : Value} :
    kept same old held = some value ↔
      held = some value ∧ ¬∃ previous, old = some previous ∧ same value previous = true := by
  cases held with
  | none => simp [kept]
  | some held =>
    cases old with
    | none => simp
    | some old => simp [kept, Option.filter]; grind

namespace LastWrite

variable {calls earlier later : List Call} {writer call : Call} {key : String} {value : Value}

theorem here (wrote : call.output.get key = some value) :
    LastWrite (calls ++ [call]) key calls call [] value :=
  ⟨rfl, wrote, fun _ mem => (nomatch mem)⟩

theorem append (last : LastWrite calls key earlier writer later value)
    (silent : call.output.get key = none) :
    LastWrite (calls ++ [call]) key earlier writer (later ++ [call]) value := by
  refine ⟨by rw [last.split, List.append_assoc, List.cons_append], last.wrote, ?_⟩
  intro other mem
  rcases List.mem_append.mp mem with old | new
  · exact last.silent other old
  · exact List.mem_singleton.mp new ▸ silent

/-- The last write of a longer sequence is its last call or that of the shorter one. -/
theorem of_append (last : LastWrite (calls ++ [call]) key earlier writer later value) :
    earlier = calls ∧ writer = call ∧ later = [] ∨
      ∃ front, later = front ++ [call] ∧ LastWrite calls key earlier writer front value := by
  rcases List.eq_nil_or_concat' later with rfl | ⟨front, final, rfl⟩
  · obtain ⟨rfl, same⟩ := List.append_inj' last.split rfl
    exact .inl ⟨rfl, (List.cons.inj same).1.symm, rfl⟩
  · have split : calls ++ [call] = (earlier ++ writer :: front) ++ [final] := by
      rw [last.split, List.append_assoc, List.cons_append]
    obtain ⟨front_eq, final_eq⟩ := List.append_inj' split rfl
    obtain rfl := (List.cons.inj final_eq).1
    exact .inr ⟨front, rfl, front_eq, last.wrote,
      fun other mem => last.silent other (List.mem_append_left _ mem)⟩

theorem unique {earlier' later' : List Call} {writer' : Call} {value' : Value}
    (last : LastWrite calls key earlier writer later value)
    (other : LastWrite calls key earlier' writer' later' value') :
    earlier = earlier' ∧ writer = writer' ∧ later = later' := by
  induction calls using List.reverseRecOn generalizing later later' with
  | nil => exact absurd last.split (by simp)
  | append_singleton calls call ih =>
    rcases last.of_append with ⟨rfl, rfl, rfl⟩ | ⟨front, rfl, shorter⟩
    · rcases other.of_append with ⟨rfl, rfl, rfl⟩ | ⟨front', rfl, -⟩
      · exact ⟨rfl, rfl, rfl⟩
      · have silent := other.silent writer (by simp)
        rw [last.wrote] at silent
        cases silent
    · rcases other.of_append with ⟨rfl, rfl, rfl⟩ | ⟨front', rfl, shorter'⟩
      · have silent := last.silent writer' (by simp)
        rw [other.wrote] at silent
        cases silent
      · obtain ⟨same, writers, fronts⟩ := ih shorter shorter'
        exact ⟨same, writers, fronts ▸ rfl⟩

end LastWrite

/-- The bag holds what was written last, unless a later call has taken it back. -/
theorem lookup_recordAll_iff {key : String} (flat : isInternal key = false) (calls : List Call)
    (value : Value) :
    Value.lookup key (recordAll same calls) = some value ↔
      ∃ earlier writer later, LastWrite calls key earlier writer later value ∧
        ∀ between call rest, later = between ++ call :: rest →
          ¬TakesBack same key value (earlier ++ writer :: between) call.step := by
  induction calls using List.reverseRecOn with
  | nil =>
    constructor
    · intro held
      cases held
    · rintro ⟨earlier, writer, later, last, -⟩
      exact absurd last.split (by simp)
  | append_singleton calls call ih =>
    rw [lookup_recordAll_append flat]
    cases wrote : call.output.get key with
    | some new =>
      rw [Option.some_or, Option.some.injEq]
      constructor
      · rintro rfl
        exact ⟨calls, call, [], .here wrote, fun between _ rest eq => by simp at eq⟩
      · rintro ⟨earlier, writer, later, last, -⟩
        rcases last.of_append with ⟨-, rfl, -⟩ | ⟨front, rfl, -⟩
        · exact Option.some.inj (wrote.symm.trans last.wrote)
        · have silent := last.silent call (by simp)
          rw [wrote] at silent
          cases silent
    | none =>
      rw [Option.none_or, kept_eq_some, ih]
      constructor
      · rintro ⟨⟨earlier, writer, later, last, untouched⟩, leaves⟩
        refine ⟨earlier, writer, later ++ [call], last.append wrote, ?_⟩
        intro between other rest eq takes
        rcases List.eq_nil_or_concat' rest with rfl | ⟨front, final, rfl⟩
        · obtain ⟨rfl, same⟩ := List.append_inj' eq rfl
          obtain rfl := (List.cons.inj same).1
          rw [← last.split] at takes
          exact leaves takes
        · have split : later ++ [call] = (between ++ other :: front) ++ [final] := by
            rw [eq, List.append_assoc, List.cons_append]
          exact untouched between other front (List.append_inj' split rfl).1 takes
      · rintro ⟨earlier, writer, later, last, untouched⟩
        rcases last.of_append with ⟨-, rfl, -⟩ | ⟨front, rfl, shorter⟩
        · rw [last.wrote] at wrote
          cases wrote
        · refine ⟨⟨earlier, writer, front, shorter, ?_⟩, ?_⟩
          · intro between other rest eq
            exact untouched between other (rest ++ [call]) (by simp [eq])
          · intro takes
            refine untouched front call [] rfl ?_
            rwa [shorter.split] at takes

/-- A step that is recorded again takes its own value back. -/
theorem takesBack_own (refl : ∀ value, same value value = true) {key : String} {value : Value}
    {earlier between : List Call} {writer : Call} (wrote : writer.output.get key = some value)
    (fresh : ∀ call ∈ between, call.step ≠ writer.step) :
    TakesBack same key value (earlier ++ writer :: between) writer.step := by
  have latest : latestOutput writer.step (earlier ++ writer :: between) = some writer.output := by
    induction between using List.reverseRecOn with
    | nil => rw [latestOutput_append, if_pos rfl]
    | append_singleton between call ih =>
      have shape : earlier ++ writer :: (between ++ [call]) =
          (earlier ++ writer :: between) ++ [call] := by simp
      rw [shape, latestOutput_append, if_neg (fresh call (by simp))]
      exact ih fun other mem => fresh other (List.mem_append_left _ mem)
  exact ⟨value, by rw [latestValue, latest, Option.bind_some, wrote], refl value⟩

theorem no_own_call (refl : ∀ value, same value value = true) {key : String} {value : Value}
    {earlier later : List Call} {writer : Call} (wrote : writer.output.get key = some value)
    (untouched : ∀ between call rest, later = between ++ call :: rest →
      ¬TakesBack same key value (earlier ++ writer :: between) call.step) :
    ∀ call ∈ later, call.step ≠ writer.step := by
  induction later using List.reverseRecOn with
  | nil => exact fun _ mem => (nomatch mem)
  | append_singleton front final ih =>
    have before := ih fun between call rest eq =>
      untouched between call (rest ++ [final]) (by simp [eq])
    intro call mem
    rcases List.mem_append.mp mem with old | new
    · exact before call old
    · obtain rfl := List.mem_singleton.mp new
      intro again
      have takes : TakesBack same key value (earlier ++ writer :: front) writer.step :=
        takesBack_own refl wrote before
      exact untouched front call [] rfl (again ▸ takes)

/-- The bag holds every key for its last writer alone, exactly when no step that comes back had
left a value there itself that equals the last writer's. -/
theorem ownValues_iff (refl : ∀ value, same value value = true) (calls : List Call) :
    OwnValues same calls ↔ NoneTakesBack same calls := by
  constructor
  · intro own key value earlier writer later flat last fresh
    have held := (own key value flat).mpr ⟨earlier, writer, later, last, fresh⟩
    obtain ⟨earlier', writer', later', last', untouched⟩ :=
      (lookup_recordAll_iff flat calls value).mp held
    obtain ⟨rfl, rfl, rfl⟩ := last'.unique last
    exact untouched
  · intro none key value flat
    rw [lookup_recordAll_iff flat]
    constructor
    · rintro ⟨earlier, writer, later, last, untouched⟩
      exact ⟨earlier, writer, later, last, no_own_call refl last.wrote untouched⟩
    · rintro ⟨earlier, writer, later, last, fresh⟩
      exact ⟨earlier, writer, later, last, none key value earlier writer later flat last fresh⟩

/-! ## Steps that come back -/

theorem wellKeyed_null : WellKeyed .null := fun _ eq => (nomatch eq)

theorem wellKeyed_one (key : String) (value : Value) : WellKeyed (.object [(key, value)]) := by
  rintro _ ⟨⟩
  simp

/-- The review reports another status than the draft, which is made again without its text. -/
def revisedDraft : List Call :=
  [⟨"draft", .object [("status", .string "new"), ("text", .string "draft")], by rintro _ ⟨⟩; decide⟩,
    ⟨"review", .object [("status", .string "ok")], wellKeyed_one _ _⟩,
    ⟨"draft", .null, wellKeyed_null⟩]

/-- Made again, the draft takes its own text back and leaves the status to the review. -/
theorem ownValues_revised_draft :
    OwnValues (fun left right => left.same right) revisedDraft ∧
      Value.lookup "status" (recordAll (fun left right => left.same right) revisedDraft) =
        some (.string "ok") ∧
      Value.lookup "text" (recordAll (fun left right => left.same right) revisedDraft) = none := by
  refine ⟨(ownValues_iff (fun value => (Value.same_iff value value).mpr rfl) _).mpr ?_, ?_⟩
  · intro key value earlier writer later flat last fresh between call rest split
    rcases earlier with _ | ⟨_, _ | ⟨_, _ | ⟨_, earlier⟩⟩⟩
    · cases last.split
      exact absurd rfl (fresh ⟨"draft", .null, wellKeyed_null⟩ (by simp))
    · cases last.split
      have wrote : (if "status" = key then some (Value.string "ok") else none) = some value :=
        last.wrote
      split_ifs at wrote with named
      cases wrote
      subst named
      cases between with
      | nil =>
        cases split
        rintro ⟨old, held, equal⟩
        cases held
        exact absurd equal (by decide)
      | cons _ between =>
        cases between <;> cases split
    · cases last.split
      cases between <;> cases split
    · have size := congrArg List.length last.split
      simp [revisedDraft] at size
  · decide +kernel

/-- A draft and a review report the same status, then the draft is made again without one. -/
def sharedStatus : List Call :=
  [⟨"draft", .object [("status", .string "ok")], wellKeyed_one _ _⟩,
    ⟨"review", .object [("status", .string "ok")], wellKeyed_one _ _⟩,
    ⟨"draft", .null, wellKeyed_null⟩]

/-- The review's status is taken out of the bag by a step that no longer owns it. -/
theorem shared_status_is_lost :
    ¬OwnValues (fun left right => left.same right) sharedStatus := by
  intro own
  have last : LastWrite sharedStatus "status" (sharedStatus.take 1)
      ⟨"review", .object [("status", .string "ok")], wellKeyed_one _ _⟩ (sharedStatus.drop 2)
      (.string "ok") := by
    refine ⟨rfl, rfl, ?_⟩
    intro call mem
    obtain rfl := List.mem_singleton.mp mem
    rfl
  have fresh : ∀ call ∈ sharedStatus.drop 2, call.step ≠ "review" := by
    intro call mem
    obtain rfl := List.mem_singleton.mp mem
    decide
  have held := (own "status" (.string "ok") (by decide)).mpr ⟨_, _, _, last, fresh⟩
  have lost : Value.lookup "status" (recordAll (fun left right => left.same right) sharedStatus) =
      none := by decide +kernel
  rw [lost] at held
  cases held

end RaisinDB.Flows
