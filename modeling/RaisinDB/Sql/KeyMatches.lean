import RaisinDB.Sql.HashKeys

/-!
# Which key values meet in the hash table

Two values meet in every order of the hash maps, in some order, or in none.  Objects meet when their
members do, with numbers read as integers or floats, and surely only if no object in them has two
members.
-/

namespace RaisinDB.Sql

open List RaisinDB.Foundation

/-- The orders in which the hash maps of one input are written, by where they are built. -/
abbrev MapOrders := List Nat → HashOrder (String × HashValue)

variable (engine : Engine)

/-! ## Conversion -/

/-- A number as an integer where it is one of 64 bits, else as a float. -/
def jsonNumber (text : String) : Int64 ⊕ Binary64 :=
  match parseInt64 text with
  | some value => .inl value
  | none => .inr ((engine.parseDouble text).getD (.zero false))

def numberValue : Int64 ⊕ Binary64 → HashValue
  | .inl value => .integer value
  | .inr value => .float value

mutual

def jsonToPropertyValue (orders : MapOrders) (place : List Nat) : Value → HashValue
  | .null => .null
  | .bool flag => .boolean flag
  | .number text => numberValue (jsonNumber engine text)
  | .string text => .string text
  | .array items => .array (itemValues orders place items)
  | .object members => .object ((orders place).order (memberValues orders place members))

def itemValues (orders : MapOrders) (place : List Nat) : List Value → List HashValue
  | [] => []
  | item :: rest =>
      jsonToPropertyValue orders (rest.length :: place) item :: itemValues orders place rest

def memberValues (orders : MapOrders) (place : List Nat) :
    List (String × Value) → List (String × HashValue)
  | [] => []
  | (key, value) :: rest =>
      (key, jsonToPropertyValue orders (rest.length :: place) value) ::
        memberValues orders place rest

end

/-- The members of an object; any other JSON value is taken for one without members. -/
def objectMembers : Value → List (String × Value)
  | .object members => members
  | _ => []

def literalToPropertyValue (format : DebugFormat) (orders : MapOrders) (place : List Nat) :
    Literal → HashValue
  | .text text => .string text
  | .int value => .integer (Int64.ofInt value.toInt)
  | .bigInt value => .integer value
  | .double value => .float value
  | .boolean flag => .boolean flag
  | .null => .null
  | .jsonB json => jsonToPropertyValue engine orders place (.object (objectMembers json))
  | other => .string (debugText format other)

/-! ## Meeting -/

mutual

/-- Equal up to the order of members, where numbers are compared as they are read. -/
def readsAlike : Value → Value → Bool
  | .null, .null => true
  | .bool left, .bool right => left == right
  | .number left, .number right => decide (jsonNumber engine left = jsonNumber engine right)
  | .string left, .string right => left == right
  | .array left, .array right => itemsReadAlike left right
  | .object left, .object right => left.length == right.length && membersReadIn left right
  | _, _ => false

def itemsReadAlike : List Value → List Value → Bool
  | [], [] => true
  | left :: lefts, right :: rights => readsAlike left right && itemsReadAlike lefts rights
  | _, _ => false

def membersReadIn : List (String × Value) → List (String × Value) → Bool
  | [], _ => true
  | (key, left) :: rest, members =>
      (match Value.lookup key members with
        | some right => readsAlike left right
        | none => false) && membersReadIn rest members

end

mutual

/-- No object has more than one member. -/
def narrow : Value → Bool
  | .array items => narrowItems items
  | .object members => decide (members.length ≤ 1) && narrowMembers members
  | _ => true

def narrowItems : List Value → Bool
  | [] => true
  | item :: rest => narrow item && narrowItems rest

def narrowMembers : List (String × Value) → Bool
  | [] => true
  | (_, value) :: rest => narrow value && narrowMembers rest

end

mutual

/-- The members of an object have different names, as those of a map do. -/
def distinctKeys : Value → Bool
  | .array items => distinctItems items
  | .object members => decide (members.map Prod.fst).Nodup && distinctMembers members
  | _ => true

def distinctItems : List Value → Bool
  | [] => true
  | item :: rest => distinctKeys item && distinctItems rest

def distinctMembers : List (String × Value) → Bool
  | [] => true
  | (_, value) :: rest => distinctKeys value && distinctMembers rest

end

section Conversion

variable {engine : Engine} {orders orders' : MapOrders}

theorem keys_memberValues (place : List Nat) (members : List (String × Value)) :
    (memberValues engine orders place members).map Prod.fst = members.map Prod.fst := by
  induction members with
  | nil => rfl
  | cons member rest ih => rw [memberValues, map_cons, map_cons, ih]

theorem length_memberValues (place : List Nat) (members : List (String × Value)) :
    (memberValues engine orders place members).length = members.length := by
  have keys := congrArg length (@keys_memberValues engine orders place members)
  rwa [length_map, length_map] at keys

theorem mem_memberValues {place : List Nat} {members : List (String × Value)} {key : String}
    {value : Value} (mem : (key, value) ∈ members) :
    ∃ inner, (key, jsonToPropertyValue engine orders inner value) ∈
      memberValues engine orders place members := by
  induction members with
  | nil => cases mem
  | cons member rest ih =>
    rw [memberValues]
    rcases mem_cons.mp mem with rfl | later
    · exact ⟨_, mem_cons_self⟩
    · obtain ⟨inner, found⟩ := ih later
      exact ⟨inner, mem_cons_of_mem _ found⟩

theorem of_mem_memberValues {place : List Nat} {members : List (String × Value)} {key : String}
    {converted : HashValue} (mem : (key, converted) ∈ memberValues engine orders place members) :
    ∃ value inner, (key, value) ∈ members ∧
      converted = jsonToPropertyValue engine orders inner value := by
  induction members with
  | nil => cases mem
  | cons member rest ih =>
    rw [memberValues] at mem
    rcases mem_cons.mp mem with same | later
    · obtain ⟨rfl, rfl⟩ := Prod.mk.inj same
      exact ⟨member.2, _, mem_cons_self, rfl⟩
    · obtain ⟨value, inner, among, same⟩ := ih later
      exact ⟨value, inner, mem_cons_of_mem _ among, same⟩

theorem lookup_of_mem {key : String} {value : Value} {members : List (String × Value)}
    (distinct : (members.map Prod.fst).Nodup) (mem : (key, value) ∈ members) :
    Value.lookup key members = some value := by
  induction members with
  | nil => cases mem
  | cons member rest ih =>
    obtain ⟨fresh, distinctRest⟩ := nodup_cons.mp distinct
    rw [Value.lookup]
    rcases mem_cons.mp mem with rfl | later
    · rw [if_pos rfl]
    · rw [if_neg, ih distinctRest later]
      rintro rfl
      exact fresh (mem_map.mpr ⟨_, later, rfl⟩)

theorem mem_of_lookup {key : String} {value : Value} {members : List (String × Value)}
    (found : Value.lookup key members = some value) : (key, value) ∈ members := by
  induction members with
  | nil => cases found
  | cons member rest ih =>
    rw [Value.lookup] at found
    split at found
    · next here =>
      cases found
      rw [← here]
      exact mem_cons_self
    · exact mem_cons_of_mem _ (ih found)

theorem numberValue_inj {left right : Int64 ⊕ Binary64} :
    numberValue left = numberValue right ↔ left = right := by
  cases left <;> cases right <;> simp [numberValue]

theorem mem_distinctMembers {members : List (String × Value)} (distinct : distinctMembers members)
    {key : String} {value : Value} (mem : (key, value) ∈ members) : distinctKeys value := by
  induction members with
  | nil => cases mem
  | cons member rest ih =>
    obtain ⟨first, later⟩ := (Bool.and_eq_true _ _).mp distinct
    rcases mem_cons.mp mem with rfl | among
    · exact first
    · exact ih later among

/-- A number is converted to no other kind. -/
theorem numberValue_ne (number : Int64 ⊕ Binary64) : numberValue number ≠ .null ∧
    (∀ flag, numberValue number ≠ .boolean flag) ∧ (∀ text, numberValue number ≠ .string text) ∧
    (∀ items, numberValue number ≠ .array items) ∧
    ∀ members, numberValue number ≠ .object members := by
  cases number <;> simp [numberValue]

theorem ne_numberValue (number : Int64 ⊕ Binary64) : .null ≠ numberValue number ∧
    (∀ flag, .boolean flag ≠ numberValue number) ∧ (∀ text, .string text ≠ numberValue number) ∧
    (∀ items, .array items ≠ numberValue number) ∧
    ∀ members, .object members ≠ numberValue number := by
  cases number <;> simp [numberValue]

mutual

/-- Values that are converted alike read alike, whatever the orders. -/
theorem readsAlike_of_converted (left right : Value) (place place' : List Nat)
    (distinct : distinctKeys right)
    (same : jsonToPropertyValue engine orders place left =
      jsonToPropertyValue engine orders' place' right) : readsAlike engine left right := by
  cases left with
  | null | bool | string =>
    cases right <;> simp [jsonToPropertyValue, ne_numberValue] at same
    simp [readsAlike, same]
  | number text =>
    cases right <;> simp [jsonToPropertyValue, numberValue_ne, numberValue_inj] at same
    simp [readsAlike, same]
  | array items =>
    cases right <;> simp [jsonToPropertyValue, ne_numberValue] at same
    rename_i others
    exact itemsReadAlike_of_converted items others place place' distinct same
  | object members =>
    cases right <;> simp [jsonToPropertyValue, ne_numberValue] at same
    rename_i others
    obtain ⟨names, inner⟩ := (Bool.and_eq_true _ _).mp distinct
    have perm : memberValues engine orders place members ~
        memberValues engine orders' place' others :=
      ((orders place).perm _).symm.trans (same ▸ (orders' place').perm _)
    have lengths := perm.length_eq
    rw [length_memberValues, length_memberValues] at lengths
    refine (Bool.and_eq_true _ _).mpr ⟨beq_iff_eq.mpr lengths, ?_⟩
    refine membersReadIn_of_converted members others (of_decide_eq_true names) inner ?_
    intro key value mem
    obtain ⟨_, converted⟩ := @mem_memberValues engine orders place _ _ _ mem
    obtain ⟨other, there, among, same⟩ := of_mem_memberValues (perm.mem_iff.mp converted)
    exact ⟨other, _, there, among, same⟩

theorem itemsReadAlike_of_converted (lefts rights : List Value) (place place' : List Nat)
    (distinct : distinctItems rights)
    (same : itemValues engine orders place lefts = itemValues engine orders' place' rights) :
    itemsReadAlike engine lefts rights := by
  cases lefts with
  | nil =>
    cases rights with
    | nil => rfl
    | cons => cases same
  | cons left lefts =>
    cases rights with
    | nil => cases same
    | cons right rights =>
      obtain ⟨first, later⟩ := (Bool.and_eq_true _ _).mp distinct
      obtain ⟨sameFirst, sameLater⟩ := cons.inj same
      exact (Bool.and_eq_true _ _).mpr
        ⟨readsAlike_of_converted left right _ _ first sameFirst,
          itemsReadAlike_of_converted lefts rights _ _ later sameLater⟩

theorem membersReadIn_of_converted (lefts rights : List (String × Value))
    (names : (rights.map Prod.fst).Nodup) (distinct : distinctMembers rights)
    (found : ∀ key value, (key, value) ∈ lefts → ∃ other inner inner', (key, other) ∈ rights ∧
      jsonToPropertyValue engine orders inner value =
        jsonToPropertyValue engine orders' inner' other) : membersReadIn engine lefts rights := by
  rcases lefts with _ | ⟨⟨key, value⟩, rest⟩
  · rfl
  · obtain ⟨other, inner, inner', among, same⟩ := found key value mem_cons_self
    refine (Bool.and_eq_true _ _).mpr ⟨?_, ?_⟩
    · rw [lookup_of_mem names among]
      exact readsAlike_of_converted value other inner inner' (mem_distinctMembers distinct among) same
    · exact membersReadIn_of_converted rest rights names distinct
        fun key value mem => found key value (mem_cons_of_mem _ mem)

end

/-! ### One order for equal contents -/

mutual

/-- Where every map is written in the same order it does not matter where the map is built. -/
theorem converted_place (hash : HashOrder (String × HashValue)) (value : Value)
    (place place' : List Nat) :
    jsonToPropertyValue engine (fun _ => hash) place value =
      jsonToPropertyValue engine (fun _ => hash) place' value := by
  cases value with
  | null | bool | string | number => rfl
  | array items => rw [jsonToPropertyValue, jsonToPropertyValue, items_place hash items place place']
  | object members =>
    rw [jsonToPropertyValue, jsonToPropertyValue, members_place hash members place place']
termination_by structural value

theorem items_place (hash : HashOrder (String × HashValue)) (items : List Value)
    (place place' : List Nat) :
    itemValues engine (fun _ => hash) place items =
      itemValues engine (fun _ => hash) place' items := by
  cases items with
  | nil => rfl
  | cons item rest =>
    rw [itemValues, itemValues, converted_place hash item _ (rest.length :: place'),
      items_place hash rest place place']
termination_by structural items

theorem members_place (hash : HashOrder (String × HashValue)) (members : List (String × Value))
    (place place' : List Nat) :
    memberValues engine (fun _ => hash) place members =
      memberValues engine (fun _ => hash) place' members := by
  rcases members with _ | ⟨⟨key, value⟩, rest⟩
  · rfl
  · rw [memberValues, memberValues, converted_place hash value _ (rest.length :: place'),
      members_place hash rest place place']
termination_by structural members

end

/-- An order that depends on the members alone. -/
noncomputable def canonical : MapOrders := fun _ =>
  ⟨fun members => (members : Multiset (String × HashValue)).toList, fun _ =>
    Multiset.coe_eq_coe.mp (Multiset.coe_toList _)⟩

theorem canonical_of_perm {members others : List (String × HashValue)} (perm : members ~ others)
    (place place' : List Nat) :
    (canonical place).order members = (canonical place').order others :=
  congrArg Multiset.toList (Multiset.coe_eq_coe.mpr perm)

theorem nodup_memberValues {place : List Nat} {members : List (String × Value)}
    (distinct : (members.map Prod.fst).Nodup) :
    (memberValues engine orders place members).Nodup := by
  refine Nodup.of_map Prod.fst ?_
  rwa [keys_memberValues]

mutual

theorem converted_of_readsAlike (left right : Value) (place place' : List Nat)
    (distinct : distinctKeys left) (alike : readsAlike engine left right) :
    jsonToPropertyValue engine canonical place left =
      jsonToPropertyValue engine canonical place' right := by
  cases left with
  | null | bool | string | number =>
    cases right <;> simp [readsAlike] at alike
    simp [jsonToPropertyValue, alike]
  | array items =>
    cases right <;> simp [readsAlike] at alike
    rename_i others
    rw [jsonToPropertyValue, jsonToPropertyValue,
      items_of_readAlike items others place place' distinct alike]
  | object members =>
    cases right <;> simp [readsAlike] at alike
    rename_i others
    obtain ⟨names, inner⟩ := (Bool.and_eq_true _ _).mp distinct
    have subset : memberValues engine canonical place members ⊆
        memberValues engine canonical place' others := by
      rintro ⟨key, converted⟩ mem
      obtain ⟨value, at_, among, rfl⟩ := of_mem_memberValues mem
      obtain ⟨other, there, same⟩ :=
        members_of_readIn members others inner alike.2 key value among
      obtain ⟨at', converted'⟩ := @mem_memberValues engine canonical place' _ _ _ there
      rwa [same at_ at']
    have lengths : (memberValues engine canonical place' others).length ≤
        (memberValues engine canonical place members).length := by
      rw [length_memberValues, length_memberValues, alike.1]
    rw [jsonToPropertyValue, jsonToPropertyValue]
    exact congrArg _ (canonical_of_perm ((subperm_of_subset
      (nodup_memberValues (of_decide_eq_true names)) subset).perm_of_length_le lengths) _ _)
termination_by structural left

theorem items_of_readAlike (lefts rights : List Value) (place place' : List Nat)
    (distinct : distinctItems lefts) (alike : itemsReadAlike engine lefts rights) :
    itemValues engine canonical place lefts = itemValues engine canonical place' rights := by
  cases lefts with
  | nil =>
    cases rights with
    | nil => rfl
    | cons => cases alike
  | cons left lefts =>
    cases rights with
    | nil => cases alike
    | cons right rights =>
      obtain ⟨first, later⟩ := (Bool.and_eq_true _ _).mp distinct
      obtain ⟨alikeFirst, alikeLater⟩ := (Bool.and_eq_true _ _).mp alike
      rw [itemValues, itemValues,
        converted_of_readsAlike left right _ (rights.length :: place') first alikeFirst,
        items_of_readAlike lefts rights place place' later alikeLater]
termination_by structural lefts

theorem members_of_readIn (lefts rights : List (String × Value))
    (distinct : distinctMembers lefts) (alike : membersReadIn engine lefts rights) :
    ∀ key value, (key, value) ∈ lefts → ∃ other, (key, other) ∈ rights ∧
      ∀ inner inner', jsonToPropertyValue engine canonical inner value =
        jsonToPropertyValue engine canonical inner' other := by
  intro key value mem
  rcases lefts with _ | ⟨⟨name, first⟩, rest⟩
  · cases mem
  · obtain ⟨distinctFirst, distinctRest⟩ := (Bool.and_eq_true _ _).mp distinct
    obtain ⟨alikeFirst, alikeRest⟩ := (Bool.and_eq_true _ _).mp alike
    rcases mem_cons.mp mem with same | later
    · obtain ⟨sameKey, sameValue⟩ := Prod.mk.inj same
      rw [sameKey, sameValue]
      cases found : Value.lookup name rights with
      | none =>
        rw [found] at alikeFirst
        cases alikeFirst
      | some other =>
        rw [found] at alikeFirst
        exact ⟨other, mem_of_lookup found, fun inner inner' =>
          converted_of_readsAlike first other inner inner' distinctFirst alikeFirst⟩
    · exact members_of_readIn rest rights distinctRest alikeRest key value later
termination_by structural lefts

end

/-! ### Values that meet in every order -/

theorem order_single (hash : HashOrder (String × HashValue)) (member : String × HashValue) :
    hash.order [member] = [member] := perm_singleton.mp (hash.perm _)

mutual

theorem converted_of_narrow (left right : Value) (place place' : List Nat)
    (thin : narrow left) (alike : readsAlike engine left right) :
    jsonToPropertyValue engine orders place left =
      jsonToPropertyValue engine orders' place' right := by
  cases left with
  | null | bool | string | number =>
    cases right <;> simp [readsAlike] at alike
    simp [jsonToPropertyValue, alike]
  | array items =>
    cases right <;> simp [readsAlike] at alike
    rename_i others
    rw [jsonToPropertyValue, jsonToPropertyValue,
      items_of_narrow items others place place' thin alike]
  | object members =>
    cases right <;> simp [readsAlike] at alike
    rename_i others
    obtain ⟨single, inner⟩ := (Bool.and_eq_true _ _).mp thin
    rw [jsonToPropertyValue, jsonToPropertyValue]
    rcases members with _ | ⟨⟨key, value⟩, rest⟩
    · rw [length_eq_zero_iff.mp alike.1.symm, memberValues, memberValues,
        perm_nil.mp ((orders place).perm _), perm_nil.mp ((orders' place').perm _)]
    · obtain rfl : rest = [] := length_eq_zero_iff.mp (by simpa using single)
      obtain ⟨⟨name, other⟩, rfl⟩ := length_eq_one_iff.mp alike.1.symm
      obtain ⟨first, _⟩ := (Bool.and_eq_true _ _).mp alike.2
      rw [Value.lookup] at first
      by_cases same : name = key
      · rw [if_pos same] at first
        have meets := converted_of_narrow value other (0 :: place) (0 :: place')
          ((Bool.and_eq_true _ _).mp inner).1 first
        simp only [memberValues, length_nil, order_single, meets, same]
      · rw [if_neg same] at first
        cases first
termination_by structural left

theorem items_of_narrow (lefts rights : List Value) (place place' : List Nat)
    (thin : narrowItems lefts) (alike : itemsReadAlike engine lefts rights) :
    itemValues engine orders place lefts = itemValues engine orders' place' rights := by
  cases lefts with
  | nil =>
    cases rights with
    | nil => rfl
    | cons => cases alike
  | cons left lefts =>
    cases rights with
    | nil => cases alike
    | cons right rights =>
      obtain ⟨first, later⟩ := (Bool.and_eq_true _ _).mp thin
      obtain ⟨alikeFirst, alikeLater⟩ := (Bool.and_eq_true _ _).mp alike
      rw [itemValues, itemValues,
        converted_of_narrow left right _ (rights.length :: place') first alikeFirst,
        items_of_narrow lefts rights place place' later alikeLater]
termination_by structural lefts

end

def inserted : MapOrders := fun _ => HashOrder.inserted _

def reversed : MapOrders := fun _ => ⟨reverse, reverse_perm⟩

theorem length_le_one_of_reverse {α : Type} {items : List α} (distinct : items.Nodup)
    (same : items.reverse = items) : items.length ≤ 1 := by
  by_contra long
  have first : items[0]? = items[items.length - 1 - 0]? := by
    conv_lhs => rw [← same]
    exact getElem?_reverse (by omega)
  have places := (getElem?_inj (by omega) distinct).mp first
  omega

mutual

/-- Turning all maps round shows, unless no object has two members. -/
theorem narrow_of_reversed (value : Value) (place : List Nat) (distinct : distinctKeys value)
    (same : jsonToPropertyValue engine reversed place value =
      jsonToPropertyValue engine inserted place value) : narrow value := by
  cases value with
  | null | bool | string | number => rfl
  | array items =>
    simp only [jsonToPropertyValue, HashValue.array.injEq] at same
    exact narrowItems_of_reversed items place distinct same
  | object members =>
    simp only [jsonToPropertyValue, HashValue.object.injEq] at same
    obtain ⟨names, inner⟩ := (Bool.and_eq_true _ _).mp distinct
    have keys : (members.map Prod.fst).reverse = members.map Prod.fst := by
      have turned := congrArg (map Prod.fst) same
      rwa [show (reversed place).order = reverse from rfl,
        show (inserted place).order = id from rfl, map_reverse, keys_memberValues, id,
        keys_memberValues] at turned
    have single : members.length ≤ 1 := by
      have := length_le_one_of_reverse (of_decide_eq_true names) keys
      rwa [length_map] at this
    refine (Bool.and_eq_true _ _).mpr ⟨decide_eq_true single, ?_⟩
    rcases members with _ | ⟨⟨key, value⟩, rest⟩
    · rfl
    · obtain rfl : rest = [] := length_eq_zero_iff.mp (by simpa using single)
      simp only [memberValues, order_single, cons.injEq, Prod.mk.injEq, and_true, true_and] at same
      exact (Bool.and_eq_true _ _).mpr ⟨narrow_of_reversed value _
        ((Bool.and_eq_true _ _).mp inner).1 same, rfl⟩
termination_by structural value

theorem narrowItems_of_reversed (items : List Value) (place : List Nat)
    (distinct : distinctItems items)
    (same : itemValues engine reversed place items = itemValues engine inserted place items) :
    narrowItems items := by
  cases items with
  | nil => rfl
  | cons item rest =>
    obtain ⟨first, later⟩ := (Bool.and_eq_true _ _).mp distinct
    obtain ⟨sameFirst, sameLater⟩ := cons.inj same
    exact (Bool.and_eq_true _ _).mpr ⟨narrow_of_reversed item _ first sameFirst,
      narrowItems_of_reversed rest place later sameLater⟩
termination_by structural items

end

end Conversion

/-! ## Key values -/

def integer? : Literal → Option Int64
  | .int value => some (Int64.ofInt value.toInt)
  | .bigInt value => some value
  | _ => none

/-- The text of a key value that is hashed as a string: a text itself, another kind as its debug
text. -/
def hashText? (format : DebugFormat) : Literal → Option String
  | .text text => some text
  | .null | .boolean _ | .int _ | .bigInt _ | .double _ | .jsonB _ => none
  | other => some (debugText format other)

/-- The pairs of key values that may meet. -/
inductive Alike (format : DebugFormat) : Literal → Literal → Prop where
  | null : Alike format .null .null
  | boolean (flag : Bool) : Alike format (.boolean flag) (.boolean flag)
  | integer {left right : Literal} {value : Int64} (first : integer? left = some value)
      (second : integer? right = some value) : Alike format left right
  | double (value : Binary64) : Alike format (.double value) (.double value)
  | text {left right : Literal} {text : String} (first : hashText? format left = some text)
      (second : hashText? format right = some text) : Alike format left right
  | jsonB {left right : Value}
      (members : readsAlike engine (.object (objectMembers left)) (.object (objectMembers right))) :
      Alike format (.jsonB left) (.jsonB right)

def narrowLiteral : Literal → Bool
  | .jsonB json => narrow (.object (objectMembers json))
  | _ => true

/-- The pairs that meet in every order of the maps. -/
def SurelyAlike (format : DebugFormat) (left right : Literal) : Prop :=
  Alike engine format left right ∧ narrowLiteral left

/-- The objects in a value have distinct names, as those of a map do. -/
def distinctLiteral : Literal → Bool
  | .jsonB json => distinctKeys (.object (objectMembers json))
  | _ => true

section Meeting

variable {engine : Engine} {format : DebugFormat} {orders orders' : MapOrders}
  {place place' : List Nat} {left right : Literal}

/-- What a literal is by the property that it is converted to. -/
theorem converted_kind (engine : Engine) (format : DebugFormat) (orders : MapOrders)
    (place : List Nat) (value : Literal) :
    match literalToPropertyValue engine format orders place value with
    | .null => value = .null
    | .boolean flag => value = .boolean flag
    | .integer number => integer? value = some number
    | .float number => value = .double number
    | .string text => hashText? format value = some text
    | .array _ => False
    | .object _ => ∃ json, value = .jsonB json := by
  cases value with
  | jsonB json => exact ⟨json, rfl⟩
  | _ => rfl

theorem literalToPropertyValue_of_integer {number : Int64} (read : integer? left = some number) :
    literalToPropertyValue engine format orders place left = .integer number := by
  cases left with
  | int | bigInt => exact congrArg HashValue.integer (Option.some.inj read)
  | _ => cases read

theorem literalToPropertyValue_of_text {text : String} (read : hashText? format left = some text) :
    literalToPropertyValue engine format orders place left = .string text := by
  cases left with
  | null | boolean | int | bigInt | double | jsonB => cases read
  | _ => exact congrArg HashValue.string (Option.some.inj read)

theorem alike_of_converted (distinct : distinctLiteral right)
    (same : literalToPropertyValue engine format orders place left =
      literalToPropertyValue engine format orders' place' right) :
    Alike engine format left right := by
  have first := converted_kind engine format orders place left
  have second := converted_kind engine format orders' place' right
  cases hashed : literalToPropertyValue engine format orders' place' right with
  | null =>
    rw [same, hashed] at first
    rw [hashed] at second
    obtain ⟨rfl, rfl⟩ := And.intro first second
    exact .null
  | boolean flag =>
    rw [same, hashed] at first
    rw [hashed] at second
    obtain ⟨rfl, rfl⟩ := And.intro first second
    exact .boolean flag
  | integer number =>
    rw [same, hashed] at first
    rw [hashed] at second
    exact .integer first second
  | float number =>
    rw [same, hashed] at first
    rw [hashed] at second
    obtain ⟨rfl, rfl⟩ := And.intro first second
    exact .double number
  | string text =>
    rw [same, hashed] at first
    rw [hashed] at second
    exact .text first second
  | array items =>
    rw [hashed] at second
    exact second.elim
  | object members =>
    rw [same, hashed] at first
    rw [hashed] at second
    obtain ⟨⟨json, rfl⟩, ⟨other, rfl⟩⟩ := And.intro first second
    exact .jsonB (readsAlike_of_converted _ _ place place' distinct same)

/-- Alike values are converted alike in some order, and in every order if they are narrow. -/
theorem converted_of_alike (alike : Alike engine format left right)
    (maps : ∀ first second, left = .jsonB first → right = .jsonB second →
      readsAlike engine (.object (objectMembers first)) (.object (objectMembers second)) →
        jsonToPropertyValue engine orders place (.object (objectMembers first)) =
          jsonToPropertyValue engine orders' place' (.object (objectMembers second))) :
    literalToPropertyValue engine format orders place left =
      literalToPropertyValue engine format orders' place' right := by
  cases alike with
  | null | boolean | double => rfl
  | integer first second =>
    rw [literalToPropertyValue_of_integer first, literalToPropertyValue_of_integer second]
  | text first second =>
    rw [literalToPropertyValue_of_text first, literalToPropertyValue_of_text second]
  | jsonB members => exact maps _ _ rfl rfl members

theorem converted_of_surelyAlike (alike : SurelyAlike engine format left right) :
    literalToPropertyValue engine format orders place left =
      literalToPropertyValue engine format orders' place' right := by
  refine converted_of_alike alike.1 fun first second same _ reads => ?_
  obtain ⟨_, thin⟩ := alike
  rw [same] at thin
  exact converted_of_narrow _ _ place place' thin reads

theorem converted_canonical (distinct : distinctLiteral left)
    (alike : Alike engine format left right) :
    literalToPropertyValue engine format canonical place left =
      literalToPropertyValue engine format canonical place' right := by
  refine converted_of_alike alike fun first second same _ reads => ?_
  rw [same] at distinct
  exact converted_of_readsAlike _ _ place place' distinct reads

/-- Values that meet both with the maps of the left side as they are and turned round. -/
theorem surelyAlike_of_converted (distinctLeft : distinctLiteral left)
    (distinct : distinctLiteral right)
    (straight : literalToPropertyValue engine format inserted place left =
      literalToPropertyValue engine format inserted place' right)
    (turned : literalToPropertyValue engine format reversed place left =
      literalToPropertyValue engine format inserted place' right) :
    SurelyAlike engine format left right := by
  refine ⟨alike_of_converted distinct straight, ?_⟩
  cases left with
  | jsonB json => exact narrow_of_reversed _ place distinctLeft (turned.trans straight.symm)
  | _ => rfl

end Meeting

end RaisinDB.Sql
