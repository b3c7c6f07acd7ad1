import VertexGateway.Data.FiniteMap

/-!
# JSON values as the gateway handles them

`Value` follows `serde_json::Value` with its default map: an object is a finite map from strings,
so member order is not observable and a key occurs once. The accessors below keep the names of the
library calls the gateway makes. `pointer` resolves a JSON pointer given by its tokens, and
`modifyPointer` is the in-place update that `pointer_mut` allows: it rewrites the value found at
the pointer and leaves every value alone on which the pointer does not resolve.
-/

namespace VertexGateway

/-- A number is an unsigned integer, a negative integer, or the bits of a double. -/
inductive Number where
  | posInt (value : UInt64)
  | negInt (value : {n : Int64 // n < 0})
  | float (bits : UInt64)
  deriving DecidableEq

inductive Value where
  | null
  | bool (b : Bool)
  | number (n : Number)
  | string (s : String)
  | array (items : List Value)
  | object (map : FiniteMap String Value)

namespace Value

/-- Induction with one hypothesis for each array item and each object member. -/
@[induction_eliminator]
theorem induction {motive : Value → Prop} (null : motive .null)
    (bool : ∀ b, motive (.bool b)) (number : ∀ n, motive (.number n))
    (string : ∀ s, motive (.string s))
    (array : ∀ items, (∀ item ∈ items, motive item) → motive (.array items))
    (object : ∀ map : FiniteMap String Value,
      (∀ key value, map.get? key = some value → motive value) → motive (.object map))
    (value : Value) : motive value := by
  refine @Value.rec motive (fun items ↦ ∀ item ∈ items, motive item)
    (fun map ↦ ∀ key value, map.get? key = some value → motive value)
    null bool number string array object ?_ ?_ ?_ value
  · exact fun item hitem ↦ absurd hitem List.not_mem_nil
  · intro head tail hhead htail item hitem
    rcases List.mem_cons.mp hitem with rfl | hitem
    · exact hhead
    · exact htail item hitem
  · intro dom val hval key value hget
    by_cases hkey : key ∈ dom
    · rw [FiniteMap.get?_of_mem _ hkey] at hget
      exact Option.some.inj hget ▸ hval ⟨key, hkey⟩
    · rw [FiniteMap.get?_of_notMem _ hkey] at hget
      exact absurd hget (Option.some_ne_none value).symm

/-- The object literal of the `json!` macro. -/
def obj (members : List (String × Value)) : Value :=
  .object (FiniteMap.ofList members)

/-! ## Accessors -/

def isNull : Value → Bool
  | .null => true
  | _ => false

def asStr : Value → Option String
  | .string s => some s
  | _ => none

/-- Only a number stored as an unsigned integer has a `u64` reading. -/
def asU64 : Value → Option UInt64
  | .number (.posInt n) => some n
  | _ => none

def asBool : Value → Option Bool
  | .bool b => some b
  | _ => none

def asArray : Value → Option (List Value)
  | .array items => some items
  | _ => none

def asObject : Value → Option (FiniteMap String Value)
  | .object map => some map
  | _ => none

/-- Member lookup by name, which only objects answer. -/
def get? : Value → String → Option Value
  | .object map, key => map.get? key
  | _, _ => none

@[simp]
theorem get?_object (map : FiniteMap String Value) (key : String) :
    (Value.object map).get? key = map.get? key := rfl

/-- Only an object has members. -/
theorem exists_object_of_get? {value member : Value} {key : String}
    (h : value.get? key = some member) :
    ∃ map, value = .object map ∧ map.get? key = some member := by
  cases value with
  | object map => exact ⟨map, rfl, h⟩
  | _ => exact absurd h.symm (Option.some_ne_none member)

theorem asStr_eq_some_iff (value : Value) (s : String) :
    value.asStr = some s ↔ value = .string s := by
  cases value <;> simp [asStr]

theorem asObject_eq_some_iff (value : Value) (map : FiniteMap String Value) :
    value.asObject = some map ↔ value = .object map := by
  cases value <;> simp [asObject]

/-! ## Pointers -/

/-- The array index a pointer token denotes: decimal digits without a sign or a leading zero. -/
def parseIndex (token : String) : Option ℕ :=
  let digits := token.toList
  if digits.isEmpty || !digits.all Char.isDigit || (digits.head? == some '0' && digits.length != 1)
  then none
  else
    let index := digits.foldl (fun acc digit ↦ 10 * acc + (digit.toNat - '0'.toNat)) 0
    if index < 2 ^ 64 then some index else none

def step (target : Value) (token : String) : Option Value :=
  match target with
  | .object map => map.get? token
  | .array items => (parseIndex token).bind (items[·]?)
  | _ => none

@[simp]
theorem step_object (map : FiniteMap String Value) (token : String) :
    (Value.object map).step token = map.get? token := rfl

/-- A token that is no index resolves in objects only, as `get?` does. -/
theorem step_eq_get? (value : Value) {token : String} (h : parseIndex token = none) :
    value.step token = value.get? token := by
  cases value <;> simp [step, get?, h]

/-- Only an object has something under a token that is no index. -/
theorem exists_object_of_step {value next : Value} {token : String} (h : parseIndex token = none)
    (hstep : value.step token = some next) : ∃ map, value = .object map := by
  cases value with
  | object map => exact ⟨map, rfl⟩
  | array items => simp [step, h] at hstep
  | _ => exact absurd hstep.symm (Option.some_ne_none next)

def pointer : Value → List String → Option Value
  | target, [] => some target
  | target, token :: rest => (target.step token).bind (pointer · rest)

@[simp]
theorem pointer_nil (value : Value) : value.pointer [] = some value := rfl

@[simp]
theorem pointer_cons (value : Value) (token : String) (rest : List String) :
    value.pointer (token :: rest) = (value.step token).bind (pointer · rest) := rfl

theorem pointer_append (value : Value) (first second : List String) :
    value.pointer (first ++ second) = (value.pointer first).bind (pointer · second) := by
  induction first generalizing value with
  | nil => rfl
  | cons token rest ih =>
    simp only [List.cons_append, pointer_cons, Option.bind_assoc]
    exact Option.bind_congr fun next _ ↦ ih next

/-! ## Updates in place -/

/-- Rewrite an object, as through `as_object_mut`. -/
def onObject (change : FiniteMap String Value → FiniteMap String Value) : Value → Value
  | .object map => .object (change map)
  | value => value

/-- Assignment through an index, `value[key] = member`. On a value that is neither an object nor
null the library panics; here such a value is left alone. -/
def assign (target : Value) (key : String) (member : Value) : Value :=
  match target with
  | .object map => .object (map.insert key member)
  | .null => .object (FiniteMap.empty.insert key member)
  | value => value

theorem step_assign_of_ne (value member : Value) {key token : String} (h : token ≠ key) :
    (value.assign key member).step token = value.step token := by
  cases value <;> simp [assign, step, FiniteMap.get?_insert_of_ne _ h]

theorem step_onObject_remove_self (value : Value) {key : String} (h : parseIndex key = none) :
    (value.onObject (·.remove key)).step key = none := by
  cases value <;> simp [onObject, step, h]

theorem step_onObject_remove_of_ne (value : Value) {key other : String} (h : other ≠ key) :
    (value.onObject (·.remove key)).step other = value.step other := by
  cases value <;> simp [onObject, step, FiniteMap.get?_remove_of_ne _ h]

/-- Rewrite every item of an array, as a loop over `as_array_mut` does. -/
def onItems (change : Value → Value) : Value → Value
  | .array items => .array (items.map change)
  | value => value

/-- Rewrite the member that `get_mut` finds under `key`. -/
def modifyKey (key : String) (change : Value → Value) : Value → Value
  | .object map =>
    match map.get? key with
    | some value => .object (map.insert key (change value))
    | none => .object map
  | value => value

def modifyStep (token : String) (change : Value → Value) : Value → Value
  | .array items =>
    match parseIndex token with
    | some index => .array (items.modify index change)
    | none => .array items
  | value => value.modifyKey token change

/-- Rewrite the value that `pointer_mut` finds. -/
def modifyPointer : List String → (Value → Value) → Value → Value
  | [], change => change
  | token :: rest, change => modifyStep token (modifyPointer rest change)

theorem get?_modifyKey (value : Value) (key other : String) (change : Value → Value) :
    (value.modifyKey key change).get? other =
      if other = key then (value.get? key).map change else value.get? other := by
  cases value with
  | object map =>
    cases hmember : map.get? key with
    | none =>
      simp only [modifyKey, hmember, get?_object, Option.map_none]
      split
      · next hother => rw [hother, hmember]
      · rfl
    | some member => simp [modifyKey, hmember, FiniteMap.get?_insert]
  | _ => simp [modifyKey, get?]

@[simp]
theorem get?_modifyKey_self (value : Value) (key : String) (change : Value → Value) :
    (value.modifyKey key change).get? key = (value.get? key).map change := by
  simp [get?_modifyKey]

theorem get?_modifyKey_of_ne (value : Value) {key other : String} (h : other ≠ key)
    (change : Value → Value) : (value.modifyKey key change).get? other = value.get? other := by
  simp [get?_modifyKey, h]

theorem step_modifyStep_self (value : Value) (token : String) (change : Value → Value) :
    (value.modifyStep token change).step token = (value.step token).map change := by
  cases value with
  | array items =>
    cases hindex : parseIndex token with
    | none => simp [modifyStep, step, hindex]
    | some index => simp [modifyStep, step, hindex, List.getElem?_modify]
  | object map =>
    cases hmember : map.get? token <;> simp [modifyStep, modifyKey, step, hmember]
  | _ => rfl

/-- An update under a member name leaves every other token's target alone. -/
theorem step_modifyStep_of_ne (value : Value) {token other : String} (h : other ≠ token)
    (htoken : parseIndex token = none) (change : Value → Value) :
    (value.modifyStep token change).step other = value.step other := by
  cases value with
  | array items => simp [modifyStep, htoken]
  | object map =>
    cases hmember : map.get? token with
    | none => simp [modifyStep, modifyKey, hmember]
    | some member => simp [modifyStep, modifyKey, step, hmember, FiniteMap.get?_insert, h]
  | _ => rfl

/-- Reading below an updated pointer reads below the rewritten value. -/
theorem pointer_modifyPointer_append (value : Value) (path rest : List String)
    (change : Value → Value) :
    (value.modifyPointer path change).pointer (path ++ rest) =
      (value.pointer path).bind fun target ↦ (change target).pointer rest := by
  induction path generalizing value with
  | nil => rfl
  | cons token path ih =>
    simp only [modifyPointer, List.cons_append, pointer_cons, step_modifyStep_self]
    cases value.step token with
    | none => rfl
    | some next => exact ih next

theorem pointer_modifyPointer_self (value : Value) (path : List String) (change : Value → Value) :
    (value.modifyPointer path change).pointer path = (value.pointer path).map change := by
  have h := pointer_modifyPointer_append value path [] change
  rw [List.append_nil] at h
  rw [h]
  cases value.pointer path <;> rfl

/-- Reading beside an updated pointer: the two paths part at the member name `token`. -/
theorem pointer_modifyPointer_of_ne (value : Value) (path : List String) {token other : String}
    (h : other ≠ token) (htoken : parseIndex token = none) (below rest : List String)
    (change : Value → Value) :
    (value.modifyPointer (path ++ token :: below) change).pointer (path ++ other :: rest) =
      value.pointer (path ++ other :: rest) := by
  induction path generalizing value with
  | nil => simp only [List.nil_append, modifyPointer, pointer_cons, step_modifyStep_of_ne value h htoken]
  | cons head path ih =>
    simp only [List.cons_append, modifyPointer, pointer_cons, step_modifyStep_self]
    cases value.step head with
    | none => rfl
    | some next => exact ih next

theorem asArray_onItems (value : Value) (change : Value → Value) :
    (value.onItems change).asArray = value.asArray.map (List.map change) := by
  cases value <;> rfl

end Value

end VertexGateway
