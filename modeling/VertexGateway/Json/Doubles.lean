import VertexGateway.Json.Value

/-!
# Values up to their doubles

Printing a double and parsing the text again may change its last bits. `eraseDoubles` forgets the
bits of all doubles in a value, so that two values agree under it when they differ in nothing else.
Strings, integers and the shape of a value survive, and with them everything that the gateway looks
at.
-/

namespace VertexGateway

namespace Value

mutual

/-- The value with the bits of its doubles forgotten. -/
def eraseDoubles : Value → Value
  | .null => .null
  | .bool b => .bool b
  | .number (.float _) => .number (.float 0)
  | .number n => .number n
  | .string s => .string s
  | .array items => .array (eraseItems items)
  | .object map => .object (eraseMembers map)
termination_by structural value => value

def eraseItems : List Value → List Value
  | [] => []
  | item :: items => eraseDoubles item :: eraseItems items
termination_by structural items => items

def eraseMembers : FiniteMap String Value → FiniteMap String Value
  | ⟨dom, val⟩ => ⟨dom, fun key ↦ eraseDoubles (val key)⟩
termination_by structural map => map

end

theorem eraseItems_eq (items : List Value) : eraseItems items = items.map eraseDoubles := by
  induction items with
  | nil => rfl
  | cons item items ih => rw [eraseItems, ih, List.map_cons]

theorem get?_eraseMembers (map : FiniteMap String Value) (key : String) :
    (eraseMembers map).get? key = (map.get? key).map eraseDoubles := by
  rcases map with ⟨dom, val⟩
  rw [eraseMembers]
  by_cases hkey : key ∈ dom
  · rw [FiniteMap.get?_of_mem _ hkey, FiniteMap.get?_of_mem _ hkey, Option.map_some]
  · rw [FiniteMap.get?_of_notMem _ hkey, FiniteMap.get?_of_notMem _ hkey, Option.map_none]

/-! ## What survives -/

@[simp]
theorem isNull_eraseDoubles (value : Value) : value.eraseDoubles.isNull = value.isNull := by
  cases value with
  | number n => cases n <;> rfl
  | _ => rfl

@[simp]
theorem asStr_eraseDoubles (value : Value) : value.eraseDoubles.asStr = value.asStr := by
  cases value with
  | number n => cases n <;> rfl
  | _ => rfl

@[simp]
theorem asU64_eraseDoubles (value : Value) : value.eraseDoubles.asU64 = value.asU64 := by
  cases value with
  | number n => cases n <;> rfl
  | _ => rfl

theorem asArray_eraseDoubles (value : Value) :
    value.eraseDoubles.asArray = value.asArray.map (List.map eraseDoubles) := by
  cases value with
  | number n => cases n <;> rfl
  | array items => simp only [eraseDoubles, asArray, eraseItems_eq, Option.map_some]
  | _ => rfl

theorem asObject_eraseDoubles (value : Value) :
    value.eraseDoubles.asObject = value.asObject.map eraseMembers := by
  cases value with
  | number n => cases n <;> rfl
  | _ => rfl

theorem get?_eraseDoubles (value : Value) (key : String) :
    value.eraseDoubles.get? key = (value.get? key).map eraseDoubles := by
  cases value with
  | number n => cases n <;> rfl
  | object map => exact get?_eraseMembers map key
  | _ => rfl

theorem step_eraseDoubles (value : Value) (token : String) :
    value.eraseDoubles.step token = (value.step token).map eraseDoubles := by
  cases value with
  | number n => cases n <;> rfl
  | array items =>
    simp only [eraseDoubles, step, eraseItems_eq, List.getElem?_map]
    cases parseIndex token <;> rfl
  | object map => exact get?_eraseMembers map token
  | _ => rfl

/-- The same places are there, with what stands at them erased. -/
theorem pointer_eraseDoubles (value : Value) (path : List String) :
    value.eraseDoubles.pointer path = (value.pointer path).map eraseDoubles := by
  induction path generalizing value with
  | nil => rfl
  | cons token path ih =>
    rw [pointer_cons, pointer_cons, step_eraseDoubles]
    cases value.step token with
    | none => rfl
    | some next => exact ih next

/-- Values that agree up to their doubles show the same to whoever looks at nothing else. -/
theorem map_eq_of_eraseDoubles {β : Type} {look : Value → β}
    (hlook : ∀ value : Value, look value.eraseDoubles = look value) {read sent : Option Value}
    (h : read.map eraseDoubles = sent.map eraseDoubles) : read.map look = sent.map look := by
  have hcomp : look ∘ eraseDoubles = look := funext hlook
  rw [← hcomp, ← Option.map_map, h, Option.map_map]

end Value

end VertexGateway
