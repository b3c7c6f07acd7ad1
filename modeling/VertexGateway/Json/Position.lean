import VertexGateway.Json.Value

/-!
# Positions in a JSON value

A position is a list of segments, each a member name or an array index, so unlike the text tokens
of a pointer it cannot be read in two ways. `SameExcept` says that two values are the same except
at and below some exempt positions. With nothing exempt it is equality, and the rules below carry
it through every update in place, so a frame condition is proved along the structure of the code
that makes the update.
-/

namespace VertexGateway

/-- One step into a value: a member of an object or an item of an array. -/
inductive Segment where
  | key (name : String)
  | item (index : ℕ)
  deriving DecidableEq

namespace Value

/-- The value one step below. -/
def child : Value → Segment → Option Value
  | .object map, .key name => map.get? name
  | .array items, .item index => items[index]?
  | _, _ => none

/-- The value at a position. -/
def locate : Value → List Segment → Option Value
  | value, [] => some value
  | value, segment :: rest => (value.child segment).bind (locate · rest)

@[simp]
theorem child_object_key (map : FiniteMap String Value) (name : String) :
    (Value.object map).child (.key name) = map.get? name := rfl

@[simp]
theorem child_object_item (map : FiniteMap String Value) (index : ℕ) :
    (Value.object map).child (.item index) = none := rfl

@[simp]
theorem child_array_item (items : List Value) (index : ℕ) :
    (Value.array items).child (.item index) = items[index]? := rfl

@[simp]
theorem child_array_key (items : List Value) (name : String) :
    (Value.array items).child (.key name) = none := rfl

theorem child_key (value : Value) (name : String) : value.child (.key name) = value.get? name := by
  cases value <;> rfl

theorem child_item (value : Value) (index : ℕ) :
    value.child (.item index) = value.asArray.bind (·[index]?) := by
  cases value <;> rfl

@[simp]
theorem locate_nil (value : Value) : value.locate [] = some value := rfl

@[simp]
theorem locate_cons (value : Value) (segment : Segment) (rest : List Segment) :
    value.locate (segment :: rest) = (value.child segment).bind (locate · rest) := rfl

/-- A pointer whose tokens are no indices resolves in objects only. -/
theorem pointer_eq_locate (value : Value) {path : List String}
    (h : ∀ token ∈ path, parseIndex token = none) :
    value.pointer path = value.locate (path.map .key) := by
  induction path generalizing value with
  | nil => rfl
  | cons token rest ih =>
    rw [pointer_cons, step_eq_get? value (h token List.mem_cons_self), List.map_cons, locate_cons,
      child_key]
    apply Option.bind_congr
    intro next _
    exact ih next fun other hother ↦ h other (List.mem_cons_of_mem token hother)

/-! ## Sameness except at some positions -/

/-- What a value is apart from what lies below it. -/
def head : Value → Value
  | .array _ => .array []
  | .object _ => .object .empty
  | value => value

/-- The two values are the same at every position that is neither exempt nor below an exempt
one: the same leaf there, or both an array, or both an object, or both nothing. -/
def SameExcept (exempt : List Segment → Prop) (left right : Value) : Prop :=
  ∀ path, (∀ front, front <+: path → ¬ exempt front) →
    (left.locate path).map head = (right.locate path).map head

/-- What is exempt one step further down. -/
def deeper (exempt : List Segment → Prop) (segment : Segment) : List Segment → Prop :=
  fun path ↦ exempt (segment :: path)

variable {exempt : List Segment → Prop}

theorem SameExcept.refl (value : Value) : SameExcept exempt value value :=
  fun _ _ ↦ rfl

theorem SameExcept.trans {left middle right : Value} (hleft : SameExcept exempt left middle)
    (hright : SameExcept exempt middle right) : SameExcept exempt left right :=
  fun path hpath ↦ (hleft path hpath).trans (hright path hpath)

/-- Values agree when they are of one kind and everything one step below agrees or is exempt. -/
theorem sameExcept_of_children {left right : Value} (hhead : left.head = right.head)
    (hchild : ∀ segment, exempt [segment] ∨ left.child segment = right.child segment ∨
      ∃ leftChild rightChild, left.child segment = some leftChild ∧
        right.child segment = some rightChild ∧
        SameExcept (deeper exempt segment) leftChild rightChild) :
    SameExcept exempt left right := by
  intro path hpath
  cases path with
  | nil => exact congrArg some hhead
  | cons segment rest =>
    rw [locate_cons, locate_cons]
    rcases hchild segment with hexempt | hsame | ⟨leftChild, rightChild, hleft, hright, hagree⟩
    · exact absurd hexempt (hpath [segment] ⟨rest, rfl⟩)
    · rw [hsame]
    · rw [hleft, hright]
      apply hagree rest
      intro front hfront
      exact hpath (segment :: front) (List.cons_prefix_cons.mpr ⟨rfl, hfront⟩)

/-- With nothing exempt, what lies one step below is equal as soon as sameness there is equality. -/
theorem SameExcept.child_eq {left right : Value} (h : SameExcept (fun _ ↦ False) left right)
    (segment : Segment) (hequal : ∀ leftChild rightChild, left.child segment = some leftChild →
      SameExcept (fun _ ↦ False) leftChild rightChild → leftChild = rightChild) :
    left.child segment = right.child segment := by
  have hpath (rest : List Segment) :
      ((left.child segment).bind (locate · rest)).map head =
        ((right.child segment).bind (locate · rest)).map head :=
    h (segment :: rest) fun _ _ ↦ not_false
  cases hleft : left.child segment with
  | none =>
    cases hright : right.child segment with
    | none => rfl
    | some rightChild => simpa [hleft, hright] using hpath []
  | some leftChild =>
    cases hright : right.child segment with
    | none => simpa [hleft, hright] using hpath []
    | some rightChild =>
      congr 1
      apply hequal leftChild rightChild hleft
      intro rest _
      simpa [hleft, hright] using hpath rest

/-- With nothing exempt, sameness is equality. -/
theorem sameExcept_nothing_iff (left right : Value) :
    SameExcept (fun _ ↦ False) left right ↔ left = right := by
  constructor
  · intro h
    have hhead : left.head = right.head := Option.some.inj (h [] fun _ _ ↦ not_false)
    induction left generalizing right with
    | object map ih =>
      cases right with
      | object rightMap =>
        congr 1
        ext key : 1
        apply h.child_eq (.key key)
        intro member other hmember hsame
        exact ih key member hmember other hsame (Option.some.inj (hsame [] fun _ _ ↦ not_false))
      | _ => exact absurd hhead (by simp [head])
    | array items ih =>
      cases right with
      | array rightItems =>
        congr 1
        apply List.ext_getElem?
        intro index
        apply h.child_eq (.item index)
        intro item other hitem hsame
        exact ih item (List.mem_of_getElem? hitem) other hsame
          (Option.some.inj (hsame [] fun _ _ ↦ not_false))
      | _ => exact absurd hhead (by simp [head])
    | _ => cases right <;> simp_all [head]
  · rintro rfl
    exact SameExcept.refl _

/-- More may be exempt. -/
theorem SameExcept.mono {left right : Value} {wider : List Segment → Prop}
    (h : SameExcept exempt left right) (hwider : ∀ path, exempt path → wider path) :
    SameExcept wider left right := by
  intro path hpath
  apply h path
  exact fun front hfront hexempt ↦ hpath front hfront (hwider front hexempt)

/-- Where nothing turns out to be exempt nothing has changed. -/
theorem SameExcept.eq_of_forall_not {left right : Value} (h : SameExcept exempt left right)
    (hnone : ∀ path, ¬ exempt path) : left = right :=
  (sameExcept_nothing_iff left right).mp (h.mono hnone)

/-! ## Updates in place -/

/-- Two objects that differ at one key only. -/
theorem sameExcept_object_of_ne {left right : FiniteMap String Value} {key : String}
    (hother : ∀ name, name ≠ key → left.get? name = right.get? name)
    (hkey : exempt [.key key] ∨ left.get? key = right.get? key ∨
      ∃ leftMember rightMember, left.get? key = some leftMember ∧
        right.get? key = some rightMember ∧
        SameExcept (deeper exempt (.key key)) leftMember rightMember) :
    SameExcept exempt (.object left) (.object right) := by
  have hhead : (Value.object left).head = (Value.object right).head := rfl
  apply sameExcept_of_children hhead
  intro segment
  cases segment with
  | item index => exact Or.inr (Or.inl rfl)
  | key name =>
    by_cases hname : name = key
    · rw [hname]
      exact hkey
    · exact Or.inr (Or.inl (hother name hname))

theorem SameExcept.insert {map : FiniteMap String Value} {key : String} (value : Value)
    (h : exempt [.key key] ∨ map.get? key = some value) :
    SameExcept exempt (.object map) (.object (map.insert key value)) := by
  apply sameExcept_object_of_ne fun name hname ↦ (map.get?_insert_of_ne hname value).symm
  rw [FiniteMap.get?_insert_self]
  exact h.imp_right Or.inl

theorem SameExcept.remove {map : FiniteMap String Value} {key : String}
    (h : exempt [.key key]) :
    SameExcept exempt (.object map) (.object (map.remove key)) :=
  sameExcept_object_of_ne (fun _ hname ↦ (map.get?_remove_of_ne hname).symm) (Or.inl h)

theorem SameExcept.removeAll {map : FiniteMap String Value} {keys : List String}
    (h : ∀ key ∈ keys, exempt [.key key]) :
    SameExcept exempt (.object map) (.object (keys.foldl FiniteMap.remove map)) := by
  induction keys generalizing map with
  | nil => exact SameExcept.refl _
  | cons key keys ih =>
    have hhead : SameExcept exempt (.object map) (.object (map.remove key)) :=
      SameExcept.remove (h key List.mem_cons_self)
    exact hhead.trans (ih fun other hother ↦ h other (List.mem_cons_of_mem key hother))

/-- An entry that is absent appears, one that is present is rewritten. -/
theorem SameExcept.updateEntry {map : FiniteMap String Value} {key : String} (fallback : Value)
    {change : Value → Value} (habsent : map.get? key = none → exempt [.key key])
    (hpresent : ∀ member, map.get? key = some member →
      SameExcept (deeper exempt (.key key)) member (change member)) :
    SameExcept exempt (.object map) (.object (map.updateEntry key fallback change)) := by
  apply sameExcept_object_of_ne fun name hname ↦
    (map.get?_updateEntry_of_ne hname fallback change).symm
  rw [FiniteMap.get?_updateEntry_self]
  cases hmember : map.get? key with
  | none => exact Or.inl (habsent hmember)
  | some member => exact Or.inr (Or.inr ⟨member, change member, rfl, rfl, hpresent member hmember⟩)

theorem SameExcept.onObject (value : Value)
    {change : FiniteMap String Value → FiniteMap String Value}
    (h : ∀ map, value = .object map → SameExcept exempt (.object map) (.object (change map))) :
    SameExcept exempt value (value.onObject change) := by
  cases value with
  | object map => exact h map rfl
  | _ => exact SameExcept.refl _

/-- Rewriting a member keeps everything that the rewriting of the member itself keeps. -/
theorem SameExcept.modifyKey (value : Value) {key : String} {change : Value → Value}
    (h : ∀ member, value.child (.key key) = some member →
      SameExcept (deeper exempt (.key key)) member (change member)) :
    SameExcept exempt value (value.modifyKey key change) := by
  cases value with
  | object map =>
    cases hmember : map.get? key with
    | none =>
      simp only [Value.modifyKey, hmember]
      exact SameExcept.refl _
    | some member =>
      simp only [Value.modifyKey, hmember]
      apply sameExcept_object_of_ne fun name hname ↦
        (map.get?_insert_of_ne hname (change member)).symm
      exact Or.inr (Or.inr ⟨member, change member, hmember, map.get?_insert_self key _,
        h member hmember⟩)
  | _ => exact SameExcept.refl _

/-- A pointer token that is no index rewrites an object member. -/
theorem modifyStep_eq_modifyKey (value : Value) {token : String} (h : parseIndex token = none)
    (change : Value → Value) : value.modifyStep token change = value.modifyKey token change := by
  cases value <;> simp [modifyStep, Value.modifyKey, h]

/-- Rewriting every item keeps everything that the rewriting of each item keeps. -/
theorem SameExcept.onItems (value : Value) {change : Value → Value}
    (h : ∀ index item, value.child (.item index) = some item →
      SameExcept (deeper exempt (.item index)) item (change item)) :
    SameExcept exempt value (value.onItems change) := by
  cases value with
  | array items =>
    have hhead : (Value.array items).head = (Value.array (items.map change)).head := rfl
    apply sameExcept_of_children hhead
    intro segment
    cases segment with
    | key name => exact Or.inr (Or.inl rfl)
    | item index =>
      cases hitem : items[index]? with
      | none => exact Or.inr (Or.inl (by simp [hitem]))
      | some item =>
        exact Or.inr (Or.inr ⟨item, change item, hitem, by simp [hitem], h index item hitem⟩)
  | _ => exact SameExcept.refl _

end Value

end VertexGateway
