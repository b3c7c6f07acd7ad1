import Mathlib

/-!
# Finite maps with extensional equality

A finite map is a finite key set together with one value for every key in it. Duplicate keys
cannot be represented, and two maps are equal exactly when every lookup agrees, whatever sequence
of insertions and removals built them. The carrier is strictly positive in its values, so a tree
type may nest it and still recurse structurally through the values.
-/

namespace VertexGateway

universe u v

/-- A finite key set with a value for each of its keys. -/
structure FiniteMap (κ : Type u) (α : Type v) where
  dom : Finset κ
  val : {key // key ∈ dom} → α

namespace FiniteMap

variable {κ : Type u} {α : Type v} [DecidableEq κ]

def get? (map : FiniteMap κ α) (key : κ) : Option α :=
  if h : key ∈ map.dom then some (map.val ⟨key, h⟩) else none

theorem get?_of_mem (map : FiniteMap κ α) {key : κ} (h : key ∈ map.dom) :
    map.get? key = some (map.val ⟨key, h⟩) := dif_pos h

theorem get?_of_notMem (map : FiniteMap κ α) {key : κ} (h : key ∉ map.dom) :
    map.get? key = none := dif_neg h

theorem isSome_get?_iff (map : FiniteMap κ α) (key : κ) :
    (map.get? key).isSome ↔ key ∈ map.dom := by
  by_cases h : key ∈ map.dom
  · simp [get?_of_mem map h, h]
  · simp [get?_of_notMem map h, h]

theorem get?_eq_none_iff (map : FiniteMap κ α) (key : κ) :
    map.get? key = none ↔ key ∉ map.dom := by
  rw [← isSome_get?_iff, Option.not_isSome_iff_eq_none]

/-- Lookups determine the map, so equality never depends on how a map was built. -/
@[ext]
theorem ext {left right : FiniteMap κ α} (h : ∀ key, left.get? key = right.get? key) :
    left = right := by
  have hdom : left.dom = right.dom := by
    ext key
    rw [← isSome_get?_iff, ← isSome_get?_iff, h key]
  rcases left with ⟨dom, leftVal⟩
  rcases right with ⟨rightDom, rightVal⟩
  obtain rfl : dom = rightDom := hdom
  congr 1
  funext key
  have hkey := h key.1
  rw [get?_of_mem _ key.2, get?_of_mem _ key.2] at hkey
  exact Option.some.inj hkey

/-! ## Construction and update -/

def empty : FiniteMap κ α where
  dom := ∅
  val key := absurd key.2 (Finset.notMem_empty key.1)

@[simp]
theorem get?_empty (key : κ) : (empty : FiniteMap κ α).get? key = none :=
  get?_of_notMem _ (Finset.notMem_empty key)

def insert (map : FiniteMap κ α) (key : κ) (value : α) : FiniteMap κ α where
  dom := Insert.insert key map.dom
  val other := if h : other.1 = key then value else
    map.val ⟨other.1, (Finset.mem_insert.mp other.2).resolve_left h⟩

theorem get?_insert (map : FiniteMap κ α) (key other : κ) (value : α) :
    (map.insert key value).get? other = if other = key then some value else map.get? other := by
  by_cases hkey : other = key
  · subst other
    rw [get?_of_mem _ (Finset.mem_insert_self key map.dom)]
    simp [insert]
  · by_cases hother : other ∈ map.dom
    · rw [get?_of_mem _ (Finset.mem_insert_of_mem hother)]
      simp [insert, hkey, get?_of_mem map hother]
    · have hnot : other ∉ (map.insert key value).dom := by
        simp [insert, hkey, hother]
      simp [get?_of_notMem _ hnot, get?_of_notMem map hother, hkey]

@[simp]
theorem get?_insert_self (map : FiniteMap κ α) (key : κ) (value : α) :
    (map.insert key value).get? key = some value := by
  simp [get?_insert]

theorem get?_insert_of_ne (map : FiniteMap κ α) {key other : κ} (h : other ≠ key) (value : α) :
    (map.insert key value).get? other = map.get? other := by
  simp [get?_insert, h]

theorem insert_comm (map : FiniteMap κ α) {key other : κ} (h : key ≠ other) (first second : α) :
    (map.insert key first).insert other second = (map.insert other second).insert key first := by
  ext probe : 1
  simp only [get?_insert]
  split_ifs with hother hkey
  · exact absurd (hkey.symm.trans hother) h
  all_goals rfl

def remove (map : FiniteMap κ α) (key : κ) : FiniteMap κ α where
  dom := map.dom.erase key
  val other := map.val ⟨other.1, Finset.mem_of_mem_erase other.2⟩

theorem get?_remove (map : FiniteMap κ α) (key other : κ) :
    (map.remove key).get? other = if other = key then none else map.get? other := by
  by_cases hkey : other = key
  · subst other
    simp [get?_of_notMem (map.remove key) (Finset.notMem_erase key map.dom)]
  · by_cases hother : other ∈ map.dom
    · rw [get?_of_mem _ (Finset.mem_erase.mpr ⟨hkey, hother⟩)]
      simp [remove, hkey, get?_of_mem map hother]
    · have hnot : other ∉ (map.remove key).dom := by
        simp [remove, hother]
      simp [get?_of_notMem _ hnot, get?_of_notMem map hother, hkey]

@[simp]
theorem get?_remove_self (map : FiniteMap κ α) (key : κ) : (map.remove key).get? key = none := by
  simp [get?_remove]

theorem get?_remove_of_ne (map : FiniteMap κ α) {key other : κ} (h : other ≠ key) :
    (map.remove key).get? other = map.get? other := by
  simp [get?_remove, h]

theorem remove_insert_of_ne (map : FiniteMap κ α) {key other : κ} (h : key ≠ other) (value : α) :
    (map.insert key value).remove other = (map.remove other).insert key value := by
  ext probe : 1
  simp only [get?_insert, get?_remove]
  split_ifs with hother hkey
  · exact absurd (hkey.symm.trans hother) h
  all_goals rfl

/-- Removing keys one after another. -/
theorem get?_foldl_remove (map : FiniteMap κ α) (keys : List κ) (key : κ) :
    (keys.foldl remove map).get? key = if key ∈ keys then none else map.get? key := by
  induction keys generalizing map with
  | nil => simp
  | cons head keys ih =>
    rw [List.foldl_cons, ih, get?_remove]
    by_cases hkey : key = head <;> simp [hkey]

/-- No key at all is present. -/
def isEmpty (map : FiniteMap κ α) : Bool :=
  decide (map.dom = ∅)

theorem isEmpty_iff (map : FiniteMap κ α) : map.isEmpty = true ↔ ∀ key, map.get? key = none := by
  unfold isEmpty
  simp only [decide_eq_true_eq, Finset.eq_empty_iff_forall_notMem, get?_eq_none_iff]

/-- Later entries win over earlier ones with the same key. -/
def ofList (entries : List (κ × α)) : FiniteMap κ α :=
  entries.foldl (fun map entry ↦ map.insert entry.1 entry.2) empty

theorem ofList_concat (entries : List (κ × α)) (last : κ × α) :
    ofList (entries ++ [last]) = (ofList entries).insert last.1 last.2 := by
  simp [ofList]

/-- Entries taken from a map build the part of it that they cover. -/
theorem get?_ofList_of_forall (map : FiniteMap κ α) (entries : List (κ × α))
    (h : ∀ entry ∈ entries, map.get? entry.1 = some entry.2) (key : κ) :
    (ofList entries).get? key = if key ∈ entries.map Prod.fst then map.get? key else none := by
  induction entries using List.reverseRecOn with
  | nil => simp [ofList]
  | append_singleton entries last ih =>
    have hentries := ih fun entry hentry ↦ h entry (List.mem_append_left _ hentry)
    rw [ofList_concat, get?_insert, hentries]
    by_cases hkey : key = last.1
    · simp [hkey, h last (by simp)]
    · have hmem : key ∈ (entries ++ [last]).map Prod.fst ↔ key ∈ entries.map Prod.fst := by
        rw [List.map_append, List.mem_append, List.map_singleton, List.mem_singleton, or_iff_left hkey]
      simp only [hkey, if_false, hmem]

section Entries

variable {κ : Type u} [LinearOrder κ]

/-- The keys in ascending order. -/
def sortedKeys (map : FiniteMap κ α) : List κ :=
  Quot.liftOn map.dom.val (List.insertionSort (· ≤ ·)) fun first second h ↦
    (((List.perm_insertionSort _ first).trans h).trans
      (List.perm_insertionSort _ second).symm).eq_of_pairwise'
        (List.pairwise_insertionSort _ first) (List.pairwise_insertionSort _ second)

theorem mem_sortedKeys (map : FiniteMap κ α) (key : κ) : key ∈ map.sortedKeys ↔ key ∈ map.dom := by
  rcases map with ⟨⟨keys, hnodup⟩, val⟩
  induction keys using Quot.inductionOn with
  | h keys => exact List.mem_insertionSort _

/-- The entries in ascending key order. -/
def entries (map : FiniteMap κ α) : List (κ × α) :=
  map.sortedKeys.attach.map fun key ↦ (key.1, map.val ⟨key.1, (mem_sortedKeys map _).mp key.2⟩)

theorem get?_of_mem_entries (map : FiniteMap κ α) {entry : κ × α} (h : entry ∈ map.entries) :
    map.get? entry.1 = some entry.2 := by
  obtain ⟨key, -, rfl⟩ := List.mem_map.mp h
  exact get?_of_mem _ _

theorem ofList_entries (map : FiniteMap κ α) : ofList map.entries = map := by
  ext key : 1
  rw [get?_ofList_of_forall map _ fun entry ↦ get?_of_mem_entries map]
  split
  · rfl
  · next hkey =>
    refine (get?_of_notMem _ fun hmem ↦ hkey ?_).symm
    simpa [entries, mem_sortedKeys] using hmem

end Entries

/-- The value at `key`, or `fallback` stored there first, rewritten by `change`. -/
def updateEntry (map : FiniteMap κ α) (key : κ) (fallback : α) (change : α → α) :
    FiniteMap κ α :=
  map.insert key (change ((map.get? key).getD fallback))

@[simp]
theorem get?_updateEntry_self (map : FiniteMap κ α) (key : κ) (fallback : α) (change : α → α) :
    (map.updateEntry key fallback change).get? key =
      some (change ((map.get? key).getD fallback)) :=
  get?_insert_self _ _ _

theorem get?_updateEntry_of_ne (map : FiniteMap κ α) {key other : κ} (h : other ≠ key)
    (fallback : α) (change : α → α) :
    (map.updateEntry key fallback change).get? other = map.get? other :=
  get?_insert_of_ne _ h _

/-! ## Pointwise union -/

/-- The union of two maps; a key of both gets the combination of its two values. -/
def mergeWith (combine : α → α → α) (left right : FiniteMap κ α) : FiniteMap κ α where
  dom := left.dom ∪ right.dom
  val key :=
    if hleft : key.1 ∈ left.dom then
      if hright : key.1 ∈ right.dom then
        combine (left.val ⟨key.1, hleft⟩) (right.val ⟨key.1, hright⟩)
      else left.val ⟨key.1, hleft⟩
    else right.val ⟨key.1, (Finset.mem_union.mp key.2).resolve_left hleft⟩

theorem get?_mergeWith (combine : α → α → α) (left right : FiniteMap κ α) (key : κ) :
    (mergeWith combine left right).get? key =
      Option.merge combine (left.get? key) (right.get? key) := by
  by_cases hleft : key ∈ left.dom <;> by_cases hright : key ∈ right.dom
  · rw [get?_of_mem _ (Finset.mem_union_left _ hleft), get?_of_mem left hleft,
      get?_of_mem right hright]
    simp [mergeWith, hleft, hright]
  · rw [get?_of_mem _ (Finset.mem_union_left _ hleft), get?_of_mem left hleft,
      get?_of_notMem right hright]
    simp [mergeWith, hleft, hright]
  · rw [get?_of_mem _ (Finset.mem_union_right _ hright), get?_of_notMem left hleft,
      get?_of_mem right hright]
    simp [mergeWith, hleft]
  · have hnot : key ∉ (mergeWith combine left right).dom := by
      simp [mergeWith, hleft, hright]
    simp [get?_of_notMem _ hnot, get?_of_notMem left hleft, get?_of_notMem right hright]

/-- One turn of a loop that merges entries into a map: combine with the value already there, or
insert. -/
def mergeEntry (combine : α → α → α) (map : FiniteMap κ α) (entry : κ × α) : FiniteMap κ α :=
  match map.get? entry.1 with
  | some existing => map.insert entry.1 (combine existing entry.2)
  | none => map.insert entry.1 entry.2

theorem get?_mergeEntry (combine : α → α → α) (map : FiniteMap κ α) (entry : κ × α) (key : κ) :
    (map.mergeEntry combine entry).get? key =
      if key = entry.1 then Option.merge combine (map.get? key) (some entry.2)
      else map.get? key := by
  cases hexisting : map.get? entry.1 with
  | none =>
    simp only [mergeEntry, hexisting, get?_insert]
    split
    · next hkey => rw [hkey, hexisting, Option.merge_none_left]
    · rfl
  | some existing =>
    simp only [mergeEntry, hexisting, get?_insert]
    split
    · next hkey => rw [hkey, hexisting, Option.merge_some_some]
    · rfl

/-- The loop over any enumeration of `right` computes the pointwise union, in whatever order the
entries come. -/
theorem foldl_mergeEntry (combine : α → α → α) (left right : FiniteMap κ α)
    (entries : List (κ × α)) (hnodup : (entries.map Prod.fst).Nodup)
    (hentries : ∀ key value, (key, value) ∈ entries ↔ right.get? key = some value) :
    entries.foldl (mergeEntry combine) left = mergeWith combine left right := by
  induction entries generalizing left right with
  | nil =>
    ext key : 1
    have hright : right.get? key = none := Option.eq_none_iff_forall_ne_some.mpr fun value h ↦
      List.not_mem_nil ((hentries key value).mpr h)
    rw [List.foldl_nil, get?_mergeWith, hright, Option.merge_none_right]
  | cons entry entries ih =>
    obtain ⟨hentry, hrest⟩ := List.nodup_cons.mp hnodup
    have hremoved : ∀ key value, (key, value) ∈ entries ↔
        (right.remove entry.1).get? key = some value := by
      intro key value
      rw [get?_remove]
      split
      · next hkey =>
        subst hkey
        have hnot : (entry.1, value) ∉ entries := fun hmem ↦
          hentry (List.mem_map.mpr ⟨_, hmem, rfl⟩)
        simp [hnot]
      · next hkey =>
        rw [← hentries key value, List.mem_cons]
        simp [Prod.ext_iff, hkey]
    calc
      (entry :: entries).foldl (mergeEntry combine) left =
          mergeWith combine (left.mergeEntry combine entry) (right.remove entry.1) :=
        ih _ _ hrest hremoved
      _ = mergeWith combine left right := by
        ext key : 1
        simp only [get?_mergeWith, get?_mergeEntry, get?_remove]
        split
        · next hkey =>
          have hhead : right.get? key = some entry.2 :=
            (hentries key entry.2).mp (hkey ▸ List.mem_cons_self)
          rw [hhead, Option.merge_none_right]
        · rfl

end FiniteMap

end VertexGateway
