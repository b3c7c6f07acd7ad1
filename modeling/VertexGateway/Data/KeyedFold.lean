import Mathlib

/-!
# Grouping a list by key while folding each group

Items arrive in one list, each carrying a key. An association list keeps one accumulator for each
key: the first item of a key is stored as it is and every later item of that key is folded into
it. The abstract content of such a list is `foldFirst` over the items of each key, so it depends
only on the order inside each group, and sorting by key turns that content into one canonical list.
-/

namespace VertexGateway.KeyedFold

variable {α : Type*} {κ : Type*}

/-- Fold a list into its first element; nothing comes of the empty list. -/
def foldFirst (step : α → α → α) : List α → Option α
  | [] => none
  | first :: rest => some (rest.foldl step first)

@[simp]
theorem foldFirst_nil (step : α → α → α) : foldFirst step [] = none := rfl

theorem foldFirst_eq_some_iff (step : α → α → α) (items : List α) (folded : α) :
    foldFirst step items = some folded ↔
      ∃ first rest, items = first :: rest ∧ folded = rest.foldl step first := by
  cases items with
  | nil => simp
  | cons first rest => simp [foldFirst, eq_comm]

theorem foldFirst_concat (step : α → α → α) (items : List α) (last : α) :
    foldFirst step (items ++ [last]) = Option.merge step (foldFirst step items) (some last) := by
  cases items with
  | nil => rfl
  | cons first rest => simp [foldFirst, List.foldl_append]

/-- Once something has come of the list, later elements are folded into it. -/
theorem foldFirst_append {step : α → α → α} {first : List α} {held : α}
    (h : foldFirst step first = some held) (second : List α) :
    foldFirst step (first ++ second) = some (second.foldl step held) := by
  cases first with
  | nil => exact absurd h.symm (Option.some_ne_none held)
  | cons head rest =>
    obtain rfl := Option.some.inj h
    exact congrArg some List.foldl_append

variable [DecidableEq κ]

theorem lookup_cons (entry : κ × α) (rest : List (κ × α)) (probe : κ) :
    (entry :: rest).lookup probe = if probe = entry.1 then some entry.2 else rest.lookup probe := by
  rcases entry with ⟨key, value⟩
  by_cases h : probe = key
  · simp [h]
  · simp [List.lookup_cons, beq_false_of_ne h, h]

/-- Fold the item into the accumulator of its key, or start one behind the others. -/
def upsert (key : α → κ) (step : α → α → α) : List (κ × α) → α → List (κ × α)
  | [], item => [(key item, item)]
  | entry :: rest, item =>
    if entry.1 = key item then (entry.1, step entry.2 item) :: rest
    else entry :: upsert key step rest item

/-- The accumulators left by a whole list of items. -/
def run (key : α → κ) (step : α → α → α) (items : List α) : List (κ × α) :=
  items.foldl (upsert key step) []

section

variable (key : α → κ) (step : α → α → α)

theorem lookup_upsert (entries : List (κ × α)) (item : α) (probe : κ) :
    (upsert key step entries item).lookup probe =
      if probe = key item then Option.merge step (entries.lookup probe) (some item)
      else entries.lookup probe := by
  induction entries with
  | nil => simp [upsert, lookup_cons]
  | cons entry rest ih =>
    by_cases hentry : entry.1 = key item
    · by_cases hprobe : probe = key item <;> simp [upsert, lookup_cons, hentry, hprobe]
    · by_cases hprobe : probe = entry.1
      · simp [upsert, lookup_cons, hentry, hprobe]
      · simp [upsert, lookup_cons, hentry, hprobe, ih]

theorem keys_upsert (entries : List (κ × α)) (item : α) :
    (upsert key step entries item).map Prod.fst =
      if key item ∈ entries.map Prod.fst then entries.map Prod.fst
      else entries.map Prod.fst ++ [key item] := by
  induction entries with
  | nil => simp [upsert]
  | cons entry rest ih =>
    by_cases hentry : entry.1 = key item
    · simp [upsert, hentry]
    · have hne : key item ≠ entry.1 := Ne.symm hentry
      simp only [upsert, hentry, if_false, List.map_cons, ih, List.mem_cons, hne, false_or]
      split <;> rfl

theorem nodup_keys_upsert {entries : List (κ × α)} (h : (entries.map Prod.fst).Nodup)
    (item : α) : ((upsert key step entries item).map Prod.fst).Nodup := by
  rw [keys_upsert]
  split
  · exact h
  · next hkey =>
    refine List.nodup_append.mpr ⟨h, List.nodup_singleton _, ?_⟩
    rintro other hother _ hitem rfl
    exact hkey (List.mem_singleton.mp hitem ▸ hother)

theorem run_concat (items : List α) (item : α) :
    run key step (items ++ [item]) = upsert key step (run key step items) item := by
  simp [run]

theorem nodup_keys_run (items : List α) : ((run key step items).map Prod.fst).Nodup := by
  induction items using List.reverseRecOn with
  | nil => exact List.nodup_nil
  | append_singleton items item ih =>
    rw [run_concat]
    exact nodup_keys_upsert key step ih item

theorem mem_keys_run (items : List α) (probe : κ) :
    probe ∈ (run key step items).map Prod.fst ↔ ∃ item ∈ items, key item = probe := by
  induction items using List.reverseRecOn with
  | nil => simp [run]
  | append_singleton items item ih =>
    simp only [run_concat, keys_upsert, List.mem_append, List.mem_singleton, or_and_right,
      exists_or, exists_eq_left, ← ih]
    split
    · next hkey => exact (or_iff_left_of_imp fun heq ↦ heq ▸ hkey).symm
    · rw [List.mem_append, List.mem_singleton, eq_comm (a := probe)]

theorem run_eq_nil_iff (items : List α) : run key step items = [] ↔ items = [] := by
  constructor
  · intro h
    rw [List.eq_nil_iff_forall_not_mem]
    intro item hitem
    have hkey := (mem_keys_run key step items (key item)).mpr ⟨item, hitem, rfl⟩
    rw [h] at hkey
    exact List.not_mem_nil hkey
  · rintro rfl
    rfl

/-- The accumulator of a key is the fold of that key's items alone. -/
theorem lookup_run (items : List α) (probe : κ) :
    (run key step items).lookup probe =
      foldFirst step (items.filter fun item ↦ key item = probe) := by
  induction items using List.reverseRecOn with
  | nil => rfl
  | append_singleton items item ih =>
    rw [run_concat, lookup_upsert, ih, List.filter_append]
    by_cases hprobe : probe = key item
    · simp [hprobe, foldFirst_concat]
    · have hne : ¬ key item = probe := fun h ↦ hprobe h.symm
      simp [hprobe, hne]

theorem upsert_of_notMem {entries : List (κ × α)} {item : α}
    (h : key item ∉ entries.map Prod.fst) :
    upsert key step entries item = entries ++ [(key item, item)] := by
  induction entries with
  | nil => rfl
  | cons entry rest ih =>
    rw [List.map_cons, List.mem_cons, not_or] at h
    rw [upsert, if_neg fun heq ↦ h.1 heq.symm, ih h.2, List.cons_append]

/-- Items with distinct keys are listed as they come. -/
theorem run_of_nodup {items : List α} (h : (items.map key).Nodup) :
    run key step items = items.map fun item ↦ (key item, item) := by
  induction items using List.reverseRecOn with
  | nil => rfl
  | append_singleton items item ih =>
    rw [List.map_append, List.map_singleton, List.nodup_append] at h
    obtain ⟨hitems, -, hdisjoint⟩ := h
    have hnew : key item ∉ (run key step items).map Prod.fst := by
      rw [ih hitems, List.map_map]
      intro hmem
      exact hdisjoint _ hmem _ (List.mem_singleton_self _) rfl
    rw [run_concat, upsert_of_notMem key step hnew, ih hitems, List.map_append, List.map_singleton]

/-- When folding an item into an accumulator of its key keeps the key, every accumulator has the
key it is filed under. -/
theorem key_of_mem_run (hstep : ∀ held item, key held = key item → key (step held item) = key item)
    (items : List α) : ∀ entry ∈ run key step items, key entry.2 = entry.1 := by
  have hupsert (entries : List (κ × α)) (item : α) (h : ∀ entry ∈ entries, key entry.2 = entry.1) :
      ∀ entry ∈ upsert key step entries item, key entry.2 = entry.1 := by
    induction entries with
    | nil =>
      intro entry hentry
      rw [List.mem_singleton.mp hentry]
    | cons first rest ih =>
      obtain ⟨hfirst, hrest⟩ := List.forall_mem_cons.mp h
      rw [upsert]
      split
      · next hkey =>
        refine List.forall_mem_cons.mpr ⟨?_, hrest⟩
        rw [hstep _ _ (hfirst.trans hkey), hkey]
      · exact List.forall_mem_cons.mpr ⟨hfirst, ih hrest⟩
  induction items using List.reverseRecOn with
  | nil => exact fun entry hentry ↦ absurd hentry List.not_mem_nil
  | append_singleton items item ih =>
    rw [run_concat]
    exact hupsert _ item ih

/-- More items of a key that is already there are folded into its accumulator. -/
theorem lookup_foldl_upsert {entries : List (κ × α)} {probe : κ} {held : α}
    (h : entries.lookup probe = some held) (items : List α) :
    (items.foldl (upsert key step) entries).lookup probe =
      some ((items.filter fun item ↦ key item = probe).foldl step held) := by
  induction items generalizing entries held with
  | nil => exact h
  | cons item items ih =>
    rw [List.foldl_cons]
    by_cases hprobe : probe = key item
    · have hnext : (upsert key step entries item).lookup probe = some (step held item) := by
        rw [lookup_upsert, if_pos hprobe, h, Option.merge_some_some]
      rw [ih hnext, List.filter_cons_of_pos (by simp [hprobe]), List.foldl_cons]
    · have hnext : (upsert key step entries item).lookup probe = some held := by
        rw [lookup_upsert, if_neg hprobe, h]
      rw [ih hnext, List.filter_cons_of_neg (by simp [Ne.symm hprobe])]

end

/-! ## Rearranging the items -/

/-- The second list is a permutation of the first in which items with equal keys keep their
order. -/
def Reorders (key : α → κ) (first second : List α) : Prop :=
  ∃ position : Fin first.length ≃ Fin second.length,
    (∀ index, second.get (position index) = first.get index) ∧
    ∀ left right, left < right → key (first.get left) = key (first.get right) →
      position left < position right

/-- Such a permutation leaves the items of each key in place, relative to each other. -/
theorem Reorders.filter_eq {key : α → κ} {first second : List α} (h : Reorders key first second)
    (probe : κ) :
    (first.filter fun item ↦ key item = probe) = second.filter fun item ↦ key item = probe := by
  obtain ⟨position, hget, horder⟩ := h
  -- The places of the key's items, before and after, both ascending.
  let places := (List.finRange first.length).filter fun place ↦ key (first.get place) = probe
  let others := (List.finRange second.length).filter fun place ↦ key (second.get place) = probe
  have hkey : ∀ place ∈ places, key (first.get place) = probe := by
    intro place hplace
    exact of_decide_eq_true (List.mem_filter.mp hplace).2
  have hplaces : places.Pairwise (· < ·) := (List.pairwise_lt_finRange _).filter _
  have hothers : others.Pairwise (· < ·) := (List.pairwise_lt_finRange _).filter _
  have hmoved : (places.map position).Pairwise (· < ·) := by
    rw [List.pairwise_map]
    apply hplaces.imp_of_mem
    intro left right hleft hright hlt
    exact horder left right hlt ((hkey left hleft).trans (hkey right hright).symm)
  have hsame : places.map position = others := by
    apply List.Perm.eq_of_pairwise _ hmoved hothers
    · rw [List.perm_ext_iff_of_nodup hmoved.nodup hothers.nodup]
      intro place
      simp only [places, others, List.mem_map, List.mem_filter, List.mem_finRange, true_and,
        decide_eq_true_eq]
      constructor
      · rintro ⟨source, hsource, rfl⟩
        rw [hget, hsource]
      · intro hplace
        refine ⟨position.symm place, ?_, position.apply_symm_apply place⟩
        rw [← hget, position.apply_symm_apply, hplace]
    · exact fun _ _ _ _ hlt hgt ↦ absurd (hlt.trans hgt) (lt_irrefl _)
  calc
    (first.filter fun item ↦ key item = probe) = places.map first.get := by
      conv_lhs => rw [← List.map_get_finRange first, List.filter_map]
      rfl
    _ = others.map second.get := by
      rw [← hsame, List.map_map]
      exact List.map_congr_left fun place _ ↦ (hget place).symm
    _ = second.filter fun item ↦ key item = probe := by
      conv_rhs => rw [← List.map_get_finRange second, List.filter_map]
      rfl

/-! ## The canonical order -/

theorem lookup_eq_some_iff_mem {entries : List (κ × α)} (h : (entries.map Prod.fst).Nodup)
    (key : κ) (value : α) : entries.lookup key = some value ↔ (key, value) ∈ entries := by
  induction entries with
  | nil => simp
  | cons entry rest ih =>
    obtain ⟨hentry, hrest⟩ := List.nodup_cons.mp h
    rw [lookup_cons, List.mem_cons]
    by_cases hkey : key = entry.1
    · have hnot : (key, value) ∉ rest := fun hmem ↦
        hentry (hkey ▸ List.mem_map_of_mem (f := Prod.fst) hmem)
      simp [hkey, hkey ▸ hnot, Prod.ext_iff, eq_comm]
    · simp [hkey, ih hrest, Prod.ext_iff]

section Sorting

variable [LinearOrder κ]

/-- The entries in ascending key order, entries with equal keys in their given order. -/
def sortByKey (entries : List (κ × α)) : List (κ × α) :=
  entries.insertionSort fun left right ↦ left.1 ≤ right.1

omit [DecidableEq κ] in
theorem sortByKey_perm (entries : List (κ × α)) : (sortByKey entries).Perm entries :=
  List.perm_insertionSort _ entries

omit [DecidableEq κ] in
theorem sortByKey_of_pairwise {entries : List (κ × α)}
    (h : entries.Pairwise fun left right ↦ left.1 < right.1) : sortByKey entries = entries :=
  List.Pairwise.insertionSort_eq (h.imp le_of_lt)

omit [DecidableEq κ] in
theorem nodup_keys_of_pairwise {entries : List (κ × α)}
    (h : entries.Pairwise fun left right ↦ left.1 < right.1) : (entries.map Prod.fst).Nodup := by
  rw [List.nodup_iff_pairwise_ne, List.pairwise_map]
  exact h.imp fun hlt ↦ hlt.ne

omit [DecidableEq κ] in
/-- Distinct keys come out in strictly ascending order. -/
theorem sortByKey_pairwise {entries : List (κ × α)} (h : (entries.map Prod.fst).Nodup) :
    (sortByKey entries).Pairwise fun left right ↦ left.1 < right.1 := by
  have : IsTrans (κ × α) fun left right ↦ left.1 ≤ right.1 :=
    ⟨fun _ _ _ hfirst hsecond ↦ hfirst.trans hsecond⟩
  have : Std.Total fun left right : κ × α ↦ left.1 ≤ right.1 :=
    ⟨fun first second ↦ le_total first.1 second.1⟩
  have hle : (sortByKey entries).Pairwise fun left right ↦ left.1 ≤ right.1 :=
    List.pairwise_insertionSort _ entries
  have hne : (sortByKey entries).Pairwise fun left right ↦ left.1 ≠ right.1 := by
    rw [← List.pairwise_map (f := Prod.fst) (R := (· ≠ ·))]
    exact (((sortByKey_perm entries).map Prod.fst).nodup_iff).mpr h
  exact hle.imp₂ (fun _ _ hle hne ↦ lt_of_le_of_ne hle hne) hne

/-- Entries with distinct keys and equal lookups are the same list once sorted. -/
theorem sortByKey_congr {first second : List (κ × α)} (hfirst : (first.map Prod.fst).Nodup)
    (hsecond : (second.map Prod.fst).Nodup)
    (hlookup : ∀ key, first.lookup key = second.lookup key) :
    sortByKey first = sortByKey second := by
  have hmem (entry : κ × α) : entry ∈ first ↔ entry ∈ second := by
    rw [← lookup_eq_some_iff_mem hfirst, hlookup, lookup_eq_some_iff_mem hsecond]
  have hperm : first.Perm second :=
    (List.perm_ext_iff_of_nodup (List.Nodup.of_map _ hfirst) (List.Nodup.of_map _ hsecond)).mpr hmem
  have hsorted : (sortByKey first).Perm (sortByKey second) :=
    (sortByKey_perm first).trans (hperm.trans (sortByKey_perm second).symm)
  exact hsorted.eq_of_pairwise
    (fun _ _ _ _ hlt hgt ↦ absurd (hlt.trans hgt) (lt_irrefl _))
    (sortByKey_pairwise hfirst) (sortByKey_pairwise hsecond)

end Sorting

end VertexGateway.KeyedFold
