import Mathlib

/-!
# Holding back the last marked item

A relay passes items on in order, except that a marked item goes into a single slot, replacing what
was there, and the slot is emitted at the end. Each item has a text. `emitted_eq_iff` says when the
emitted texts add up to the original ones: the replaced items must have been empty, and the text
that was held back must commute with the text that overtook it.
-/

namespace VertexGateway.HeldBack

variable {β α : Type*} (marked : β → Bool) (text : β → List α)

/-- The texts of the unmarked items in order, then that of the last marked one. -/
def emitted (items : List β) : List α :=
  (items.filter fun item ↦ !marked item).flatMap text ++
    ((items.filter marked).getLast?.map text).getD []

/-- With `last` the last marked item: every earlier marked item is empty, and the text of `last`
commutes with the text after it. -/
def InOrder (items : List β) : Prop :=
  ∀ before last after, items = before ++ last :: after → marked last = true →
    (∀ item ∈ after, marked item = false) →
    (∀ item ∈ before, marked item = true → text item = []) ∧
      text last ++ after.flatMap text = after.flatMap text ++ text last

variable {marked}

/-- Every list has no marked item or splits at the last one. -/
theorem split_last (items : List β) :
    (∀ item ∈ items, marked item = false) ∨
      ∃ before last after, items = before ++ last :: after ∧ marked last = true ∧
        ∀ item ∈ after, marked item = false := by
  induction items using List.reverseRecOn with
  | nil => exact Or.inl fun item hitem ↦ absurd hitem List.not_mem_nil
  | append_singleton items item ih =>
    cases hmarked : marked item with
    | true => exact Or.inr ⟨items, item, [], rfl, hmarked, by simp⟩
    | false =>
      rcases ih with hnone | ⟨before, last, after, rfl, hlast, hafter⟩
      · refine Or.inl fun other hother ↦ ?_
        rcases List.mem_append.mp hother with hother | hother
        · exact hnone other hother
        · rwa [List.mem_singleton.mp hother]
      · refine Or.inr ⟨before, last, after ++ [item], by simp, hlast, fun other hother ↦ ?_⟩
        rcases List.mem_append.mp hother with hother | hother
        · exact hafter other hother
        · rwa [List.mem_singleton.mp hother]

theorem emitted_of_unmarked {items : List β} (h : ∀ item ∈ items, marked item = false) :
    emitted marked text items = items.flatMap text := by
  have hkept : items.filter (fun item ↦ !marked item) = items :=
    List.filter_eq_self.mpr fun item hitem ↦ by simp [h item hitem]
  have hheld : items.filter marked = [] :=
    List.filter_eq_nil_iff.mpr fun item hitem ↦ by simp [h item hitem]
  simp [emitted, hkept, hheld]

theorem emitted_of_split {before after : List β} {last : β} (hlast : marked last = true)
    (hafter : ∀ item ∈ after, marked item = false) :
    emitted marked text (before ++ last :: after) =
      (before.filter fun item ↦ !marked item).flatMap text ++ after.flatMap text ++ text last := by
  have hkept : after.filter (fun item ↦ !marked item) = after :=
    List.filter_eq_self.mpr fun item hitem ↦ by simp [hafter item hitem]
  have hheld : after.filter marked = [] :=
    List.filter_eq_nil_iff.mpr fun item hitem ↦ by simp [hafter item hitem]
  simp [emitted, hlast, hkept, hheld]

/-- Dropping the marked items keeps the text's length only if they are empty. -/
theorem length_kept_le (items : List β) :
    ((items.filter fun item ↦ !marked item).flatMap text).length ≤ (items.flatMap text).length ∧
      (((items.filter fun item ↦ !marked item).flatMap text).length = (items.flatMap text).length →
        ∀ item ∈ items, marked item = true → text item = []) := by
  induction items with
  | nil => simp
  | cons head items ih =>
    obtain ⟨hle, hempty⟩ := ih
    cases hmarked : marked head with
    | true =>
      simp only [List.filter_cons, hmarked, Bool.not_true, Bool.false_eq_true, if_false,
        List.flatMap_cons, List.length_append]
      refine ⟨by omega, fun hlength item hitem hitemMarked ↦ ?_⟩
      rcases List.mem_cons.mp hitem with rfl | hitem
      · exact List.length_eq_zero_iff.mp (by omega)
      · exact hempty (by omega) item hitem hitemMarked
    | false =>
      simp only [List.filter_cons, hmarked, Bool.not_false, if_true, List.flatMap_cons,
        List.length_append]
      refine ⟨by omega, fun hlength item hitem hitemMarked ↦ ?_⟩
      rcases List.mem_cons.mp hitem with rfl | hitem
      · exact absurd hitemMarked (by simp [hmarked])
      · exact hempty (by omega) item hitem hitemMarked

theorem kept_of_empty {items : List β} (h : ∀ item ∈ items, marked item = true → text item = []) :
    (items.filter fun item ↦ !marked item).flatMap text = items.flatMap text := by
  induction items with
  | nil => rfl
  | cons head items ih =>
    have hrest := ih fun item hitem ↦ h item (List.mem_cons_of_mem _ hitem)
    cases hmarked : marked head with
    | true => simp [hmarked, hrest, h head List.mem_cons_self hmarked]
    | false => simp [hmarked, hrest]

/-- **When holding back loses nothing.** -/
theorem emitted_eq_iff (items : List β) :
    emitted marked text items = items.flatMap text ↔ InOrder marked text items := by
  constructor
  · rintro heq before last after rfl hlast hafter
    rw [emitted_of_split text hlast hafter, List.flatMap_append, List.flatMap_cons] at heq
    obtain ⟨-, hempty⟩ := @length_kept_le _ _ marked text before
    have hlength := congrArg List.length heq
    simp only [List.length_append] at hlength
    have hbefore := hempty (by omega)
    rw [kept_of_empty text hbefore, List.append_assoc, List.append_cancel_left_eq] at heq
    exact ⟨hbefore, heq.symm⟩
  · intro horder
    rcases split_last items with hnone | ⟨before, last, after, rfl, hlast, hafter⟩
    · exact emitted_of_unmarked text hnone
    · obtain ⟨hbefore, hcommute⟩ := horder before last after rfl hlast hafter
      calc
        emitted marked text (before ++ last :: after) =
            before.flatMap text ++ (after.flatMap text ++ text last) := by
          rw [emitted_of_split text hlast hafter, kept_of_empty text hbefore, List.append_assoc]
        _ = before.flatMap text ++ (text last ++ after.flatMap text) := by rw [hcommute]
        _ = (before ++ last :: after).flatMap text := by
          rw [List.flatMap_append, List.flatMap_cons]

end VertexGateway.HeldBack
