import Mathlib

/-!
# Splitting at the first occurrence of a pattern

`splitOnce` cuts a list around the first occurrence of a pattern. Appending a pattern to a list
and splitting again need not give the list back: an occurrence may begin inside the list and end
inside the appended pattern. `FirstAt` rules that out, and `firstAt_iff_borders` reduces it to the
self-overlaps of the pattern, the lengths at which a tail of the pattern is also a head of it.
-/

namespace VertexGateway.Occurrence

variable {α : Type*} [DecidableEq α]

/-- The parts before and after the first occurrence of the pattern. -/
def splitOnce (pattern : List α) : List α → Option (List α × List α)
  | [] => if pattern = [] then some ([], []) else none
  | head :: tail =>
    if pattern <+: head :: tail then some ([], (head :: tail).drop pattern.length)
    else (splitOnce pattern tail).map fun parts ↦ (head :: parts.1, parts.2)

/-- In `front` followed by the pattern, no occurrence begins inside `front`. -/
def FirstAt (pattern front : List α) : Prop :=
  ∀ position < front.length, ¬ pattern <+: (front ++ pattern).drop position

omit [DecidableEq α] in
theorem firstAt_nil (pattern : List α) : FirstAt pattern [] :=
  fun _ hposition ↦ absurd hposition (Nat.not_lt_zero _)

omit [DecidableEq α] in
theorem firstAt_cons_iff (pattern front : List α) (first : α) :
    FirstAt pattern (first :: front) ↔
      ¬ pattern <+: first :: front ++ pattern ∧ FirstAt pattern front := by
  constructor
  · intro h
    exact ⟨h 0 (Nat.succ_pos _), fun position hposition ↦
      h (position + 1) (Nat.succ_lt_succ hposition)⟩
  · intro h position hposition
    cases position with
    | zero => exact h.1
    | succ position => exact h.2 position (Nat.lt_of_succ_lt_succ hposition)

omit [DecidableEq α] in
/-- What follows the pattern cannot take part in an occurrence at the head. -/
theorem prefix_append_iff (pattern front back : List α) :
    pattern <+: front ++ pattern ++ back ↔ pattern <+: front ++ pattern := by
  constructor
  · intro h
    apply List.prefix_of_prefix_length_le h (List.prefix_append _ back)
    rw [List.length_append]
    omega
  · exact fun h ↦ h.trans (List.prefix_append _ back)

theorem splitOnce_of_isPrefix {pattern : List α} {list : List α} (h : pattern <+: list) :
    splitOnce pattern list = some ([], list.drop pattern.length) := by
  cases list with
  | nil => simp [splitOnce, List.prefix_nil.mp h]
  | cons head tail => simp [splitOnce, h]

/-- An occurrence at the head is the one the list is split at. -/
theorem splitOnce_prefix_eq_some_iff (pattern rest front back : List α) :
    splitOnce pattern (pattern ++ rest) = some (front, back) ↔
      pattern ++ rest = front ++ pattern ++ back ∧ FirstAt pattern front := by
  rw [splitOnce_of_isPrefix (List.prefix_append pattern rest), List.drop_left]
  cases front with
  | nil => simp [firstAt_nil]
  | cons first front =>
    have hnot : pattern ++ rest = first :: front ++ pattern ++ back →
        ¬ FirstAt pattern (first :: front) := by
      intro hlist hfirst
      apply ((firstAt_cons_iff pattern front first).mp hfirst).1
      rw [← prefix_append_iff pattern (first :: front) back, ← hlist]
      exact List.prefix_append pattern rest
    simpa using hnot

/-- The exact result of splitting: the parts recompose and no earlier occurrence exists. -/
theorem splitOnce_eq_some_iff (pattern list front back : List α) :
    splitOnce pattern list = some (front, back) ↔
      list = front ++ pattern ++ back ∧ FirstAt pattern front := by
  induction list generalizing front with
  | nil =>
    by_cases hpattern : pattern = []
    · subst hpattern
      exact splitOnce_prefix_eq_some_iff [] [] front back
    · simp [splitOnce, hpattern]
  | cons head tail ih =>
    by_cases hhead : pattern <+: head :: tail
    · obtain ⟨rest, hrest⟩ := hhead
      rw [← hrest]
      exact splitOnce_prefix_eq_some_iff pattern rest front back
    · simp only [splitOnce, hhead, if_false, Option.map_eq_some_iff, Prod.mk.injEq, Prod.exists]
      cases front with
      | nil =>
        have hnot : head :: tail ≠ pattern ++ back := fun hlist ↦
          hhead (hlist ▸ List.prefix_append pattern back)
        simp [hnot]
      | cons first front =>
        -- Nothing occurs at the head, so the first occurrence is that of the tail.
        have hfirst : head :: tail = first :: front ++ pattern ++ back →
            ¬ pattern <+: first :: front ++ pattern := by
          intro hlist hoccurs
          rw [hlist] at hhead
          exact hhead ((prefix_append_iff pattern (first :: front) back).mpr hoccurs)
        rw [firstAt_cons_iff]
        constructor
        · rintro ⟨innerFront, innerBack, hinner, hcons, rfl⟩
          obtain ⟨rfl, rfl⟩ := List.cons.inj hcons
          obtain ⟨htail, hearlier⟩ := (ih innerFront).mp hinner
          have hlist : head :: tail = head :: innerFront ++ pattern ++ innerBack := by
            rw [htail]
            rfl
          exact ⟨hlist, hfirst hlist, hearlier⟩
        · rintro ⟨hlist, -, hearlier⟩
          obtain ⟨rfl, htail⟩ := List.cons.inj hlist
          exact ⟨front, back, (ih front).mpr ⟨htail, hearlier⟩, rfl, rfl⟩

theorem splitOnce_eq_none_iff (pattern list : List α) :
    splitOnce pattern list = none ↔ ¬ pattern <:+: list := by
  induction list with
  | nil => simp [splitOnce]
  | cons head tail ih =>
    rw [List.infix_cons_iff, not_or]
    by_cases hfront : pattern <+: head :: tail
    · simp [splitOnce_of_isPrefix hfront, hfront]
    · simp [splitOnce, hfront, ih]

omit [DecidableEq α] in
/-- When the list has no occurrence of its own, an early occurrence must overlap the appended
pattern: some head of the pattern ends the list while the rest of it begins the pattern. -/
theorem firstAt_iff_borders {pattern front : List α} (h : ¬ pattern <:+: front) :
    FirstAt pattern front ↔
      ∀ overlap, 0 < overlap → overlap < pattern.length → pattern.drop overlap <+: pattern →
        ¬ pattern.take overlap <:+ front := by
  constructor
  · rintro hfirst overlap hpos hlt hborder ⟨start, hstart⟩
    have htake : (pattern.take overlap).length = overlap := List.length_take_of_le hlt.le
    have hfront : start.length < front.length := by
      rw [← hstart, List.length_append, htake]
      omega
    apply hfirst start.length hfront
    rw [← hstart, List.append_assoc, List.drop_left]
    conv_lhs => rw [← List.take_append_drop overlap pattern]
    exact (List.prefix_append_right_inj _).mpr hborder
  · intro hborders position hposition hfront
    rw [List.drop_append_of_le_length hposition.le] at hfront
    rcases lt_or_ge (front.drop position).length pattern.length with hshort | hlong
    · -- The occurrence crosses into the appended pattern: its head is the tail of the list.
      obtain ⟨rest, hrest⟩ : front.drop position <+: pattern :=
        List.prefix_of_prefix_length_le (List.prefix_append _ _) hfront hshort.le
      have htake : pattern.take (front.drop position).length = front.drop position := by
        rw [← hrest, List.take_left]
      have hdrop : pattern.drop (front.drop position).length = rest := by
        rw [← hrest, List.drop_left]
      have hpos : 0 < (front.drop position).length := by
        rw [List.length_drop]
        omega
      apply hborders _ hpos hshort
      · rw [hdrop]
        rw [← List.prefix_append_right_inj (front.drop position), hrest]
        exact hfront
      · rw [htake]
        exact List.drop_suffix position front
    · have hinside : pattern <+: front.drop position :=
        List.prefix_of_prefix_length_le hfront (List.prefix_append _ _) hlong
      exact h (hinside.isInfix.trans (List.drop_suffix position front).isInfix)

end VertexGateway.Occurrence
