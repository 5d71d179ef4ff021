import Mathlib.Data.List.Basic

/-!
# Separated lists

A program that writes a separator after every item and takes the last one back has written the items with separators
between them; splitting at the separators gives the items back when none of them contains one.
-/

namespace Separated

variable {α : Type}

/-- Every item with the separator after it. -/
def terminated (x : α) (items : List (List α)) : List α := items.flatMap (· ++ [x])

theorem terminated_eq (x : α) {items : List (List α)} (h : items ≠ []) :
    terminated x items = [x].intercalate items ++ [x] := by
  induction items with
  | nil => exact absurd rfl h
  | cons item items ih =>
    cases items with
    | nil => simp [terminated, List.intercalate]
    | cons item' items =>
      have hih := ih (List.cons_ne_nil _ _)
      rw [terminated] at hih ⊢
      rw [List.flatMap_cons, hih]
      simp [List.intercalate]

/-- **Without the last separator** it is the items with separators between them. -/
theorem dropLast_terminated (x : α) {items : List (List α)} (h : items ≠ []) :
    (terminated x items).dropLast = [x].intercalate items := by
  rw [terminated_eq x h, List.dropLast_concat]

theorem intercalate_ne_nil (x : α) {items : List (List α)} (h : items ≠ []) (hitem : ∀ item ∈ items, item ≠ []) :
    [x].intercalate items ≠ [] := by
  cases items with
  | nil => exact absurd rfl h
  | cons item items =>
    have hne := hitem item List.mem_cons_self
    cases items with
    | nil => simpa [List.intercalate] using hne
    | cons item' items => simp [List.intercalate, hne]

/-- What is in the whole is a separator, or in an item. -/
theorem mem_intercalate {x a : α} {items : List (List α)} (h : a ∈ [x].intercalate items) :
    a = x ∨ ∃ item ∈ items, a ∈ item := by
  induction items with
  | nil => simp at h
  | cons item items ih =>
    cases items with
    | nil => exact .inr ⟨item, List.mem_cons_self, by simpa [List.intercalate] using h⟩
    | cons item' items =>
      rw [List.intercalate_cons_cons] at h
      simp only [List.mem_append, List.mem_singleton] at h
      rcases h with (h | h) | h
      · exact .inr ⟨item, List.mem_cons_self, h⟩
      · exact .inl h
      · exact (ih h).imp_right fun ⟨i, hi, ha⟩ => ⟨i, List.mem_cons_of_mem _ hi, ha⟩

end Separated
