import Mathlib.Data.Vector.Basic

/-!
# Fixed arrays with checked stores and loads

An array of `n` cells is a `List.Vector`: its length is part of its type. A store or a load of several cells at once
goes through only if all of them lie inside the array (`store?`, `load?`).

- `patch xs off ys`: `xs` with the cells from `off` on replaced by `ys`; patches side by side join (`patch_patch`);
- a patched constant array is the patch followed by the constant (`patch_replicate`).
-/

namespace Buffer

variable {α : Type*} {n : ℕ}

/-- `xs` with the cells from `off` on replaced by `ys`. -/
def patch (xs : List α) (off : ℕ) (ys : List α) : List α :=
  xs.take off ++ ys ++ xs.drop (off + ys.length)

theorem length_patch {xs ys : List α} {off : ℕ} (h : off + ys.length ≤ xs.length) :
    (patch xs off ys).length = xs.length := by
  simp only [patch, List.length_append, List.length_take, List.length_drop]
  omega

/-- Two patches side by side are one. -/
theorem patch_patch (xs ys : List α) {zs : List α} (off : ℕ) (h : off + ys.length ≤ xs.length) :
    patch (patch xs off ys) (off + ys.length) zs = patch xs off (ys ++ zs) := by
  have hl : (xs.take off ++ ys).length = off + ys.length := by
    rw [List.length_append, List.length_take, Nat.min_eq_left (by omega)]
  have htake : (patch xs off ys).take (off + ys.length) = xs.take off ++ ys := by
    rw [patch, ← hl, List.take_left]
  have hdrop : (patch xs off ys).drop (off + ys.length + zs.length) = xs.drop (off + (ys ++ zs).length) := by
    rw [patch, ← List.drop_drop, ← hl, List.drop_left, List.drop_drop, hl, List.length_append, Nat.add_assoc]
  rw [patch, htake, hdrop]
  simp [patch, List.append_assoc]

theorem patch_zero (xs ys : List α) : patch xs 0 ys = ys ++ xs.drop ys.length := by
  simp [patch]

/-- A patch at the start of a constant array. -/
theorem patch_replicate (n : ℕ) (a : α) (ys : List α) :
    patch (List.replicate n a) 0 ys = ys ++ List.replicate (n - ys.length) a := by
  rw [patch_zero, List.drop_replicate]

/-- Two cells written one by one, then a block after them. -/
theorem patch_header {xs ys : List α} {a b : α} (h : 2 ≤ xs.length) :
    patch (patch (patch xs 0 [a]) 1 [b]) 2 ys = a :: b :: ys ++ xs.drop (2 + ys.length) := by
  have h₁ : patch (patch xs 0 [a]) 1 [b] = patch xs 0 [a, b] := patch_patch xs [a] 0 (by simp; omega)
  have h₂ : patch (patch xs 0 [a, b]) 2 ys = patch xs 0 ([a, b] ++ ys) := patch_patch xs [a, b] 0 (by simpa using h)
  rw [h₁, h₂, patch_zero, List.length_append]
  rfl

/-- Store `ys` from cell `off` on, if they all lie in the array. -/
def store? (v : List.Vector α n) (off : ℕ) (ys : List α) : Option (List.Vector α n) :=
  if h : off + ys.length ≤ n then
    some ⟨patch v.toList off ys, by rw [length_patch] <;> rw [v.toList_length]; exact h⟩
  else none

/-- Load `len` cells from `off` on, if they all lie in the array. -/
def load? (v : List.Vector α n) (off len : ℕ) : Option (List α) :=
  if off + len ≤ n then some ((v.toList.drop off).take len) else none

theorem store?_of_le (v : List.Vector α n) {off : ℕ} {ys : List α} (h : off + ys.length ≤ n) :
    ∃ w, store? v off ys = some w ∧ w.toList = patch v.toList off ys := by
  unfold store?
  rw [dif_pos h]
  exact ⟨_, rfl, rfl⟩

theorem store?_eq_none {v : List.Vector α n} {off : ℕ} {ys : List α} (h : n < off + ys.length) :
    store? v off ys = none := dif_neg (by omega)

theorem store?_some {v w : List.Vector α n} {off : ℕ} {ys : List α} (h : store? v off ys = some w) :
    off + ys.length ≤ n ∧ w.toList = patch v.toList off ys := by
  unfold store? at h
  split at h
  · cases h; exact ⟨by assumption, rfl⟩
  · cases h

theorem load?_of_le {v : List.Vector α n} {off len : ℕ} (h : off + len ≤ n) :
    load? v off len = some ((v.toList.drop off).take len) := if_pos h

theorem load?_some {v : List.Vector α n} {off len : ℕ} {ys : List α} (h : load? v off len = some ys) :
    off + len ≤ n ∧ ys = (v.toList.drop off).take len := by
  unfold load? at h
  split at h
  · cases h; exact ⟨by assumption, rfl⟩
  · cases h

theorem length_of_load? {v : List.Vector α n} {off len : ℕ} {ys : List α} (h : load? v off len = some ys) :
    ys.length = len := by
  obtain ⟨hle, rfl⟩ := load?_some h
  rw [List.length_take, List.length_drop, v.toList_length]
  omega

/-- Every cell the same: `memset`. -/
theorem toList_replicate (n : ℕ) (a : α) : (List.Vector.replicate n a).toList = List.replicate n a := rfl

end Buffer
