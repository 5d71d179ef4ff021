import Mathlib.Data.List.Nodup

/-!
# A lock with a queue

A lock that is handed on in the order of the requests: a request is granted at once when the lock is free and nobody
waits, and is queued otherwise; a free lock goes to the first of the queue; a waiter may give up.

Nobody is in the lock twice (`Proper`), whatever the order of the operations.
-/

/-- Who has the lock, and who waits for it. -/
structure FairLock (ι : Type*) where
  holder : Option ι
  waiters : List ι
  deriving DecidableEq

namespace FairLock

variable {ι : Type*} {l l' : FairLock ι} {i j : ι}

/-- The lock nobody has asked for. -/
def free : FairLock ι := ⟨none, []⟩

/-- A request is granted at once. -/
def Open (l : FairLock ι) : Prop := l.holder = none ∧ l.waiters = []

instance [DecidableEq ι] (l : FairLock ι) : Decidable l.Open := inferInstanceAs (Decidable (_ ∧ _))

/-- The holder of an open lock. -/
def take (l : FairLock ι) (i : ι) : FairLock ι := ⟨some i, l.waiters⟩

/-- The last in the queue. -/
def enqueue (l : FairLock ι) (i : ι) : FairLock ι := ⟨l.holder, l.waiters ++ [i]⟩

/-- The first of the queue gets the lock if it is free. -/
def grant : FairLock ι → Option (ι × FairLock ι)
  | ⟨none, i :: rest⟩ => some (i, ⟨some i, rest⟩)
  | _ => none

/-- The holder lets go. -/
def release (l : FairLock ι) : FairLock ι := ⟨none, l.waiters⟩

/-- A waiter gives up. -/
def abandon [DecidableEq ι] (l : FairLock ι) (i : ι) : FairLock ι := ⟨l.holder, l.waiters.erase i⟩

@[simp] theorem holder_take : (l.take i).holder = some i := rfl
@[simp] theorem waiters_take : (l.take i).waiters = l.waiters := rfl
@[simp] theorem holder_enqueue : (l.enqueue i).holder = l.holder := rfl
@[simp] theorem waiters_enqueue : (l.enqueue i).waiters = l.waiters ++ [i] := rfl
@[simp] theorem holder_release : l.release.holder = none := rfl
@[simp] theorem waiters_release : l.release.waiters = l.waiters := rfl
@[simp] theorem holder_abandon [DecidableEq ι] : (l.abandon i).holder = l.holder := rfl

/-- What a grant does. -/
theorem grant_eq_some (h : l.grant = some (i, l')) :
    l.holder = none ∧ l.waiters = i :: l'.waiters ∧ l'.holder = some i := by
  obtain ⟨holder, waiters⟩ := l
  cases holder with
  | some j => cases h
  | none =>
    cases waiters with
    | nil => cases h
    | cons j rest =>
      cases h
      exact ⟨rfl, rfl, rfl⟩

/-- A free lock with a queue can be granted. -/
theorem exists_grant (h : l.holder = none) (hw : l.waiters ≠ []) : ∃ i l', l.grant = some (i, l') := by
  obtain ⟨holder, waiters⟩ := l
  cases h
  cases waiters with
  | nil => exact absurd rfl hw
  | cons i rest => exact ⟨i, _, rfl⟩

/-! ## Nobody twice -/

/-- Nobody waits twice, and the holder does not wait. -/
structure Proper (l : FairLock ι) : Prop where
  nodup : l.waiters.Nodup
  apart : ∀ i, l.holder = some i → i ∉ l.waiters

theorem proper_free : Proper (free : FairLock ι) := ⟨List.nodup_nil, fun _ h => by cases h⟩

theorem Proper.take (h : l.Proper) (hi : i ∉ l.waiters) : (l.take i).Proper := by
  refine ⟨h.nodup, ?_⟩
  intro j hj
  cases hj
  exact hi

theorem Proper.enqueue (h : l.Proper) (hi : i ∉ l.waiters) (hh : l.holder ≠ some i) : (l.enqueue i).Proper := by
  refine ⟨?_, ?_⟩
  · simpa [List.nodup_append] using ⟨h.nodup, fun a ha hai => hi (hai ▸ ha)⟩
  · intro j hj
    have hne : j ≠ i := by
      rintro rfl
      exact hh hj
    simpa [hne] using h.apart j hj

theorem Proper.release (h : l.Proper) : l.release.Proper := ⟨h.nodup, fun _ hj => by cases hj⟩

theorem Proper.abandon [DecidableEq ι] (h : l.Proper) : (l.abandon i).Proper :=
  ⟨h.nodup.erase i, fun j hj hmem => h.apart j hj (List.mem_of_mem_erase hmem)⟩

theorem Proper.grant (h : l.Proper) (hg : l.grant = some (i, l')) : l'.Proper := by
  obtain ⟨_, hw, hh⟩ := grant_eq_some hg
  have hnd := h.nodup
  rw [hw, List.nodup_cons] at hnd
  refine ⟨hnd.2, ?_⟩
  intro j hj
  rw [hh] at hj
  cases hj
  exact hnd.1

/-- After a waiter has given up, the others wait. -/
theorem Proper.mem_abandon [DecidableEq ι] (h : l.Proper) : j ∈ (l.abandon i).waiters ↔ j ≠ i ∧ j ∈ l.waiters :=
  h.nodup.mem_erase_iff

end FairLock
