import Mathlib.Data.List.Basic

/-!
# Inverting fallible computations

A computation in `Except` that succeeds has succeeded in each of its parts. These are the rules by which a proof takes
one apart, or runs one forward, for sequences and for maps over a list.
-/

namespace Outcome

variable {ε : Type*} {α β : Type}

@[simp] theorem ok_bind (a : α) (f : α → Except ε β) : (Except.ok a >>= f) = f a := rfl

@[simp] theorem error_bind (e : ε) (f : α → Except ε β) : ((Except.error e : Except ε α) >>= f) = .error e := rfl

/-- Both parts of a successful sequence succeeded. -/
theorem bind_eq_ok {x : Except ε α} {f : α → Except ε β} {b : β} :
    x >>= f = .ok b ↔ ∃ a, x = .ok a ∧ f a = .ok b := by
  cases x with
  | error e => simp
  | ok a => simp

theorem toOption_eq_some {x : Except ε α} {a : α} : x.toOption = some a ↔ x = .ok a := by
  cases x <;> simp [Except.toOption]

/-- A map whose every call succeeds. -/
theorem mapM_ok {f : α → Except ε β} {g : α → β} {as : List α} (h : ∀ a ∈ as, f a = .ok (g a)) :
    as.mapM f = .ok (as.map g) := by
  induction as with
  | nil => rfl
  | cons a as ih =>
    rw [List.mapM_cons, h a List.mem_cons_self, ok_bind, ih fun b hb => h b (List.mem_cons_of_mem _ hb)]
    rfl

/-- Every call of a map that succeeds has succeeded. -/
theorem mapM_inv {f : α → Except ε β} {as : List α} {bs : List β} (h : as.mapM f = .ok bs) :
    List.Forall₂ (fun a b => f a = .ok b) as bs := by
  induction as generalizing bs with
  | nil => cases h; exact .nil
  | cons a as ih =>
    rw [List.mapM_cons, bind_eq_ok] at h
    obtain ⟨b, hb, h⟩ := h
    obtain ⟨cs, hcs, h⟩ := bind_eq_ok.mp h
    cases h
    exact .cons hb (ih hcs)

/-- Every element on the left has one on the right. -/
theorem exists_of_forall₂ {R : α → β → Prop} {as : List α} {bs : List β} (h : List.Forall₂ R as bs) {a : α}
    (ha : a ∈ as) : ∃ b ∈ bs, R a b := by
  induction h with
  | nil => cases ha
  | @cons c b as bs hb _ ih =>
    rcases List.mem_cons.mp ha with rfl | ha
    · exact ⟨b, List.mem_cons_self, hb⟩
    · obtain ⟨d, hd, hfd⟩ := ih ha
      exact ⟨d, List.mem_cons_of_mem _ hd, hfd⟩

theorem mapM_inv_mem {f : α → Except ε β} {as : List α} {bs : List β} (h : as.mapM f = .ok bs) {a : α}
    (ha : a ∈ as) : ∃ b ∈ bs, f a = .ok b := exists_of_forall₂ (mapM_inv h) ha

theorem mapM_inv_mem_right {f : α → Except ε β} {as : List α} {bs : List β} (h : as.mapM f = .ok bs) {b : β}
    (hb : b ∈ bs) : ∃ a ∈ as, f a = .ok b := by
  have hall := mapM_inv h
  clear h
  induction hall with
  | nil => cases hb
  | @cons a b' as bs ha _ ih =>
    rcases List.mem_cons.mp hb with rfl | hb
    · exact ⟨a, List.mem_cons_self, ha⟩
    · obtain ⟨d, hd, hfd⟩ := ih hb
      exact ⟨d, List.mem_cons_of_mem _ hd, hfd⟩

/-- What is known of each result is known of the list of results. -/
theorem mapM_inv_map {γ : Type} {f : α → Except ε β} {g : β → γ} {k : α → γ} {as : List α} {bs : List β}
    (h : as.mapM f = .ok bs) (hg : ∀ a b, f a = .ok b → g b = k a) : bs.map g = as.map k := by
  have hall := mapM_inv h
  clear h
  induction hall with
  | nil => rfl
  | cons hb _ ih => rw [List.map_cons, List.map_cons, hg _ _ hb, ih]

end Outcome
