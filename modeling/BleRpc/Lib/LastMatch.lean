import Mathlib.Data.List.Basic

/-!
# The last match wins

A scan that overwrites a variable at every match leaves there the last one, which is the element `List.findRev?` finds:
the match that has none after it.
-/

namespace LastMatch

variable {α : Type*} {p : α → Bool} {l : List α} {a : α}

/-- One more element. -/
theorem findRev?_concat (p : α → Bool) (l : List α) (a : α) :
    (l ++ [a]).findRev? p = if p a then some a else l.findRev? p := by
  rw [List.findRev?_eq_find?_reverse, List.findRev?_eq_find?_reverse, List.reverse_concat]
  by_cases h : p a
  · rw [if_pos h, List.find?_cons_of_pos h]
  · rw [if_neg h, List.find?_cons_of_neg h]

/-- The last match of the second list comes before those of the first. -/
theorem findRev?_append (p : α → Bool) (l m : List α) : (l ++ m).findRev? p = (m.findRev? p).or (l.findRev? p) := by
  rw [List.findRev?_eq_find?_reverse, List.findRev?_eq_find?_reverse, List.findRev?_eq_find?_reverse,
    List.reverse_append, List.find?_append]

/-- **The last match** is a match with none after it. -/
theorem findRev?_eq_some_iff : l.findRev? p = some a ↔
    p a ∧ ∃ before after, l = before ++ a :: after ∧ ∀ b ∈ after, ¬ p b := by
  rw [List.findRev?_eq_find?_reverse, List.find?_eq_some_iff_append]
  refine and_congr_right fun _ => ?_
  constructor
  · rintro ⟨as, bs, hl, has⟩
    refine ⟨bs.reverse, as.reverse, ?_, fun b hb => by simpa using has b (List.mem_reverse.mp hb)⟩
    rw [← List.reverse_reverse l, hl]
    simp
  · rintro ⟨before, after, rfl, hafter⟩
    refine ⟨after.reverse, before.reverse, by simp, fun b hb => by simpa using hafter b (List.mem_reverse.mp hb)⟩

/-- An element that occurs once is the last match iff it is a match and there is none after it. -/
theorem findRev?_eq_some_iff_of_count [DecidableEq α] (h : l.count a = 1) : l.findRev? p = some a ↔
    p a ∧ ∀ before after, l = before ++ a :: after → ∀ b ∈ after, ¬ p b := by
  rw [findRev?_eq_some_iff]
  refine and_congr_right fun _ => ⟨?_, ?_⟩
  · rintro ⟨before, after, rfl, hafter⟩ before' after' heq
    -- the place of the one occurrence is fixed
    have hnot : a ∉ before ∧ a ∉ after := by
      rw [List.count_append, List.count_cons_self] at h
      exact ⟨List.count_eq_zero.mp (by omega), List.count_eq_zero.mp (by omega)⟩
    have htail := ((List.append_cons_inj_of_notMem hnot.1 hnot.2).mp heq).2.2
    rw [← htail]
    exact hafter
  · intro hall
    obtain ⟨before, after, rfl⟩ := List.append_of_mem (List.count_pos_iff.mp (by omega : 0 < l.count a))
    exact ⟨before, after, rfl, hall before after rfl⟩

end LastMatch
