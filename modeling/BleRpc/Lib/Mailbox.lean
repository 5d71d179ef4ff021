import BleRpc.Lib.Transition

/-!
# One slot and a count

A mailbox whose puts all overwrite one slot and raise a count, and whose takes read the slot and lower the count: a
counting semaphore that guards a single shared buffer. The history of puts and takes is kept beside it.

When the count is back to zero, the takes are the puts iff every put that found the count above zero put the value the
slot already held (`takes_eq_puts_iff`).
-/

namespace Mailbox

open Transition

/-- The slot, the count, and what has been put and taken so far. -/
structure Box (α : Type*) where
  slot : Option α
  count : ℕ
  puts : List α
  takes : List α

inductive Op (α : Type*)
  | put (a : α)
  | take

variable {α : Type*}

/-- Nothing was ever put. -/
def empty : Box α := ⟨none, 0, [], []⟩

/-- A put always succeeds and overwrites; a take waits for the count. -/
def step (m : Box α) : Op α → Option (Box α)
  | .put a => some ⟨some a, m.count + 1, m.puts ++ [a], m.takes⟩
  | .take =>
    match m.slot, m.count with
    | some a, n + 1 => some { m with count := n, takes := m.takes ++ [a] }
    | _, _ => none

/-- A put that overwrites nothing still waiting, except by itself. -/
def Quiet (m : Box α) : Op α → Prop
  | .put a => m.count = 0 ∨ m.slot = some a
  | .take => True

/-- The puts not yet taken all sit in the slot. -/
def Kept (m : Box α) : Prop :=
  ∃ pend, m.puts = m.takes ++ pend ∧ pend.length = m.count ∧ ∀ a ∈ pend, m.slot = some a

/-- A put has been lost: the takes have left the puts, or two different puts are still waiting for the one slot. -/
def Lost (m : Box α) : Prop :=
  m.takes.length + m.count = m.puts.length ∧ m.slot = m.puts.getLast? ∧
    (¬ m.takes <+: m.puts ∨ ∃ pend, m.puts = m.takes ++ pend ∧ ∃ a ∈ pend, ∃ b ∈ pend, a ≠ b)

/-- What a take does. -/
theorem step_take {m m' : Box α} (h : step m .take = some m') :
    ∃ a, m.slot = some a ∧ m.count = m'.count + 1 ∧
      m' = ⟨m.slot, m'.count, m.puts, m.takes ++ [a]⟩ := by
  obtain ⟨slot, count, puts, takes⟩ := m
  cases slot with
  | none => cases count <;> cases h
  | some a =>
    cases count with
    | zero => cases h
    | succ n => cases h; exact ⟨a, rfl, rfl, rfl⟩

theorem kept_empty : Kept (empty : Box α) := ⟨[], rfl, rfl, by simp⟩

/-- A take hands out the put that is due. -/
theorem kept_take {m m' : Box α} (hm : Kept m) (h : step m .take = some m') : Kept m' := by
  obtain ⟨pend, hp, hl, hs⟩ := hm
  obtain ⟨a, ha, hc, he⟩ := step_take h
  cases pend with
  | nil => rw [hc] at hl; cases hl
  | cons b pend =>
    have hb : m.slot = some b := hs b List.mem_cons_self
    rw [ha] at hb; cases hb
    refine ⟨pend, ?_, ?_, ?_⟩
    · rw [he]; simp [hp]
    · simp only [List.length_cons] at hl; omega
    · intro c hc'
      rw [he]; exact hs c (List.mem_cons_of_mem _ hc')

/-- A quiet step loses nothing. -/
theorem kept_step {m m' : Box α} {op : Op α} (hm : Kept m) (hq : Quiet m op) (h : step m op = some m') : Kept m' := by
  cases op with
  | take => exact kept_take hm h
  | put a =>
    cases h
    obtain ⟨pend, hp, hl, hs⟩ := hm
    refine ⟨pend ++ [a], by simp [hp], by simp [hl], ?_⟩
    intro b hb
    rcases List.mem_append.mp hb with hb | hb
    · rcases hq with hz | hsame
      · rw [hz] at hl; rw [List.length_eq_zero_iff.mp hl] at hb; cases hb
      · have := hs b hb
        rw [hsame] at this; exact this
    · rw [List.mem_singleton.mp hb]

/-- A put over a different value still waiting loses that value. -/
theorem lost_of_put {m : Box α} {a : α} (hm : Kept m) (hq : ¬ Quiet m (.put a)) :
    Lost ⟨some a, m.count + 1, m.puts ++ [a], m.takes⟩ := by
  obtain ⟨pend, hp, hl, hs⟩ := hm
  have hcount : m.count ≠ 0 := fun hz => hq (Or.inl hz)
  obtain ⟨b, hb⟩ := List.exists_mem_of_length_pos (show 0 < pend.length by omega)
  refine ⟨?_, by simp, Or.inr ⟨pend ++ [a], by simp [hp], b, by simp [hb], a, by simp, ?_⟩⟩
  · simp [hp, hl]
  · intro hba
    exact hq (Or.inr (hba ▸ hs b hb))

/-- A lost put stays lost. -/
theorem lost_step {m m' : Box α} {op : Op α} (hm : Lost m) (h : step m op = some m') : Lost m' := by
  obtain ⟨hl, hs, hbad⟩ := hm
  cases op with
  | put a =>
    cases h
    refine ⟨by simp; omega, by simp, ?_⟩
    rcases hbad with hbad | ⟨pend, hp, b, hb, c, hc, hne⟩
    · exact Or.inl fun hpre => hbad (List.prefix_of_prefix_length_le hpre (List.prefix_append _ _) (by omega))
    · exact Or.inr ⟨pend ++ [a], by simp [hp], b, by simp [hb], c, by simp [hc], hne⟩
  | take =>
    obtain ⟨a, ha, hc, he⟩ := step_take h
    rw [he]
    refine ⟨by simp; omega, hs, ?_⟩
    rcases hbad with hbad | ⟨pend, hp, b, hb, c, hcm, hne⟩
    · exact Or.inl fun hpre => hbad ((List.prefix_append _ _).trans hpre)
    · cases pend with
      | nil => cases hb
      | cons d pend =>
        by_cases hda : d = a
        · -- The take was right by luck: the slot holds the last put, and a different one is still to come.
          subst hda
          have hlast : (d :: pend).getLast? = some d := by
            rw [← ha, hs, hp, List.getLast?_append_of_ne_nil _ (by simp)]
          have hrest : ∃ x ∈ pend, x ≠ d := by
            rcases List.mem_cons.mp hb with rfl | hb
            · rcases List.mem_cons.mp hcm with rfl | hcm
              · exact absurd rfl hne
              · exact ⟨c, hcm, hne.symm⟩
            · by_cases hbd : b = d
              · subst hbd
                rcases List.mem_cons.mp hcm with rfl | hcm
                · exact absurd rfl hne
                · exact ⟨c, hcm, hne.symm⟩
              · exact ⟨b, hb, hbd⟩
          obtain ⟨x, hx, hxd⟩ := hrest
          have hd : d ∈ pend := by
            rw [List.getLast?_cons_of_ne_nil (List.ne_nil_of_mem hx)] at hlast
            exact List.mem_of_getLast? hlast
          exact Or.inr ⟨pend, by simp [hp], x, hx, d, hd, hxd⟩
        · refine Or.inl fun hpre => hda ?_
          rw [hp, List.prefix_append_right_inj] at hpre
          obtain ⟨r, hr⟩ := hpre
          simp only [List.singleton_append, List.cons.injEq] at hr
          exact hr.1.symm

/-- With a lost put, the takes are not the puts. -/
theorem Lost.ne {m : Box α} (hm : Lost m) : m.takes ≠ m.puts := by
  obtain ⟨hl, _, hbad⟩ := hm
  intro he
  rcases hbad with hbad | ⟨pend, hp, b, hb, _⟩
  · exact hbad (he ▸ List.prefix_refl _)
  · rw [← he] at hp
    have : pend = [] := by simpa using hp
    rw [this] at hb; cases hb

theorem meets_quiet_of_eq {m m' : Box α} {ops : List (Op α)} (hm : Kept m) (h : run step m ops = some m')
    (he : m'.takes = m'.puts) : Meets step Quiet m ops := by
  induction ops generalizing m with
  | nil => trivial
  | cons op ops ih =>
    obtain ⟨m₁, hs, hr⟩ := run_cons_some h
    have hq : Quiet m op := by
      by_contra hq
      cases op with
      | take => exact hq trivial
      | put a =>
        cases hs
        have hlost := run_inv (fun _ _ _ hi hst => lost_step hi hst) (lost_of_put hm hq) hr
        exact hlost.ne he
    refine ⟨hq, ?_⟩
    intro m₂ hm₂
    rw [hs] at hm₂; cases hm₂
    exact ih (kept_step hm hq hs) hr

/-- **Nothing is lost, doubled or swapped exactly when no put overwrites a different one still waiting.** -/
theorem takes_eq_puts_iff {m : Box α} {ops : List (Op α)} (h : run step empty ops = some m) (hz : m.count = 0) :
    m.takes = m.puts ↔ Meets step Quiet empty ops := by
  refine ⟨meets_quiet_of_eq kept_empty h, ?_⟩
  intro hq
  obtain ⟨pend, hp, hl, _⟩ := run_inv_of_meets (fun _ _ _ hi hg hs => kept_step hi hg hs) kept_empty hq h
  rw [hz] at hl
  rw [hp, List.length_eq_zero_iff.mp hl, List.append_nil]

end Mailbox
