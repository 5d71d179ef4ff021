import Mathlib.Data.List.Basic

/-!
# Runs of a partial step function

A system is a step function `step : σ → ε → Option σ`: `none` says that the event is not enabled, or that it leaves
the modelled behaviour. A run is a list of events, each enabled in the state the ones before it lead to (`run`).

- `Meets step G s es`: every step of the run meets the condition `G` in the state it is taken in;
- `run_inv`, `run_inv_of_meets`, `run_inv_history`: what one step keeps, a run keeps;
- `run_budget`, `run_countP_le`, `run_short`, `run_done`: runs that every step brings closer to an end are short, and can
  be brought there;
- `guarded step G`: the system with the steps that meet `G` only, whose runs are those that meet it (`run_guarded`);
- `run_sim`, `meets_sim`: a run is matched, event by event, in another system;
- `foldl_filter`: what does not depend on some events is the same without them.
-/

namespace Transition

variable {σ ε τ δ : Type*}

/-- The state after a list of events, if each is enabled in its turn. -/
def run (step : σ → ε → Option σ) : σ → List ε → Option σ
  | s, [] => some s
  | s, e :: es => (step s e).bind fun s' => run step s' es

/-- Every step of the run meets `G` in the state it is taken in. -/
def Meets (step : σ → ε → Option σ) (G : σ → ε → Prop) : σ → List ε → Prop
  | _, [] => True
  | s, e :: es => G s e ∧ ∀ s', step s e = some s' → Meets step G s' es

/-- A decidable condition can be checked along a run. -/
instance Meets.decidable (step : σ → ε → Option σ) (G : σ → ε → Prop) [∀ s e, Decidable (G s e)] :
    ∀ s es, Decidable (Meets step G s es)
  | _, [] => isTrue trivial
  | s, e :: es =>
    have : Decidable (∀ s', step s e = some s' → Meets step G s' es) :=
      match step s e with
      | none => isTrue fun _ h => nomatch h
      | some s' =>
        match Meets.decidable step G s' es with
        | isTrue h => isTrue fun _ h' => Option.some.inj h' ▸ h
        | isFalse h => isFalse fun h' => h (h' s' rfl)
    inferInstanceAs (Decidable (_ ∧ _))

section Runs

variable {step : σ → ε → Option σ} {G : σ → ε → Prop} {s t : σ} {e : ε} {es : List ε}

@[simp] theorem run_nil : run step s [] = some s := rfl

theorem run_cons : run step s (e :: es) = (step s e).bind fun s' => run step s' es := rfl

/-- The first step of a run that goes through. -/
theorem run_cons_some (h : run step s (e :: es) = some t) : ∃ s', step s e = some s' ∧ run step s' es = some t :=
  Option.bind_eq_some_iff.mp h

theorem run_append (es fs : List ε) : run step s (es ++ fs) = (run step s es).bind fun s' => run step s' fs := by
  induction es generalizing s with
  | nil => rfl
  | cons e es ih =>
    rw [List.cons_append, run_cons, run_cons, Option.bind_assoc]
    exact congrArg _ (funext fun s' => ih)

theorem run_trans {u : σ} {fs : List ε} (h : run step s es = some t) (h' : run step t fs = some u) :
    run step s (es ++ fs) = some u := by
  rw [run_append, h]; exact h'

@[simp] theorem meets_nil : Meets step G s [] := trivial

/-- **Invariants.** What every step keeps, every run keeps. -/
theorem run_inv {I : σ → Prop} (hI : ∀ s e s', I s → step s e = some s' → I s') (hs : I s)
    (h : run step s es = some t) : I t := by
  induction es generalizing s with
  | nil => cases h; exact hs
  | cons e es ih =>
    obtain ⟨s', he, hr⟩ := run_cons_some h
    exact ih (hI s e s' hs he) hr

/-- **Invariants under a condition.** What every step that meets `G` keeps, a run all of whose steps meet `G` keeps. -/
theorem run_inv_of_meets {I : σ → Prop} (hI : ∀ s e s', I s → G s e → step s e = some s' → I s') (hs : I s)
    (hm : Meets step G s es) (h : run step s es = some t) : I t := by
  induction es generalizing s with
  | nil => cases h; exact hs
  | cons e es ih =>
    obtain ⟨s', he, hr⟩ := run_cons_some h
    exact ih (hI s e s' hs hm.1 he) (hm.2 s' he) hr

/-- **Invariants of a history.** What every step keeps of the events so far and the state, every run keeps. -/
theorem run_inv_history {I : List ε → σ → Prop} (hI : ∀ fs s e s', I fs s → step s e = some s' → I (fs ++ [e]) s')
    {fs : List ε} (hs : I fs s) (h : run step s es = some t) : I (fs ++ es) t := by
  induction es generalizing s fs with
  | nil => cases h; rwa [List.append_nil]
  | cons e es ih =>
    obtain ⟨s', he, hr⟩ := run_cons_some h
    rw [List.append_cons]
    exact ih (hI fs s e s' hs he) hr

/-- What follows a run meets what the whole run meets. -/
theorem Meets.drop {fs : List ε} (hm : Meets step G s (es ++ fs)) (h : run step s es = some t) :
    Meets step G t fs := by
  induction es generalizing s with
  | nil => cases h; exact hm
  | cons e es ih =>
    obtain ⟨s', he, hr⟩ := run_cons_some h
    exact ih (hm.2 s' he) hr

/-- The beginning of a run meets what the whole run meets. -/
theorem Meets.take {fs : List ε} (hm : Meets step G s (es ++ fs)) : Meets step G s es := by
  induction es generalizing s with
  | nil => trivial
  | cons e es ih => exact ⟨hm.1, fun s' he => ih (hm.2 s' he)⟩

/-- A condition on events alone is met by a run of such events. -/
theorem meets_of_forall {P : ε → Prop} (h : ∀ e ∈ es, P e) : Meets step (fun _ e => P e) s es := by
  induction es generalizing s with
  | nil => trivial
  | cons e es ih => exact ⟨h e List.mem_cons_self, fun s' _ => ih fun e he => h e (List.mem_cons_of_mem _ he)⟩

/-- Conditions that agree wherever an invariant holds are met by the same runs. -/
theorem meets_congr {I : σ → Prop} {P : ε → Prop} {H : σ → ε → Prop}
    (hI : ∀ s e s', I s → P e → step s e = some s' → I s') (hGH : ∀ s e, I s → P e → (G s e ↔ H s e)) (hs : I s)
    (hP : ∀ e ∈ es, P e) : Meets step G s es ↔ Meets step H s es := by
  induction es generalizing s with
  | nil => exact Iff.rfl
  | cons e es ih =>
    have he := hP e List.mem_cons_self
    refine and_congr (hGH s e hs he) (forall_congr' fun s' => forall_congr' fun hstep => ?_)
    exact ih (hI s e s' hs he hstep) fun e' he' => hP e' (List.mem_cons_of_mem _ he')

/-- Conditions that agree under an invariant that each of them makes a step keep are met by the same runs. -/
theorem meets_congr_of_keeps {I : σ → Prop} {H : σ → ε → Prop} (hGH : ∀ s e, I s → (G s e ↔ H s e))
    (hI : ∀ s e s', I s → G s e → step s e = some s' → I s') (hs : I s) : Meets step G s es ↔ Meets step H s es := by
  induction es generalizing s with
  | nil => exact Iff.rfl
  | cons e es ih =>
    constructor
    · rintro ⟨hg, hm⟩
      exact ⟨(hGH s e hs).mp hg, fun s' he => (ih (hI s e s' hs hg he)).mp (hm s' he)⟩
    · rintro ⟨hh, hm⟩
      have hg := (hGH s e hs).mpr hh
      exact ⟨hg, fun s' he => (ih (hI s e s' hs hg he)).mpr (hm s' he)⟩

theorem Meets.and {H : σ → ε → Prop} (hG : Meets step G s es) (hH : Meets step H s es) :
    Meets step (fun s e => G s e ∧ H s e) s es := by
  induction es generalizing s with
  | nil => trivial
  | cons e es ih => exact ⟨⟨hG.1, hH.1⟩, fun s' he => ih (hG.2 s' he) (hH.2 s' he)⟩

end Runs

section Guarded

variable {step : σ → ε → Option σ} {G : σ → ε → Prop} [∀ s e, Decidable (G s e)] {s s' t : σ} {e : ε} {es : List ε}

/-- The system that takes the steps that meet `G` only. -/
def guarded (step : σ → ε → Option σ) (G : σ → ε → Prop) [∀ s e, Decidable (G s e)] (s : σ) (e : ε) : Option σ :=
  if G s e then step s e else none

theorem guarded_eq_some : guarded step G s e = some s' ↔ G s e ∧ step s e = some s' := by
  by_cases h : G s e <;> simp [guarded, h]

/-- Its runs are the runs that meet `G`. -/
theorem run_guarded : run (guarded step G) s es = some t ↔ Meets step G s es ∧ run step s es = some t := by
  induction es generalizing s with
  | nil => simp
  | cons e es ih =>
    constructor
    · intro h
      obtain ⟨s', he, hr⟩ := run_cons_some h
      obtain ⟨hg, he⟩ := guarded_eq_some.mp he
      obtain ⟨hm, hr⟩ := ih.mp hr
      refine ⟨⟨hg, ?_⟩, by rw [run_cons, he]; exact hr⟩
      intro s'' hs''
      rw [he] at hs''
      cases hs''
      exact hm
    · rintro ⟨⟨hg, hm⟩, hr⟩
      obtain ⟨s', he, hr⟩ := run_cons_some hr
      rw [run_cons, guarded_eq_some.mpr ⟨hg, he⟩]
      exact ih.mpr ⟨hm s' he, hr⟩

end Guarded

section Budget

variable {step : σ → ε → Option σ} {I Done : σ → Prop} {B : σ → ℕ → Prop} {earned : σ → ℕ} {s t : σ} {es : List ε}

/-- **Budgets.** If every step spends one of a budget into which only `earned` pays, a run is no longer than what it had
and has earned. -/
theorem run_budget (hI : ∀ s e s', I s → step s e = some s' → I s')
    (hB : ∀ s e s' n, I s → B s n → step s e = some s' → ∃ m, B s' m ∧ m + 1 + earned s ≤ n + earned s')
    {n : ℕ} (hs : I s) (hn : B s n) (h : run step s es = some t) :
    ∃ m, B t m ∧ es.length + m + earned s ≤ n + earned t := by
  induction es generalizing s n with
  | nil => cases h; exact ⟨n, hn, by simp⟩
  | cons e es ih =>
    obtain ⟨s', he, hr⟩ := run_cons_some h
    obtain ⟨k, hk, hle⟩ := hB s e s' n hs hn he
    obtain ⟨m, hm, hle'⟩ := ih (hI s e s' hs he) hk hr
    refine ⟨m, hm, ?_⟩
    rw [List.length_cons]
    omega

/-- If every step of some kind spends of a budget into which none pays, a run has no more of them than its budget. -/
theorem run_countP_le {q : ε → Bool} (hI : ∀ s e s', I s → step s e = some s' → I s')
    (hB : ∀ s e s' n, I s → B s n → step s e = some s' → ∃ m, B s' m ∧ m + (if q e then 1 else 0) ≤ n) {n : ℕ}
    (hs : I s) (hn : B s n) (h : run step s es = some t) : es.countP q ≤ n := by
  induction es generalizing s n with
  | nil => exact Nat.zero_le _
  | cons e es ih =>
    obtain ⟨s', he, hr⟩ := run_cons_some h
    obtain ⟨m, hm, hle⟩ := hB s e s' n hs hn he
    have hrest := ih (hI s e s' hs he) hm hr
    rw [List.countP_cons]
    omega

/-- A run that spends and earns nothing is no longer than its budget. -/
theorem run_short (hI : ∀ s e s', I s → step s e = some s' → I s')
    (hB : ∀ s e s' n, I s → B s n → step s e = some s' → ∃ m, B s' m ∧ m < n) {n : ℕ} (hs : I s) (hn : B s n)
    (h : run step s es = some t) : es.length ≤ n := by
  have hcount : es.countP (fun _ => true) ≤ n := run_countP_le hI hB hs hn h
  rwa [List.countP_true] at hcount

/-- **Ends.** A system that, short of its end, can take a step of some kind, and spends on every step of that kind, can
be brought to its end by such steps. -/
theorem run_done {Q : ε → Prop} (hI : ∀ s e s', I s → step s e = some s' → I s')
    (hB : ∀ s e s' n, I s → Q e → B s n → step s e = some s' → ∃ m, B s' m ∧ m < n)
    (hgo : ∀ s, I s → ¬ Done s → ∃ e s', Q e ∧ step s e = some s') {n : ℕ} (hs : I s) (hn : B s n) :
    ∃ es t, (∀ e ∈ es, Q e) ∧ run step s es = some t ∧ Done t := by
  induction n using Nat.strongRecOn generalizing s with
  | ind n ih =>
    by_cases hd : Done s
    · exact ⟨[], s, nofun, rfl, hd⟩
    · obtain ⟨e, s', hq, he⟩ := hgo s hs hd
      obtain ⟨m, hm, hlt⟩ := hB s e s' n hs hq hn he
      obtain ⟨es, t, hqs, hr, hdone⟩ := ih m hlt (hI s e s' hs he) hm
      refine ⟨e :: es, t, ?_, by rw [run_cons, he]; exact hr, hdone⟩
      intro e' he'
      rcases List.mem_cons.mp he' with rfl | he'
      · exact hq
      · exact hqs e' he'

end Budget

section Simulation

variable {step : σ → ε → Option σ} {step' : τ → δ → Option τ} {R : σ → τ → Prop} {P : ε → Prop} {g : ε → δ}

/-- **Simulation.** If related states take matching steps to related states, a run is matched by the run of the
matching events. Only the events of the run need match. -/
theorem run_sim (hR : ∀ s t e s', P e → R s t → step s e = some s' → ∃ t', step' t (g e) = some t' ∧ R s' t')
    {s s' : σ} {t : τ} {es : List ε} (hP : ∀ e ∈ es, P e) (h : R s t) (hr : run step s es = some s') :
    ∃ t', run step' t (es.map g) = some t' ∧ R s' t' := by
  induction es generalizing s t with
  | nil => cases hr; exact ⟨t, rfl, h⟩
  | cons e es ih =>
    obtain ⟨s₁, he, hr⟩ := run_cons_some hr
    obtain ⟨t₁, he', h₁⟩ := hR s t e s₁ (hP e List.mem_cons_self) h he
    obtain ⟨t', hr', h'⟩ := ih (fun e he => hP e (List.mem_cons_of_mem _ he)) h₁ hr
    exact ⟨t', by rw [List.map_cons, run_cons, he']; exact hr', h'⟩

/-- Along a run, a condition on one system is the matching condition on the other. -/
theorem meets_sim {G : σ → ε → Prop} {G' : τ → δ → Prop}
    (hR : ∀ s t e s', P e → R s t → step s e = some s' → ∃ t', step' t (g e) = some t' ∧ R s' t')
    (hG : ∀ s t e, R s t → (G s e ↔ G' t (g e))) {s s' : σ} {t : τ} {es : List ε} (hP : ∀ e ∈ es, P e) (h : R s t)
    (hr : run step s es = some s') : Meets step G s es ↔ Meets step' G' t (es.map g) := by
  induction es generalizing s t with
  | nil => exact Iff.rfl
  | cons e es ih =>
    obtain ⟨s₁, he, hr⟩ := run_cons_some hr
    obtain ⟨t₁, he', h₁⟩ := hR s t e s₁ (hP e List.mem_cons_self) h he
    have hrest := ih (fun e he => hP e (List.mem_cons_of_mem _ he)) h₁ hr
    constructor
    · rintro ⟨hg, hm⟩
      refine ⟨(hG s t e h).mp hg, ?_⟩
      intro t' ht'
      rw [he'] at ht'; cases ht'
      exact hrest.mp (hm s₁ he)
    · rintro ⟨hg, hm⟩
      refine ⟨(hG s t e h).mpr hg, ?_⟩
      intro s' hs'
      rw [he] at hs'; cases hs'
      exact hrest.mpr (hm t₁ he')

/-- **Unwinding.** Steps that always go through, of which some keep a relation on both sides and the others on the left
alone: a run is related to the run of the former. -/
theorem foldl_filter {R : σ → σ → Prop} {f : σ → ε → σ} {q : ε → Bool}
    (hkeep : ∀ s t e, R s t → q e → R (f s e) (f t e)) (hdrop : ∀ s t e, R s t → ¬ q e → R (f s e) t) {s t : σ}
    (h : R s t) (es : List ε) : R (es.foldl f s) ((es.filter q).foldl f t) := by
  induction es generalizing s t with
  | nil => exact h
  | cons e es ih =>
    by_cases he : q e
    · rw [List.filter_cons_of_pos he]
      exact ih (hkeep s t e h he)
    · rw [List.filter_cons_of_neg he]
      exact ih (hdrop s t e h he)

end Simulation

end Transition
