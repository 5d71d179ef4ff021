import BleRpc.Device.Firmware

/-!
# How long the worker takes

A callback that takes a bounded number of actions (`Prog.Within`) makes the worker's iterations bounded: `Worker.Left`
is the number of steps left until it waits with nothing to take, and every step spends one (`left_step`).
-/

namespace BleRpc.Device

variable {σ : Type}

/-- At most so many actions, whatever the program reads. -/
inductive Prog.Within : ℕ → Prog σ → Prop
  | ret {n : ℕ} : Within n .ret
  | look {n : ℕ} {k : Dev σ → Prog σ} (h : ∀ d, Within n (k d)) : Within (n + 1) (.look k)
  | load {n : ℕ} {p : Option Ptr} {length : ℕ} {k : Bytes → Prog σ} (h : ∀ bytes, Within n (k bytes)) :
    Within (n + 1) (.load p length k)
  | storeResponse {n i : ℕ} {b : UInt8} {next : Prog σ} (h : Within n next) : Within (n + 1) (.storeResponse i b next)
  | setResponseLength {n length : ℕ} {next : Prog σ} (h : Within n next) :
    Within (n + 1) (.setResponseLength length next)
  | modify {n : ℕ} {f : σ → σ} {next : Prog σ} (h : Within n next) : Within (n + 1) (.modify f next)
  | notify {n length : ℕ} {id : UInt8} {data : Source} {next : Prog σ} (h : Within n next) :
    Within (n + 1) (.notify id data length next)

/-- An action is one of them. -/
theorem Prog.within_act {gatt : GattServer σ} {n : ℕ} {p p' : Prog σ} {d d' : Dev σ} (h : p.Within n) (hp : p ≠ .ret)
    (hact : p.act gatt d = .ok (p', d')) : ∃ m, p'.Within m ∧ m + 1 = n := by
  cases act_eq_ok.mp hact with
  | ret => exact absurd rfl hp
  | look => cases h with | look h => exact ⟨_, h _, rfl⟩
  | load => cases h with | load h => exact ⟨_, h _, rfl⟩
  | storeResponse => cases h with | storeResponse h => exact ⟨_, h, rfl⟩
  | setResponseLength => cases h with | setResponseLength h => exact ⟨_, h, rfl⟩
  | modify => cases h with | modify h => exact ⟨_, h, rfl⟩
  | notify => cases h with | notify h => exact ⟨_, h, rfl⟩

/-- Callbacks of at most `K` actions. -/
def Brief (K : ℕ) (table : List (Entry (Handler σ))) : Prop :=
  ∀ e ∈ table, ∀ h, e.callback = some h → ∀ id data length, (h id data length).Within K

theorem Brief.tail {K : ℕ} {e : Entry (Handler σ)} {rest : List (Entry (Handler σ))} (h : Brief K (e :: rest)) :
    Brief K rest := fun e' he => h e' (List.mem_cons_of_mem _ he)

/-! ## Steps left -/

/-- Steps to the end of the scan, at `K + 4` for each entry: its test, the store to `response_id`, the call, the actions
and the response. -/
inductive Pc.Left (K : ℕ) : Pc σ → ℕ → Prop
  | waiting : Left K .waiting 0
  | scanning {rest : List (Entry (Handler σ))} (hb : Brief K rest) : Left K (.scanning rest) ((K + 4) * rest.length)
  | matched {h : Handler σ} {rest : List (Entry (Handler σ))} (hb : Brief K rest)
    (hh : ∀ id data length, (h id data length).Within K) : Left K (.matched h rest) ((K + 4) * rest.length + (K + 3))
  | labelled {h : Handler σ} {rest : List (Entry (Handler σ))} (hb : Brief K rest)
    (hh : ∀ id data length, (h id data length).Within K) : Left K (.labelled h rest) ((K + 4) * rest.length + (K + 2))
  | running {n : ℕ} {p : Prog σ} {rest : List (Entry (Handler σ))} (hb : Brief K rest) (hp : p.Within n) :
    Left K (.running p rest) ((K + 4) * rest.length + (n + 1))

/-- The steps of an iteration. -/
def iteration (K : ℕ) (table : List (Entry (Handler σ))) : ℕ := (K + 4) * table.length + 1

/-- Steps until the worker waits and there is nothing to take. -/
def Worker.Left (K : ℕ) (table : List (Entry (Handler σ))) (w : Worker σ) (n : ℕ) : Prop :=
  ∃ m, w.pc.Left K m ∧ n = m + iteration K table * w.dev.rpc.commandReceivedSem

/-- **Every step spends one.** -/
theorem Worker.left_step {gatt : GattServer σ} {K n : ℕ} {table : List (Entry (Handler σ))} {w w' : Worker σ}
    (ht : Brief K table) (hd : w.dev.Installed) (hl : w.Left K table n) (h : Worked gatt table w w') :
    ∃ m, w'.Left K table m ∧ m + 1 ≤ n := by
  obtain ⟨k, hk, rfl⟩ := hl
  cases h with
  | @wait d n hsem =>
    cases hk
    refine ⟨_, ⟨_, .scanning ht, rfl⟩, ?_⟩
    simp only [hsem, iteration, Nat.mul_succ]
    omega
  | finish =>
    cases hk with
    | scanning hb =>
      refine ⟨_, ⟨_, .waiting, rfl⟩, ?_⟩
      simp only [Dev.countExecution, List.length_cons, Nat.mul_succ]
      omega
  | skip hne =>
    cases hk with
    | scanning hb =>
      refine ⟨_, ⟨_, .scanning hb.tail, rfl⟩, ?_⟩
      simp only [List.length_cons, Nat.mul_succ]
      omega
  | hit heq =>
    cases hk with
    | scanning hb =>
      refine ⟨_, ⟨_, .matched hb.tail (hb _ List.mem_cons_self _ rfl), rfl⟩, ?_⟩
      simp only [List.length_cons, Nat.mul_succ]
      omega
  | label =>
    cases hk with
    | matched hb hh =>
      refine ⟨_, ⟨_, .labelled hb hh, rfl⟩, ?_⟩
      simp only [Dev.label]
      omega
  | call =>
    cases hk with
    | labelled hb hh =>
      refine ⟨_, ⟨_, .running hb (hh _ _ _), rfl⟩, ?_⟩
      simp only [Dev.call, Dev.observe]
      omega
  | act hp hact =>
    cases hk with
    | running hb hpw =>
      obtain ⟨m, hm, rfl⟩ := Prog.within_act hpw hp hact
      have hsem := (undisturbed_act hd hact).commandReceivedSem
      refine ⟨_, ⟨_, .running hb hm, rfl⟩, ?_⟩
      simp only [hsem]
      omega
  | send hsend =>
    cases hk with
    | running hb hpw =>
      obtain ⟨m, live, _, _, _, _, _, rfl⟩ := sendResponse_inv (outside_of_responseBuffer hd) hsend
      refine ⟨_, ⟨_, .scanning hb, rfl⟩, ?_⟩
      simp only [Dev.observe]
      omega

/-- A command written adds an iteration. -/
theorem Worker.left_write {K n : ℕ} {table : List (Entry (Handler σ))} {pc : Pc σ} {packet : Bytes} {d d' : Dev σ}
    (hl : (⟨pc, d⟩ : Worker σ).Left K table n) (h : Stored packet d d') :
    (⟨pc, d'⟩ : Worker σ).Left K table (n + iteration K table) := by
  obtain ⟨m, hm, rfl⟩ := hl
  refine ⟨m, hm, ?_⟩
  simp only [h.rpc, Nat.mul_succ, Nat.add_assoc]

/-! ## The shipped callback -/

theorem respond_within {n : ℕ} : respond.Within (n + 11) := by
  refine .look fun d => .storeResponse (.look fun d => .storeResponse (.look fun d => .storeResponse
    (.look fun d => .storeResponse (.look fun d => ?_))))
  by_cases hc : d.app % 3 = 0
  · rw [if_pos hc]
    exact .notify (.setResponseLength .ret)
  · rw [if_neg hc]
    exact .setResponseLength .ret

/-- `ping_device` takes at most 13 actions. -/
theorem testRcpCallbacks_brief : Brief 13 testRcpCallbacks := by
  intro e he h hcb id data length
  rcases List.mem_cons.mp he with rfl | he
  · cases hcb
    apply Prog.Within.load
    intro payload
    by_cases hone : payload.getD 0 0 = 1
    · rw [if_pos hone]
      exact .modify (respond_within (n := 0))
    · rw [if_neg hone]
      exact respond_within (n := 1)
  · rw [List.mem_singleton.mp he] at hcb
    cases hcb

end BleRpc.Device
