import BleRpc.Device.Dispatch
import Mathlib.Logic.Relation

/-!
# The worker, step by step

`rcpThread` as a program counter and a step function, so that writes and reads may be served between any two of its
steps: the wait, the test of one table entry, the store to `response_id`, the call, each action of the callback, and
`__RPC_sendResponse`.

- `Worked`: all a step can do, one constructor per kind of step (`step_worked`);
- `iteration_steps`: undisturbed, the steps add up to an iteration of `rcpThread`.
-/

namespace BleRpc.Device

open Outcome

variable {σ : Type}

/-- Where `rcpThread` is. -/
inductive Pc (σ : Type)
  /-- In `RPC_waitForCommand`. -/
  | waiting
  /-- About to test the first of these entries. -/
  | scanning (rest : List (Entry (Handler σ)))
  /-- The ids were equal; about to set `response_id`. -/
  | matched (h : Handler σ) (rest : List (Entry (Handler σ)))
  /-- About to make the call. -/
  | labelled (h : Handler σ) (rest : List (Entry (Handler σ)))
  /-- In the callback, or about to send the response when nothing is left of it. -/
  | running (p : Prog σ) (rest : List (Entry (Handler σ)))

/-- The entries still to be tested in this scan. -/
def Pc.rest : Pc σ → List (Entry (Handler σ))
  | .waiting => []
  | .scanning rest | .matched _ rest | .labelled _ rest | .running _ rest => rest

structure Worker (σ : Type) where
  pc : Pc σ
  dev : Dev σ

namespace Worker

/-- One step, if it neither blocks nor faults. -/
def step (gatt : GattServer σ) (table : List (Entry (Handler σ))) (w : Worker σ) : Option (Worker σ) :=
  match w.pc with
  | .waiting => (waitForCommand w.dev).map fun d => ⟨.scanning table, d⟩
  | .scanning [] => none
  | .scanning (⟨_, none⟩ :: _) => some ⟨.waiting, w.dev.countExecution⟩
  | .scanning (⟨id, some h⟩ :: rest) =>
    if w.dev.rpc.commandId = id then some ⟨.matched h rest, w.dev⟩ else some ⟨.scanning rest, w.dev⟩
  | .matched h rest => some ⟨.labelled h rest, w.dev.label⟩
  | .labelled h rest =>
    some ⟨.running (h w.dev.rpc.commandId w.dev.rpc.command w.dev.rpc.commandLength) rest, w.dev.call⟩
  | .running .ret rest =>
    (sendResponse gatt w.dev.rpc.commandId w.dev.rpc.response w.dev.rpc.responseLength w.dev).toOption.map
      fun r => ⟨.scanning rest, r.1⟩
  | .running p rest => (p.act gatt w.dev).toOption.map fun r => ⟨.running r.1 rest, r.2⟩

/-- The worker blocks: it waits and there is nothing to take. -/
def Blocked (w : Worker σ) : Prop := w.pc = .waiting ∧ w.dev.rpc.commandReceivedSem = 0

/-- All a step can do. -/
inductive Worked (gatt : GattServer σ) (table : List (Entry (Handler σ))) : Worker σ → Worker σ → Prop
  | wait {d : Dev σ} {n : ℕ} (hsem : d.rpc.commandReceivedSem = n + 1) :
    Worked gatt table ⟨.waiting, d⟩ ⟨.scanning table, { d with rpc := { d.rpc with commandReceivedSem := n } }⟩
  | finish {d : Dev σ} {id : UInt8} {rest : List (Entry (Handler σ))} :
    Worked gatt table ⟨.scanning (⟨id, none⟩ :: rest), d⟩ ⟨.waiting, d.countExecution⟩
  | skip {d : Dev σ} {id : UInt8} {h : Handler σ} {rest : List (Entry (Handler σ))} (hne : d.rpc.commandId ≠ id) :
    Worked gatt table ⟨.scanning (⟨id, some h⟩ :: rest), d⟩ ⟨.scanning rest, d⟩
  | hit {d : Dev σ} {id : UInt8} {h : Handler σ} {rest : List (Entry (Handler σ))} (heq : d.rpc.commandId = id) :
    Worked gatt table ⟨.scanning (⟨id, some h⟩ :: rest), d⟩ ⟨.matched h rest, d⟩
  | label {d : Dev σ} {h : Handler σ} {rest : List (Entry (Handler σ))} :
    Worked gatt table ⟨.matched h rest, d⟩ ⟨.labelled h rest, d.label⟩
  | call {d : Dev σ} {h : Handler σ} {rest : List (Entry (Handler σ))} :
    Worked gatt table ⟨.labelled h rest, d⟩
      ⟨.running (h d.rpc.commandId d.rpc.command d.rpc.commandLength) rest, d.call⟩
  | act {d d' : Dev σ} {p p' : Prog σ} {rest : List (Entry (Handler σ))} (hp : p ≠ .ret)
    (hact : p.act gatt d = .ok (p', d')) :
    Worked gatt table ⟨.running p rest, d⟩ ⟨.running p' rest, d'⟩
  | send {d d' : Dev σ} {status : Status} {rest : List (Entry (Handler σ))}
    (hsend : sendResponse gatt d.rpc.commandId d.rpc.response d.rpc.responseLength d = .ok (d', status)) :
    Worked gatt table ⟨.running .ret rest, d⟩ ⟨.scanning rest, d'⟩

variable {gatt : GattServer σ} {table : List (Entry (Handler σ))}

/-- In a callback that has not returned, a step is its next action. -/
theorem step_running {p : Prog σ} (hp : p ≠ .ret) (rest : List (Entry (Handler σ))) (d : Dev σ) :
    (⟨.running p rest, d⟩ : Worker σ).step gatt table =
      (p.act gatt d).toOption.map fun r => ⟨.running r.1 rest, r.2⟩ := by
  cases p with
  | ret => exact absurd rfl hp
  | _ => rfl

/-- **A step is one of the eight kinds.** -/
theorem step_worked {w w' : Worker σ} (h : w.step gatt table = some w') : Worked gatt table w w' := by
  obtain ⟨pc, d⟩ := w
  cases pc with
  | waiting =>
    obtain ⟨e, he, rfl⟩ := Option.map_eq_some_iff.mp h
    obtain ⟨hsem, hd⟩ := waitForCommand_inv he
    rw [hd]
    exact .wait hsem
  | scanning rest =>
    cases rest with
    | nil => cases h
    | cons e rest =>
      obtain ⟨id, cb⟩ := e
      cases cb with
      | none => cases h; exact .finish
      | some cb =>
        simp only [step] at h
        by_cases heq : d.rpc.commandId = id
        · rw [if_pos heq] at h; cases h; exact .hit heq
        · rw [if_neg heq] at h; cases h; exact .skip heq
  | matched h' rest => cases h; exact .label
  | labelled h' rest => cases h; exact .call
  | running p rest =>
    by_cases hp : p = .ret
    · subst hp
      obtain ⟨⟨d', status⟩, hr, rfl⟩ := Option.map_eq_some_iff.mp h
      exact .send (toOption_eq_some.mp hr)
    · rw [step_running hp] at h
      obtain ⟨⟨p', d'⟩, hr, rfl⟩ := Option.map_eq_some_iff.mp h
      exact .act hp (toOption_eq_some.mp hr)

/-! ## What every step keeps -/

/-- Actions of a callback add to the history. -/
theorem trace_act {p p' : Prog σ} {d d' : Dev σ} (h : p.act gatt d = .ok (p', d')) : d.trace <+: d'.trace := by
  cases Prog.act_eq_ok.mp h with
  | ret | look | load | setResponseLength | modify => exact List.prefix_refl _
  | storeResponse hstore =>
    obtain ⟨a, m, _, _, rfl⟩ := storeResponse_inv hstore
    exact List.prefix_refl _
  | notify hsend =>
    obtain ⟨m, live, _, _, _, _, _, rfl⟩ := sendNotification_inv hsend
    exact List.prefix_append _ _

/-- A step adds to the history, and leaves the id of the command as it is. -/
theorem Worked.keeps {w w' : Worker σ} (hd : w.dev.Installed) (h : Worked gatt table w w') :
    w.dev.trace <+: w'.dev.trace ∧ w'.dev.rpc.commandId = w.dev.rpc.commandId := by
  cases h with
  | wait | finish | skip | hit | label => exact ⟨List.prefix_refl _, rfl⟩
  | call => exact ⟨List.prefix_append _ _, rfl⟩
  | act _ hact => exact ⟨trace_act hact, (undisturbed_act hd hact).commandId⟩
  | send hsend =>
    obtain ⟨m, live, _, _, _, _, _, rfl⟩ := sendResponse_inv (outside_of_responseBuffer hd) hsend
    exact ⟨List.prefix_append _ _, rfl⟩

/-! ## Undisturbed -/

/-- Any number of steps. -/
def Steps (gatt : GattServer σ) (table : List (Entry (Handler σ))) : Worker σ → Worker σ → Prop :=
  Relation.ReflTransGen fun w w' => w.step gatt table = some w'

theorem Steps.head {w v u : Worker σ} (h : w.step gatt table = some v) (h' : Steps gatt table v u) :
    Steps gatt table w u :=
  Relation.ReflTransGen.head h h'

theorem Steps.trans {w v u : Worker σ} (h : Steps gatt table w v) (h' : Steps gatt table v u) :
    Steps gatt table w u :=
  Relation.ReflTransGen.trans h h'

/-- An action of a callback that has not returned is a step. -/
theorem step_of_act {p p' : Prog σ} {rest : List (Entry (Handler σ))} {d d' : Dev σ} (hp : p ≠ .ret)
    (h : p.act gatt d = .ok (p', d')) :
    (⟨.running p rest, d⟩ : Worker σ).step gatt table = some ⟨.running p' rest, d'⟩ := by
  rw [step_running hp, h]
  rfl

/-- The actions of a callback are steps. -/
theorem run_steps {p : Prog σ} {rest : List (Entry (Handler σ))} {d d' : Dev σ} (h : p.run gatt d = .ok d') :
    Steps gatt table ⟨.running p rest, d⟩ ⟨.running .ret rest, d'⟩ := by
  have hlift : ∀ {s t : Prog σ × Dev σ}, Reaches gatt s t →
      Steps gatt table ⟨.running s.1 rest, s.2⟩ ⟨.running t.1 rest, t.2⟩ := by
    intro s t hr
    induction hr with
    | refl => exact .refl
    | @tail u t _ hact ih =>
      by_cases hu : u.1 = .ret
      · -- a callback that has returned does nothing more
        rw [hu] at hact ih
        cases hact
        exact ih
      · exact ih.tail (step_of_act hu hact)
  exact hlift (Prog.reaches_of_run h)

/-- A scan to the end marker. -/
theorem processEntries_steps {rest : List (Entry (Handler σ))} {d d' : Dev σ}
    (h : processEntries gatt (rest.map (Entry.map (Handler.callback gatt))) d = .ok d') :
    Steps gatt table ⟨.scanning rest, d⟩ ⟨.waiting, d'.countExecution⟩ := by
  induction rest generalizing d with
  | nil => cases h
  | cons e rest ih =>
    obtain ⟨id, cb⟩ := e
    cases cb with
    | none => cases h; exact .head rfl .refl
    | some cb =>
      rw [List.map_cons, Entry.map, Option.map_some, processEntries] at h
      by_cases heq : d.rpc.commandId = id
      · rw [if_pos heq, bind_eq_ok] at h
        obtain ⟨f, hf, h⟩ := h
        unfold dispatch at hf
        obtain ⟨e, he, hf⟩ := bind_eq_ok.mp hf
        obtain ⟨⟨f', status⟩, hs, hf⟩ := bind_eq_ok.mp hf
        cases hf
        have hit : (⟨.scanning (⟨id, some cb⟩ :: rest), d⟩ : Worker σ).step gatt table =
            some ⟨.matched cb rest, d⟩ := if_pos heq
        refine .head hit (.head rfl (.head rfl ((run_steps he).trans (.head ?_ (ih h)))))
        simp only [step, hs]
        rfl
      · rw [if_neg heq] at h
        have skip : (⟨.scanning (⟨id, some cb⟩ :: rest), d⟩ : Worker σ).step gatt table =
            some ⟨.scanning rest, d⟩ := if_neg heq
        exact .head skip (ih h)

/-- **An iteration of `rcpThread` is a sequence of steps** from one wait to the next. -/
theorem iteration_steps {d d' : Dev σ}
    (h : rcpThreadIteration gatt (table.map (Entry.map (Handler.callback gatt))) d = some d') :
    Steps gatt table ⟨.waiting, d⟩ ⟨.waiting, d'⟩ := by
  obtain ⟨e, f, hw, hp, rfl⟩ := rcpThreadIteration_inv h
  refine .head ?_ (processEntries_steps hp)
  simp only [step, hw]
  rfl

end Worker

end BleRpc.Device
