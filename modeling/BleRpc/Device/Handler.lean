import BleRpc.Device.Send
import Mathlib.Logic.Relation

/-!
# Command callbacks

A callback is a program of the actions the firmware gives it (`Prog`): it reads memory and variables, stores through
`rpc.response`, sets `rpc.response_length`, changes its own variables, and sends notifications. Between two actions
other tasks may run, so a program is run action by action (`Prog.act`); `Prog.run` is the run nobody interrupts.

`Undisturbed` is what no action touches: the command packet and its fields, the semaphore, the response label, the
response array, and the history of calls and responses.
-/

namespace BleRpc.Device

open Outcome

variable {σ : Type}

/-- The body of a callback. -/
inductive Prog (σ : Type)
  | ret
  /-- Look at the variables. -/
  | look (k : Dev σ → Prog σ)
  /-- Read `length` bytes at an address. -/
  | load (p : Option Ptr) (length : ℕ) (k : Bytes → Prog σ)
  /-- `((uint8_t*)rpc.response)[i] = b` -/
  | storeResponse (i : ℕ) (b : UInt8) (next : Prog σ)
  /-- `rpc.response_length = n` -/
  | setResponseLength (n : ℕ) (next : Prog σ)
  /-- Change the callbacks' own variables. -/
  | modify (f : σ → σ) (next : Prog σ)
  /-- `RPC_sendNotification(&rpc, id, data, length)` -/
  | notify (id : UInt8) (data : Source) (length : ℕ) (next : Prog σ)

/-- A callback: id, address and length of the payload to its body. -/
abbrev Handler (σ : Type) := UInt8 → Option Ptr → ℕ → Prog σ

/-- A store through `rpc.response`. -/
def Dev.storeResponse (d : Dev σ) (i : ℕ) (b : UInt8) : Except Fault (Dev σ) :=
  match d.rpc.response with
  | none => .error .null
  | some p => do
    let m ← d.memory.store ⟨p.region, p.offset + i⟩ [b]
    return { d with memory := m }

namespace Prog

/-- One action. -/
def act (gatt : GattServer σ) : Prog σ → Dev σ → Except Fault (Prog σ × Dev σ)
  | .ret, d => .ok (.ret, d)
  | .look k, d => .ok (k d, d)
  | .load p length k, d => do
    let bytes ← d.memory.loadFrom (.ptr p) length
    return (k bytes, d)
  | .storeResponse i b next, d => do
    let d ← d.storeResponse i b
    return (next, d)
  | .setResponseLength n next, d => .ok (next, { d with rpc := { d.rpc with responseLength := n } })
  | .modify f next, d => .ok (next, { d with app := f d.app })
  | .notify id data length next, d => do
    let (d, _) ← sendNotification gatt id data length d
    return (next, d)

/-- All actions in a row. -/
def run (gatt : GattServer σ) : Prog σ → Dev σ → Except Fault (Dev σ)
  | .ret, d => .ok d
  | .look k, d => run gatt (k d) d
  | .load p length k, d => do
    let bytes ← d.memory.loadFrom (.ptr p) length
    run gatt (k bytes) d
  | .storeResponse i b next, d => do
    let d ← d.storeResponse i b
    run gatt next d
  | .setResponseLength n next, d => run gatt next { d with rpc := { d.rpc with responseLength := n } }
  | .modify f next, d => run gatt next { d with app := f d.app }
  | .notify id data length next, d => do
    let (d, _) ← sendNotification gatt id data length d
    run gatt next d

/-- All an action can do, one constructor per kind of action. -/
inductive Acted (gatt : GattServer σ) : Prog σ → Dev σ → Prog σ → Dev σ → Prop
  | ret {d : Dev σ} : Acted gatt .ret d .ret d
  | look {k : Dev σ → Prog σ} {d : Dev σ} : Acted gatt (.look k) d (k d) d
  | load {p : Option Ptr} {length : ℕ} {k : Bytes → Prog σ} {d : Dev σ} {bytes : Bytes}
    (hload : d.memory.loadFrom (.ptr p) length = .ok bytes) : Acted gatt (.load p length k) d (k bytes) d
  | storeResponse {i : ℕ} {b : UInt8} {next : Prog σ} {d d' : Dev σ} (hstore : d.storeResponse i b = .ok d') :
    Acted gatt (.storeResponse i b next) d next d'
  | setResponseLength {n : ℕ} {next : Prog σ} {d : Dev σ} :
    Acted gatt (.setResponseLength n next) d next { d with rpc := { d.rpc with responseLength := n } }
  | modify {f : σ → σ} {next : Prog σ} {d : Dev σ} : Acted gatt (.modify f next) d next { d with app := f d.app }
  | notify {id : UInt8} {data : Source} {length : ℕ} {next : Prog σ} {d d' : Dev σ} {status : Status}
    (hsend : sendNotification gatt id data length d = .ok (d', status)) :
    Acted gatt (.notify id data length next) d next d'

variable {gatt : GattServer σ}

/-- **An action is one of the seven kinds.** -/
theorem act_eq_ok {p p' : Prog σ} {d d' : Dev σ} : p.act gatt d = .ok (p', d') ↔ Acted gatt p d p' d' := by
  constructor
  · intro h
    cases p with
    | ret => cases h; exact .ret
    | look k => cases h; exact .look
    | load a length k =>
      obtain ⟨bytes, hb, h⟩ := bind_eq_ok.mp h
      cases h
      exact .load hb
    | storeResponse i b next =>
      obtain ⟨e, he, h⟩ := bind_eq_ok.mp h
      cases h
      exact .storeResponse he
    | setResponseLength n next => cases h; exact .setResponseLength
    | modify f next => cases h; exact .modify
    | notify id data length next =>
      obtain ⟨⟨e, status⟩, he, h⟩ := bind_eq_ok.mp h
      cases h
      exact .notify he
  · intro h
    cases h with
    | ret | look | setResponseLength | modify => rfl
    | load hload => rw [act, hload, ok_bind]; rfl
    | storeResponse hstore => rw [act, hstore, ok_bind]; rfl
    | notify hsend => rw [act, hsend, ok_bind]; rfl

/-- An action leads to a state from which the rest of the run goes on. -/
theorem run_of_act {p p' : Prog σ} {d d' : Dev σ} (h : p.act gatt d = .ok (p', d')) :
    p.run gatt d = p'.run gatt d' := by
  cases act_eq_ok.mp h with
  | ret | look | setResponseLength | modify => rfl
  | load hload => simp only [run, hload, ok_bind]
  | storeResponse hstore => simp only [run, hstore, ok_bind]
  | notify hsend => simp only [run, hsend, ok_bind]

end Prog

/-- Some actions lead from one point of a callback's run to another. -/
def Reaches (gatt : GattServer σ) : Prog σ × Dev σ → Prog σ × Dev σ → Prop :=
  Relation.ReflTransGen fun s t => s.1.act gatt s.2 = .ok t

/-- **A run is a sequence of actions**: what every action keeps, the run keeps. -/
theorem Prog.reaches_of_run {gatt : GattServer σ} {p : Prog σ} {d d' : Dev σ} (h : p.run gatt d = .ok d') :
    Reaches gatt (p, d) (.ret, d') := by
  induction p generalizing d with
  | ret => cases h; exact .refl
  | look k ih => exact .head rfl (ih d h)
  | load a length k ih =>
    obtain ⟨bytes, hb, h⟩ := bind_eq_ok.mp h
    exact .head (act_eq_ok.mpr (.load hb)) (ih bytes h)
  | storeResponse i b next ih =>
    obtain ⟨e, he, h⟩ := bind_eq_ok.mp h
    exact .head (act_eq_ok.mpr (.storeResponse he)) (ih h)
  | setResponseLength n next ih => exact .head rfl (ih h)
  | modify f next ih => exact .head rfl (ih h)
  | notify id data length next ih =>
    obtain ⟨⟨e, status⟩, he, h⟩ := bind_eq_ok.mp h
    exact .head (act_eq_ok.mpr (.notify he)) (ih h)

/-! ## What actions leave alone -/

/-- `rpc.response` is the buffer `main` installed. -/
def Dev.Installed (d : Dev σ) : Prop := d.rpc.response = some ⟨.rcpResponseBuffer, 0⟩

/-- The part of the history no action adds to: calls and responses. -/
def dispatches (trace : List Observation) : List Observation :=
  trace.filter fun
    | .sent .rpcNotification _ => false
    | _ => true

@[simp] theorem dispatches_append (t u : List Observation) : dispatches (t ++ u) = dispatches t ++ dispatches u :=
  List.filter_append ..

/-- What is read off a history without its notifications is read off its dispatches. -/
theorem filterMap_dispatches {α : Type} {f : Observation → Option α}
    (hf : ∀ value, f (.sent .rpcNotification value) = none) (t : List Observation) :
    (dispatches t).filterMap f = t.filterMap f := by
  rw [dispatches, List.filterMap_filter]
  apply List.filterMap_congr
  intro o _
  cases o with
  | called id data length => rfl
  | sent uuid value =>
    cases uuid with
    | rpcNotification => exact (hf value).symm
    | _ => rfl

/-- What no action of a callback touches. -/
structure Undisturbed (d d' : Dev σ) : Prop where
  response : d'.rpc.response = d.rpc.response
  responseId : d'.rpc.responseId = d.rpc.responseId
  command : d'.rpc.command = d.rpc.command
  commandId : d'.rpc.commandId = d.rpc.commandId
  commandLength : d'.rpc.commandLength = d.rpc.commandLength
  commandReceivedSem : d'.rpc.commandReceivedSem = d.rpc.commandReceivedSem
  packet : d'.memory .rpcProfileCommand = d.memory .rpcProfileCommand
  snapshot : d'.memory .rpcProfileResponse = d.memory .rpcProfileResponse
  dispatches : dispatches d'.trace = dispatches d.trace

theorem Undisturbed.refl (d : Dev σ) : Undisturbed d d := ⟨rfl, rfl, rfl, rfl, rfl, rfl, rfl, rfl, rfl⟩

theorem Undisturbed.trans {d e f : Dev σ} (h : Undisturbed d e) (h' : Undisturbed e f) : Undisturbed d f where
  response := h'.response.trans h.response
  responseId := h'.responseId.trans h.responseId
  command := h'.command.trans h.command
  commandId := h'.commandId.trans h.commandId
  commandLength := h'.commandLength.trans h.commandLength
  commandReceivedSem := h'.commandReceivedSem.trans h.commandReceivedSem
  packet := h'.packet.trans h.packet
  snapshot := h'.snapshot.trans h.snapshot
  dispatches := h'.dispatches.trans h.dispatches

theorem Undisturbed.installed {d d' : Dev σ} (h : Undisturbed d d') (hd : d.Installed) : d'.Installed :=
  h.response.trans hd

/-- A store through `rpc.response` changes the array it points to. -/
theorem storeResponse_inv {d d' : Dev σ} {i : ℕ} {b : UInt8} (h : d.storeResponse i b = .ok d') :
    ∃ p m, d.rpc.response = some p ∧ d.memory.store ⟨p.region, p.offset + i⟩ [b] = .ok m ∧
      d' = { d with memory := m } := by
  unfold Dev.storeResponse at h
  split at h
  · cases h
  · rename_i p hp
    obtain ⟨m, hm, h⟩ := bind_eq_ok.mp h
    cases h
    exact ⟨p, m, hp, hm, rfl⟩

/-- With the buffer installed, it stays in the response buffer. -/
theorem undisturbed_storeResponse {d d' : Dev σ} {i : ℕ} {b : UInt8} (hd : d.Installed)
    (h : d.storeResponse i b = .ok d') : Undisturbed d d' := by
  obtain ⟨p, m, hp, hm, rfl⟩ := storeResponse_inv h
  unfold Dev.Installed at hd
  rw [hd] at hp
  cases hp
  exact ⟨rfl, rfl, rfl, rfl, rfl, rfl, Memory.store_frame hm (by simp), Memory.store_frame hm (by simp), rfl⟩

theorem undisturbed_sendNotification {gatt : GattServer σ} {d d' : Dev σ} {id : UInt8} {data : Source} {length : ℕ}
    {status : Status} (h : sendNotification gatt id data length d = .ok (d', status)) : Undisturbed d d' := by
  obtain ⟨m, live, _, _, _, _, hf, rfl⟩ := sendNotification_inv h
  exact ⟨rfl, rfl, rfl, rfl, rfl, rfl, hf _ (by decide), hf _ (by decide), by simp [dispatches]⟩

/-- **Frame of an action.** -/
theorem undisturbed_act {gatt : GattServer σ} {p p' : Prog σ} {d d' : Dev σ} (hd : d.Installed)
    (h : p.act gatt d = .ok (p', d')) : Undisturbed d d' := by
  cases Prog.act_eq_ok.mp h with
  | ret | look | load => exact .refl d
  | storeResponse hstore => exact undisturbed_storeResponse hd hstore
  | setResponseLength | modify => exact ⟨rfl, rfl, rfl, rfl, rfl, rfl, rfl, rfl, rfl⟩
  | notify hsend => exact undisturbed_sendNotification hsend

/-- What the actions so far have left alone. -/
theorem undisturbed_of_reaches {gatt : GattServer σ} {s t : Prog σ × Dev σ} (hd : s.2.Installed)
    (hr : Reaches gatt s t) : Undisturbed s.2 t.2 := by
  induction hr with
  | refl => exact .refl _
  | tail _ hact ih => exact ih.trans (undisturbed_act (ih.installed hd) hact)

/-- **Frame of a callback.** -/
theorem undisturbed_run {gatt : GattServer σ} {p : Prog σ} {d d' : Dev σ} (hd : d.Installed)
    (h : p.run gatt d = .ok d') : Undisturbed d d' :=
  undisturbed_of_reaches (s := (p, d)) (t := (.ret, d')) hd (Prog.reaches_of_run h)

end BleRpc.Device
