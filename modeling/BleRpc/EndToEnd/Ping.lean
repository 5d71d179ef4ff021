import BleRpc.Device.Progress
import BleRpc.EndToEnd.System

/-!
# Pinging, from reset

`Budget` counts what is left to happen: the worker's steps, and for each value asked for the arrival of its packet, the
return of its write, its response, and its reading. Every event spends one of it (`spend`) and only asking adds to it,
so what has been asked for is read after boundedly many events, whatever the interleaving.

- `ping_end_to_end`: what a run reads, and what the device sends in it;
- `ping_completes`: every sequence of values has a run that reads them all.
-/

namespace BleRpc.EndToEnd

open Device (testRcpCallbacks testRcpCallbacks_brief iteration)
open Host (PyFloat)
open Transition

variable {F : Type}

/-- Whether the call under way awaits its write. -/
def sending (s : EndToEnd F) : ℕ := if s.client.stage s.current = .writing then 1 else 0

/-- What is left to happen. -/
def Budget (s : EndToEnd F) (n : ℕ) : Prop :=
  ∃ m, s.device.worker.Left 13 testRcpCallbacks m ∧
    n = m + (iteration 13 testRcpCallbacks + 1) * (s.inputs.length - s.device.written.length) + s.sending +
      (s.inputs.length - s.client.received.length) + (s.inputs.length - s.got.length)

/-- What the values asked for so far have brought in. -/
def earned (s : EndToEnd F) : ℕ := 40 * s.inputs.length

theorem iteration_testRcpCallbacks : iteration 13 testRcpCallbacks = 35 := rfl

theorem budget_init (fresh : Host.Rpc) : Budget (init fresh : EndToEnd F) 0 := ⟨0, ⟨0, .waiting, rfl⟩, rfl⟩

section Steps

variable {gatt : Device.GattServer UInt32} {s s' : EndToEnd F}

theorem sending_le (s : EndToEnd F) : s.sending ≤ 1 := by
  rw [sending]
  split <;> omega

variable [PyFloat F] {n : ℕ}

theorem spend_ask (hi : Inv gatt s) (hb : Budget s n) {v : ℤ} (h : s.step gatt (.ask v) = some s') :
    ∃ m, Budget s' m ∧ m + 1 + s.earned ≤ n + s'.earned := by
  by_cases hgot : s.got.length = s.inputs.length
  · obtain ⟨rpc, _, hstep⟩ := ask_ok hi hgot v
    rw [hstep] at h
    cases h
    obtain ⟨k, hk, rfl⟩ := hb
    refine ⟨_, ⟨k, hk, rfl⟩, ?_⟩
    have hlen : (s.inputs ++ [v]).length = s.inputs.length + 1 := by simp
    have hwritten := hi.written_le
    have hrecv := hi.received.trans hi.responses_le
    have hone := sending_le { s with
      rpc := rpc
      client := (s.client.call s.inputs.length (packetOf v)).enter s.inputs.length
        (s.client.commandLock.take s.inputs.length)
      inputs := s.inputs ++ [v] }
    have hreceived : ((s.client.call s.inputs.length (packetOf v)).enter s.inputs.length
        (s.client.commandLock.take s.inputs.length)).received = s.client.received := rfl
    simp only [earned, hlen, hreceived, iteration_testRcpCallbacks]
    omega
  · rw [step, if_neg hgot] at h
    cases h

theorem spend_reach (hi : Inv gatt s) (hb : Budget s n) (h : s.step gatt .reach = some s') :
    ∃ m, Budget s' m ∧ m + 1 + s.earned ≤ n + s'.earned := by
  have hlen : s.client.writes.length = s.inputs.length := by simpa using congrArg List.length hi.writes
  by_cases hlt : s.device.written.length < s.inputs.length
  · obtain ⟨i, v, _, hw⟩ := hi.write_eq hlt
    simp only [step, hw, Device.writeAttrCB_command] at h
    cases hd : Device.writeCommand (packetOf v) s.device.worker.dev with
    | error e => simp [hd] at h
    | ok d =>
      simp only [hd, Outcome.ok_bind, Option.some.injEq] at h
      subst h
      obtain ⟨k, hk, rfl⟩ := hb
      refine ⟨_, ⟨_, Device.Worker.left_write hk (Device.writeCommand_inv hd).2, rfl⟩, ?_⟩
      have hsame : sending { s with device := ⟨⟨s.device.worker.pc, d⟩,
          s.device.written ++ [Device.Command.ofPacket (packetOf v)]⟩ } = s.sending := rfl
      rw [hsame]
      simp only [earned, List.length_append, List.length_singleton, iteration_testRcpCallbacks]
      omega
  · rw [step, List.getElem?_eq_none (by omega)] at h
    cases h

theorem spend_written (hi : Inv gatt s) (hb : Budget s n) (h : s.step gatt .written = some s') :
    ∃ m, Budget s' m ∧ m + 1 + s.earned ≤ n + s'.earned := by
  by_cases hlen : s.client.writes.length = s.device.written.length
  · rw [step, if_pos hlen] at h
    obtain ⟨c, hc, rfl⟩ := Option.map_eq_some_iff.mp h
    obtain ⟨hstage, hmove⟩ := Host.Client.written_inv hc
    have hin := (hi.client.locked.holder _).mpr (Host.Client.inside_of_writing hstage)
    have hsome : s.client.responseFuture ≠ none := by
      intro hnone
      rw [hi.client.linked.guarded.mp hnone] at hin
      cases hin
    obtain ⟨f, hf⟩ := Option.ne_none_iff_exists'.mp hsome
    obtain ⟨k, hk, rfl⟩ := hb
    refine ⟨_, ⟨k, hk, rfl⟩, ?_⟩
    have hwas : s.sending = 1 := if_pos hstage
    have hnow : sending { s with client := s.client.move s.current (.waiting f) } = 0 := by
      apply if_neg
      show Function.update s.client.stage s.current (.waiting f) s.current ≠ .writing
      rw [Function.update_self]
      intro h
      cases h
    rw [hmove f hf, hwas, hnow]
    simp only [earned]
    have hreceived : (s.client.move s.current (.waiting f)).received = s.client.received := rfl
    rw [hreceived]
    omega
  · rw [step, if_neg hlen] at h
    cases h

theorem spend_work (hi : Inv gatt s) (hb : Budget s n) (h : s.step gatt .work = some s') :
    ∃ m, Budget s' m ∧ m + 1 + s.earned ≤ n + s'.earned := by
  obtain ⟨w, hw, rfl⟩ := Option.map_eq_some_iff.mp h
  obtain ⟨k, hk, rfl⟩ := hb
  obtain ⟨m, hm, hle⟩ := Device.Worker.left_step testRcpCallbacks_brief hi.device.inv.installed hk
    (Device.Worker.step_worked hw)
  refine ⟨_, ⟨m, hm, rfl⟩, ?_⟩
  have hsame : sending { s with device := ⟨w, s.device.written⟩ } = s.sending := rfl
  rw [hsame]
  simp only [earned]
  omega

theorem spend_deliver (hi : Inv gatt s) (hb : Budget s n) (h : s.step gatt .deliver = some s') :
    ∃ m, Budget s' m ∧ m + 1 + s.earned ≤ n + s'.earned := by
  obtain ⟨data, hdata, rfl⟩ := Option.map_eq_some_iff.mp h
  have hlt := (List.getElem?_eq_some_iff.mp hdata).1
  have hresp := hi.responses_le
  have hwritten := hi.written_le
  have hkept := Host.Client.responseHandler_kept s.client data
  have hrecv := Host.Client.responseHandler_received s.client data
  obtain ⟨k, hk, rfl⟩ := hb
  refine ⟨_, ⟨k, hk, rfl⟩, ?_⟩
  have hsame : sending { s with client := (s.client.responseHandler data).1 } = s.sending := by
    rw [sending, sending, current, current, hkept.stage]
  rw [hsame]
  simp only [earned, hrecv, List.length_append, List.length_singleton]
  omega

theorem spend_finish (hi : Inv gatt s) (hb : Budget s n) (h : s.step gatt .finish = some s') :
    ∃ m, Budget s' m ∧ m + 1 + s.earned ≤ n + s'.earned := by
  obtain ⟨f, r, hstage, _, rfl⟩ := finish_inv h
  obtain ⟨hbusy, _⟩ := hi.busy (Host.Client.inside_of_waiting hstage)
  have hgot : ({ s with client := s.client.leave s.current (.returned f r) }.read r.data).got.length =
      s.got.length + 1 := List.length_append
  obtain ⟨k, hk, rfl⟩ := hb
  refine ⟨_, ⟨k, hk, rfl⟩, ?_⟩
  have hnow : sending ({ s with client := s.client.leave s.current (.returned f r) }.read r.data) = 0 := by
    apply if_neg
    show Function.update s.client.stage s.current (.returned f r) s.current ≠ .writing
    rw [Function.update_self]
    intro h
    cases h
  have hreceived : (s.client.leave s.current (.returned f r)).received = s.client.received := rfl
  rw [hnow, hgot]
  simp only [earned, read_client, read_device, read_inputs, hreceived]
  omega

/-- **Every event spends one of the budget**, and asking adds 40. -/
theorem spend (hi : Inv gatt s) (hb : Budget s n) {e : Event} (h : s.step gatt e = some s') :
    ∃ m, Budget s' m ∧ m + 1 + s.earned ≤ n + s'.earned := by
  cases e with
  | ask v => exact spend_ask hi hb h
  | reach => exact spend_reach hi hb h
  | written => exact spend_written hi hb h
  | work => exact spend_work hi hb h
  | deliver => exact spend_deliver hi hb h
  | finish => exact spend_finish hi hb h

/-- Only asking adds a value. -/
theorem inputs_step {e : Event} (he : ∀ v, e ≠ .ask v) (h : s.step gatt e = some s') : s'.inputs = s.inputs := by
  cases e with
  | ask v => exact absurd rfl (he v)
  | reach =>
    rw [step] at h
    split at h
    · split at h <;> cases h
      rfl
    · cases h
  | written =>
    by_cases hlen : s.client.writes.length = s.device.written.length
    · rw [step, if_pos hlen] at h
      obtain ⟨c, _, rfl⟩ := Option.map_eq_some_iff.mp h
      rfl
    · rw [step, if_neg hlen] at h
      cases h
  | work => obtain ⟨w, _, rfl⟩ := Option.map_eq_some_iff.mp h; rfl
  | deliver => obtain ⟨data, _, rfl⟩ := Option.map_eq_some_iff.mp h; rfl
  | finish => obtain ⟨f, r, _, _, rfl⟩ := finish_inv h; rfl

end Steps

/-! ## Runs -/

/-- What the host has read, what the device has called and sent for it, and what can happen next, after a number of
events. -/
structure Pinged [PyFloat F] (gatt : Device.GattServer UInt32) (s : EndToEnd F) (events : ℕ) : Prop where
  readings : s.got = (List.range s.got.length).map (reading s.inputs)
  history : s.device.worker.dev.trace <+: rounds s.inputs
  complete : s.got.length = s.inputs.length → s.device.worker.dev.trace = rounds s.inputs
  bounded : events ≤ 40 * s.inputs.length
  rested : s.got.length = s.inputs.length → ∀ v, ∃ s', s.step gatt (.ask v) = some s'
  alive : s.got.length ≠ s.inputs.length → ∃ e s', (∀ v, e ≠ .ask v) ∧ s.step gatt e = some s'

section Runs

variable {gatt : Device.GattServer UInt32} {s : EndToEnd F}

/-- The history is that of the rounds, as far as it has come. -/
theorem Inv.history (hi : Inv gatt s) : s.device.worker.dev.trace <+: rounds s.inputs := by
  have hwritten : s.device.written <+: s.inputs.map commandOf := by
    rw [hi.written]
    exact (List.take_prefix _ _).map commandOf
  rw [← history_commandOf]
  exact hi.device.trace_prefix.trans (Device.Service.history_prefix hwritten)

/-- When everything has been read, the history is that of all rounds. -/
theorem Inv.complete (hi : Inv gatt s) (hgot : s.got.length = s.inputs.length) :
    s.device.worker.dev.trace = rounds s.inputs := by
  cases hi.round with
  | resting _ _ hw hr =>
    have hmay : s.device.MayWrite := by
      have hrecv := hi.received
      exact mayWrite_iff.mpr (by omega)
    have hwritten := hi.written
    rw [hw, List.take_length] at hwritten
    rw [hi.device.spec.2.1 hmay, hwritten, history_commandOf]
  | asked h | underway h | answered h => omega

variable [PyFloat F]

/-- Every run keeps the invariant and spends its budget. -/
theorem run_ok (hmax : 6 ≤ gatt.maxLen.toNat) {fresh : Host.Rpc}
    (hread : Host.readRpcParameters Host.rpcData = .ok fresh) {events : List Event}
    (h : run (step gatt) (init fresh) events = some s) :
    Inv gatt s ∧ ∃ m, Budget s m ∧ events.length + m ≤ s.earned := by
  have hkeep : ∀ (s : EndToEnd F) e s', Inv gatt s → s.step gatt e = some s' → Inv gatt s' :=
    fun _ _ _ hi hs => inv_step hmax hi hs
  have hspend : ∀ (s : EndToEnd F) e s' n, Inv gatt s → Budget s n → s.step gatt e = some s' →
      ∃ m, Budget s' m ∧ m + 1 + s.earned ≤ n + s'.earned := fun _ _ _ _ hi hb hs => spend hi hb hs
  obtain ⟨m, hm, hle⟩ := run_budget hkeep hspend (inv_init fresh hread) (budget_init fresh) h
  have hzero : (init fresh : EndToEnd F).earned = 0 := rfl
  exact ⟨run_inv hkeep (inv_init fresh hread) h, m, hm, by omega⟩

/-- What has been asked for can be read. -/
theorem read_through (hmax : 6 ≤ gatt.maxLen.toNat) (hi : Inv gatt s) {n : ℕ} (hb : Budget s n) :
    ∃ events s', run (step gatt) s events = some s' ∧ s'.inputs = s.inputs ∧ s'.got.length = s'.inputs.length := by
  have hspend : ∀ (s : EndToEnd F) e s' n, Inv gatt s → (∀ v, e ≠ .ask v) → Budget s n → s.step gatt e = some s' →
      ∃ m, Budget s' m ∧ m < n := by
    intro s e s' n hi he hb hs
    obtain ⟨m, hm, hle⟩ := spend hi hb hs
    rw [earned, earned, inputs_step he hs] at hle
    exact ⟨m, hm, by omega⟩
  have hgo : ∀ s : EndToEnd F, Inv gatt s → ¬ s.got.length = s.inputs.length →
      ∃ e s', (∀ v, e ≠ .ask v) ∧ s.step gatt e = some s' := fun _ hi hne => hi.alive.2 hne
  have hsame : ∀ (t : EndToEnd F) e t', t.inputs = s.inputs → (∀ v, e ≠ .ask v) → t.step gatt e = some t' →
      t'.inputs = s.inputs := fun _ _ _ hin he hs => (inputs_step he hs).trans hin
  obtain ⟨events, s', hq, hrun, hdone⟩ := run_done (fun _ _ _ hi hs => inv_step hmax hi hs) hspend hgo hi hb
  exact ⟨events, s', hrun,
    run_inv_of_meets (I := fun t : EndToEnd F => t.inputs = s.inputs) hsame rfl (meets_of_forall hq) hrun, hdone⟩

/-- Every sequence of values has a run that reads them all. -/
theorem ping_completes (hmax : 6 ≤ gatt.maxLen.toNat) {fresh : Host.Rpc}
    (hread : Host.readRpcParameters Host.rpcData = .ok fresh) (vs : List ℤ) :
    ∃ events, ∃ s : EndToEnd F, run (step gatt) (init fresh) events = some s ∧ s.inputs = vs ∧
      s.got.length = s.inputs.length := by
  induction vs using List.reverseRecOn with
  | nil => exact ⟨[], _, rfl, rfl, rfl⟩
  | append_singleton vs v ih =>
    obtain ⟨events, s, hrun, rfl, hgot⟩ := ih
    obtain ⟨hi, n, hb, _⟩ := run_ok hmax hread hrun
    obtain ⟨rpc, _, hask⟩ := ask_ok hi hgot v
    obtain ⟨m, hm, _⟩ := spend hi hb hask
    obtain ⟨rest, t, hrest, hin, hdone⟩ := read_through hmax (inv_step hmax hi hask) hm
    refine ⟨events ++ .ask v :: rest, t, run_trans hrun ?_, hin, hdone⟩
    rw [run_cons, hask]
    exact hrest

/-- **End to end.** From reset with the shipped table, whatever the interleaving: the `k`-th value read is the number of
pings so far modulo `2 ^ 32`; the device's history is one round a command; and every value asked for is read, since an
event can happen until then and only so many do. -/
theorem ping_end_to_end (hmax : 6 ≤ gatt.maxLen.toNat) {fresh : Host.Rpc}
    (hread : Host.readRpcParameters Host.rpcData = .ok fresh) (events : List Event) (s : EndToEnd F)
    (h : run (step gatt) (init fresh) events = some s) : Pinged gatt s events.length := by
  obtain ⟨hi, m, _, hle⟩ := run_ok hmax hread h
  have hearned : s.earned = 40 * s.inputs.length := rfl
  exact ⟨hi.got, hi.history, hi.complete, by omega, hi.alive.1, hi.alive.2⟩

/-- Of five values the first, the second, the fourth and the fifth count, and the third count is notified. -/
theorem ping_end_to_end_five : ∃ fresh events, ∃ s : EndToEnd Empty,
    run (step (.plain 251)) (init fresh) events = some s ∧ s.inputs = [1, 257, 2, -255, 1] ∧
      s.got = [1, 2, 2, 3, 4].map fun n => .ok (.scalar (.int n)) := by
  obtain ⟨fresh, hread⟩ : ∃ fresh, Host.readRpcParameters Host.rpcData = .ok fresh := ⟨_, rfl⟩
  have hmax : 6 ≤ (Device.GattServer.plain (σ := UInt32) 251).maxLen.toNat := by decide
  obtain ⟨events, s, hrun, hin, hgot⟩ := ping_completes (F := Empty) hmax hread [1, 257, 2, -255, 1]
  have hpinged := ping_end_to_end hmax hread events s hrun
  refine ⟨fresh, events, s, hrun, hin, ?_⟩
  rw [hpinged.readings, hgot, hin]
  rfl

end Runs

end BleRpc.EndToEnd
