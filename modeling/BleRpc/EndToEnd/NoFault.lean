import BleRpc.Device.Framing
import BleRpc.Device.Safety
import BleRpc.EndToEnd.Calls

/-!
# What calls cannot do

Any number of calls over a firmware with bounded callbacks, with no condition on the run: calls time out and are
cancelled, commands reach the device early, responses are delivered late.

`calls_never_fault`: the packets that the host lets through never make the device fault, and those that the device sends
never make `response_handler` raise.
-/

namespace BleRpc.Calls

open Device (BoundedTable Command Entry GattServer Handler InBounds Worker testRcpCallbacks)
open Transition

variable {σ : Type} {gatt : GattServer σ} {table : List (Entry (Handler σ))}

/-! ## The client's packets -/

/-- What has been written, or waits to be, has passed the checks of `send_command`. -/
structure Checked (s : Host.Client) : Prop where
  writes : ∀ w ∈ s.writes, Host.checkCommand w.2 = .ok ()
  queued : ∀ i, s.stage i = .queued → Host.checkCommand (s.command i) = .ok ()

theorem checked_init : Checked .init := ⟨nofun, nofun⟩

/-- A call changes its stage, and does not queue. -/
theorem Checked.move {s s' : Host.Client} {i : ℕ} {st : Host.Stage} (h : Checked s) (hw : s'.writes = s.writes)
    (hstage : s'.stage = Function.update s.stage i st) (hst : st ≠ .queued)
    (hcmd : ∀ j, j ≠ i → s'.command j = s.command j) : Checked s' := by
  refine ⟨hw ▸ h.writes, ?_⟩
  intro j hj
  rw [hstage] at hj
  by_cases hji : j = i
  · subst hji
    rw [Function.update_self] at hj
    exact absurd hj hst
  · rw [Function.update_of_ne hji] at hj
    rw [hcmd j hji]
    exact h.queued j hj

/-- A call whose command has passed writes it. -/
theorem Checked.enter {s : Host.Client} {i : ℕ} {lock : FairLock ℕ} (h : Checked s)
    (hi : Host.checkCommand (s.command i) = .ok ()) : Checked (s.enter i lock) := by
  refine ⟨?_, ?_⟩
  · intro w hw
    rcases List.mem_append.mp hw with hw | hw
    · exact h.writes w hw
    · rw [List.mem_singleton.mp hw]
      exact hi
  · intro j hj
    by_cases hji : j = i
    · simp [Host.Client.enter, hji] at hj
    · exact h.queued j (by simpa [Host.Client.enter, hji] using hj)

theorem checked_start {s c : Host.Client} {i : ℕ} {command : Host.Bytes} (h : Checked s)
    (hs : s.step (.start i command) = some c) : Checked c := by
  obtain ⟨hidle, hstart⟩ := Host.Client.start_inv hs
  have hcmd : ∀ j, j ≠ i → (s.call i command).command j = s.command j := fun j hj => Function.update_of_ne hj _ _
  have hself : (s.call i command).command i = command := Function.update_self _ _ _
  have hown : s.checkSend command = .ok () → Host.checkCommand ((s.call i command).command i) = .ok () := by
    intro hok
    rw [Host.Client.checkSend] at hok
    split at hok
    · rwa [hself]
    · cases hok
  cases hstart with
  | refused => exact h.move rfl (by rfl) (by simp) hcmd
  | opened hok =>
    refine Checked.enter ⟨h.writes, ?_⟩ (hown hok)
    intro j hj
    have hj : s.stage j = .queued := hj
    have hji : j ≠ i := by
      intro hji
      rw [hji, hidle] at hj
      cases hj
    rw [hcmd j hji]
    exact h.queued j hj
  | joined hok =>
    refine ⟨h.writes, ?_⟩
    intro j hj
    by_cases hji : j = i
    · rw [hji]
      exact hown hok
    · show Host.checkCommand ((s.call i command).command j) = _
      rw [hcmd j hji]
      exact h.queued j (by simpa [Host.Client.move, Host.Client.call, hji] using hj)

/-- **Only checked packets are written**, in every run. -/
theorem checked_step {s c : Host.Client} {e : Host.Client.Event} (hi : s.Inv) (h : Checked s)
    (hs : s.step e = some c) : Checked c := by
  by_cases he : ∃ i command, e = .start i command
  · obtain ⟨i, command, rfl⟩ := he
    exact checked_start h hs
  · cases Host.Client.step_moved hs with
    | rejected | opened | joined => exact absurd ⟨_, _, rfl⟩ he
    | connection up => exact ⟨h.writes, h.queued⟩
    | @granted i lock hg =>
      refine h.enter (h.queued i ?_)
      rw [← hi.locked.waiters, (FairLock.grant_eq_some hg).2.1]
      exact List.mem_cons_self
    | awaits => exact h.move rfl (by rfl) (by simp) fun _ _ => rfl
    | left _ _ hends => exact h.move rfl (by rfl) hends.out.2 fun _ _ => rfl
    | gaveUp => exact h.move rfl (by rfl) (by simp) fun _ _ => rfl
    | notified data =>
      have hk := Host.Client.responseHandler_kept s data
      exact ⟨hk.writes ▸ h.writes, by rw [hk.stage, hk.command]; exact h.queued⟩

/-! ## The device's packets -/

/-- All responses sent are packets that `response_handler` takes. -/
theorem wellFormed_work {w w' : Worker σ} (hd : w.dev.Installed) (hw : Worker.Worked gatt table w w')
    (h : ∀ data ∈ Device.responses w.dev.trace, Host.WellFormed data) :
    ∀ data ∈ Device.responses w'.dev.trace, Host.WellFormed data := by
  cases hw with
  | wait | finish | skip | hit | label => exact h
  | call =>
    intro data hdata
    rw [Device.responses_call] at hdata
    exact h data hdata
  | act _ hact =>
    intro data hdata
    rw [← Device.responses_dispatches, (Device.undisturbed_act hd hact).dispatches, Device.responses_dispatches] at hdata
    exact h data hdata
  | send hsend =>
    obtain ⟨m, live, _, hle, _, hload, _, rfl⟩ := Device.sendResponse_inv (Device.outside_of_responseBuffer hd) hsend
    intro data hdata
    rw [Device.Dev.observe_trace, Device.responses_append] at hdata
    rcases List.mem_append.mp hdata with hdata | hdata
    · exact h data hdata
    · rw [List.mem_singleton.mp hdata]
      exact Device.wellFormed_of_le _ (Device.Memory.length_of_loadFrom hload) hle

/-- `response_handler` raises nothing on a packet that passes its checks. -/
theorem responseHandler_ok {s : Host.Client} (hi : s.Inv) {data : Host.Bytes} (hwf : Host.WellFormed data) :
    (s.responseHandler data).2 = .ok () := by
  unfold Host.Client.responseHandler
  rw [Host.checkResponse_ok.mpr hwf]
  cases hf : s.responseFuture with
  | none => rfl
  | some f =>
    by_cases hd : s.isDone f
    · simp [hd]
    · have hpend := Host.Client.pending_of_not_isDone (hi.current_lt f hf) hd
      have hpend' : (s.receive data).futures[f]? = some .pending := hpend
      simp [hd, Host.Client.setResult, hpend']

/-! ## Every run -/

structure Guarded (gatt : GattServer σ) (s : Calls σ) : Prop where
  client : s.client.Inv
  checked : Checked s.client
  device : s.device.worker.Safe gatt
  wellFormed : ∀ data ∈ s.responses, Host.WellFormed data

theorem guarded_init (hmax : 2 ≤ gatt.maxLen.toNat) (app : σ) : Guarded gatt (init app) :=
  ⟨Host.Client.inv_init, checked_init, Worker.safe_init hmax app, nofun⟩

theorem guarded_step (ht : BoundedTable gatt table) {s s' : Calls σ} {e : Event} (h : Guarded gatt s)
    (hs : s.step gatt table e = some s') : Guarded gatt s' := by
  cases e with
  | loop e =>
    by_cases he : e.packets = [] ∧ s.Acknowledged e
    · simp only [step, if_pos he] at hs
      obtain ⟨c, hc, rfl⟩ := Option.map_eq_some_iff.mp hs
      exact ⟨Host.Client.inv_step h.client hc, checked_step h.client h.checked hc, h.device, h.wellFormed⟩
    · rw [step, if_neg he] at hs
      cases hs
  | reach k =>
    obtain ⟨i, packet, d, _, _, hst, rfl⟩ := step_reach_stored hs
    refine ⟨h.client, h.checked, ⟨⟨?_, ?_, ?_⟩, .inl ?_, ?_, h.device.pc⟩, ?_⟩
    · exact (congrArg Device.Rpc.response hst.rpc).trans h.device.dev.installed
    · exact (congrArg Device.Rpc.responseLength hst.rpc) ▸ h.device.dev.response
    · exact (congrArg Device.Rpc.notificationLength hst.rpc) ▸ h.device.dev.notification
    · exact congrArg Device.Rpc.command hst.rpc
    · exact (congrArg Device.Rpc.commandLength hst.rpc) ▸ UInt8.toNat_lt _
    · intro data hdata
      have hdata : data ∈ Device.responses d.trace := hdata
      rw [hst.trace] at hdata
      exact h.wellFormed data hdata
  | work =>
    obtain ⟨w, hw, rfl⟩ := Option.map_eq_some_iff.mp hs
    have hworked := Worker.step_worked hw
    exact ⟨h.client, h.checked, Worker.safe_step ht h.device hworked,
      wellFormed_work h.device.dev.installed hworked h.wellFormed⟩
  | deliver =>
    obtain ⟨data, _, rfl⟩ := Option.map_eq_some_iff.mp hs
    exact ⟨Host.Client.inv_step h.client (e := .notify data) rfl, checked_step h.client h.checked (e := .notify data) rfl,
      h.device, h.wellFormed⟩

/-- **Calls never make the device fault, nor the device the client raise**, whenever they time out, are cancelled, write
early or are answered late: a command that has been written and has not reached the device can; the worker can take a
step unless it waits and there is nothing to take; the next response is handled without an exception. -/
theorem calls_never_fault (gatt : GattServer σ) (ht : BoundedTable gatt table) (hmax : 2 ≤ gatt.maxLen.toNat) (app : σ)
    (events : List Event) (s : Calls σ) (h : run (step gatt table) (init app) events = some s) :
    InBounds gatt s.device.worker.dev ∧
      (∀ k < s.client.writes.length, k ∉ s.reached → ∃ s', s.step gatt table (.reach k) = some s') ∧
      ((∃ s', s.step gatt table .work = some s') ↔ ¬ s.device.worker.Blocked) ∧
      ∀ data ∈ s.responses, (s.client.responseHandler data).2 = .ok () := by
  have hg : Guarded gatt s := run_inv (fun _ _ _ hi hs => guarded_step ht hi hs) (guarded_init hmax app) h
  refine ⟨hg.device.dev, ?_, ?_, fun data hdata => responseHandler_ok hg.client (hg.wellFormed data hdata)⟩
  · intro k hk hnew
    obtain ⟨⟨i, packet⟩, hw⟩ : ∃ w, s.client.writes[k]? = some w := ⟨_, List.getElem?_eq_getElem hk⟩
    have hcheck := hg.checked.writes (i, packet) (List.mem_of_getElem? hw)
    obtain ⟨d, hd, _⟩ := Device.accepted_of_check gatt hcheck 0 s.device.worker.dev
    exact ⟨_, by simp only [step, hw, if_neg hnew, hd]; rfl⟩
  · rw [← Worker.step_iff table hg.device]
    show (∃ s', (s.device.worker.step gatt table).map _ = some s') ↔ _
    cases s.device.worker.step gatt table <;> simp

/-- A call is cancelled while its command is on the way; the next call's command overtakes it, and the first arrives
while the worker scans the table. -/
def crossed : List Event :=
  [.loop (.connection true), .loop (.start 0 [0, 1, 1]), .loop (.start 1 [0, 1, 2]), .loop (.cancel 0), .loop .acquire,
    .reach 1, .loop (.written 1), .work, .work, .reach 0, .work, .work, .work, .work]

/-- The worker goes on. -/
theorem calls_never_fault_crossed : ∃ s, run (step (.plain 251) testRcpCallbacks) (init 0) crossed = some s ∧
    s.reached = [1, 0] ∧ InBounds (.plain 251) s.device.worker.dev ∧
    ∃ s', s.step (.plain 251) testRcpCallbacks .work = some s' := by
  have hspec := calls_never_fault (.plain 251) (Device.testRcpCallbacks_bounded (by decide)) (by decide) 0 crossed _ rfl
  refine ⟨_, rfl, rfl, hspec.1, hspec.2.2.1.mpr ?_⟩
  intro hb
  cases hb.1

end BleRpc.Calls
