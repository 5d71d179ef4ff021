import BleRpc.Device.Service
import BleRpc.Lib.BigEndian

/-!
# The shipped callback

`ping_device` of `main_freertos.c` and its table. The callback counts the commands whose first payload byte is 1,
answers with the counter in four bytes, and sends a notification with the same bytes when the counter is divisible by 3.

`pingService` says so without steps; `ping_device_serves` is the proof.
-/

namespace BleRpc.Device

open Outcome

/-- `ping_device` after the count, on `ping_counter`. -/
def respond : Prog UInt32 :=
  .look fun d => .storeResponse 0 ((d.app >>> 24) &&& 255).toUInt8 <|
  .look fun d => .storeResponse 1 ((d.app >>> 16) &&& 255).toUInt8 <|
  .look fun d => .storeResponse 2 ((d.app >>> 8) &&& 255).toUInt8 <|
  .look fun d => .storeResponse 3 (d.app &&& 255).toUInt8 <|
  .look fun d =>
    if d.app % 3 = 0 then .notify 1 (.ptr d.rpc.response) 4 (.setResponseLength 4 .ret)
    else .setResponseLength 4 .ret

/-- `ping_device`. -/
def pingDevice : Handler UInt32 := fun _ data _ =>
  .load data 1 fun payload => if payload.getD 0 0 = 1 then .modify (· + 1) respond else respond

/-- `test_rcp_callbacks`. -/
def testRcpCallbacks : List (Entry (Handler UInt32)) := [⟨0x00, some pingDevice⟩, ⟨0, none⟩]

/-! ## What it is for -/

/-- The counter as it is sent. -/
def counterBytes (counter : UInt32) : Bytes := BigEndian.encode 4 counter.toNat

/-- Count, answer with the count, notify every third count. -/
def pingService : Service UInt32 := fun c counter =>
  let counter := if c.payload.getD 0 0 = 1 then counter + 1 else counter
  { app := counter
    notifications := if counter % 3 = 0 then [1 :: 4 :: counterBytes counter] else []
    payload := counterBytes counter }

@[simp] theorem length_counterBytes (counter : UInt32) : (counterBytes counter).length = 4 :=
  BigEndian.length_encode 4 _

/-- The bytes stored are those of the counter. -/
theorem counterBytes_eq (counter : UInt32) : counterBytes counter =
    [((counter >>> 24) &&& 255).toUInt8, ((counter >>> 16) &&& 255).toUInt8, ((counter >>> 8) &&& 255).toUInt8,
      (counter &&& 255).toUInt8] := by
  have hbyte : ∀ n : UInt32, (n &&& 255).toUInt8 = UInt8.ofNat n.toNat := by
    intro n
    apply UInt8.toNat_inj.mp
    have h255 : n.toNat % 256 &&& 255 = n.toNat % 256 % 256 := Nat.and_two_pow_sub_one_eq_mod _ 8
    simp [h255]
  simp only [hbyte]
  rw [counterBytes, BigEndian.encode_four]
  simp [UInt32.toNat_shiftRight]

/-! ## The stores -/

/-- A store through `rpc.response` in bounds. -/
theorem storeResponse_ok {σ : Type} {d : Dev σ} (hd : d.Installed) {i : ℕ} (hi : i < 256) (b : UInt8) :
    ∃ m, d.storeResponse i b = .ok { d with memory := m } ∧
      (m .rcpResponseBuffer).toList = Buffer.patch (d.memory .rcpResponseBuffer).toList i [b] ∧
      ∀ r, r ≠ .rcpResponseBuffer → m r = d.memory r := by
  obtain ⟨m, hm, hl, hf⟩ := Memory.store_of_le d.memory ⟨.rcpResponseBuffer, 0 + i⟩ [b]
    (by simp [Region.size]; omega)
  refine ⟨m, ?_, by simpa using hl, hf⟩
  unfold Dev.Installed at hd
  rw [Dev.storeResponse, hd]
  simp only [hm, ok_bind]
  rfl

/-- The four stores of the counter. -/
theorem storeCounter_ok {d : Dev UInt32} (hd : d.Installed) :
    ∃ m, (∀ gatt : GattServer UInt32, respond.run gatt d =
        (if d.app % 3 = 0 then .notify 1 (.ptr d.rpc.response) 4 (.setResponseLength 4 .ret)
          else .setResponseLength 4 .ret : Prog UInt32).run gatt { d with memory := m }) ∧
      m.loadFrom (.ptr d.rpc.response) 4 = .ok (counterBytes d.app) := by
  obtain ⟨m₀, h₀, l₀, _⟩ := storeResponse_ok hd (show 0 < 256 by decide) ((d.app >>> 24) &&& 255).toUInt8
  have hd₀ : Dev.Installed { d with memory := m₀ } := hd
  obtain ⟨m₁, h₁, l₁, _⟩ := storeResponse_ok hd₀ (show 1 < 256 by decide) ((d.app >>> 16) &&& 255).toUInt8
  have hd₁ : Dev.Installed { d with memory := m₁ } := hd
  obtain ⟨m₂, h₂, l₂, _⟩ := storeResponse_ok hd₁ (show 2 < 256 by decide) ((d.app >>> 8) &&& 255).toUInt8
  have hd₂ : Dev.Installed { d with memory := m₂ } := hd
  obtain ⟨m₃, h₃, l₃, _⟩ := storeResponse_ok hd₂ (show 3 < 256 by decide) (d.app &&& 255).toUInt8
  refine ⟨m₃, ?_, ?_⟩
  · intro gatt
    simp only [respond, Prog.run, h₀, h₁, h₂, h₃, ok_bind]
  · have hbuf : (m₃ .rcpResponseBuffer).toList =
        counterBytes d.app ++ (d.memory .rcpResponseBuffer).toList.drop 4 := by
      simp only at l₀ l₁ l₂ l₃
      have hlen : (d.memory .rcpResponseBuffer).toList.length = 256 := List.Vector.toList_length _
      rw [l₃, l₂, l₁, l₀, counterBytes_eq, Buffer.patch_header (by omega)]
      simp [Buffer.patch]
    have htake : ((m₃ .rcpResponseBuffer).toList.drop 0).take 4 = counterBytes d.app := by
      rw [hbuf, List.drop_zero, List.take_left' (length_counterBytes d.app)]
    unfold Dev.Installed at hd
    rw [hd, Memory.loadFrom, Memory.load_of_le (by simp [Region.size]), htake]

/-- The answer of `ping_device` after the count. -/
theorem respond_run {gatt : GattServer UInt32} (hmax : 6 ≤ gatt.maxLen.toNat) {d : Dev UInt32} (hd : d.Installed) :
    ∃ d', respond.run gatt d = .ok d' ∧
      Replied gatt ⟨d.app, if d.app % 3 = 0 then [1 :: 4 :: counterBytes d.app] else [], counterBytes d.app⟩
        d.trace d' := by
  obtain ⟨m, hrun, hload⟩ := storeCounter_ok hd
  rw [hrun]
  have hfits : (counterBytes d.app).length ≤ maxPayloadLength ∧
      (counterBytes d.app).length + 2 ≤ gatt.maxLen.toNat := by
    rw [length_counterBytes]
    exact ⟨by decide, hmax⟩
  by_cases hc : d.app % 3 = 0
  · have hout : (Source.ptr d.rpc.response).Outside .rpcProfileNotification := by
      unfold Dev.Installed at hd
      simp [hd, Source.Outside]
    obtain ⟨m', hsend, _, hf⟩ := sendNotification_ok gatt (d := { d with memory := m }) 1 hload hout (by decide) hmax
    have hkeep : m'.loadFrom (.ptr d.rpc.response) 4 = .ok (counterBytes d.app) :=
      (Memory.loadFrom_outside hf hout 4).trans hload
    simp only [if_pos hc, Prog.run, hsend, ok_bind]
    refine ⟨_, rfl, rfl, rfl, (length_counterBytes _).symm, ?_, hfits⟩
    rw [length_counterBytes]
    exact hkeep
  · simp only [if_neg hc, Prog.run]
    refine ⟨_, rfl, rfl, (List.append_nil _).symm, (length_counterBytes _).symm, ?_, hfits⟩
    rw [length_counterBytes]
    exact hload

/-- **`ping_device` serves** every command that has a payload. -/
theorem ping_device_serves {gatt : GattServer UInt32} (hmax : 6 ≤ gatt.maxLen.toNat) :
    pingDevice.Serves gatt pingService fun c => c.payload ≠ [] := by
  intro d hd hcmd hpay
  -- one byte behind the header is always in the array, and the first of the payload
  have hload : d.memory.loadFrom (.ptr d.rpc.command) 1 =
      .ok (((d.memory .rpcProfileCommand).toList.drop 2).take 1) := by
    have hle : 2 + 1 ≤ Region.size .rpcProfileCommand := by decide
    rw [hcmd]
    exact Memory.load_of_le (p := ⟨.rpcProfileCommand, 2⟩) hle
  have hslot : d.slot.payload = ((d.memory .rpcProfileCommand).toList.drop 2).take d.rpc.commandLength := by
    simp only [Dev.slot, Dev.payload, hcmd]
  have hfirst : (((d.memory .rpcProfileCommand).toList.drop 2).take 1).getD 0 0 = d.slot.payload.getD 0 0 := by
    rw [hslot] at hpay ⊢
    cases hn : d.rpc.commandLength with
    | zero => simp [hn] at hpay
    | succ n => cases (d.memory .rpcProfileCommand).toList.drop 2 <;> simp
  simp only [pingDevice, Prog.run, hload, ok_bind]
  by_cases hping : d.slot.payload.getD 0 0 = 1
  · obtain ⟨d', hrun, hrep⟩ := respond_run hmax (d := { d with app := d.app + 1 }) hd
    rw [if_pos (hfirst.trans hping), Prog.run]
    refine ⟨d', hrun, ?_⟩
    simp only [pingService, if_pos hping]
    exact hrep
  · obtain ⟨d', hrun, hrep⟩ := respond_run hmax hd
    rw [if_neg (hfirst ▸ hping)]
    refine ⟨d', hrun, ?_⟩
    simp only [pingService, if_neg hping]
    exact hrep

/-- **The shipped table serves** the commands with its ids that have a payload. -/
theorem testRcpCallbacks_serves {gatt : GattServer UInt32} (hmax : 6 ≤ gatt.maxLen.toNat) :
    TableServes gatt pingService (fun c => c.payload ≠ []) testRcpCallbacks := by
  refine ⟨by decide, ⟨_, List.mem_cons_of_mem _ List.mem_cons_self, rfl⟩, ?_⟩
  intro e he h hcb
  rcases List.mem_cons.mp he with rfl | he
  · cases hcb
    exact fun d hd hcmd hP => ping_device_serves hmax d hd hcmd hP.1
  · rw [List.mem_singleton.mp he] at hcb
    cases hcb

end BleRpc.Device
