import BleRpc.Device.Firmware
import BleRpc.Host.RoundTrip

/-!
# What pinging comes to

The shipped schema and the shipped firmware in terms of the integers the host is given: the packets, the commands they
make, the count, and the history of the device (`rounds`), which is that of `pingService` (`history_commandOf`).
-/

namespace BleRpc

open Device (Observation Command pingService counterBytes)

/-- The number of pings: values that are 1 modulo 256. -/
def pings (vs : List ℤ) : ℕ := vs.countP (· % 256 = 1)

/-- The byte of a value. -/
def pingByte (v : ℤ) : UInt8 := UInt8.ofNat (v % 256).toNat

/-- The count as the device keeps it. -/
def count (vs : List ℤ) : ℕ := pings vs % 2 ^ 32

/-- One round: the call, the notification at every third count, the response. -/
def round (v : ℤ) (n : ℕ) : List Observation :=
  .called 0 [pingByte v] 1 ::
    ((if n % 3 = 0 then [.sent .rpcNotification (1 :: 4 :: BigEndian.encode 4 n)] else []) ++
      [.sent .rpcResponse (0 :: 4 :: BigEndian.encode 4 n)])

/-- A round for each value. -/
def rounds (vs : List ℤ) : List Observation :=
  (List.range vs.length).flatMap fun k => round (vs.getD k 0) (count (vs.take (k + 1)))

/-- The packet the host forms for a value. -/
def packetOf (v : ℤ) : Host.Bytes := Host.pingDevice1.packet fun _ => v

/-- The command it makes. -/
def commandOf (v : ℤ) : Command := ⟨0, [pingByte v], 1⟩

theorem packetOf_eq (v : ℤ) : packetOf v = [0, 1, pingByte v] := by
  have hres : Host.ParameterType.residue .uint8 v = (v % 256).toNat := rfl
  have hpay : Host.pingDevice1.payload (fun _ => v) = [pingByte v] := by
    show BigEndian.encode 1 (Host.ParameterType.residue .uint8 v) ++ [] = _
    rw [BigEndian.encode_one, hres]
    rfl
  rw [packetOf, Host.CommandSchema.packet, hpay]
  rfl

theorem ofPacket_packetOf (v : ℤ) : Command.ofPacket (packetOf v) = commandOf v := by
  rw [packetOf_eq]
  rfl

theorem pingByte_eq_one {v : ℤ} : pingByte v = 1 ↔ v % 256 = 1 := by
  have hnn := Int.emod_nonneg v (show (256 : ℤ) ≠ 0 by decide)
  have hlt := Int.emod_lt_of_pos v (show (0 : ℤ) < 256 by decide)
  rw [← UInt8.toNat_inj, pingByte, UInt8.toNat_ofNat']
  have h1 : (1 : UInt8).toNat = 1 := rfl
  omega

theorem pings_concat (vs : List ℤ) (v : ℤ) : pings (vs ++ [v]) = pings vs + if v % 256 = 1 then 1 else 0 := by
  by_cases hv : v % 256 = 1 <;> simp [pings, hv]

/-- The counter after some values. -/
theorem toNat_after (vs : List ℤ) : (pingService.after 0 (vs.map commandOf)).toNat = count vs := by
  induction vs using List.reverseRecOn with
  | nil => rfl
  | append_singleton vs v ih =>
    rw [List.map_append, List.map_singleton, Device.Service.after_concat, count, pings_concat]
    have hfirst : (commandOf v).payload.getD 0 0 = pingByte v := rfl
    simp only [pingService, hfirst, pingByte_eq_one]
    rw [count] at ih
    by_cases hv : v % 256 = 1
    · rw [if_pos hv, if_pos hv, UInt32.toNat_add, ih]
      have h1 : (1 : UInt32).toNat = 1 := rfl
      omega
    · rw [if_neg hv, if_neg hv, ih, Nat.add_zero]

/-- One more round. -/
theorem rounds_concat (vs : List ℤ) (v : ℤ) : rounds (vs ++ [v]) = rounds vs ++ round v (count (vs ++ [v])) := by
  have hold : (List.range vs.length).flatMap
      (fun k => round ((vs ++ [v]).getD k 0) (count ((vs ++ [v]).take (k + 1)))) =
      rounds vs := by
    apply List.flatMap_congr
    intro k hk
    have hlt := List.mem_range.mp hk
    rw [List.getD_append _ _ _ _ hlt, List.take_append_of_le_length (by omega)]
  have hlen : (vs ++ [v]).length = vs.length + 1 := by simp
  have htake : (vs ++ [v]).take (vs.length + 1) = vs ++ [v] := List.take_of_length_le (by simp)
  rw [rounds, hlen, List.range_succ, List.flatMap_append, hold, List.flatMap_singleton, htake]
  simp

/-- A reply of the service makes a round. -/
theorem history_pingService (v : ℤ) (counter : UInt32) :
    (pingService (commandOf v) counter).history (commandOf v) =
      round v (pingService (commandOf v) counter).app.toNat := by
  generalize hn : (pingService (commandOf v) counter).app = n
  have hthird : n % 3 = 0 ↔ n.toNat % 3 = 0 := by
    rw [← UInt32.toNat_inj, UInt32.toNat_mod]
    rfl
  have hpay : (pingService (commandOf v) counter).payload = counterBytes n := congrArg counterBytes hn
  have hnot : (pingService (commandOf v) counter).notifications =
      if n.toNat % 3 = 0 then [1 :: 4 :: counterBytes n] else [] := by
    rw [← hn] at hthird ⊢
    exact if_congr hthird rfl rfl
  rw [Device.Reply.history, Device.Reply.packet, Device.Reply.notified, hnot, hpay, Device.length_counterBytes, round]
  by_cases h : n.toNat % 3 = 0 <;> simp [h, commandOf, counterBytes]

/-- **The history of the service is the rounds.** -/
theorem history_commandOf (vs : List ℤ) : pingService.history 0 (vs.map commandOf) = rounds vs := by
  induction vs using List.reverseRecOn with
  | nil => rfl
  | append_singleton vs v ih =>
    have hn := toNat_after (vs ++ [v])
    rw [List.map_append, List.map_singleton, Device.Service.after_concat] at hn
    rw [List.map_append, List.map_singleton, Device.Service.history_concat, ih, rounds_concat, history_pingService, hn]

/-- The response of round `k`. -/
theorem responses_rounds (vs : List ℤ) {k : ℕ} (hk : k < vs.length) :
    (Device.responses (rounds vs))[k]? = some (0 :: 4 :: BigEndian.encode 4 (count (vs.take (k + 1)))) := by
  induction vs using List.reverseRecOn with
  | nil => cases hk
  | append_singleton vs v ih =>
    have hlen : (Device.responses (rounds vs)).length = vs.length := by
      rw [← history_commandOf, Device.Service.length_responses_history, List.length_map]
    have hlast : Device.responses (round v (count (vs ++ [v]))) =
        [0 :: 4 :: BigEndian.encode 4 (count (vs ++ [v]))] := by
      rw [round]
      by_cases h : count (vs ++ [v]) % 3 = 0 <;> simp [h, Device.responses]
    rw [rounds_concat, Device.responses_append, hlast]
    rw [List.length_append, List.length_singleton] at hk
    by_cases hkl : k < vs.length
    · rw [List.getElem?_append_left (by omega), ih hkl, List.take_append_of_le_length (by omega)]
    · have hkv : k = vs.length := by omega
      rw [hkv, List.getElem?_append_right (by omega), hlen, List.take_of_length_le (by simp)]
      simp

end BleRpc
