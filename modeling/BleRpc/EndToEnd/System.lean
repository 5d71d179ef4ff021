import BleRpc.EndToEnd.Rounds
import BleRpc.Host.Client

/-!
# Pinging, end to end

The host program of one call after another (set the parameter, form the packet, `send_command`, disassemble the
response, get the parameter) over the client's coroutine, the link, and the shipped firmware, whose worker takes its
steps at any time in between.

- `Round`: where a call is;
- `Inv`: the host's parameters, the client, the device as a refinement of `pingService`, and what has been read;
- `inv_step`: every event keeps it;
- `Inv.alive`: some event can happen.
-/

namespace BleRpc

open Device (Observation Command pingService counterBytes testRcpCallbacks)
open Host (PyErr PyFloat Value)
open Transition

/-- The host program, the client, the device, the values given so far and what has been read for them. -/
structure EndToEnd (F : Type) where
  rpc : Host.Rpc
  client : Host.Client
  device : Device.LockStep UInt32
  inputs : List ℤ
  got : List (Except PyErr (Value F))

namespace EndToEnd

variable {F : Type}

inductive Event
  /-- The host sets the parameter to a value, forms the packet, and calls `send_command`. -/
  | ask (v : ℤ)
  /-- The packet reaches the write callback. -/
  | reach
  /-- `write_gatt_char` returns. -/
  | written
  /-- A step of the worker. -/
  | work
  /-- The next response sent is handled. -/
  | deliver
  /-- The call returns; the host disassembles the packet and gets the parameter. -/
  | finish

/-- After `connect`, with the parameters read from the schema, and the device reset. -/
def init (fresh : Host.Rpc) : EndToEnd F where
  rpc := fresh
  client := { Host.Client.init with connected := true }
  device := .init 0
  inputs := []
  got := []

/-- The number of the call under way. -/
def current (s : EndToEnd F) : ℕ := s.inputs.length - 1

/-- The packets sent on E002. -/
def responses (s : EndToEnd F) : List Host.Bytes := Device.responses s.device.worker.dev.trace

/-- The host's parameters and the packet for a value. -/
def request [PyFloat F] (s : EndToEnd F) (v : ℤ) : Except PyErr (Host.Rpc × Host.Bytes) := do
  let rpc ← Host.setRpcRequestParameterValue "ping_device_1" "ping" (.scalar (.int v) : Value F) s.rpc
  let packet ← Host.formCommandPacket "ping_device_1" rpc
  return (rpc, packet)

/-- What the host does with the packet. -/
def read [PyFloat F] (s : EndToEnd F) (packet : Host.Bytes) : EndToEnd F :=
  let (rpc, outcome) := Host.disassembleResponsePacket packet s.rpc
  { s with
    rpc := rpc
    got := s.got ++ [outcome >>= fun _ => Host.getRpcResponseParameterValue "ping_device_1" "ping_count" rpc] }

section

variable [PyFloat F] (s : EndToEnd F) (packet : Host.Bytes)

@[simp] theorem read_client : (s.read packet).client = s.client := rfl
@[simp] theorem read_device : (s.read packet).device = s.device := rfl
@[simp] theorem read_inputs : (s.read packet).inputs = s.inputs := rfl

end

def step [PyFloat F] (gatt : Device.GattServer UInt32) (s : EndToEnd F) : Event → Option (EndToEnd F)
  | .ask v =>
    if s.got.length = s.inputs.length then
      match s.request v with
      | .ok (rpc, packet) =>
        (s.client.step (.start s.inputs.length packet)).map fun c =>
          { s with rpc := rpc, client := c, inputs := s.inputs ++ [v] }
      | .error _ => none
    else none
  | .reach =>
    match s.client.writes[s.device.written.length]? with
    | some (_, packet) =>
      match Device.writeAttrCB gatt Device.commandAttr packet 0 s.device.worker.dev with
      | .ok (d, .success) =>
        some { s with device := ⟨⟨s.device.worker.pc, d⟩, s.device.written ++ [Command.ofPacket packet]⟩ }
      | _ => none
    | none => none
  | .written =>
    if s.client.writes.length = s.device.written.length then
      (s.client.step (.written s.current)).map fun c => { s with client := c }
    else none
  | .work => (s.device.worker.step gatt testRcpCallbacks).map fun w => { s with device := ⟨w, s.device.written⟩ }
  | .deliver =>
    s.responses[s.client.received.length]?.map fun data => { s with client := (s.client.responseHandler data).1 }
  | .finish =>
    match s.client.step (.resume s.current) with
    | some c =>
      match c.stage s.current with
      | .returned _ r => some ({ s with client := c }.read r.data)
      | _ => none
    | none => none

/-! ## The invariant -/

/-- What has been read for the first values. -/
def reading (vs : List ℤ) (k : ℕ) : Except PyErr (Value F) := .ok (.scalar (.int (count (vs.take (k + 1)))))

/-- Where the host's call is. -/
inductive Round (s : EndToEnd F) : Prop
  /-- No call; everything has been read. -/
  | resting (hgot : s.got.length = s.inputs.length) (hfree : s.client.commandLock = .free)
    (hw : s.device.written.length = s.inputs.length) (hr : s.client.received.length = s.inputs.length)
  /-- The packet is on its way to the device. -/
  | asked {f : ℕ} (hgot : s.got.length + 1 = s.inputs.length) (hstage : s.client.stage s.got.length = .writing)
    (hfut : s.client.responseFuture = some f) (hpend : s.client.result f = none)
    (hw : s.device.written.length = s.got.length) (hr : s.client.received.length = s.got.length)
  /-- The device has the command. -/
  | underway {f : ℕ} (hgot : s.got.length + 1 = s.inputs.length)
    (hstage : s.client.stage s.got.length = .writing ∨ s.client.stage s.got.length = .waiting f)
    (hfut : s.client.responseFuture = some f) (hpend : s.client.result f = none)
    (hw : s.device.written.length = s.inputs.length) (hr : s.client.received.length = s.got.length)
  /-- The client has the response. -/
  | answered {f : ℕ} {r : Host.Response} (hgot : s.got.length + 1 = s.inputs.length)
    (hstage : s.client.stage s.got.length = .writing ∨ s.client.stage s.got.length = .waiting f)
    (hfut : s.client.responseFuture = some f) (hres : s.client.result f = some r)
    (hdata : s.responses[s.got.length]? = some r.data)
    (hw : s.device.written.length = s.inputs.length) (hr : s.client.received.length = s.inputs.length)

structure Inv (gatt : Device.GattServer UInt32) (s : EndToEnd F) : Prop where
  host : s.rpc.Of Host.rpcData
  client : s.client.Inv
  connected : s.client.connected = true
  waiters : s.client.commandLock.waiters = []
  idle : ∀ i, s.inputs.length ≤ i → s.client.stage i = .idle
  writes : s.client.writes.map Prod.snd = s.inputs.map packetOf
  device : Device.LockStep.Refined gatt pingService 0 (fun c => c.payload ≠ []) testRcpCallbacks s.device
  commandId : s.device.worker.dev.rpc.commandId = 0
  written : s.device.written = (s.inputs.take s.device.written.length).map commandOf
  received : s.client.received.length ≤ s.responses.length
  got : s.got = (List.range s.got.length).map (reading s.inputs)
  round : Round s

/-! ## The parts -/

/-- The shipped schema: scalar integers, and no command's name inside the other's parameter names. -/
theorem scalar_rpcData : Host.ScalarSchema Host.rpcData := by
  refine ⟨by decide, by decide, by decide, by decide, fun c hc c' hc' hid => ⟨fun p hp => ?_, fun p hp => ?_⟩⟩
  all_goals
    rcases List.mem_cons.mp hc with rfl | hc <;> rcases List.mem_cons.mp hc' with rfl | hc'
    · exact absurd rfl hid
    · rw [List.mem_singleton.mp hc'] at hp ⊢
      rw [List.mem_singleton.mp hp]
      simp only [Host.pingDevice1, Host.pingDevice2, Host.requestName, Host.responseName, String.toList_append,
        String.reduceToList]
      decide
    · rw [List.mem_singleton.mp hc]
      rw [List.mem_singleton.mp hp]
      simp only [Host.pingDevice1, Host.pingDevice2, Host.requestName, Host.responseName, String.toList_append,
        String.reduceToList]
      decide
    · rw [List.mem_singleton.mp hc, List.mem_singleton.mp hc'] at hid
      exact absurd rfl hid

/-- The host forms the packet of the value, in any state. -/
theorem request_ok [PyFloat F] {s : EndToEnd F} (h : s.rpc.Of Host.rpcData) (v : ℤ) :
    ∃ rpc, s.request v = .ok (rpc, packetOf v) ∧ rpc.Of Host.rpcData := by
  have hcalls : Host.Assigns Host.pingDevice1 [("ping", v)] fun _ => v := by
    constructor
    · intro call hcall
      rw [List.mem_singleton.mp hcall]
      exact ⟨_, List.mem_cons_self, rfl⟩
    · intro p hp
      rw [List.mem_singleton.mp hp]
      rfl
  obtain ⟨rpc, hset, hof, _, hform⟩ := Host.form_spec F scalar_rpcData (c := Host.pingDevice1) List.mem_cons_self
    (by decide) (by decide) h hcalls
  refine ⟨rpc, ?_, hof⟩
  rw [Host.setRequests, List.foldlM_cons] at hset
  simp only [List.foldlM_nil, bind_pure] at hset
  have hset : Host.setRpcRequestParameterValue "ping_device_1" "ping" (.scalar (.int v) : Value F) s.rpc = .ok rpc :=
    hset
  have hform : Host.formCommandPacket "ping_device_1" rpc = .ok (packetOf v) := hform
  rw [request, hset, Outcome.ok_bind, hform, Outcome.ok_bind]
  rfl

/-- The host reads the count out of a response, in any state. -/
theorem read_ok [PyFloat F] {s : EndToEnd F} (h : s.rpc.Of Host.rpcData) {n : ℕ} (hn : n < 2 ^ 32) :
    (s.read (0 :: 4 :: BigEndian.encode 4 n)).got = s.got ++ [.ok (.scalar (.int n))] ∧
      (s.read (0 :: 4 :: BigEndian.encode 4 n)).rpc.Of Host.rpcData := by
  have hlen : [n].length = Host.pingDevice1.responseParameters.length := rfl
  obtain ⟨rpc, hdis, hof, hget, _⟩ := Host.disassemble_spec F scalar_rpcData (c := Host.pingDevice1)
    List.mem_cons_self h hlen (b := 0) rfl 4
  have hpay : Host.pingDevice1.responsePayload [n] = BigEndian.encode 4 n := List.append_nil _
  rw [hpay] at hdis
  have hval := hget _ List.mem_cons_self
  have hmod : n % 256 ^ Host.ParameterType.bytes .uint32 = n := Nat.mod_eq_of_lt hn
  simp only [hmod] at hval
  simp only [read, hdis, Outcome.ok_bind]
  exact ⟨congrArg (s.got ++ [·]) hval, hof⟩

/-- One response an answer. -/
theorem countP_marks (t : List Observation) :
    (Device.marks t).countP Device.Mark.isAnswer = (Device.responses t).length := by
  induction t with
  | nil => rfl
  | cons o t ih =>
    rw [← List.singleton_append, Device.marks_append, Device.responses_append, List.countP_append, List.length_append,
      ih]
    congr 1
    cases o with
    | called id data length => rfl
    | sent uuid value => cases uuid <;> rfl

section Facts

variable {gatt : Device.GattServer UInt32} {s : EndToEnd F}

/-- The responses are those of the rounds of the commands written. -/
theorem Inv.responses_prefix (hi : Inv gatt s) :
    s.responses <+: Device.responses (rounds (s.inputs.take s.device.written.length)) := by
  have hpre := hi.device.trace_prefix
  rw [hi.written, history_commandOf] at hpre
  exact hpre.filterMap _

/-- The device answers no more than it is sent. -/
theorem Inv.responses_le (hi : Inv gatt s) : s.responses.length ≤ s.device.written.length := by
  have hle := hi.responses_prefix.length_le
  rw [← history_commandOf, Device.Service.length_responses_history, List.length_map, List.length_take] at hle
  omega

/-- The device is sent no more than the host has asked. -/
theorem Inv.written_le (hi : Inv gatt s) : s.device.written.length ≤ s.inputs.length := by
  have hle := congrArg List.length hi.written
  rw [List.length_map, List.length_take] at hle
  omega

/-- The response of a round holds the count. -/
theorem Inv.response_eq (hi : Inv gatt s) {k : ℕ} {data : Host.Bytes} (h : s.responses[k]? = some data) :
    data = 0 :: 4 :: BigEndian.encode 4 (count (s.inputs.take (k + 1))) := by
  have hk := (List.getElem?_eq_some_iff.mp h).1
  have hle := hi.responses_le
  have hle' := hi.written_le
  have hround := responses_rounds (s.inputs.take s.device.written.length) (k := k)
    (by rw [List.length_take]; omega)
  have hpre := List.prefix_iff_getElem?.mp hi.responses_prefix k hk
  rw [List.take_take, Nat.min_eq_left (by omega)] at hround
  rw [List.getElem?_eq_getElem hk] at h
  rw [hround] at hpre
  rw [← Option.some.inj h, ← Option.some.inj hpre]

/-- The client may write when all responses have been sent. -/
theorem mayWrite_iff : s.device.MayWrite ↔ s.device.written.length ≤ s.responses.length := by
  rw [Device.LockStep.MayWrite, countP_marks]
  rfl

/-- The write of a call that has asked. -/
theorem Inv.write_eq (hi : Inv gatt s) {k : ℕ} (hk : k < s.inputs.length) :
    ∃ i v, s.inputs[k]? = some v ∧ s.client.writes[k]? = some (i, packetOf v) := by
  have hmap := congrArg (·[k]?) hi.writes
  simp only [List.getElem?_map, List.getElem?_eq_getElem hk, Option.map_some] at hmap
  obtain ⟨⟨i, packet⟩, hw, hp⟩ := Option.map_eq_some_iff.mp hmap
  cases hp
  exact ⟨i, _, List.getElem?_eq_getElem hk, hw⟩

/-- While a call is between the lock's acquisition and its release, one value is unread, and the call is its. -/
theorem Inv.busy (hi : Inv gatt s) {i : ℕ} (hin : (s.client.stage i).Inside) :
    s.got.length + 1 = s.inputs.length ∧ s.current = s.got.length := by
  have hholder := (hi.client.locked.holder i).mpr hin
  cases hi.round with
  | resting _ hfree => rw [hfree] at hholder; cases hholder
  | asked hgot | underway hgot | answered hgot => exact ⟨hgot, by rw [current]; omega⟩

/-- While the client may write, the worker has no entry left to test for the command's id. -/
theorem Inv.clear (hi : Inv gatt s) (hmay : s.device.MayWrite) :
    (0 : UInt8) ∉ Device.tableIds s.device.worker.pc.rest := by
  have hid := hi.commandId
  have hphase := hi.device.inv.phase
  generalize s.device = dev at hid hphase hmay
  obtain ⟨⟨pc, d⟩, written⟩ := dev
  cases hphase with
  | idle => exact List.not_mem_nil
  | served _ _ hclear => exact hid ▸ hclear
  | posted hp | sought hp | matched hp | labelled hp | running hp | postedEarly hp =>
    exact absurd hmay (hp.not_mayWrite rfl)

end Facts

/-! ## The host asks -/

section Steps

/-- The readings so far do not depend on values to come. -/
theorem readings_append (vs : List ℤ) (v : ℤ) {k : ℕ} (hk : k ≤ vs.length) :
    (List.range k).map (reading (vs ++ [v])) = (List.range k).map (reading (F := F) vs) := by
  apply List.map_congr_left
  intro j hj
  have := List.mem_range.mp hj
  rw [reading, reading, List.take_append_of_le_length (by omega)]

/-- `send_command` takes the free lock. -/
theorem start_ok {c : Host.Client} {i : ℕ} (v : ℤ) (hi : c.stage i = .idle) (hup : c.connected = true)
    (hfree : c.commandLock = .free) :
    c.step (.start i (packetOf v)) = some ((c.call i (packetOf v)).enter i (c.commandLock.take i)) := by
  have hcheck : Host.checkCommand (packetOf v) = .ok () := Host.checkCommand_packet (by decide) _
  have hopen : c.commandLock.Open := by rw [hfree]; exact ⟨rfl, rfl⟩
  refine Host.Client.start_ok hi ?_ hopen
  rw [Host.Client.checkSend, if_pos hup, hcheck]

theorem inv_init {gatt : Device.GattServer UInt32} (fresh : Host.Rpc)
    (hread : Host.readRpcParameters Host.rpcData = .ok fresh) :
    Inv gatt (init fresh : EndToEnd F) := by
  have hconn : Host.Client.init.step (.connection true) = some { Host.Client.init with connected := true } := rfl
  refine ⟨Host.Rpc.of_read hread, Host.Client.inv_step Host.Client.inv_init hconn, rfl, rfl, fun _ _ => rfl, rfl,
    Device.LockStep.refined_init 0, rfl, rfl, Nat.zero_le _, rfl, .resting rfl rfl rfl rfl⟩

variable [PyFloat F] {gatt : Device.GattServer UInt32} {s s' : EndToEnd F}

/-- The host asks for a value when it has read the last. -/
theorem ask_ok (hi : Inv gatt s) (hgot : s.got.length = s.inputs.length) (v : ℤ) :
    ∃ rpc, rpc.Of Host.rpcData ∧ s.step gatt (.ask v) = some { s with
      rpc := rpc
      client := (s.client.call s.inputs.length (packetOf v)).enter s.inputs.length
        (s.client.commandLock.take s.inputs.length)
      inputs := s.inputs ++ [v] } := by
  obtain ⟨rpc, hreq, hof⟩ := request_ok hi.host v
  refine ⟨rpc, hof, ?_⟩
  cases hi.round with
  | resting _ hfree =>
    rw [step, if_pos hgot, hreq]
    simp only [start_ok v (hi.idle _ (le_refl _)) hi.connected hfree]
    rfl
  | asked h | underway h | answered h => omega

theorem inv_ask (hi : Inv gatt s) (v : ℤ) (h : s.step gatt (.ask v) = some s') : Inv gatt s' := by
  by_cases hgot : s.got.length = s.inputs.length
  · obtain ⟨rpc, hof, hstep⟩ := ask_ok hi hgot v
    rw [hstep] at h
    cases h
    cases hi.round with
    | resting _ hfree hw hr =>
      have hidle := hi.idle s.inputs.length (le_refl _)
      refine ⟨hof, ?_, hi.connected, hi.waiters, ?_, ?_, hi.device, hi.commandId, ?_, hi.received, ?_, ?_⟩
      · exact Host.Client.inv_step hi.client (start_ok v hidle hi.connected hfree)
      · intro i hil
        rw [List.length_append, List.length_singleton] at hil
        have hne : i ≠ s.inputs.length := by omega
        exact (Function.update_of_ne hne _ _).trans (hi.idle i (by omega))
      · simp [Host.Client.enter, Host.Client.call, hi.writes]
      · rw [List.take_append_of_le_length hi.written_le]
        exact hi.written
      · rw [readings_append s.inputs v (show s.got.length ≤ s.inputs.length by omega)]
        exact hi.got
      · refine .asked ?_ ?_ rfl (Host.Client.result_enter.trans Host.Client.result_length) (hw.trans hgot.symm)
          (hr.trans hgot.symm)
        · show s.got.length + 1 = (s.inputs ++ [v]).length
          simp [hgot]
        · show Function.update s.client.stage s.inputs.length .writing s.got.length = .writing
          rw [hgot, Function.update_self]
    | asked h | underway h | answered h => omega
  · rw [step, if_neg hgot] at h
    cases h

/-! ## The packet reaches the device -/

/-- The write is one the lock step allows, and it goes through. -/
theorem reach_ok {i : ℕ} {v : ℤ}
    (hw : s.client.writes[s.device.written.length]? = some (i, packetOf v)) (hmay : s.device.MayWrite) :
    ∃ d, s.device.step gatt testRcpCallbacks (.write (packetOf v)) = some d ∧
      s.step gatt .reach = some { s with device := d } := by
  have hlen : (packetOf v).length ≤ Device.maxPacketLength := by
    rw [packetOf_eq]
    show 3 ≤ Device.maxPacketLength
    decide
  obtain ⟨d, hd, _⟩ := Device.writeCommand_ok s.device.worker.dev hlen
  have hattr : Device.writeAttrCB gatt Device.commandAttr (packetOf v) 0 s.device.worker.dev = .ok (d, .success) := by
    rw [Device.writeAttrCB_command, hd, Outcome.ok_bind]
  refine ⟨⟨⟨s.device.worker.pc, d⟩, s.device.written ++ [Command.ofPacket (packetOf v)]⟩, ?_, ?_⟩
  · simp only [Device.LockStep.step, if_pos hmay, hattr]
  · simp only [step, hw, hattr]

theorem inv_reach (hi : Inv gatt s) (h : s.step gatt .reach = some s') : Inv gatt s' := by
  have hwr := hi.writes
  have hlen : s.client.writes.length = s.inputs.length := by simpa using congrArg List.length hwr
  cases hi.round with
  | asked hgot hstage hfut hpend hw hr =>
    have hrecv := hi.received
    have hmay : s.device.MayWrite := mayWrite_iff.mpr (by omega)
    obtain ⟨i, v, hv, hwv⟩ := hi.write_eq (k := s.device.written.length) (by omega)
    obtain ⟨d, hd, hstep⟩ := reach_ok hwv hmay
    rw [hstep] at h
    cases h
    have hcmd := ofPacket_packetOf v
    have hid : (Command.ofPacket (packetOf v)).id = 0 := by rw [hcmd]; rfl
    have href := Device.LockStep.refined_write hi.device (hid ▸ List.mem_cons_self) (hid ▸ hi.clear hmay)
      (by rw [hcmd]; exact List.cons_ne_nil _ _) hd
    obtain ⟨_, e, hst, rfl⟩ := Device.LockStep.step_write_inv hd
    refine ⟨hi.host, hi.client, hi.connected, hi.waiters, hi.idle, hwr, href, ?_, ?_, ?_, hi.got, ?_⟩
    · show e.rpc.commandId = 0
      rw [hst.rpc]
      exact hid
    · have hlast : s.inputs.take (s.device.written.length + 1) = s.inputs.take s.device.written.length ++ [v] := by
        rw [List.take_add_one, hv]
        rfl
      show s.device.written ++ [Command.ofPacket (packetOf v)] =
        (s.inputs.take (s.device.written ++ [Command.ofPacket (packetOf v)]).length).map commandOf
      rw [List.length_append, List.length_singleton, hlast, List.map_append, ← hi.written, hcmd]
      rfl
    · show s.client.received.length ≤ (Device.responses e.trace).length
      rw [hst.trace]
      exact hrecv
    · refine .underway hgot (.inl hstage) hfut hpend ?_ hr
      show (s.device.written ++ [Command.ofPacket (packetOf v)]).length = s.inputs.length
      rw [List.length_append, List.length_singleton]
      omega
  | resting hgot _ hw | underway hgot _ _ _ hw | answered hgot _ _ _ _ hw =>
    rw [step, List.getElem?_eq_none (by omega)] at h
    cases h

/-! ## The write returns, the worker works -/

theorem inv_written (hi : Inv gatt s) (h : s.step gatt .written = some s') : Inv gatt s' := by
  by_cases hlen : s.client.writes.length = s.device.written.length
  · rw [step, if_pos hlen] at h
    obtain ⟨c, hc, rfl⟩ := Option.map_eq_some_iff.mp h
    obtain ⟨hstage, hmove⟩ := Host.Client.written_inv hc
    have hwr : s.client.writes.length = s.inputs.length := by simpa using congrArg List.length hi.writes
    obtain ⟨hbusy, hcur⟩ := hi.busy (Host.Client.inside_of_writing hstage)
    have hclient := Host.Client.inv_step hi.client hc
    -- the call is the one under way, and goes on to its future
    have hgoes : ∀ f, s.client.responseFuture = some f → c = s.client.move s.got.length (.waiting f) ∧
        c.stage s.got.length = .waiting f ∧ ∀ i, s.inputs.length ≤ i → c.stage i = .idle := by
      intro f hf
      rw [hcur] at hmove
      have hceq := hmove f hf
      refine ⟨hceq, ?_, ?_⟩
      · rw [hceq]
        exact Function.update_self _ _ _
      · intro i hil
        have hne : i ≠ s.got.length := by omega
        rw [hceq]
        exact (Function.update_of_ne hne _ _).trans (hi.idle i hil)
    cases hi.round with
    | resting hgot => omega
    | asked _ _ _ _ hw => omega
    | @underway f hgot _ hfut hpend hw hr =>
      obtain ⟨rfl, hst, hidle⟩ := hgoes f hfut
      exact ⟨hi.host, hclient, hi.connected, hi.waiters, hidle, hi.writes, hi.device, hi.commandId, hi.written,
        hi.received, hi.got, .underway hgot (.inr hst) hfut hpend hw hr⟩
    | @answered f r hgot _ hfut hres hdata hw hr =>
      obtain ⟨rfl, hst, hidle⟩ := hgoes f hfut
      exact ⟨hi.host, hclient, hi.connected, hi.waiters, hidle, hi.writes, hi.device, hi.commandId, hi.written,
        hi.received, hi.got, .answered hgot (.inr hst) hfut hres hdata hw hr⟩
  · rw [step, if_neg hlen] at h
    cases h

theorem inv_work (hmax : 6 ≤ gatt.maxLen.toNat) (hi : Inv gatt s) (h : s.step gatt .work = some s') :
    Inv gatt s' := by
  obtain ⟨w, hw, rfl⟩ := Option.map_eq_some_iff.mp h
  have href := Device.LockStep.refined_work (Device.testRcpCallbacks_serves hmax) hi.device hw
  obtain ⟨htrace, hid⟩ := (Device.Worker.step_worked hw).keeps hi.device.inv.installed
  have hresp : s.responses <+: Device.responses w.dev.trace := htrace.filterMap _
  refine ⟨hi.host, hi.client, hi.connected, hi.waiters, hi.idle, hi.writes, href, hid.trans hi.commandId, hi.written,
    hi.received.trans hresp.length_le, hi.got, ?_⟩
  cases hi.round with
  | resting hgot hfree hw hr => exact .resting hgot hfree hw hr
  | asked hgot hstage hfut hpend hw hr => exact .asked hgot hstage hfut hpend hw hr
  | underway hgot hstage hfut hpend hw hr => exact .underway hgot hstage hfut hpend hw hr
  | answered hgot hstage hfut hres hdata hw hr =>
    refine .answered hgot hstage hfut hres ?_ hw hr
    have hk := (List.getElem?_eq_some_iff.mp hdata).1
    show (Device.responses w.dev.trace)[s.got.length]? = _
    rw [List.prefix_iff_getElem?.mp hresp _ hk, ← List.getElem?_eq_getElem hk]
    exact hdata

/-! ## The response comes back -/

theorem inv_deliver (hi : Inv gatt s) (h : s.step gatt .deliver = some s') : Inv gatt s' := by
  obtain ⟨data, hdata, rfl⟩ := Option.map_eq_some_iff.mp h
  have hk := (List.getElem?_eq_some_iff.mp hdata).1
  have hle := hi.responses_le
  cases hi.round with
  | resting hgot _ hw hr | asked hgot _ _ _ hw hr | answered hgot _ _ _ _ hw hr => omega
  | @underway f hgot hstage hfut hpend hw hr =>
    have hwf : Host.WellFormed data := by
      rw [hi.response_eq hdata]
      have h4 : (BigEndian.encode 4 (count (s.inputs.take (s.client.received.length + 1)))).length = 4 :=
        BigEndian.length_encode 4 _
      exact ⟨by simp, by simp [h4]⟩
    have hlt := hi.client.current_lt f hfut
    have hstep : s.client.step (.notify data) = some (s.client.responseHandler data).1 := rfl
    have hclient := Host.Client.inv_step hi.client hstep
    rw [Host.Client.responseHandler_complete hfut hlt hpend hwf] at hclient ⊢
    refine ⟨hi.host, hclient, hi.connected, hi.waiters, hi.idle, hi.writes, hi.device, hi.commandId, hi.written, ?_,
      hi.got, ?_⟩
    · show (s.client.received ++ [data]).length ≤ s.responses.length
      rw [List.length_append, List.length_singleton]
      exact hk
    · refine .answered (r := ⟨s.client.received.length, data⟩) hgot hstage hfut ?_ ?_ hw ?_
      · show ((s.client.receive data).complete f _).result f = _
        rw [Host.Client.result_complete (s := s.client.receive data) hlt, if_pos rfl]
      · rw [← hr]
        exact hdata
      · show (s.client.received ++ [data]).length = s.inputs.length
        simp only [List.length_append, List.length_singleton]
        omega

theorem count_lt (vs : List ℤ) : count vs < 2 ^ 32 := Nat.mod_lt _ (by decide)

/-- Only a call whose future is done returns. -/
theorem finish_inv (h : s.step gatt .finish = some s') :
    ∃ f r, s.client.stage s.current = .waiting f ∧ s.client.result f = some r ∧
      s' = { s with client := s.client.leave s.current (.returned f r) }.read r.data := by
  cases hc : s.client.step (.resume s.current) with
  | none => rw [step, hc] at h; cases h
  | some c =>
    obtain ⟨f, r, hstage, hres, rfl⟩ := Host.Client.resume_inv hc
    have hend : (s.client.leave s.current (.returned f r)).stage s.current = .returned f r :=
      Function.update_self _ _ _
    rw [step, hc] at h
    simp only [hend, Option.some.injEq] at h
    exact ⟨f, r, hstage, hres, h.symm⟩

theorem finish_ok {f : ℕ} {r : Host.Response} (hstage : s.client.stage s.current = .waiting f)
    (hres : s.client.result f = some r) :
    s.step gatt .finish = some ({ s with client := s.client.leave s.current (.returned f r) }.read r.data) := by
  have hend : (s.client.leave s.current (.returned f r)).stage s.current = .returned f r :=
    Function.update_self _ _ _
  rw [step, Host.Client.resume_ok hstage hres]
  simp only [hend]

theorem inv_finish (hi : Inv gatt s) (h : s.step gatt .finish = some s') : Inv gatt s' := by
  obtain ⟨f, r, hstage, hres, rfl⟩ := finish_inv h
  have hclient := Host.Client.inv_step hi.client (Host.Client.resume_ok hstage hres)
  obtain ⟨hgot, hcur⟩ := hi.busy (Host.Client.inside_of_waiting hstage)
  have hfut := hi.client.linked.awaited _ _ hstage
  cases hi.round with
  | resting h => omega
  | asked _ hst =>
    rw [hcur, hst] at hstage
    cases hstage
  | underway _ _ hfut' hpend =>
    rw [hfut] at hfut'
    cases hfut'
    rw [hpend] at hres
    cases hres
  | answered _ _ hfut' hres' hdata hw hr =>
    rw [hfut] at hfut'
    cases hfut'
    rw [hres] at hres'
    cases hres'
    rw [hi.response_eq hdata]
    obtain ⟨hread, hof⟩ := read_ok (s := { s with client := s.client.leave s.current (.returned f r) }) hi.host
      (count_lt (s.inputs.take (s.got.length + 1)))
    have hwait := hi.waiters
    refine ⟨hof, hclient, hi.connected, hwait, ?_, hi.writes, hi.device, hi.commandId, hi.written,
      hi.received, ?_, .resting ?_ ?_ hw hr⟩
    · intro i hil
      have hil : s.inputs.length ≤ i := hil
      have hne : i ≠ s.current := by omega
      exact (Function.update_of_ne hne _ _).trans (hi.idle i hil)
    · rw [hread, List.length_append, List.length_singleton, List.range_succ, List.map_append]
      exact congrArg₂ (· ++ ·) hi.got rfl
    · rw [hread, List.length_append]
      exact hgot
    · show (⟨none, s.client.commandLock.waiters⟩ : FairLock ℕ) = .free
      rw [hwait]
      rfl

/-- **Every step keeps the invariant.** -/
theorem inv_step (hmax : 6 ≤ gatt.maxLen.toNat) {e : Event} (hi : Inv gatt s) (h : s.step gatt e = some s') :
    Inv gatt s' := by
  cases e with
  | ask v => exact inv_ask hi v h
  | reach => exact inv_reach hi h
  | written => exact inv_written hi h
  | work => exact inv_work hmax hi h
  | deliver => exact inv_deliver hi h
  | finish => exact inv_finish hi h

/-! ## Nothing gets stuck -/

/-- The host can ask when it rests, and otherwise something else can happen. -/
theorem Inv.alive (hi : Inv gatt s) :
    (s.got.length = s.inputs.length → ∀ v, ∃ s', s.step gatt (.ask v) = some s') ∧
      (s.got.length ≠ s.inputs.length → ∃ e s', (∀ v, e ≠ .ask v) ∧ s.step gatt e = some s') := by
  constructor
  · intro hgot v
    obtain ⟨rpc, _, hstep⟩ := ask_ok hi hgot v
    exact ⟨_, hstep⟩
  · intro hgot
    have hwr : s.client.writes.length = s.inputs.length := by simpa using congrArg List.length hi.writes
    have hle := hi.responses_le
    have hrecv := hi.received
    cases hi.round with
    | resting h => exact absurd h hgot
    | asked h _ _ _ hw hr =>
      have hmay : s.device.MayWrite := mayWrite_iff.mpr (by omega)
      obtain ⟨i, v, _, hwv⟩ := hi.write_eq (k := s.device.written.length) (by omega)
      obtain ⟨d, _, hstep⟩ := reach_ok hwv hmay
      exact ⟨.reach, _, nofun, hstep⟩
    | underway h hstage hfut hpend hw hr =>
      by_cases hsent : s.client.received.length < s.responses.length
      · exact ⟨.deliver, _, nofun, by rw [step, List.getElem?_eq_getElem hsent, Option.map_some]⟩
      · obtain ⟨w, hw⟩ := hi.device.alive (fun hmay => hsent (by have := mayWrite_iff.mp hmay; omega))
        exact ⟨.work, _, nofun, by rw [step, hw, Option.map_some]⟩
    | @answered f r h hstage hfut hres hdata hw hr =>
      have hcur : s.current = s.got.length := by rw [current]; omega
      rcases hstage with hstage | hstage
      · have hlen : s.client.writes.length = s.device.written.length := by omega
        exact ⟨.written, _, nofun,
          by rw [step, if_pos hlen, hcur, Host.Client.written_ok hstage hfut, Option.map_some]⟩
      · exact ⟨.finish, _, nofun, finish_ok (hcur.symm ▸ hstage) hres⟩

end Steps

end EndToEnd

end BleRpc
