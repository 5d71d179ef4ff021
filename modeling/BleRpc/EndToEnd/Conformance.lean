import BleRpc.Device.Leak
import BleRpc.EndToEnd.System
import BleRpc.Host.Decode

/-!
# The schema and the firmware

`rpc_data.yaml` and the callback table of `main_freertos.c` say twice what the device answers. A run here is a list of
packets that `form_command_packet` builds, each written while the worker waits (`exchange`).

- `exchange_ok`: id 0 is served by `pingService`; the other declared id is in no entry of the table;
- `schema_kept_iff`: a run keeps to the schema iff it asks for `ping_device_1` only and no count on the way is divisible
  by 3, when the firmware notifies under an id that the schema does not have.
-/

namespace BleRpc.Conformance

open Device (Bytes Command Dev Entry GattServer Handler Observation SlotState answers counterBytes pingService
  responses testRcpCallbacks testRcpCallbacks_serves)
open Transition

/-! ## What the schema says -/

/-- `form_command_packet` builds it for a command of the schema, from some values. -/
def Declared (s : Host.Schema) (packet : Bytes) : Prop :=
  ∃ c ∈ s.commands, ∃ rpc : Host.Rpc, rpc.Of s ∧ Host.formCommandPacket c.name rpc = .ok packet

/-- The bytes of a notification. -/
def notificationWidth (n : Host.NotificationSchema) : ℕ := (n.notificationParameters.map (·.type.bytes)).sum

/-- A notification of the schema, as wide as it says. -/
def WellFormedNotification (s : Host.Schema) (packet : Bytes) : Prop :=
  Host.WellFormed packet ∧ ∃ n ∈ s.notifications, ((packet.getD 0 0).toNat : ℤ) = n.id ∧
    (packet.getD 1 0).toNat = notificationWidth n

/-- The packets sent on E003. -/
def notifications (trace : List Observation) : List Bytes :=
  trace.filterMap fun
    | .sent .rpcNotification value => some value
    | _ => none

theorem notifications_append (t u : List Observation) : notifications (t ++ u) = notifications t ++ notifications u :=
  List.filterMap_append

/-- The notifications sent since. -/
def notices {σ : Type} (d d' : Dev σ) : List Bytes := (notifications d'.trace).drop (notifications d.trace).length

/-- Between two states, one command was answered as the schema says, and what was notified is in the schema. -/
structure Conforms {σ : Type} (s : Host.Schema) (packet : Bytes) (d d' : Dev σ) : Prop where
  response : ∃ response, answers d d' = [response] ∧ response.getD 0 0 = packet.getD 0 0 ∧
    Host.WellFormedResponse s response
  notifications : ∀ notice ∈ notices d d', WellFormedNotification s notice

/-! ## What the firmware does -/

/-- A packet is written, and the worker runs until it waits again. -/
def exchange (gatt : GattServer UInt32) (s : SlotState UInt32) (packet : Bytes) : Option (SlotState UInt32) :=
  run (SlotState.step gatt testRcpCallbacks) s [.write packet 0, .iterate]

/-- The exchange goes through, and keeps to the shipped schema. -/
def Keeps (gatt : GattServer UInt32) (s : SlotState UInt32) (packet : Bytes) : Prop :=
  ∃ s', exchange gatt s packet = some s' ∧ Conforms Host.rpcData packet s.dev s'.dev

/-- The worker waits. -/
structure Idle (s : SlotState UInt32) : Prop where
  installed : s.dev.Installed
  commandReceivedSem : s.dev.rpc.commandReceivedSem = 0

/-- `ping_device_1` is asked for, and the count it comes to is not divisible by 3. -/
def Agreed (s : SlotState UInt32) (packet : Bytes) : Prop :=
  packet.getD 0 0 = 0 ∧ (if packet.getD 2 0 = 1 then s.dev.app + 1 else s.dev.app) % 3 ≠ 0

/-- A declared packet is an id of the schema, and one byte. -/
theorem Declared.packet_eq {packet : Bytes} (h : Declared Host.rpcData packet) :
    ∃ id b, packet = [id, 1, b] ∧ (id = 0 ∨ id = 1) := by
  obtain ⟨c, hc, rpc, hrpc, hform⟩ := h
  obtain ⟨id, n, payload, rfl, hid, hn, hlen⟩ := Host.form_inv EndToEnd.scalar_rpcData hc hrpc hform
  have hshape : c.totalWidth = 1 ∧ (c.id = 0 ∨ c.id = 1) := by
    rcases List.mem_cons.mp hc with rfl | hc
    · exact ⟨rfl, Or.inl rfl⟩
    · rw [List.mem_singleton.mp hc]
      exact ⟨rfl, Or.inr rfl⟩
  obtain ⟨b, rfl⟩ := List.length_eq_one_iff.mp (hlen.trans hshape.1)
  have hbyte : n = 1 := UInt8.toNat_inj.mp hn
  refine ⟨id, b, by rw [hbyte], ?_⟩
  rcases hshape.2 with h0 | h1
  · exact Or.inl (UInt8.toNat_inj.mp (show id.toNat = 0 by omega))
  · exact Or.inr (UInt8.toNat_inj.mp (show id.toNat = 1 by omega))

section Firmware

variable {gatt : GattServer UInt32} {s : SlotState UInt32}

/-- The device once a packet has been written and the worker has woken up. -/
structure Scanning (packet : Bytes) (d e : Dev UInt32) : Prop where
  installed : e.Installed
  commandReceivedSem : e.rpc.commandReceivedSem = 0
  command : e.rpc.command = some ⟨.rpcProfileCommand, 2⟩
  slot : e.slot = Command.ofPacket packet
  app : e.app = d.app
  trace : e.trace = d.trace

/-- An exchange is the scan after the write. -/
theorem exists_scan (gatt : GattServer UInt32) (hi : Idle s) {packet : Bytes}
    (hlen : packet.length ≤ Device.maxPacketLength) :
    ∃ e, Scanning packet s.dev e ∧ ∀ f,
      Device.processEntries gatt (testRcpCallbacks.map (Entry.map (Handler.callback gatt))) e = .ok f →
        ∃ s', exchange gatt s packet = some s' ∧ s'.dev = f.countExecution := by
  obtain ⟨d, hwrite, hst⟩ := Device.writeCommand_ok s.dev hlen
  have hsem : d.rpc.commandReceivedSem = 1 := by
    rw [hst.rpc]
    exact congrArg (· + 1) hi.commandReceivedSem
  have hwait : Device.waitForCommand d = some { d with rpc := { d.rpc with commandReceivedSem := 0 } } := by
    rw [Device.waitForCommand, hsem]
  refine ⟨{ d with rpc := { d.rpc with commandReceivedSem := 0 } }, ⟨?_, rfl, ?_, hst.slot, hst.app, hst.trace⟩, ?_⟩
  · show d.rpc.response = _
    rw [hst.rpc]
    exact hi.installed
  · show d.rpc.command = _
    rw [hst.rpc]
  · intro f hf
    have hiter : Device.rcpThreadIteration gatt (testRcpCallbacks.map (Entry.map (Handler.callback gatt))) d =
        some f.countExecution := by
      simp only [Device.rcpThreadIteration, hwait, Device.processCommands, hf, Option.bind_eq_bind, Option.bind_some]
      rfl
    refine ⟨⟨f.countExecution, s.accepted ++ [Command.ofPacket packet]⟩, ?_, rfl⟩
    rw [exchange, run_cons, SlotState.step, Device.writeAttrCB_command, hwrite, Outcome.ok_bind]
    simp only [Option.bind_some, run_cons, SlotState.step, hiter, Option.bind_eq_bind]
    rfl

/-- **One exchange**: id 0 is served, any other id finds no entry. -/
theorem exchange_ok (hmax : 6 ≤ gatt.maxLen.toNat) (hi : Idle s) (id b : UInt8) :
    ∃ s', exchange gatt s [id, 1, b] = some s' ∧ Idle s' ∧ s'.dev.trace = s.dev.trace ++
      if id = 0 then (pingService ⟨id, [b], 1⟩ s.dev.app).history ⟨id, [b], 1⟩ else [] := by
  have hlen : [id, 1, b].length ≤ Device.maxPacketLength := show 3 ≤ 202 by decide
  obtain ⟨e, he, hgo⟩ := exists_scan gatt hi hlen
  have hslot : e.slot = ⟨id, [b], 1⟩ := he.slot
  have hcommandId : e.rpc.commandId = id := congrArg Command.id hslot
  by_cases hid : id = 0
  · have hknown : e.rpc.commandId ∈ Device.tableIds testRcpCallbacks := by
      rw [hcommandId, hid]
      exact List.mem_singleton_self _
    have hpay : e.slot.payload ≠ [] := by
      rw [hslot]
      exact List.cons_ne_nil _ _
    obtain ⟨f, hf, hdis, hserved⟩ :=
      (testRcpCallbacks_serves hmax).processEntries_ok he.installed he.command hpay hknown
    obtain ⟨s', hs', hdev⟩ := hgo f hf
    have htrace : s'.dev.trace = f.trace := by rw [hdev]; rfl
    refine ⟨s', hs', ⟨?_, ?_⟩, ?_⟩
    · rw [hdev]
      exact hdis.installed
    · rw [hdev]
      exact hdis.commandReceivedSem.trans he.commandReceivedSem
    · rw [htrace, hserved.trace, if_pos hid, hslot, he.app, he.trace]
  · have hunknown : e.rpc.commandId ∉ Device.tableIds testRcpCallbacks := by
      rw [hcommandId]
      intro hmem
      exact hid (List.mem_singleton.mp hmem)
    have hskip : Device.processEntries gatt (testRcpCallbacks.map (Entry.map (Handler.callback gatt))) e = .ok e :=
      Device.processEntries_skip (testRcpCallbacks_serves hmax).ended hunknown
    obtain ⟨s', hs', hdev⟩ := hgo e hskip
    have htrace : s'.dev.trace = e.trace := by rw [hdev]; rfl
    refine ⟨s', hs', ⟨?_, ?_⟩, ?_⟩
    · rw [hdev]
      exact he.installed
    · rw [hdev]
      exact he.commandReceivedSem
    · rw [htrace, if_neg hid, List.append_nil, he.trace]

/-! ## Where the two agree -/

theorem notices_of_append {σ : Type} {d d' : Dev σ} {t : List Observation} (h : d'.trace = d.trace ++ t) :
    notices d d' = notifications t := by
  rw [notices, h, notifications_append, List.drop_left]

theorem answers_of_trace {σ : Type} {d d' : Dev σ} {t : List Observation} (h : d'.trace = d.trace ++ t) :
    answers d d' = responses t := by
  apply Device.answers_of_append
  rw [h, Device.responses_append]

/-- The response and the notifications of a command that was served. -/
theorem history_packets {σ : Type} (r : Device.Reply σ) (c : Command) :
    responses (r.history c) = [r.packet c] ∧ notifications (r.history c) = r.notifications := by
  have hnone : notifications [.sent .rpcResponse (r.packet c)] = [] := rfl
  have hmap : notifications r.notified = r.notifications := by
    rw [notifications, Device.Reply.notified, List.filterMap_map]
    exact List.filterMap_some
  constructor
  · rw [Device.Reply.history, ← List.singleton_append, Device.responses_append, Device.responses_append,
      Device.Service.responses_notified]
    rfl
  · rw [Device.Reply.history, ← List.singleton_append, notifications_append, notifications_append, hmap, hnone,
      List.append_nil]
    rfl

/-- The response of `ping_device` is the one declared for id 0. -/
theorem wellFormed_pong (counter : UInt32) :
    Host.WellFormedResponse Host.rpcData (0 :: 4 :: counterBytes counter) := by
  have hlen := Device.length_counterBytes counter
  refine ⟨⟨?_, ?_⟩, Host.pingDevice1, List.mem_cons_self, List.cons_ne_nil _ _, rfl, rfl⟩
  · rw [List.length_cons, List.length_cons]
    omega
  · rw [List.length_cons, List.length_cons, hlen]
    rfl

/-- The id of the firmware's notification is not declared. -/
theorem not_wellFormed_notice (counter : UInt32) :
    ¬ WellFormedNotification Host.rpcData (1 :: 4 :: counterBytes counter) := by
  rintro ⟨_, n, hn, hid, _⟩
  rw [List.mem_singleton.mp hn] at hid
  have hone : ((1 : UInt8).toNat : ℤ) = 0 := hid
  cases hone

/-- **One exchange keeps to the schema** iff it is agreed. -/
theorem keeps_iff (hmax : 6 ≤ gatt.maxLen.toNat) (hi : Idle s) {packet : Bytes}
    (hp : Declared Host.rpcData packet) : Keeps gatt s packet ↔ Agreed s packet := by
  obtain ⟨id, b, rfl, hid⟩ := hp.packet_eq
  obtain ⟨s', hs', _, htrace⟩ := exchange_ok hmax hi id b
  rw [Keeps, hs']
  simp only [Option.some.injEq, exists_eq_left']
  rcases hid with rfl | rfl
  · rw [if_pos rfl] at htrace
    obtain ⟨hresp, hnote⟩ := history_packets (pingService ⟨0, [b], 1⟩ s.dev.app) ⟨0, [b], 1⟩
    rw [← answers_of_trace htrace] at hresp
    rw [← notices_of_append htrace] at hnote
    have hagreed : Agreed s [0, 1, b] ↔ (pingService ⟨0, [b], 1⟩ s.dev.app).app % 3 ≠ 0 := by
      simp [Agreed, pingService]
    rw [hagreed]
    constructor
    · rintro ⟨_, hnotes⟩ hzero
      have hmem : 1 :: 4 :: counterBytes (pingService ⟨0, [b], 1⟩ s.dev.app).app ∈ notices s.dev s'.dev := by
        rw [hnote]
        simp only [pingService] at hzero ⊢
        rw [if_pos hzero]
        exact List.mem_singleton_self _
      exact not_wellFormed_notice _ (hnotes _ hmem)
    · intro hzero
      refine ⟨⟨_, hresp, rfl, wellFormed_pong _⟩, ?_⟩
      rw [hnote]
      simp only [pingService] at hzero ⊢
      rw [if_neg hzero]
      intro notice hmem
      cases hmem
  · rw [if_neg (by decide)] at htrace
    have hnone : answers s.dev s'.dev = [] := answers_of_trace htrace
    constructor
    · rintro ⟨⟨response, hresp, _⟩, _⟩
      rw [hnone] at hresp
      cases hresp
    · rintro ⟨hid, _⟩
      cases hid

end Firmware

/-- **A run keeps to the schema exactly when it asks for `ping_device_1` only and no count on the way is divisible by
3.** -/
theorem schema_kept_iff (gatt : GattServer UInt32) (hmax : 6 ≤ gatt.maxLen.toNat) (packets : List Bytes)
    (hp : ∀ packet ∈ packets, Declared Host.rpcData packet) :
    Meets (exchange gatt) (Keeps gatt) (SlotState.init 0) packets ↔
      Meets (exchange gatt) Agreed (SlotState.init 0) packets := by
  refine meets_congr (I := Idle) ?_ (fun s packet hi hd => keeps_iff hmax hi hd) ⟨rfl, rfl⟩ hp
  intro s packet s' hi hd hs
  obtain ⟨id, b, rfl, _⟩ := hd.packet_eq
  obtain ⟨t, ht, hidle, _⟩ := exchange_ok hmax hi id b
  rw [ht] at hs
  cases hs
  exact hidle

/-- The packet of a value is declared, for either command. -/
theorem declared_packet {c : Host.CommandSchema} (hc : c ∈ Host.rpcData.commands) (v : ℤ) :
    Declared Host.rpcData (c.packet fun _ => v) := by
  have hplain : c.requestParameters = [⟨"ping", .uint8, false, none⟩] := by
    rcases List.mem_cons.mp hc with rfl | hc
    · rfl
    · rw [List.mem_singleton.mp hc]
      rfl
  have hcalls : Host.Assigns c [("ping", v)] fun _ => v := by
    constructor
    · intro call hcall
      rw [List.mem_singleton.mp hcall, hplain]
      exact ⟨_, List.mem_cons_self, rfl⟩
    · intro p hp
      rw [hplain, List.mem_singleton] at hp
      rw [hp]
      rfl
  have hwidth : c.totalWidth < 256 := by
    rw [Host.CommandSchema.totalWidth, hplain]
    decide
  obtain ⟨fresh, hread⟩ : ∃ fresh, Host.readRpcParameters Host.rpcData = .ok fresh := ⟨_, rfl⟩
  obtain ⟨rpc, _, hrpc, _, hform⟩ := Host.form_spec Empty EndToEnd.scalar_rpcData hc
    (by rw [hplain]; exact List.cons_ne_nil _ _) hwidth (Host.Rpc.of_read hread) hcalls
  exact ⟨c, hc, rpc, hrpc, hform⟩

/-- The two first pings. -/
theorem two_pings_kept :
    Meets (exchange (.plain 251)) (Keeps (.plain 251)) (SlotState.init 0) [[0, 1, 1], [0, 1, 1]] ↔
      Meets (exchange (.plain 251)) Agreed (SlotState.init 0) [[0, 1, 1], [0, 1, 1]] := by
  refine schema_kept_iff (.plain 251) (by decide) _ ?_
  intro packet hpacket
  have hone : packet = [0, 1, 1] := by simpa using hpacket
  rw [hone]
  exact declared_packet (c := Host.pingDevice1) List.mem_cons_self 1

/-- `ping_device_2` is declared and not answered; a first command that is no ping is notified under id 1. -/
theorem schema_not_kept :
    (Declared Host.rpcData [1, 1, 1] ∧ ∃ s', exchange (.plain 251) (SlotState.init 0) [1, 1, 1] = some s' ∧
        answers (SlotState.init (0 : UInt32)).dev s'.dev = [] ∧ ¬ Keeps (.plain 251) (SlotState.init 0) [1, 1, 1]) ∧
      Declared Host.rpcData [0, 1, 0] ∧ ∃ s', exchange (.plain 251) (SlotState.init 0) [0, 1, 0] = some s' ∧
        notices (SlotState.init (0 : UInt32)).dev s'.dev = [[1, 4, 0, 0, 0, 0]] ∧
        ¬ Keeps (.plain 251) (SlotState.init 0) [0, 1, 0] := by
  have hidle : Idle (SlotState.init 0) := ⟨rfl, rfl⟩
  have hmax : 6 ≤ (.plain 251 : GattServer UInt32).maxLen.toNat := by decide
  have hfirst : Declared Host.rpcData [0, 1, 0] := declared_packet (c := Host.pingDevice1) List.mem_cons_self 0
  have hsecond : Declared Host.rpcData [1, 1, 1] :=
    declared_packet (c := Host.pingDevice2) (List.mem_cons_of_mem _ List.mem_cons_self) 1
  refine ⟨⟨hsecond, _, rfl, rfl, ?_⟩, hfirst, _, rfl, by decide, ?_⟩
  · rw [keeps_iff hmax hidle hsecond]
    rintro ⟨hid, _⟩
    cases hid
  · rw [keeps_iff hmax hidle hfirst]
    rintro ⟨_, hcount⟩
    exact hcount rfl

end BleRpc.Conformance
