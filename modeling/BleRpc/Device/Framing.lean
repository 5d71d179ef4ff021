import BleRpc.Device.Send
import BleRpc.Host.Packet

/-!
# What the device accepts and what it sends

The host checks every packet it sends and every packet it receives (`Host/Packet.lean`). The device checks none: the
write callback takes any packet at any offset, the send functions and the read callback copy any length. Here is
exactly when that makes no difference.

- `write_grammar_iff`: the write callback does what the host's checks promise iff the packet passes them and the offset
  is zero;
- `send_framing_iff`: a send is a packet the host accepts, with no byte outside the arrays, iff the payload is at most
  `RPC_MAX_PAYLOAD_LENGTH` bytes, the packet fits in the reader's buffer, and the data does not lie where it is copied
  to.
-/

namespace BleRpc.Device

open Outcome

variable {σ : Type}

/-! ## Commands -/

/-- The command is stored, its length byte is the number of payload bytes received, and that many are there to read. -/
def AcceptsCommand (packet : Bytes) (d : Dev σ) (r : Except Fault (Dev σ × Status)) : Prop :=
  ∃ d', r = .ok (d', .success) ∧ Stored packet d d' ∧ d'.rpc.commandLength = packet.length - 2 ∧
    d'.payload = packet.drop 2

/-- An ATT error, and nothing changed. -/
def RefusesCommand (d : Dev σ) (r : Except Fault (Dev σ × Status)) : Prop :=
  ∃ d' status, r = .ok (d', status) ∧ status ≠ .success ∧ d'.rpc = d.rpc ∧
    d'.memory .rpcProfileCommand = d.memory .rpcProfileCommand ∧ d'.rcpCommandCount = d.rcpCommandCount

/-- The device accepts exactly what `send_command` lets through, in one piece, and refuses the rest unharmed. -/
def CommandGrammar (packet : Bytes) (offset : UInt16) (d : Dev σ) (r : Except Fault (Dev σ × Status)) : Prop :=
  (Host.checkCommand packet = .ok () ∧ offset = 0 → AcceptsCommand packet d r) ∧
    (¬ (Host.checkCommand packet = .ok () ∧ offset = 0) → RefusesCommand d r)

/-- No command write is refused: it is accepted, or it overruns the array. -/
theorem not_refused (gatt : GattServer σ) (packet : Bytes) (offset : UInt16) (d : Dev σ) :
    ¬ RefusesCommand d (writeAttrCB gatt commandAttr packet offset d) := by
  rintro ⟨d', status, hr, hs, _⟩
  rw [writeAttrCB_command, bind_eq_ok] at hr
  obtain ⟨e, _, he⟩ := hr
  cases he
  exact hs rfl

/-- A packet that passes the host's checks is accepted as it should be. -/
theorem accepted_of_check (gatt : GattServer σ) {packet : Bytes} (h : Host.checkCommand packet = .ok ())
    (offset : UInt16) (d : Dev σ) : AcceptsCommand packet d (writeAttrCB gatt commandAttr packet offset d) := by
  obtain ⟨⟨h2, hlen⟩, hmax⟩ := Host.checkCommand_ok.mp h
  obtain ⟨d', hd, hs⟩ := writeCommand_ok d hmax
  have hbyte : ((padded packet).getD 1 0).toNat = packet.length - 2 := by rw [getD_padded (by omega), hlen]
  refine ⟨d', by rw [writeAttrCB_command, hd, ok_bind], hs, by rw [hs.rpc, hbyte], ?_⟩
  rw [hs.payload, hbyte, padded, List.drop_append_of_le_length h2, ← List.length_drop, List.take_left]

/-- **The device keeps the host's command grammar exactly on the packets the host lets through.** -/
theorem write_grammar_iff (gatt : GattServer σ) (packet : Bytes) (offset : UInt16) (d : Dev σ) :
    CommandGrammar packet offset d (writeAttrCB gatt commandAttr packet offset d) ↔
      Host.checkCommand packet = .ok () ∧ offset = 0 := by
  constructor
  · rintro ⟨_, hrefuse⟩
    by_contra h
    exact not_refused gatt packet offset d (hrefuse h)
  · intro h
    exact ⟨fun _ => accepted_of_check gatt h.1 offset d, fun h' => absurd h h'⟩

/-- A packet of two bytes whose header promises five is accepted. -/
theorem lying_header_accepted : ¬ CommandGrammar [0x00, 0x05] 0 (reset ())
    (writeAttrCB (.plain 251) commandAttr [0x00, 0x05] 0 (reset ())) := by
  rintro ⟨_, hrefuse⟩
  exact not_refused _ _ _ _ (hrefuse (by decide))

/-! ## Responses and notifications -/

/-- The packet handed to GATT is one its handler on the host accepts, and it fits; or the send fails and changes
nothing. Either way no byte is stored outside an array. -/
def Framed (gatt : GattServer σ) (uuid : Uuid) (length : ℕ) (d : Dev σ) (r : Except Fault (Dev σ × Status)) : Prop :=
  (∃ d' packet, r = .ok (d', .success) ∧ d'.trace = d.trace ++ [.sent uuid packet] ∧ packet.length = length + 2 ∧
      (packet.getD 1 0).toNat = length ∧ length + 2 ≤ gatt.maxLen.toNat ∧ length ≤ maxPayloadLength ∧
      Host.checkResponse packet = .ok () ∧ Host.checkNotification packet = .ok ()) ∨
    ∃ d' status, r = .ok (d', status) ∧ status ≠ .success ∧ d'.rpc = d.rpc ∧
      d'.memory .rpcProfileResponse = d.memory .rpcProfileResponse ∧
      d'.memory .rpcProfileNotification = d.memory .rpcProfileNotification

/-- Header and payload of at most `RPC_MAX_PAYLOAD_LENGTH` bytes pass the host's checks. -/
theorem wellFormed_of_le (id : UInt8) {bytes : Bytes} {length : ℕ} (hb : bytes.length = length)
    (hlen : length ≤ maxPayloadLength) : Host.WellFormed (id :: UInt8.ofNat length :: bytes) := by
  subst hb
  unfold maxPayloadLength at hlen
  exact Host.wellFormed_packet id (show bytes.length < 256 by omega)

/-- Such a packet is framed as the host wants it. -/
theorem framed_packet {gatt : GattServer σ} {uuid : Uuid} {d d' : Dev σ} {id : UInt8} {bytes : Bytes}
    {length : ℕ} {r : Except Fault (Dev σ × Status)} (hb : bytes.length = length) (hr : r = .ok (d', .success))
    (ht : d'.trace = d.trace ++ [.sent uuid (id :: UInt8.ofNat length :: bytes)])
    (hlen : length ≤ maxPayloadLength) (hmax : length + 2 ≤ gatt.maxLen.toNat) : Framed gatt uuid length d r := by
  have hwf := wellFormed_of_le id hb hlen
  subst hb
  exact Or.inl ⟨d', _, hr, ht, by simp, hwf.2, hmax, hlen, Host.checkResponse_ok.mpr hwf,
    Host.checkNotification_ok.mpr hwf⟩

/-- A send: of the response a callback left, or of a notification. -/
inductive Send
  | response (id : UInt8)
  | notification (id : UInt8) (data : Source) (length : ℕ)

namespace Send

def uuid : Send → Uuid
  | .response _ => .rpcResponse
  | .notification .. => .rpcNotification

/-- The call, as the worker or a callback makes it. -/
def call (gatt : GattServer σ) (d : Dev σ) : Send → Except Fault (Dev σ × Status)
  | .response id => sendResponse gatt id d.rpc.response d.rpc.responseLength d
  | .notification id data length => sendNotification gatt id data length d

def length (d : Dev σ) : Send → ℕ
  | .response _ => d.rpc.responseLength
  | .notification _ _ length => length

/-- The data is there: the response within the buffer `main` installs; a notification's data readable. -/
def Supplied (d : Dev σ) : Send → Prop
  | .response _ => d.rpc.response = some ⟨.rcpResponseBuffer, 0⟩ ∧ d.rpc.responseLength ≤ Region.size .rcpResponseBuffer
  | .notification _ data length => ∃ bytes, d.memory.loadFrom data length = .ok bytes

/-- The data of a notification lies among the cells it is copied to. -/
def Overlaps : Send → Prop
  | .response _ => False
  | .notification _ data length => data.Overlaps ⟨.rpcProfileNotification, 2⟩ length

instance : ∀ s : Send, Decidable s.Overlaps
  | .response _ => isFalse id
  | .notification _ data length => inferInstanceAs (Decidable (data.Overlaps ⟨.rpcProfileNotification, 2⟩ length))

/-- A send that goes through is bounded by the arrays and by the reader's buffer. -/
theorem call_bound {gatt : GattServer σ} {d d' : Dev σ} {status : Status} {s : Send} (hs : s.Supplied d)
    (h : s.call gatt d = .ok (d', status)) :
    status = .success ∧ s.length d ≤ maxPayloadLength ∧ s.length d + 2 ≤ gatt.maxLen.toNat ∧ ¬ s.Overlaps := by
  cases s with
  | response id =>
    obtain ⟨_, _, hst, hle, hmax, _⟩ := sendResponse_inv (outside_of_responseBuffer hs.1) h
    exact ⟨hst, hle, hmax, not_false⟩
  | notification id data length =>
    obtain ⟨_, _, hst, _⟩ := sendNotification_inv h
    obtain ⟨_, hover, hle, hmax⟩ := (sendNotification_iff gatt id d).mp ⟨_, h⟩
    exact ⟨hst, hle, hmax, hover⟩

/-- A send within both bounds, of data from elsewhere, is framed. -/
theorem call_framed {gatt : GattServer σ} {d : Dev σ} {s : Send} (hs : s.Supplied d)
    (hlen : s.length d ≤ maxPayloadLength) (hmax : s.length d + 2 ≤ gatt.maxLen.toNat) (hover : ¬ s.Overlaps) :
    Framed gatt s.uuid (s.length d) d (s.call gatt d) := by
  cases s with
  | response id =>
    obtain ⟨hptr, hsize⟩ := hs
    have hload := load_responseBuffer d.memory hptr hsize
    have hout := outside_of_responseBuffer hptr
    obtain ⟨m, hm, _⟩ := sendResponse_ok gatt id hload hout hlen hload hout hmax
    exact framed_packet (Memory.length_of_loadFrom hload) hm rfl hlen hmax
  | notification id data length =>
    have hread : data.Readable length := loadFrom_iff.mp hs
    obtain ⟨⟨d', status⟩, hr⟩ := (sendNotification_iff gatt id d).mpr ⟨hread, hover, hlen, hmax⟩
    obtain ⟨m, live, rfl, _, _, hlive, _, rfl⟩ := sendNotification_inv hr
    exact framed_packet hlive hr rfl hlen hmax

end Send

/-- **A send is framed exactly when its payload is at most `RPC_MAX_PAYLOAD_LENGTH` bytes, fits in the reader's buffer
and does not lie where it is copied to.** -/
theorem send_framing_iff (gatt : GattServer σ) (d : Dev σ) (s : Send) (hs : s.Supplied d) :
    Framed gatt s.uuid (s.length d) d (s.call gatt d) ↔
      s.length d ≤ maxPayloadLength ∧ s.length d + 2 ≤ gatt.maxLen.toNat ∧ ¬ s.Overlaps := by
  constructor
  · rintro (⟨d', _, hr, _⟩ | ⟨d', status, hr, hst, _⟩)
    · exact (Send.call_bound hs hr).2
    · exact absurd (Send.call_bound hs hr).1 hst
  · rintro ⟨hlen, hmax, hover⟩
    exact Send.call_framed hs hlen hmax hover

/-- The response buffer with `[10, 20, 30]`. -/
def leftBytes : Bytes := [10, 20, 30] ++ List.replicate 253 0

theorem length_leftBytes : leftBytes.length = Region.size .rcpResponseBuffer := by
  rw [leftBytes, List.length_append, List.length_replicate]
  rfl

/-- The device when the callback of command 7 has left that. -/
def responseLeft : Dev Unit :=
  { reset () with
    memory := Function.update (reset ()).memory .rcpResponseBuffer ⟨leftBytes, length_leftBytes⟩
    rpc := { (reset ()).rpc with commandId := 7, responseId := 7, responseLength := 3 } }

/-- A reader with room for 23 bytes is sent the response, a notification with data from the response buffer, and one
with data from behind the cells it is copied to. Payload of 22 bytes, and data in those cells, are not framed. -/
theorem send_framing_left :
    ((Send.response 7).call (.plain 23) responseLeft).map (·.1.trace) = .ok [.sent .rpcResponse [7, 3, 10, 20, 30]] ∧
    Framed (.plain 23) .rpcResponse 3 responseLeft ((Send.response 7).call (.plain 23) responseLeft) ∧
    (∀ p ∈ [⟨.rcpResponseBuffer, 1⟩, ⟨.rpcProfileNotification, 4⟩], Framed (.plain 23) .rpcNotification 2 responseLeft
      ((Send.notification 9 (.ptr (some p)) 2).call (.plain 23) responseLeft)) ∧
    ¬ Framed (.plain 23) .rpcNotification 22 responseLeft
      ((Send.notification 9 (.own (List.replicate 22 1)) 22).call (.plain 23) responseLeft) ∧
    ¬ Framed (.plain 23) .rpcNotification 2 responseLeft
      ((Send.notification 9 (.ptr (some ⟨.rpcProfileNotification, 3⟩)) 2).call (.plain 23) responseLeft) := by
  have hspec := send_framing_iff (.plain 23) responseLeft
  refine ⟨rfl, ?_, ?_, ?_, ?_⟩
  · exact (hspec (.response 7) ⟨rfl, by decide⟩).mpr (by decide)
  · intro p hp
    rcases List.mem_pair.mp hp with rfl | rfl
    · exact (hspec (.notification 9 (.ptr (some ⟨.rcpResponseBuffer, 1⟩)) 2) ⟨_, rfl⟩).mpr (by decide)
    · exact (hspec (.notification 9 (.ptr (some ⟨.rpcProfileNotification, 4⟩)) 2) ⟨_, rfl⟩).mpr (by decide)
  · intro h
    have hle := (hspec (.notification 9 (.own (List.replicate 22 1)) 22) ⟨_, rfl⟩).mp h
    exact absurd hle.2.1 (by decide)
  · intro h
    have hover := (hspec (.notification 9 (.ptr (some ⟨.rpcProfileNotification, 3⟩)) 2) ⟨_, rfl⟩).mp h
    exact absurd hover.2.2 (by decide)

/-- The device after a callback has left a response of 201 bytes in the 256-byte buffer. -/
def longResponse : Dev Unit := { reset () with rpc := { (reset ()).rpc with responseLength := 201 } }

/-- A response of 201 bytes overruns `rpcProfile_response`. -/
theorem long_response_overruns :
    ¬ Framed (.plain 251) .rpcResponse 201 longResponse ((Send.response 0).call (.plain 251) longResponse) := by
  have hs : (Send.response 0).Supplied longResponse := ⟨rfl, by decide⟩
  rintro (⟨d', _, hr, _⟩ | ⟨d', status, hr, hst, _⟩)
  · have hle := (Send.call_bound hs hr).2.1
    exact absurd hle (by decide)
  · exact hst (Send.call_bound hs hr).1

end BleRpc.Device
