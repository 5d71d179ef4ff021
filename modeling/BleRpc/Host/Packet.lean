import Mathlib.Data.List.Basic

/-!
# Packets as the host checks them

The length checks of `send_command`, `response_handler` and `notification_handler` in `ble_rpc.py`, with the exceptions
they raise. A packet passes iff it has at least two bytes and byte 1 counts the rest (`WellFormed`); a command is also
at most `RPC_MAX_PACKET_LENGTH` bytes long.
-/

namespace BleRpc.Host

abbrev Bytes := List UInt8

/-- The Python exceptions the program raises or runs into. -/
inductive PyErr
  | valueError (message : String)
  | ioError (message : String)
  | attributeError
  | indexError
  | keyError
  | typeError
  | overflowError
  | syntaxError
  | timeoutError
  | cancelledError
  | invalidStateError
  | bleakError (message : String)
  deriving DecidableEq

/-- `RPC_MAX_PAYLOAD_LENGTH`. -/
def maxPayloadLength : ℕ := 200

/-- `RPC_MAX_PACKET_LENGTH`. -/
def maxPacketLength : ℕ := maxPayloadLength + 2

/-- At least two bytes, and byte 1 is the number of bytes after the header. -/
def WellFormed (packet : Bytes) : Prop := 2 ≤ packet.length ∧ (packet.getD 1 0).toNat = packet.length - 2

instance (packet : Bytes) : Decidable (WellFormed packet) := inferInstanceAs (Decidable (_ ∧ _))

/-- `header=…, actual=…`, as the length errors print it. -/
def lengthMismatch (packet : Bytes) : String :=
  "header=" ++ toString (packet.getD 1 0).toNat ++ ", actual=" ++ toString (packet.length - 2)

/-- The checks of `send_command` before it takes the lock. -/
def checkCommand (command : Bytes) : Except PyErr Unit :=
  if command.length < 2 then .error (.valueError "RPC command must contain ID and length")
  else if command.length > maxPacketLength then
    .error (.valueError ("RPC command too large: " ++ toString command.length ++ " bytes"))
  else if (command.getD 1 0).toNat ≠ command.length - 2 then
    .error (.valueError ("RPC command length mismatch: " ++ lengthMismatch command))
  else .ok ()

/-- The checks the two notification handlers share. -/
def checkPacket (tooShort mismatch : String) (packet : Bytes) : Except PyErr Unit :=
  if packet.length < 2 then .error (.ioError tooShort)
  else if (packet.getD 1 0).toNat ≠ packet.length - 2 then .error (.ioError (mismatch ++ lengthMismatch packet))
  else .ok ()

/-- The checks of `response_handler`. -/
def checkResponse : Bytes → Except PyErr Unit :=
  checkPacket "[Response] ERROR: response packet too short" "[Response] ERROR: length mismatch: "

/-- The checks of `notification_handler`; its second message says `[Response]` in the source too. -/
def checkNotification : Bytes → Except PyErr Unit :=
  checkPacket "[Notification] ERROR: notification packet too short" "[Response] ERROR: length mismatch: "

theorem checkPacket_ok {tooShort mismatch : String} {packet : Bytes} :
    checkPacket tooShort mismatch packet = .ok () ↔ WellFormed packet := by
  unfold checkPacket WellFormed
  split
  · rename_i h
    constructor
    · intro h'; cases h'
    · intro h'; omega
  · split
    · rename_i h
      constructor
      · intro h'; cases h'
      · intro h'; exact absurd h'.2 h
    · rename_i h₁ h₂
      exact ⟨fun _ => ⟨by omega, not_not.mp h₂⟩, fun _ => rfl⟩

/-- A packet that fails the checks raises an `IOError`. -/
theorem checkPacket_error {tooShort mismatch : String} {packet : Bytes} {e : PyErr}
    (h : checkPacket tooShort mismatch packet = .error e) : ∃ message, e = .ioError message := by
  unfold checkPacket at h
  split at h
  · cases h; exact ⟨_, rfl⟩
  · split at h
    · cases h; exact ⟨_, rfl⟩
    · cases h

theorem checkResponse_ok {packet : Bytes} : checkResponse packet = .ok () ↔ WellFormed packet := checkPacket_ok

theorem checkNotification_ok {packet : Bytes} : checkNotification packet = .ok () ↔ WellFormed packet :=
  checkPacket_ok

theorem checkCommand_ok {command : Bytes} :
    checkCommand command = .ok () ↔ WellFormed command ∧ command.length ≤ maxPacketLength := by
  unfold checkCommand WellFormed
  split
  · rename_i h
    constructor
    · intro h'; cases h'
    · intro h'; omega
  · split
    · rename_i h
      constructor
      · intro h'; cases h'
      · intro h'; omega
    · split
      · rename_i h
        constructor
        · intro h'; cases h'
        · intro h'; exact absurd h'.1.2 h
      · rename_i h₁ h₂ h₃
        exact ⟨fun _ => ⟨⟨by omega, not_not.mp h₃⟩, by omega⟩, fun _ => rfl⟩

/-- Header and payload make a packet when the payload's length fits the header byte. -/
theorem wellFormed_packet (id : UInt8) {payload : Bytes} (h : payload.length < 256) :
    WellFormed (id :: UInt8.ofNat payload.length :: payload) := by
  refine ⟨by simp, ?_⟩
  simpa using Nat.mod_eq_of_lt h

end BleRpc.Host
