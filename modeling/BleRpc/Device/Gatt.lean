import BleRpc.Device.State
import BleRpc.Lib.Outcome

/-!
# The GATT profile

The attribute table, the read and write callbacks, and the two send functions of `simple_gatt_profile.c`. The GATT
server itself is not part of the repository: `GattServer` is what the profile relies on. A client has subscribed, so
`GATTServApp_ProcessCharCfg` reads the attribute whose value pointer it was given through the read callback and sends
what it reads.

Not modelled: `SimpleGattProfile_callback`, which ends in a menu print and a `setParameter` call that the profile
refuses.
-/

namespace BleRpc.Device

/-- `bStatus_t`: the codes the profile returns, and those of the stack. -/
inductive Status
  | success
  | attErrAttrNotLong
  | attErrInvalidValueSize
  | attErrAttrNotFound
  | attErrInvalidHandle
  | stack (code : UInt8)
  deriving DecidableEq

/-- What the value pointers of the attribute table point to. -/
inductive Obj
  | service
  | props (uuid : Uuid)
  | userDesp (uuid : Uuid)
  | charCfg (uuid : Uuid)
  | value (uuid : Uuid)
  deriving DecidableEq

inductive AttType
  | uuid16 (uuid : Uuid)
  | uuid128
  deriving DecidableEq

/-- `gattAttribute_t`, without handle and permissions, which only the stack reads. -/
structure Attribute where
  type : AttType
  pValue : Obj
  deriving DecidableEq

/-- Declaration, value and description of a characteristic. -/
def characteristic (uuid : Uuid) : List Attribute :=
  [⟨.uuid16 .character, .props uuid⟩, ⟨.uuid16 uuid, .value uuid⟩, ⟨.uuid16 .charUserDesc, .userDesp uuid⟩]

/-- The same with a client characteristic configuration before the description. -/
def notifiedCharacteristic (uuid : Uuid) : List Attribute :=
  [⟨.uuid16 .character, .props uuid⟩, ⟨.uuid16 uuid, .value uuid⟩, ⟨.uuid16 .clientCharCfg, .charCfg uuid⟩,
    ⟨.uuid16 .charUserDesc, .userDesp uuid⟩]

/-- `simpleGattProfile_attrTbl`. -/
def attrTbl : List Attribute :=
  ⟨.uuid16 .primaryService, .service⟩ ::
    (characteristic .char1 ++ characteristic .char2 ++ characteristic .char3 ++ characteristic .char5 ++
      characteristic .rpcCommand ++ notifiedCharacteristic .rpcResponse ++ notifiedCharacteristic .rpcNotification)

variable {σ : Type}

/-! ## Reads -/

/-- A store into the reader's `pValue`. -/
def storeValue {n : ℕ} (v : List.Vector UInt8 n) (off : ℕ) (bytes : Bytes) : Except Fault (List.Vector UInt8 n) :=
  match Buffer.store? v off bytes with
  | some w => .ok w
  | none => .error .storeValue

/-- The lines the packet characteristics share: `*pLen = length + 2`, the two header bytes, the `memcpy`. The result
is the first `*pLen` bytes of `pValue`, which has room for `maxLen`. -/
def buildPacket (m : Memory) (maxLen : UInt16) (id : UInt8) (length : ℕ) (src : Option Ptr) : Except Fault Bytes := do
  let pLen := (length + 2) % 2 ^ 16
  let pValue ← storeValue (List.Vector.replicate maxLen.toNat 0) 0 [id]
  let pValue ← storeValue pValue 1 [UInt8.ofNat length]
  let bytes ← m.loadFrom (.ptr src) length
  let pValue ← storeValue pValue 2 bytes
  return pValue.toList.take pLen

/-- The bytes of an object of the attribute table that the read callback copies itself. -/
def Dev.object (d : Dev σ) : Obj → Bytes
  | .value .char5 => d.char5.toList
  | _ => []

/-- `SimpleGattProfile_readAttrCB`: status and value read. -/
def readAttrCB (attr : Attribute) (offset maxLen : UInt16) (d : Dev σ) : Except Fault (Dev σ × Status × Bytes) :=
  if offset > 0 then .ok (d, .attErrAttrNotLong, [])
  else match attr.type with
    | .uuid16 .char1 | .uuid16 .char2 | .uuid16 .rpcResponse => do
      let value ← buildPacket d.memory maxLen d.rpc.responseId d.rpc.responseLength d.rpc.response
      return (d, .success, value)
    | .uuid16 .rpcNotification => do
      let d := { d with rpc := { d.rpc with notification := some ⟨.rpcProfileNotification, 2⟩ } }
      let value ← buildPacket d.memory maxLen d.rpc.notificationId d.rpc.notificationLength d.rpc.notification
      return (d, .success, value)
    | .uuid16 .char5 => do
      let bytes ← d.memory.loadFrom (.own (d.object attr.pValue)) char5Len
      let pValue ← storeValue (List.Vector.replicate maxLen.toNat 0) 0 bytes
      return (d, .success, pValue.toList.take char5Len)
    | .uuid16 _ => .ok (d, .attErrAttrNotFound, [])
    | .uuid128 => .ok (d, .attErrInvalidHandle, [])

/-- What a sent packet leaves behind: the observation, if the read succeeded. -/
def delivered (uuid : Uuid) : Dev σ × Status × Bytes → Dev σ × Status
  | (d, .success, value) => (d.observe (.sent uuid value), .success)
  | (d, status, _) => (d, status)

/-- The GATT server under the profile. -/
structure GattServer (σ : Type) where
  /-- The room the server gives the read callback for a notification. -/
  maxLen : UInt16
  /-- `GATTServApp_ProcessCharCfg`, given the read callback, the attribute table and the value pointer. -/
  processCharCfg : (Attribute → UInt16 → UInt16 → Dev σ → Except Fault (Dev σ × Status × Bytes)) → List Attribute →
    Obj → Dev σ → Except Fault (Dev σ × Status)
  /-- `GATTServApp_ProcessCCCWriteReq`, given the value and the offset. -/
  processCCCWriteReq : Bytes → UInt16 → Status
  /-- A subscribed client is sent what the read callback returns for the attribute with that value pointer. -/
  delivers : ∀ read tbl pValue d attr uuid, tbl.find? (fun a => a.pValue == pValue) = some attr →
    attr.type = .uuid16 uuid → processCharCfg read tbl pValue d = (delivered uuid <$> read attr 0 maxLen d)

/-- A server that only does that. -/
def GattServer.plain (maxLen : UInt16) : GattServer σ where
  maxLen := maxLen
  processCharCfg read tbl pValue d :=
    match tbl.find? (fun a => a.pValue == pValue) with
    | none => .ok (d, .attErrAttrNotFound)
    | some attr =>
      match attr.type with
      | .uuid128 => .ok (d, .attErrInvalidHandle)
      | .uuid16 uuid => delivered uuid <$> read attr 0 maxLen d
  processCCCWriteReq _ _ := .success
  delivers := by
    intro read tbl pValue d attr uuid hfind htype
    simp only [hfind, htype]

/-! ## Sends -/

/-- The lines the two send functions share: the array zeroed, the two header bytes, the `memcpy`. -/
def fillPacket (m : Memory) (r : Region) (id : UInt8) (data : Source) (length : ℕ) : Except Fault Memory := do
  let m := m.memset r
  let m ← m.store ⟨r, 0⟩ [id]
  let m ← m.store ⟨r, 1⟩ [UInt8.ofNat length]
  m.memcpy ⟨r, 2⟩ data length

/-- `__RPC_sendNotification`. -/
def sendNotification (gatt : GattServer σ) (id : UInt8) (data : Source) (length : ℕ) (d : Dev σ) :
    Except Fault (Dev σ × Status) := do
  let m ← fillPacket d.memory .rpcProfileNotification id data length
  let rpc := { d.rpc with notificationId := id, notificationLength := length }
  gatt.processCharCfg readAttrCB attrTbl (.value .rpcNotification) { d with memory := m, rpc := rpc }

/-- `__RPC_sendResponse`. -/
def sendResponse (gatt : GattServer σ) (id : UInt8) (data : Option Ptr) (length : ℕ) (d : Dev σ) :
    Except Fault (Dev σ × Status) := do
  let m ← fillPacket d.memory .rpcProfileResponse id (.ptr data) length
  gatt.processCharCfg readAttrCB attrTbl (.value .rpcResponse) { d with memory := m }

/-! ## Writes -/

/-- A byte stored through the value pointer of a one-byte characteristic. -/
def Dev.setObject (d : Dev σ) : Obj → UInt8 → Dev σ
  | .value .char1, b => { d with char1 := b }
  | .value .char2, b => { d with char2 := b }
  | .value .char3, b => { d with char3 := b }
  | _, _ => d

/-- The device with a command packet in its array: header and payload address go to `rpc`, then `sem_post`. -/
def Dev.postCommand (d : Dev σ) (m : Memory) : Dev σ :=
  { d with
    memory := m
    rcpCommandCount := d.rcpCommandCount + 1
    rpc := { d.rpc with
      commandId := m.cell .rpcProfileCommand 0
      commandLength := (m.cell .rpcProfileCommand 1).toNat
      command := some ⟨.rpcProfileCommand, 2⟩
      commandReceivedSem := d.rpc.commandReceivedSem + 1 } }

/-- The `RPC_COMMAND_UUID` case of the write callback: the whole packet is stored as it came. -/
def writeCommand (pValue : Bytes) (d : Dev σ) : Except Fault (Dev σ) := do
  let m := d.memory.memset .rpcProfileCommand
  let m ← m.store ⟨.rpcProfileCommand, 0⟩ pValue
  return d.postCommand m

/-- `SimpleGattProfile_writeAttrCB`; `len` is the length of `pValue`. -/
def writeAttrCB (gatt : GattServer σ) (attr : Attribute) (pValue : Bytes) (offset : UInt16) (d : Dev σ) :
    Except Fault (Dev σ × Status) :=
  match attr.type with
  | .uuid16 .char1 | .uuid16 .char3 =>
    let status : Status :=
      if offset = 0 then (if pValue.length ≠ 1 then .attErrInvalidValueSize else .success) else .attErrAttrNotLong
    if status = .success then .ok (d.setObject attr.pValue (pValue.getD 0 0), status) else .ok (d, status)
  | .uuid16 .rpcCommand => do
    let d ← writeCommand pValue d
    return (d, .success)
  | .uuid16 .clientCharCfg => .ok (d, gatt.processCCCWriteReq pValue offset)
  | .uuid16 _ => .ok (d, .attErrAttrNotFound)
  | .uuid128 => .ok (d, .attErrInvalidHandle)

end BleRpc.Device
