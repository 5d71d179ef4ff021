import BleRpc.Lib.Buffer
import BleRpc.Lib.Outcome
import Mathlib.Logic.Function.Basic

/-!
# The state of the device

The byte arrays of `simple_gatt_profile.c` and `main_freertos.c`, pointers into them, `struct rpc`, and the values of
the plain characteristics. A store or a load outside an array, one through a null pointer, or a `memcpy` between cells
that overlap is a `Fault`: undefined behaviour, after which the model says nothing. Variables that no code reads
(`readUUID`, `writeUUID`, `cccdStatus`, `__pValue`, `__pLen`, `__counter`) are left out.

`Dev.trace` is history, not state of the program: the callbacks invoked and the packets sent, in order.
-/

namespace BleRpc.Device

abbrev Bytes := List UInt8

/-- `RPC_MAX_PAYLOAD_LENGTH`. -/
def maxPayloadLength : ℕ := 200

/-- `RPC_COMMAND_NOTIFIER_ID_LENGTH`. -/
def commandNotifierIdLength : ℕ := 1

/-- `RPC_MAX_PACKET_LENGTH`. -/
def maxPacketLength : ℕ := commandNotifierIdLength + 1 + maxPayloadLength

/-- `SIMPLEGATTPROFILE_CHAR5_LEN`. -/
def char5Len : ℕ := 5

/-! ## Memory -/

/-- The byte arrays: `rpcProfile_command`, `rpcProfile_response`, `rpcProfile_notification`, `rcp_response_buffer`. -/
inductive Region
  | rpcProfileCommand
  | rpcProfileResponse
  | rpcProfileNotification
  | rcpResponseBuffer
  deriving DecidableEq

def Region.size : Region → ℕ
  | .rpcProfileCommand => maxPacketLength
  | .rpcProfileResponse => maxPacketLength
  | .rpcProfileNotification => maxPacketLength
  | .rcpResponseBuffer => 256

/-- The address of a cell of an array. -/
structure Ptr where
  region : Region
  offset : ℕ
  deriving DecidableEq

/-- What a callback may pass as `data`: an address in the arrays (or `NULL`), or bytes of its own. -/
inductive Source
  | ptr (p : Option Ptr)
  | own (bytes : Bytes)

/-- The first `length` bytes of the source share a cell with the `length` cells at `p`. -/
def Source.Overlaps (p : Ptr) (length : ℕ) : Source → Prop
  | .ptr (some q) => q.region = p.region ∧ q.offset < p.offset + length ∧ p.offset < q.offset + length
  | .ptr none => False
  | .own _ => False

instance (p : Ptr) (length : ℕ) : ∀ src : Source, Decidable (src.Overlaps p length)
  | .ptr (some q) =>
    inferInstanceAs (Decidable (q.region = p.region ∧ q.offset < p.offset + length ∧ p.offset < q.offset + length))
  | .ptr none => isFalse id
  | .own _ => isFalse id

/-- Undefined behaviour. -/
inductive Fault
  /-- A byte stored outside an array. -/
  | store (r : Region)
  /-- A byte stored past the `maxLen` bytes of the reader's `pValue`. -/
  | storeValue
  /-- A byte loaded from outside an array. -/
  | load (r : Region)
  /-- A byte loaded past the caller's own data. -/
  | loadOwn
  /-- A `memcpy` into an array from cells it overlaps. -/
  | overlap (r : Region)
  | null
  /-- The callback table scanned past its end. -/
  | tableEnd
  deriving DecidableEq

abbrev Memory := (r : Region) → List.Vector UInt8 r.size

namespace Memory

open Outcome

/-- `memset` of a whole array to zero. -/
def memset (m : Memory) (r : Region) : Memory := Function.update m r (List.Vector.replicate r.size 0)

/-- `bytes` stored at an address. -/
def store (m : Memory) (p : Ptr) (bytes : Bytes) : Except Fault Memory :=
  match Buffer.store? (m p.region) p.offset bytes with
  | some v => .ok (Function.update m p.region v)
  | none => .error (.store p.region)

def load (m : Memory) (p : Ptr) (length : ℕ) : Except Fault Bytes :=
  match Buffer.load? (m p.region) p.offset length with
  | some bytes => .ok bytes
  | none => .error (.load p.region)

/-- The source side of a `memcpy` of `length` bytes. -/
def loadFrom (m : Memory) : Source → ℕ → Except Fault Bytes
  | .ptr none, _ => .error .null
  | .ptr (some p), length => m.load p length
  | .own bytes, length => if length ≤ bytes.length then .ok (bytes.take length) else .error .loadOwn

/-- `memcpy` of `length` bytes to an address. -/
def memcpy (m : Memory) (p : Ptr) (src : Source) (length : ℕ) : Except Fault Memory := do
  let bytes ← m.loadFrom src length
  if src.Overlaps p length then .error (.overlap p.region) else m.store p bytes

/-- One cell. -/
def cell (m : Memory) (r : Region) (i : ℕ) : UInt8 := (m r).toList.getD i 0

@[simp] theorem memset_self (m : Memory) (r : Region) : (m.memset r r).toList = List.replicate r.size 0 := by
  rw [memset, Function.update_self, Buffer.toList_replicate]

theorem memset_ne (m : Memory) {r r' : Region} (h : r' ≠ r) : m.memset r r' = m r' := Function.update_of_ne h _ _

/-- A store in bounds goes through and patches its array. -/
theorem store_of_le (m : Memory) (p : Ptr) (bytes : Bytes) (h : p.offset + bytes.length ≤ p.region.size) :
    ∃ m', m.store p bytes = .ok m' ∧ (m' p.region).toList = Buffer.patch (m p.region).toList p.offset bytes ∧
      ∀ r, r ≠ p.region → m' r = m r := by
  obtain ⟨w, hw, hl⟩ := Buffer.store?_of_le (m p.region) h
  refine ⟨Function.update m p.region w, by rw [store, hw], ?_, fun r hr => Function.update_of_ne hr _ _⟩
  rw [Function.update_self, hl]

theorem store_error {m : Memory} {p : Ptr} {bytes : Bytes} (h : p.region.size < p.offset + bytes.length) :
    m.store p bytes = .error (.store p.region) := by
  rw [store, Buffer.store?_eq_none h]

/-- A store touches one array only. -/
theorem store_frame {m m' : Memory} {p : Ptr} {bytes : Bytes} (h : m.store p bytes = .ok m') {r : Region}
    (hr : r ≠ p.region) : m' r = m r := by
  unfold store at h
  split at h
  · cases h; exact Function.update_of_ne hr _ _
  · cases h

theorem load_of_le {m : Memory} {p : Ptr} {length : ℕ} (h : p.offset + length ≤ p.region.size) :
    m.load p length = .ok (((m p.region).toList.drop p.offset).take length) := by
  rw [load, Buffer.load?_of_le h]

theorem load_inv {m : Memory} {p : Ptr} {length : ℕ} {bytes : Bytes} (h : m.load p length = .ok bytes) :
    bytes = ((m p.region).toList.drop p.offset).take length := by
  unfold load at h
  split at h
  · rename_i hl
    cases h
    exact (Buffer.load?_some hl).2
  · cases h

theorem length_of_load {m : Memory} {p : Ptr} {length : ℕ} {bytes : Bytes} (h : m.load p length = .ok bytes) :
    bytes.length = length := by
  unfold load at h
  split at h
  · cases h; exact Buffer.length_of_load? (by assumption)
  · cases h

theorem memcpy_eq_ok {m m' : Memory} {p : Ptr} {src : Source} {length : ℕ} :
    m.memcpy p src length = .ok m' ↔
      ∃ bytes, m.loadFrom src length = .ok bytes ∧ ¬ src.Overlaps p length ∧ m.store p bytes = .ok m' := by
  rw [memcpy, bind_eq_ok]
  by_cases hover : src.Overlaps p length <;> simp [hover]

theorem length_of_loadFrom {m : Memory} {src : Source} {length : ℕ} {bytes : Bytes}
    (h : m.loadFrom src length = .ok bytes) : bytes.length = length := by
  match src with
  | .ptr none => cases h
  | .ptr (some p) => exact length_of_load h
  | .own bs =>
    simp only [loadFrom] at h
    split at h
    · cases h; rw [List.length_take]; omega
    · cases h

/-- A load depends on its own array only. -/
theorem load_congr {m m' : Memory} {p : Ptr} (h : m' p.region = m p.region) (length : ℕ) :
    m'.load p length = m.load p length := by
  rw [load, load, h]

end Memory

/-! ## `struct rpc` and the rest of the program's variables -/

/-- `struct rpc` without its callback table, which no code changes. `size_t` is unbounded here; where the source
narrows a length, so does the model. The count of the semaphore is unbounded too: that `sem_post`, whose result the
write callback does not look at, fails at `SEM_VALUE_MAX` is left out. -/
structure Rpc where
  commandReceivedSem : ℕ
  command : Option Ptr
  commandId : UInt8
  commandLength : ℕ
  response : Option Ptr
  responseId : UInt8
  responseLength : ℕ
  notification : Option Ptr
  notificationId : UInt8
  notificationLength : ℕ

/-- The 16-bit UUIDs of the profile's attribute types. -/
inductive Uuid
  | primaryService
  | character
  | charUserDesc
  | clientCharCfg
  | char1
  | char2
  | char3
  | char5
  | rpcCommand
  | rpcResponse
  | rpcNotification
  deriving DecidableEq

/-- What can be seen of the device: a callback invoked with its arguments (and the bytes its `data` points to), or a
characteristic value sent to the client. -/
inductive Observation
  | called (id : UInt8) (data : Bytes) (length : ℕ)
  | sent (uuid : Uuid) (value : Bytes)
  deriving DecidableEq

/-- The device; `σ` is the type of the callbacks' own variables. -/
structure Dev (σ : Type) where
  memory : Memory
  rpc : Rpc
  char1 : UInt8
  char2 : UInt8
  char3 : UInt8
  char5 : List.Vector UInt8 char5Len
  rcpCommandCount : ℤ
  rcpCommandExecutionCount : UInt8
  app : σ
  trace : List Observation

namespace Dev

variable {σ : Type}

def observe (d : Dev σ) (o : Observation) : Dev σ := { d with trace := d.trace ++ [o] }

/-- The bytes a callback may read through its `data` argument. -/
def payload (d : Dev σ) : Bytes :=
  match d.rpc.command with
  | none => []
  | some p => ((d.memory p.region).toList.drop p.offset).take d.rpc.commandLength

@[simp] theorem observe_memory (d : Dev σ) (o : Observation) : (d.observe o).memory = d.memory := rfl
@[simp] theorem observe_rpc (d : Dev σ) (o : Observation) : (d.observe o).rpc = d.rpc := rfl
@[simp] theorem observe_app (d : Dev σ) (o : Observation) : (d.observe o).app = d.app := rfl
@[simp] theorem observe_trace (d : Dev σ) (o : Observation) : (d.observe o).trace = d.trace ++ [o] := rfl

end Dev

/-! ## Reset -/

/-- `RPC_init`. -/
def rpcInit : Rpc where
  commandReceivedSem := 0
  command := none
  commandId := 0
  commandLength := 0
  response := none
  responseId := 0
  responseLength := 0
  notification := none
  notificationId := 0
  notificationLength := 0

/-- The device when `main` starts the scheduler: static variables zero, and the response buffer installed. -/
def reset {σ : Type} (app : σ) : Dev σ where
  memory r := List.Vector.replicate r.size 0
  rpc := { rpcInit with response := some ⟨.rcpResponseBuffer, 0⟩ }
  char1 := 0
  char2 := 0
  char3 := 0
  char5 := List.Vector.replicate char5Len 0
  rcpCommandCount := 0
  rcpCommandExecutionCount := 0
  app := app
  trace := []

end BleRpc.Device
