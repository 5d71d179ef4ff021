import BleRpc.Host.Packet
import BleRpc.Lib.LastMatch
import Mathlib.Data.List.Induction

/-!
# Connecting

`RPC.get_device` and `RPC.connect` of `ble_rpc.py`. The library underneath is `Bleak`: what it returns to each call. The
scan tests every characteristic for the digits `e001`, `e002` and `e003` anywhere in its UUID, and each match overwrites
the one before.

- `scanServices_eq`: the scan keeps the last match of each kind;
- `connect_binds_iff`: it binds to the three RPC characteristics iff no UUID found after one of them contains its digits.

Not modelled: what is printed, with the fields that only are (addresses, descriptions, UUIDs of services).
-/

namespace BleRpc.Host

open LastMatch

/-! ## UUIDs -/

def isLowerHexDigit (c : Char) : Bool := c.isDigit || ('a' ≤ c && c ≤ 'f')

/-- Lower-case digits in groups of 8, 4, 4, 4 and 12. -/
def isUuid128 (text : String) : Bool :=
  let groups := text.toList.splitOn '-'
  groups.map List.length == [8, 4, 4, 4, 12] && groups.all (·.all isLowerHexDigit)

/-- A 128-bit UUID as the library spells it. -/
structure Uuid128 where
  text : String
  valid : isUuid128 text

/-- `RPC_COMMAND_UUID` -/
def rpcCommandUuid : String := "e001"

/-- `RPC_RESPONSE_UUID` -/
def rpcResponseUuid : String := "e002"

/-- `RPC_NOTIFICATION_UUID` -/
def rpcNotificationUuid : String := "e003"

/-- `pattern in text` -/
def contains (pattern text : String) : Bool := text.toList.tails.any (pattern.toList.isPrefixOf ·)

/-! ## The scan -/

structure Characteristic where
  uuid : Uuid128

structure GattService where
  characteristics : List Characteristic

/-- `command_uuid`, `response_uuid` and `notification_uuid`. -/
structure Uuids where
  command : String
  response : String
  notification : String
  deriving DecidableEq

/-- The body of the inner loop. -/
def scanCharacteristic (r : Uuids) (characteristic : Characteristic) : Uuids :=
  let uuid := characteristic.uuid.text
  let r := if contains rpcCommandUuid uuid then { r with command := uuid } else r
  let r := if contains rpcResponseUuid uuid then { r with response := uuid } else r
  if contains rpcNotificationUuid uuid then { r with notification := uuid } else r

/-- The scan of `connect`. -/
def scanServices (services : List GattService) (r : Uuids) : Uuids :=
  services.foldl (fun r service => service.characteristics.foldl scanCharacteristic r) r

/-! ## `connect` -/

structure BleDevice where
  name : Option String
  deriving DecidableEq

/-- What the library does when it is called. -/
structure Bleak where
  discover : List BleDevice
  /-- The text of the exception, where `client.connect` raises one or takes too long. -/
  connect : Except String Unit
  services : List GattService
  startNotify : String → Except PyErr Unit

/-- The two functions that `connect` registers. -/
inductive NotifyHandler
  | responseHandler
  | notificationHandler
  deriving DecidableEq

/-- The fields of `RPC` that `connect` uses, and what it has registered. -/
structure Connection where
  deviceName : String
  bleDevice : Option BleDevice
  hasClient : Bool
  uuids : Uuids
  notifying : List (String × NotifyHandler)

/-- `get_device` -/
def getDevice (b : Bleak) (c : Connection) : Connection × Except PyErr Unit :=
  match b.discover.find? (·.name = some c.deviceName) with
  | some device => ({ c with bleDevice := some device }, .ok ())
  | none => (c, .error (.ioError ("Target device '" ++ c.deviceName ++ "' not found")))

/-- `await self.client.start_notify(uuid, handler)` -/
def startNotify (b : Bleak) (uuid : String) (handler : NotifyHandler) (c : Connection) : Connection × Except PyErr Unit :=
  match b.startNotify uuid with
  | .error e => (c, .error e)
  | .ok () => ({ c with notifying := c.notifying ++ [(uuid, handler)] }, .ok ())

/-- `connect` from the scan on. -/
def scanAndSubscribe (b : Bleak) (c : Connection) : Connection × Except PyErr Unit :=
  let c := { c with uuids := scanServices b.services c.uuids }
  match startNotify b c.uuids.response .responseHandler c with
  | (c, .error e) => (c, .error e)
  | (c, .ok ()) => startNotify b c.uuids.notification .notificationHandler c

/-- `connect` -/
def connect (b : Bleak) (c : Connection) : Connection × Except PyErr Unit :=
  match if c.bleDevice = none then getDevice b c else (c, .ok ()) with
  | (c, .error e) => (c, .error e)
  | (c, .ok ()) =>
    let c := { c with hasClient := true }
    match b.connect with
    | .error exc => (c, .error (.ioError ("Unable to connect to BLE device: " ++ exc)))
    | .ok () => scanAndSubscribe b c

@[simp] theorem startNotify_uuids (b : Bleak) (uuid : String) (handler : NotifyHandler) (c : Connection) :
    (startNotify b uuid handler c).1.uuids = c.uuids := by
  unfold startNotify
  split <;> rfl

/-- Whatever registering the handlers comes to, the fields are what the scan makes of them. -/
theorem scanAndSubscribe_uuids (b : Bleak) (c : Connection) :
    (scanAndSubscribe b c).1.uuids = scanServices b.services c.uuids := by
  simp only [scanAndSubscribe]
  split
  · rename_i hs
    exact congrArg (·.1.uuids) hs.symm |>.trans (startNotify_uuids ..)
  · rename_i hs
    rw [startNotify_uuids]
    exact congrArg (·.1.uuids) hs.symm |>.trans (startNotify_uuids ..)

/-- There is a device to connect to, and the connection is made: `connect` comes to its scan. -/
def Scans (b : Bleak) (c : Connection) : Prop :=
  (c.bleDevice ≠ none ∨ ∃ device ∈ b.discover, device.name = some c.deviceName) ∧ b.connect = .ok ()

/-- After `connect`, the fields are what its scan has made of them. -/
theorem connect_uuids {b : Bleak} {c : Connection} (h : Scans b c) :
    (connect b c).1.uuids = scanServices b.services c.uuids := by
  obtain ⟨hdevice, hconnect⟩ := h
  by_cases hnone : c.bleDevice = none
  · obtain ⟨device, hmem, hname⟩ := hdevice.resolve_left (not_not.mpr hnone)
    cases hfind : b.discover.find? (·.name = some c.deviceName) with
    | none => exact absurd (by simpa using hname) (List.find?_eq_none.mp hfind device hmem)
    | some device' =>
      simp only [connect, if_pos hnone, getDevice, hfind, hconnect]
      exact scanAndSubscribe_uuids b _
  · simp only [connect, if_neg hnone, hconnect]
    exact scanAndSubscribe_uuids b _

/-! ## What the scan finds -/

/-- The UUIDs of all characteristics, in the order of the scan. -/
def found (services : List GattService) : List String :=
  services.flatMap fun service => service.characteristics.map fun characteristic => characteristic.uuid.text

/-- The last UUID with these digits; what was there before, if there is none. -/
def lastWith (digits : String) (uuids : List String) (old : String) : String :=
  (uuids.findRev? (contains digits)).getD old

theorem lastWith_concat (digits : String) (uuids : List String) (uuid old : String) :
    lastWith digits (uuids ++ [uuid]) old = if contains digits uuid then uuid else lastWith digits uuids old := by
  rw [lastWith, findRev?_concat]
  split <;> rfl

/-- **The scan keeps the last match of each kind.** -/
theorem scanServices_eq (services : List GattService) (r : Uuids) : scanServices services r =
    ⟨lastWith rpcCommandUuid (found services) r.command, lastWith rpcResponseUuid (found services) r.response,
      lastWith rpcNotificationUuid (found services) r.notification⟩ := by
  have hflat : scanServices services r =
      (services.flatMap (·.characteristics)).foldl scanCharacteristic r := List.foldl_flatMap.symm
  have hfound : found services = (services.flatMap (·.characteristics)).map (·.uuid.text) := List.map_flatMap.symm
  rw [hflat, hfound]
  generalize services.flatMap (·.characteristics) = characteristics
  induction characteristics using List.reverseRecOn with
  | nil => rfl
  | append_singleton characteristics c ih =>
    rw [List.foldl_append, List.foldl_cons, List.foldl_nil, ih, List.map_append, List.map_singleton, lastWith_concat,
      lastWith_concat, lastWith_concat]
    unfold scanCharacteristic
    simp only
    split_ifs <;> rfl

/-! ## The binding -/

/-- The three characteristics the client looks for. -/
inductive Role
  | command
  | response
  | notification

/-- The digits the scan looks for. -/
def Role.digits : Role → String
  | .command => rpcCommandUuid
  | .response => rpcResponseUuid
  | .notification => rpcNotificationUuid

/-- The 16-bit UUID in its 128-bit form. -/
def Role.base : Role → Uuid128
  | .command => ⟨"0000e001-0000-1000-8000-00805f9b34fb", by decide +kernel⟩
  | .response => ⟨"0000e002-0000-1000-8000-00805f9b34fb", by decide +kernel⟩
  | .notification => ⟨"0000e003-0000-1000-8000-00805f9b34fb", by decide +kernel⟩

/-- The field for a role. -/
def Uuids.get (r : Uuids) : Role → String
  | .command => r.command
  | .response => r.response
  | .notification => r.notification

theorem Role.contains_base (role : Role) : contains role.digits role.base.text := by
  cases role <;> decide +kernel

theorem scanServices_get (services : List GattService) (r : Uuids) (role : Role) :
    (scanServices services r).get role = lastWith role.digits (found services) (r.get role) := by
  rw [scanServices_eq]
  cases role <;> rfl

/-- The three fields are the UUIDs of the three RPC characteristics. -/
def Bound (r : Uuids) : Prop := ∀ role, r.get role = role.base.text

/-- Each of the three is found exactly once. -/
def EachOnce (services : List GattService) : Prop := ∀ role : Role, (found services).count role.base.text = 1

/-- No UUID found after that of the role contains its digits too. -/
def NoneAfter (services : List GattService) (role : Role) : Prop :=
  ∀ before after, found services = before ++ role.base.text :: after → ∀ uuid ∈ after, ¬ contains role.digits uuid

/-- The scan picks the characteristic of a role iff no match comes after it. -/
theorem get_eq_base_iff {services : List GattService} (r : Uuids) {role : Role}
    (hcount : (found services).count role.base.text = 1) :
    (scanServices services r).get role = role.base.text ↔ NoneAfter services role := by
  have hmem : role.base.text ∈ found services := List.count_pos_iff.mp (by omega)
  obtain ⟨last, hlast⟩ : ∃ last, (found services).findRev? (contains role.digits) = some last := by
    rw [← Option.isSome_iff_exists, List.findRev?_eq_find?_reverse, List.find?_isSome]
    exact ⟨role.base.text, List.mem_reverse.mpr hmem, role.contains_base⟩
  have hiff := findRev?_eq_some_iff_of_count (p := contains role.digits) hcount
  rw [hlast, Option.some.injEq] at hiff
  rw [scanServices_get, lastWith, hlast, Option.getD_some, hiff]
  exact and_iff_right role.contains_base

/-- **`connect` binds to the three RPC characteristics iff none of their digits come again**: after each of the three, no
UUID is found that contains its digits, wherever it contains them. -/
theorem connect_binds_iff (b : Bleak) (c : Connection) (hscans : Scans b c) (h : EachOnce b.services) :
    Bound (connect b c).1.uuids ↔ ∀ role, NoneAfter b.services role := by
  rw [connect_uuids hscans]
  exact forall_congr' fun role => get_eq_base_iff c.uuids (h role)

/-- The RPC characteristics as the device has them. -/
def rpcService : GattService := ⟨[⟨Role.base .command⟩, ⟨Role.base .response⟩, ⟨Role.base .notification⟩]⟩

/-- A vendor's characteristic with the digits of E001 in its UUID. -/
def vendorService : GattService := ⟨[⟨⟨"f000e001-0451-4000-b000-000000000000", by decide +kernel⟩⟩]⟩

/-- One device, which connects and lets its values be watched. -/
def discovering (services : List GattService) : Bleak :=
  ⟨[⟨some "Basic BLE project"⟩], .ok (), services, fun _ => .ok ()⟩

/-- The fields as `RPC` is made with. -/
def unconnected : Connection := ⟨"Basic BLE project", none, false, ⟨"", "", ""⟩, []⟩

theorem scans_discovering (services : List GattService) : Scans (discovering services) unconnected :=
  ⟨.inr ⟨_, List.mem_singleton_self _, rfl⟩, rfl⟩

/-- The vendor's service is found first. -/
theorem connect_binds_after_vendor : Bound (connect (discovering [vendorService, rpcService]) unconnected).1.uuids ∧
    ∀ role, NoneAfter [vendorService, rpcService] role := by
  have huuids : (connect (discovering [vendorService, rpcService]) unconnected).1.uuids =
      ⟨(Role.base .command).text, (Role.base .response).text, (Role.base .notification).text⟩ := by
    decide +kernel
  have hbound : Bound (connect (discovering [vendorService, rpcService]) unconnected).1.uuids := by
    rw [huuids]
    intro role
    cases role <;> rfl
  have honce : EachOnce [vendorService, rpcService] := by
    intro role
    cases role <;> decide +kernel
  have hiff := connect_binds_iff (discovering [vendorService, rpcService]) unconnected (scans_discovering _) honce
  exact ⟨hbound, hiff.mp hbound⟩

/-- The vendor's service is found last: commands go to its characteristic. -/
theorem vendor_takes_command : Scans (discovering [rpcService, vendorService]) unconnected ∧
    EachOnce [rpcService, vendorService] ∧
    (connect (discovering [rpcService, vendorService]) unconnected).1.uuids.command =
      "f000e001-0451-4000-b000-000000000000" ∧
    ¬ Bound (connect (discovering [rpcService, vendorService]) unconnected).1.uuids := by
  have hcommand : (connect (discovering [rpcService, vendorService]) unconnected).1.uuids.command =
      "f000e001-0451-4000-b000-000000000000" := by
    decide +kernel
  refine ⟨scans_discovering _, ?_, hcommand, ?_⟩
  · intro role
    cases role <;> decide +kernel
  · intro h
    exact absurd (hcommand.symm.trans (h .command)) (by decide)

end BleRpc.Host
