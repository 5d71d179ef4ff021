import BleRpc.Host.Connect
import BleRpc.Lib.Separated
import BleRpc.Lib.Transition

/-!
# Connecting again and again

`RPC.connect`, `RPC.disconnect` and `RPC._find_characteristic` of `ble_rpc.py`, called one after another on one object,
while links are lost at any time. `connect` makes a new client whenever there is a device, and the fields of the object
outlive its clients. Not modelled: calls that overlap, and a `connect` that is cancelled before it scans.

- `binding_found`: the UUIDs are the last matches of all scans of the session, and `_find_characteristic` tells which of
  them the present client has found;
- `no_stray_link_iff`: which sessions leave no link up behind.
-/

namespace BleRpc.Host

open LastMatch Transition

/-- A `BleakClient`: whether its link is up, the services it has found, and the handlers registered. -/
structure BleakClient where
  isConnected : Bool
  services : Option (List GattService)
  notifying : List (String × NotifyHandler)

/-- What the library does when `disconnect` calls it. -/
structure Disconnecting where
  stopNotify : String → Except PyErr Unit
  disconnect : Except PyErr Unit
  /-- Whether the link is up after `client.disconnect`, however it ends. -/
  up : Bool

/-- The fields of `RPC` for the connection; all clients made and all services scanned so far. -/
structure Session where
  deviceName : String
  bleDevice : Option BleDevice
  uuids : Uuids
  client : Option ℕ
  clients : List BleakClient
  scanned : List GattService

namespace Session

/-- `__init__` -/
def init (deviceName : String) : Session := ⟨deviceName, none, ⟨"", "", ""⟩, none, [], []⟩

/-- `self.client` -/
def current (s : Session) : Option BleakClient := s.client.bind fun k => s.clients[k]?

/-- There is a client, and its link is up. -/
def Up (s : Session) : Prop := ∃ client ∈ s.current, client.isConnected = true

instance (s : Session) : Decidable s.Up := inferInstanceAs (Decidable (∃ client ∈ s.current, _))

/-- What `connect` finds in the object, before it makes a client. -/
def connection (s : Session) : Connection := ⟨s.deviceName, s.bleDevice, false, s.uuids, []⟩

/-- The client that `connect` makes, as the call leaves it; `up` is whether the link is up after `client.connect` has
failed. -/
def newClient (b : Bleak) (up : Bool) (c : Connection) : BleakClient :=
  match b.connect with
  | .ok () => ⟨true, some b.services, c.notifying⟩
  | .error _ => ⟨up, none, c.notifying⟩

/-- `connect` -/
def connect (b : Bleak) (up : Bool) (s : Session) : Session × Except PyErr Unit :=
  let (c, outcome) := Host.connect b s.connection
  let s := { s with bleDevice := c.bleDevice, uuids := c.uuids }
  if c.hasClient then
    ({ s with
      client := some s.clients.length
      clients := s.clients ++ [newClient b up c]
      scanned := s.scanned ++ (newClient b up c).services.getD [] }, outcome)
  else (s, outcome)

/-- `await self.client.stop_notify(uuid)`: exceptions are printed, but being cancelled is not one. -/
def stopNotify (d : Disconnecting) (uuid : String) (client : BleakClient) : BleakClient × Except PyErr Unit :=
  match d.stopNotify uuid with
  | .ok () => ({ client with notifying := client.notifying.filter (·.1 ≠ uuid) }, .ok ())
  | .error .cancelledError => (client, .error .cancelledError)
  | .error _ => (client, .ok ())

/-- What `disconnect` does with a client whose link is up. -/
def closing (d : Disconnecting) (uuids : Uuids) (client : BleakClient) : BleakClient × Except PyErr Unit :=
  match stopNotify d uuids.response client with
  | (client, .error e) => (client, .error e)
  | (client, .ok ()) =>
    match stopNotify d uuids.notification client with
    | (client, .error e) => (client, .error e)
    | (client, .ok ()) => ({ client with isConnected := d.up }, d.disconnect)

/-- `disconnect`; `finally` forgets the client. -/
def disconnect (d : Disconnecting) (s : Session) : Session × Except PyErr Unit :=
  match s.client with
  | none => (s, .ok ())
  | some k =>
    match s.clients[k]? with
    | some client =>
      if client.isConnected then
        let (client, outcome) := closing d s.uuids client
        ({ s with client := none, clients := s.clients.set k client }, outcome)
      else ({ s with client := none }, .ok ())
    | none => ({ s with client := none }, .ok ())

/-- `_find_characteristic`, if it does not raise: the library does when the client has not found its services. -/
def findCharacteristic (s : Session) (uuid : String) : Option Bool :=
  match s.current with
  | none => some false
  | some client => client.services.map fun services => services.any fun service =>
      service.characteristics.any fun characteristic => characteristic.uuid.text.toLower = uuid.toLower

inductive Event
  | connect (b : Bleak) (up : Bool)
  | disconnect (d : Disconnecting)
  /-- The link of a client is lost, and the services it has found may be with it. -/
  | lost (k : ℕ) (services : Bool)

def step (s : Session) : Event → Option Session
  | .connect b up => some (s.connect b up).1
  | .disconnect d => some (s.disconnect d).1
  | .lost k services => some { s with clients := s.clients.modify k fun client =>
      { client with isConnected := false, services := if services then none else client.services } }

/-! ## What the calls do -/

@[simp] theorem startNotify_hasClient (b : Bleak) (uuid : String) (handler : NotifyHandler) (c : Connection) :
    (startNotify b uuid handler c).1.hasClient = c.hasClient := by
  unfold startNotify
  split <;> rfl

theorem scanAndSubscribe_hasClient (b : Bleak) (c : Connection) :
    (scanAndSubscribe b c).1.hasClient = c.hasClient := by
  simp only [scanAndSubscribe]
  split
  · rename_i hs
    exact congrArg (·.1.hasClient) hs.symm |>.trans (startNotify_hasClient ..)
  · rename_i hs
    rw [startNotify_hasClient]
    exact congrArg (·.1.hasClient) hs.symm |>.trans (startNotify_hasClient ..)

/-- There is a device to make a client for: `connect` has found one before, or its scan does. -/
def Finds (b : Bleak) (s : Session) : Prop :=
  s.bleDevice ≠ none ∨ ∃ device ∈ b.discover, device.name = some s.deviceName

theorem connect_of_not_finds {b : Bleak} {s : Session} (up : Bool) (h : ¬ Finds b s) : (s.connect b up).1 = s := by
  simp only [Finds, not_or, not_not, not_exists, not_and] at h
  obtain ⟨hnone, hnames⟩ := h
  have hget : getDevice b s.connection =
      (s.connection, .error (.ioError ("Target device '" ++ s.deviceName ++ "' not found"))) := by
    rw [getDevice]
    split
    · rename_i device hfind
      have hname : device.name = some s.connection.deviceName := by simpa using List.find?_some hfind
      exact absurd hname (hnames device (List.mem_of_find?_eq_some hfind))
    · rfl
  have hnone' : s.connection.bleDevice = none := hnone
  rw [Session.connect, Host.connect, if_pos hnone', hget]
  rfl

/-- What `connect` does about the device, where there is one. -/
theorem getDevice_of_finds {b : Bleak} {s : Session} (h : Finds b s) : ∃ bleDevice,
    (if s.connection.bleDevice = none then getDevice b s.connection else (s.connection, .ok ())) =
      ({ s.connection with bleDevice := bleDevice }, .ok ()) := by
  by_cases hnone : s.bleDevice = none
  · obtain ⟨device, hmem, hname⟩ := h.resolve_left (not_not.mpr hnone)
    cases hfind : b.discover.find? (·.name = some s.deviceName) with
    | none => exact absurd (by simpa using hname) (List.find?_eq_none.mp hfind device hmem)
    | some device' => exact ⟨some device', by simp [connection, hnone, getDevice, hfind]⟩
  · exact ⟨s.bleDevice, by simp [connection, hnone]⟩

/-- `connect` with a device: a client is made, and what it finds is scanned. -/
theorem connect_of_finds {b : Bleak} {s : Session} (up : Bool) (h : Finds b s) :
    ∃ bleDevice client, (s.connect b up).1 =
      { s with
        bleDevice := bleDevice
        uuids := scanServices (client.services.getD []) s.uuids
        client := some s.clients.length
        clients := s.clients ++ [client]
        scanned := s.scanned ++ client.services.getD [] } := by
  obtain ⟨bleDevice, hdevice⟩ := getDevice_of_finds h
  have hmade : (Host.connect b s.connection).1.hasClient = true := by
    rw [Host.connect, hdevice]
    cases hconnect : b.connect with
    | error exc => simp
    | ok => simp [scanAndSubscribe_hasClient]
  have huuids : (Host.connect b s.connection).1.uuids =
      scanServices ((newClient b up (Host.connect b s.connection).1).services.getD []) s.uuids := by
    rw [newClient]
    rw [Host.connect, hdevice]
    cases hconnect : b.connect with
    | error exc => rfl
    | ok => exact scanAndSubscribe_uuids b _
  refine ⟨(Host.connect b s.connection).1.bleDevice, newClient b up (Host.connect b s.connection).1, ?_⟩
  rw [Session.connect, ← huuids]
  simp [hmade]

@[simp] theorem stopNotify_isConnected (d : Disconnecting) (uuid : String) (client : BleakClient) :
    (stopNotify d uuid client).1.isConnected = client.isConnected := by
  unfold stopNotify
  split <;> rfl

theorem stopNotify_ok_iff (d : Disconnecting) (uuid : String) (client : BleakClient) :
    (stopNotify d uuid client).2 = .ok () ↔ d.stopNotify uuid ≠ .error .cancelledError := by
  unfold stopNotify
  split <;> simp_all

/-- Nobody interrupts `disconnect` before it asks for the link to be closed, and then it is. -/
def Closes (d : Disconnecting) (uuids : Uuids) : Prop :=
  d.stopNotify uuids.response ≠ .error .cancelledError ∧
    d.stopNotify uuids.notification ≠ .error .cancelledError ∧ d.up = false

/-- Whether the link of a client that `disconnect` closes is down. -/
theorem closing_closed_iff (d : Disconnecting) (uuids : Uuids) {client : BleakClient}
    (hup : client.isConnected = true) : (closing d uuids client).1.isConnected = false ↔ Closes d uuids := by
  have hconnected := stopNotify_isConnected d uuids.response client
  have hok := stopNotify_ok_iff d uuids.response client
  rcases hresponse : stopNotify d uuids.response client with ⟨client₁, e | ⟨⟨⟩⟩⟩
  · rw [hresponse] at hconnected hok
    have hnot : ¬ Closes d uuids := fun h => by simpa using hok.mpr h.1
    simp_all [closing]
  · rw [hresponse] at hconnected hok
    have hconnected' := stopNotify_isConnected d uuids.notification client₁
    have hok' := stopNotify_ok_iff d uuids.notification client₁
    rcases hnotification : stopNotify d uuids.notification client₁ with ⟨client₂, e | ⟨⟨⟩⟩⟩
    · rw [hnotification] at hconnected' hok'
      have hnot : ¬ Closes d uuids := fun h => by simpa using hok'.mpr h.2.1
      simp_all [closing]
    · rw [hnotification] at hconnected' hok'
      simp_all [closing, Closes]

/-- Nothing to stop: the client is forgotten. -/
theorem disconnect_of_not_up {s : Session} (d : Disconnecting) (h : ¬ s.Up) :
    (s.disconnect d).1 = { s with client := none } := by
  obtain ⟨deviceName, bleDevice, uuids, client, clients, scanned⟩ := s
  unfold disconnect
  split
  · rename_i hnone
    simp only at hnone
    subst hnone
    rfl
  · rename_i k hk
    split
    · rename_i client' hclient
      rw [if_neg fun hup => h ⟨client', by simp_all [current], hup⟩]
    · rfl

/-- A link to close: the client is forgotten, however that ends. -/
theorem disconnect_of_up {s : Session} (d : Disconnecting) (h : s.Up) : ∃ k client, s.client = some k ∧
    s.clients[k]? = some client ∧ client.isConnected = true ∧
    (s.disconnect d).1 = { s with client := none, clients := s.clients.set k (closing d s.uuids client).1 } := by
  obtain ⟨client, hcurrent, hup⟩ := h
  obtain ⟨k, hk, hclient⟩ := Option.bind_eq_some_iff.mp hcurrent
  refine ⟨k, client, hk, hclient, hup, ?_⟩
  simp [disconnect, hk, hclient, hup]

/-! ## The binding -/

theorem toLower_hexDigit {c : Char} (h : isLowerHexDigit c = true) : c.toLower = c := by
  have hnot : ¬ (c.val ≥ 'A'.val ∧ c.val ≤ 'Z'.val) := by
    simp only [isLowerHexDigit, Char.isDigit, Bool.or_eq_true, Bool.and_eq_true, decide_eq_true_eq, Char.le_def,
      UInt32.le_iff_toNat_le, ge_iff_le] at h ⊢
    simp only [Char.reduceVal, UInt32.reduceToNat] at h ⊢
    omega
  exact dif_neg hnot

/-- Upper and lower case are the same to a UUID as the library spells it. -/
theorem toLower_text (u : Uuid128) : u.text.toLower = u.text := by
  have hvalid := u.valid
  simp only [isUuid128, Bool.and_eq_true, List.all_eq_true] at hvalid
  have hlower : ∀ c ∈ u.text.toList, c.toLower = c := by
    intro c hc
    have hsplit : ['-'].intercalate (u.text.toList.splitOn '-') = u.text.toList := List.intercalate_splitOn '-'
    rw [← hsplit] at hc
    rcases Separated.mem_intercalate hc with rfl | ⟨g, hg, hc⟩
    · decide
    · exact toLower_hexDigit (hvalid.2 g hg c hc)
  have hmap : u.text.toLower = u.text.map Char.toLower := rfl
  rw [← String.toList_inj, hmap, String.toList_map]
  exact (List.map_congr_left hlower).trans (List.map_id _)

/-- The UUIDs are what the scans have made of them, and the last was that of the present client. -/
structure Scanned (s : Session) : Prop where
  uuids : s.uuids = scanServices s.scanned ⟨"", "", ""⟩
  last : ∀ client ∈ s.current, ∀ services ∈ client.services, ∃ before, s.scanned = before ++ services

theorem scanServices_append (services services' : List GattService) (r : Uuids) :
    scanServices (services ++ services') r = scanServices services' (scanServices services r) := List.foldl_append

theorem scanned_init (name : String) : (init name).Scanned where
  uuids := rfl
  last := by intro client hclient; cases hclient

theorem scanned_step {s s' : Session} {e : Event} (h : s.Scanned) (hstep : step s e = some s') : s'.Scanned := by
  cases e with
  | connect b up =>
    obtain rfl := Option.some.inj hstep
    by_cases hfinds : Finds b s
    · obtain ⟨bleDevice, client, heq⟩ := connect_of_finds up hfinds
      rw [heq]
      refine ⟨by rw [scanServices_append, ← h.uuids], ?_⟩
      intro client' hclient' services hservices
      simp only [current, Option.bind_some, List.getElem?_concat_length, Option.mem_def, Option.some.injEq] at hclient'
      subst hclient'
      exact ⟨s.scanned, by rw [Option.mem_def.mp hservices, Option.getD_some]⟩
    · rw [connect_of_not_finds up hfinds]
      exact h
  | disconnect d =>
    obtain rfl := Option.some.inj hstep
    by_cases hup : s.Up
    · obtain ⟨k, client, -, -, -, heq⟩ := disconnect_of_up d hup
      rw [heq]
      exact ⟨h.uuids, by intro client' hclient'; cases hclient'⟩
    · rw [disconnect_of_not_up d hup]
      exact ⟨h.uuids, by intro client' hclient'; cases hclient'⟩
  | lost k lose =>
    obtain rfl := Option.some.inj hstep
    refine ⟨h.uuids, ?_⟩
    intro client' hclient' services hservices
    obtain ⟨j, hj, hget⟩ := Option.bind_eq_some_iff.mp hclient'
    rw [List.getElem?_modify] at hget
    obtain ⟨client, hclient, rfl⟩ := Option.map_eq_some_iff.mp hget
    refine h.last client (Option.bind_eq_some_iff.mpr ⟨j, hj, hclient⟩) services ?_
    by_cases hk : k = j
    · cases lose with
      | true => simp [hk] at hservices
      | false => simpa [hk] using hservices
    · simpa [hk] using hservices

theorem found_append (services services' : List GattService) :
    found (services ++ services') = found services ++ found services' := List.flatMap_append

/-- What is found is a UUID as the library spells it. -/
theorem exists_of_mem_found {services : List GattService} {text : String} (h : text ∈ found services) :
    ∃ u : Uuid128, u.text = text := by
  simp only [found, List.mem_flatMap, List.mem_map] at h
  obtain ⟨-, -, characteristic, -, rfl⟩ := h
  exact ⟨characteristic.uuid, rfl⟩

/-- What `_find_characteristic` looks for, among all that the client has found. -/
theorem findCharacteristic_eq {s : Session} {client : BleakClient} {services : List GattService} (uuid : String)
    (hclient : s.current = some client) (hservices : client.services = some services) :
    s.findCharacteristic uuid = some ((found services).any fun text => text.toLower = uuid.toLower) := by
  simp only [findCharacteristic, hclient, hservices, Option.map_some, found, List.any_flatMap, List.any_map]
  rfl

/-- There is no match, or the last is one of all that were found. -/
theorem lastWith_cases (digits : String) (uuids : List String) (old : String) :
    (lastWith digits uuids old = old ∧ ∀ uuid ∈ uuids, ¬ contains digits uuid) ∨
      (lastWith digits uuids old ∈ uuids ∧ contains digits (lastWith digits uuids old)) := by
  cases hlast : uuids.findRev? (contains digits) with
  | none =>
    rw [List.findRev?_eq_find?_reverse, List.find?_eq_none] at hlast
    refine .inl ⟨?_, fun uuid huuid => hlast uuid (List.mem_reverse.mpr huuid)⟩
    rw [lastWith, List.findRev?_eq_find?_reverse, List.find?_eq_none.mpr hlast, Option.getD_none]
  | some last =>
    obtain ⟨hcontains, before, after, rfl, -⟩ := findRev?_eq_some_iff.mp hlast
    rw [lastWith, hlast]
    exact .inr ⟨List.mem_append_right _ List.mem_cons_self, hcontains⟩

theorem lastWith_append (digits : String) (uuids uuids' : List String) (old : String) :
    lastWith digits (uuids ++ uuids') old = lastWith digits uuids' (lastWith digits uuids old) := by
  rw [lastWith, lastWith, lastWith, findRev?_append]
  cases uuids'.findRev? (contains digits) <;> rfl

/-- No UUID is empty. -/
theorem text_ne_empty (u : Uuid128) : u.text ≠ "" := by
  intro h
  have hvalid := u.valid
  rw [h] at hvalid
  exact absurd hvalid (by decide +kernel)

/-- **The binding of a session.** After any calls of `connect` and `disconnect`, whatever they come to and wherever
links are lost, a UUID is that of the last match among all the client has ever found, of this connection or one before
it, and `_find_characteristic` says whether there is a match among what this connection has found. -/
theorem binding_found {name : String} {events : List Event} {s : Session} (h : run step (init name) events = some s)
    (role : Role) : s.uuids.get role = lastWith role.digits (found s.scanned) "" ∧
      ∀ client ∈ s.current, ∀ services ∈ client.services,
        s.findCharacteristic (s.uuids.get role) = some ((found services).any (contains role.digits)) := by
  have hscanned : s.Scanned := run_inv (fun _ _ _ => scanned_step) (scanned_init name) h
  have huuid : s.uuids.get role = lastWith role.digits (found s.scanned) "" := by
    rw [hscanned.uuids, scanServices_get]
    cases role <;> rfl
  refine ⟨huuid, ?_⟩
  intro client hclient services hservices
  obtain ⟨before, hbefore⟩ := hscanned.last client hclient services hservices
  rw [findCharacteristic_eq _ hclient hservices, huuid, hbefore, found_append]
  congr 1
  rw [Bool.eq_iff_iff, List.any_eq_true, List.any_eq_true]
  constructor
  · rintro ⟨text, htext, heq⟩
    obtain ⟨u, rfl⟩ := exists_of_mem_found htext
    rw [decide_eq_true_eq, toLower_text] at heq
    refine ⟨u.text, htext, ?_⟩
    rcases lastWith_cases role.digits (found before ++ found services) "" with ⟨hempty, -⟩ | ⟨hmem, hcontains⟩
    · have hmap : "".toLower = "".map Char.toLower := rfl
      have hlower : "".toLower = "" := by rw [← String.toList_inj, hmap, String.toList_map]; rfl
      rw [hempty, hlower] at heq
      exact absurd heq (text_ne_empty u)
    · rw [← found_append] at hmem
      obtain ⟨u', hu'⟩ := exists_of_mem_found hmem
      rw [found_append] at hu'
      rw [← hu', toLower_text] at heq
      rw [heq, hu']
      exact hcontains
  · rintro ⟨text, htext, hcontains⟩
    rw [lastWith_append]
    rcases lastWith_cases role.digits (found services) (lastWith role.digits (found before) "") with
      ⟨-, hnone⟩ | ⟨hmem, -⟩
    · exact absurd hcontains (hnone text htext)
    · exact ⟨_, hmem, decide_eq_true rfl⟩

/-- A device with these services; values that are not there cannot be watched. -/
def offering (services : List GattService) : Bleak where
  discover := [⟨some "Basic BLE project"⟩]
  connect := .ok ()
  services := services
  startNotify uuid :=
    if uuid ∈ found services then .ok () else .error (.bleakError ("Characteristic " ++ uuid ++ " was not found!"))

/-- The link closes without trouble. -/
def orderly : Disconnecting := ⟨fun _ => .ok (), .ok (), false⟩

/-- The service of a device that sends no notifications. -/
def quietService : GattService := ⟨[⟨Role.base .command⟩, ⟨Role.base .response⟩]⟩

/-- The device of the second connection has no E003: the UUID is that of the first, and is not found. -/
theorem binding_found_reconnected : ∃ s, run step (init "Basic BLE project")
      [.connect (offering [rpcService]) false, .disconnect orderly, .connect (offering [quietService]) false] = some s ∧
    s.uuids.notification = (Role.base .notification).text ∧
    s.findCharacteristic s.uuids.notification = some false := by
  have hfind := (binding_found (rfl : run step (init "Basic BLE project") [.connect (offering [rpcService]) false,
    .disconnect orderly, .connect (offering [quietService]) false] = some _) .notification).2 _ rfl _ rfl
  exact ⟨_, rfl, by decide +kernel, hfind.trans (by decide +kernel)⟩

/-! ## Links left up -/

/-- The link of the client is up. -/
def Linked (s : Session) (k : ℕ) : Prop := ∃ client ∈ s.clients[k]?, client.isConnected = true

/-- A link is up that `disconnect` cannot close any more: `self.client` is another client, or none. -/
def Stray (s : Session) : Prop := ∃ k, s.Linked k ∧ s.client ≠ some k

/-- `connect` is not called while the link is up, and `disconnect` closes it then. -/
def Tidy (s : Session) : Event → Prop
  | .connect b _ => Finds b s → ¬ s.Up
  | .disconnect d => s.Up → Closes d s.uuids
  | .lost .. => True

theorem up_iff_linked {s : Session} (h : ¬ s.Stray) : s.Up ↔ ∃ k, s.Linked k := by
  constructor
  · rintro ⟨client, hcurrent, hup⟩
    obtain ⟨k, hk, hclient⟩ := Option.bind_eq_some_iff.mp hcurrent
    exact ⟨k, client, hclient, hup⟩
  · rintro ⟨k, client, hclient, hup⟩
    have hk : s.client = some k := not_not.mp fun hne => h ⟨k, ⟨client, hclient, hup⟩, hne⟩
    exact ⟨client, by rw [current, hk]; exact hclient, hup⟩

/-- One call, from a state without stray links. -/
theorem stray_iff_of_step {s s' : Session} {e : Event} (h : ¬ s.Stray) (hstep : step s e = some s') :
    ¬ s'.Stray ↔ Tidy s e := by
  cases e with
  | connect b up =>
    obtain rfl := Option.some.inj hstep
    by_cases hfinds : Finds b s
    · obtain ⟨bleDevice, client, heq⟩ := connect_of_finds up hfinds
      have hiff : (s.connect b up).1.Stray ↔ s.Up := by
        rw [heq, up_iff_linked h]
        constructor
        · rintro ⟨k, ⟨old, hold, hup⟩, hne⟩
          refine ⟨k, old, ?_, hup⟩
          have hlt := (List.getElem?_eq_some_iff.mp hold).1
          have hk : k ≠ s.clients.length := fun hk => hne (congrArg some hk.symm)
          rw [List.length_append, List.length_singleton] at hlt
          rwa [List.getElem?_append_left (by omega)] at hold
        · rintro ⟨k, old, hold, hup⟩
          have hlt := (List.getElem?_eq_some_iff.mp hold).1
          refine ⟨k, ⟨old, ?_, hup⟩, fun hk => ?_⟩
          · rwa [List.getElem?_append_left hlt]
          · exact absurd (Option.some.inj hk) (by omega)
      rw [hiff]
      exact ⟨fun hup _ => hup, fun htidy => htidy hfinds⟩
    · rw [connect_of_not_finds up hfinds]
      exact iff_of_true h fun hfinds' => absurd hfinds' hfinds
  | disconnect d =>
    obtain rfl := Option.some.inj hstep
    by_cases hup : s.Up
    · obtain ⟨k, client, hk, hclient, hup', heq⟩ := disconnect_of_up d hup
      have hclosed := closing_closed_iff d s.uuids hup'
      have hlt := (List.getElem?_eq_some_iff.mp hclient).1
      have hiff : (s.disconnect d).1.Stray ↔ ¬ Closes d s.uuids := by
        rw [heq, ← hclosed, Bool.not_eq_false]
        constructor
        · rintro ⟨j, ⟨left, hleft, hup''⟩, -⟩
          by_cases hj : k = j
          · subst hj
            rw [List.getElem?_set_self hlt] at hleft
            rw [Option.some.inj hleft]
            exact hup''
          · rw [List.getElem?_set_ne hj] at hleft
            exact absurd ⟨j, ⟨left, hleft, hup''⟩, by rw [hk]; exact fun hjk => hj (Option.some.inj hjk)⟩ h
        · intro hleft
          exact ⟨k, ⟨_, List.getElem?_set_self hlt, hleft⟩, nofun⟩
      rw [hiff, not_not]
      exact ⟨fun hcloses _ => hcloses, fun htidy => htidy hup⟩
    · rw [disconnect_of_not_up d hup]
      refine iff_of_true ?_ fun hup' => absurd hup' hup
      rintro ⟨k, hlinked, -⟩
      exact hup ((up_iff_linked h).mpr ⟨k, hlinked⟩)
  | lost k lose =>
    obtain rfl := Option.some.inj hstep
    refine iff_of_true ?_ trivial
    rintro ⟨j, ⟨client, hclient, hup⟩, hne⟩
    rw [List.getElem?_modify] at hclient
    obtain ⟨old, hold, rfl⟩ := Option.map_eq_some_iff.mp hclient
    by_cases hj : k = j
    · simp [hj] at hup
    · refine h ⟨j, ⟨old, hold, by simpa [hj] using hup⟩, hne⟩

/-- **Which sessions leave no link up behind.** After every call of a session all links that are up can be closed by
`disconnect`, iff `connect` is never called while the link is up, and `disconnect` is never cancelled before it asks for
the link to be closed, nor fails to close it. -/
theorem no_stray_link_iff (name : String) (events : List Event) :
    Meets step (fun s e => ∀ s', step s e = some s' → ¬ s'.Stray) (init name) events ↔
      Meets step Tidy (init name) events := by
  refine meets_congr_of_keeps (I := fun s => ¬ s.Stray) ?_ (fun s e s' _ hg he => hg s' he) ?_
  · intro s e hs
    obtain ⟨s', he⟩ : ∃ s', step s e = some s' := by cases e <;> exact ⟨_, rfl⟩
    rw [← stray_iff_of_step hs he, he]
    exact ⟨fun hg => hg s' rfl, fun hstray _ heq => Option.some.inj heq ▸ hstray⟩
  · rintro ⟨k, ⟨client, hclient, -⟩, -⟩
    cases hclient

end Session

end BleRpc.Host
