import BleRpc.Device.Framing
import BleRpc.Device.Safety

/-!
# The packets sent

What the host makes of the packets sent on E002 and E003, in any run of the whole profile, and what is left of them.
Each passes the checks of its handler. The notification sent last can be read back from E003 until the next is sent, and
`SimpleGattProfile_getParameter` returns it padded with zeros. Of the response sent last, the parameter has all but the
id: the id in the array is the command's when the response is sent, the one in the packet the command's when it was
found in the table.

- `Sending`: what an event does to the two arrays and to the history (`effect_sending`);
- `Accepted`: what the packets sent are like (`accepted_sending`);
- `Remembers`: what every run keeps of the packets sent (`remembers_sending`).
-/

namespace BleRpc.Device

open Outcome Transition

variable {σ : Type} {gatt : GattServer σ} {table : List (Entry (Handler σ))}

/-! ## The history of a characteristic -/

/-- The packets sent on a characteristic. -/
def sentOn (uuid : Uuid) (trace : List Observation) : List Bytes :=
  trace.filterMap fun
    | .sent u value => if u = uuid then some value else none
    | .called _ _ _ => none

/-- The packet sent last; before the first, an empty packet of id 0. -/
def lastSent (uuid : Uuid) (trace : List Observation) : Bytes := (sentOn uuid trace).getLast?.getD [0, 0]

theorem sentOn_self (uuid : Uuid) (trace : List Observation) (value : Bytes) :
    sentOn uuid (trace ++ [.sent uuid value]) = sentOn uuid trace ++ [value] := by
  simp [sentOn]

theorem lastSent_self (uuid : Uuid) (trace : List Observation) (value : Bytes) :
    lastSent uuid (trace ++ [.sent uuid value]) = value := by
  rw [lastSent, sentOn_self, List.getLast?_concat, Option.getD_some]

theorem lastSent_congr {uuid : Uuid} {t u : List Observation} (h : sentOn uuid t = sentOn uuid u) :
    lastSent uuid t = lastSent uuid u := by
  rw [lastSent, lastSent, h]

theorem sentOn_other {u uuid : Uuid} (h : u ≠ uuid) (trace : List Observation) (value : Bytes) :
    sentOn uuid (trace ++ [.sent u value]) = sentOn uuid trace := by
  simp [sentOn, h]

/-! ## The array of a packet -/

theorem Memory.toList_store {m m' : Memory} {p : Ptr} {bytes : Bytes} (h : m.store p bytes = .ok m') :
    (m' p.region).toList = Buffer.patch (m p.region).toList p.offset bytes := by
  unfold Memory.store at h
  split at h
  · rename_i v hv
    cases h
    rw [Function.update_self]
    exact (Buffer.store?_some hv).2
  · cases h

/-- A packet put in an array is there, padded, wherever its data came from. -/
theorem fillPacket_array {m m' : Memory} {r : Region} (hr : r.size = maxPacketLength) {id : UInt8} {data : Source}
    {length : ℕ} (h : fillPacket m r id data length = .ok m') :
    ∃ bytes, bytes.length = length ∧ (data.Outside r → m.loadFrom data length = .ok bytes) ∧
      (m' r).toList = padded (id :: UInt8.ofNat length :: bytes) := by
  simp only [fillPacket, bind_eq_ok, Memory.memcpy_eq_ok] at h
  obtain ⟨m₁, h₁, m₂, h₂, bytes, hload, _, h₃⟩ := h
  have hlen := Memory.length_of_loadFrom hload
  refine ⟨bytes, hlen, ?_, ?_⟩
  · intro hout
    rw [← hload]
    refine (Memory.loadFrom_outside (r := r) ?_ hout length).symm
    intro r' hr'
    rw [Memory.store_frame h₂ hr', Memory.store_frame h₁ hr', Memory.memset_ne m hr']
  · have l₁ := Memory.toList_store h₁
    have l₂ := Memory.toList_store h₂
    have l₃ := Memory.toList_store h₃
    simp only at l₁ l₂ l₃
    rw [l₃, l₂, l₁, Memory.memset_self, Buffer.patch_header (by simp [hr, maxPacketLength, maxPayloadLength]),
      List.drop_replicate, hr, padded]
    simp only [List.length_cons]
    congr 2
    omega

/-- A padded packet has its payload after the header. -/
theorem payload_padded (id b : UInt8) (bytes : Bytes) :
    ((padded (id :: b :: bytes)).drop 2).take bytes.length = bytes := by
  simp [padded]

/-! ## What an event does to the arrays -/

/-- An event leaves the arrays, the notification's fields and the packets sent as they are, or sends a notification, or
the response. -/
inductive Sending (gatt : GattServer σ) (d d' : Dev σ) : Prop
  | aside (installed : d'.rpc.response = d.rpc.response) (id : d'.rpc.notificationId = d.rpc.notificationId)
    (length : d'.rpc.notificationLength = d.rpc.notificationLength)
    (notification : d'.memory .rpcProfileNotification = d.memory .rpcProfileNotification)
    (response : d'.memory .rpcProfileResponse = d.memory .rpcProfileResponse)
    (sent : ∀ uuid, sentOn uuid d'.trace = sentOn uuid d.trace)
  | notified {id : UInt8} {data : Source} {length : ℕ} {status : Status}
    (hsend : sendNotification gatt id data length d = .ok (d', status))
  | responded {status : Status}
    (hsend : sendResponse gatt d.rpc.commandId d.rpc.response d.rpc.responseLength d = .ok (d', status))

theorem act_sending {p p' : Prog σ} {d d' : Dev σ} (hd : d.Installed) (h : p.act gatt d = .ok (p', d')) :
    Sending gatt d d' := by
  cases Prog.act_eq_ok.mp h with
  | ret | look | load | setResponseLength | modify => exact .aside rfl rfl rfl rfl rfl fun _ => rfl
  | storeResponse hstore =>
    obtain ⟨p, m, hp, hm, rfl⟩ := storeResponse_inv hstore
    rw [hd] at hp
    cases hp
    exact .aside rfl rfl rfl (Memory.store_frame hm (by simp)) (Memory.store_frame hm (by simp)) fun _ => rfl
  | notify hsend => exact .notified hsend

theorem worked_sending {w w' : Worker σ} (hd : w.dev.Installed) (h : Worker.Worked gatt table w w') :
    Sending gatt w.dev w'.dev := by
  cases h with
  | wait | finish | skip | hit | label => exact .aside rfl rfl rfl rfl rfl fun _ => rfl
  | call => exact .aside rfl rfl rfl rfl rfl fun _ => by simp [Dev.call, sentOn]
  | act _ hact => exact act_sending hd hact
  | send hsend => exact .responded hsend

/-- **An event sends a packet, or leaves the packets sent alone.** -/
theorem effect_sending {e : Profile.Event} {w w' : Worker σ} (hd : w.dev.Installed)
    (he : Profile.Effect gatt table e w w') : Sending gatt w.dev w'.dev := by
  cases he with
  | aside _ h =>
    exact .aside (by rw [h.rpc]) (by rw [h.rpc]) (by rw [h.rpc]) (by rw [h.memory]) (by rw [h.memory])
      fun _ => by rw [h.trace]
  | looked => exact .aside rfl rfl rfl rfl rfl fun _ => rfl
  | posted _ hwrite =>
    have h := (writeCommand_inv hwrite).2
    exact .aside (by rw [h.rpc]) (by rw [h.rpc]) (by rw [h.rpc]) (h.frame _ (by decide)) (h.frame _ (by decide))
      fun _ => by rw [h.trace]
  | notified _ hsend => exact .notified hsend
  | worked _ hw => exact worked_sending hd hw

/-- A notification is sent as it is put in the array. -/
theorem sendNotification_array {d d' : Dev σ} {id : UInt8} {data : Source} {length : ℕ} {status : Status}
    (h : sendNotification gatt id data length d = .ok (d', status)) :
    ∃ m bytes, bytes.length = length ∧ length ≤ maxPayloadLength ∧
      (m .rpcProfileNotification).toList = padded (id :: UInt8.ofNat length :: bytes) ∧
      (∀ r, r ≠ .rpcProfileNotification → m r = d.memory r) ∧
      d' = { d with
        memory := m
        rpc := { d.rpc with notificationId := id, notificationLength := length }.notifying }.observe
          (.sent .rpcNotification (id :: UInt8.ofNat length :: bytes)) := by
  rw [sendNotification, bind_eq_ok] at h
  obtain ⟨m, hm, h⟩ := h
  obtain ⟨hsize, hf⟩ := fillPacket_inv hm
  obtain ⟨bytes, hlen, _, harray⟩ := fillPacket_array (r := .rpcProfileNotification) rfl hm
  rw [processCharCfg_notification, bind_eq_ok] at h
  obtain ⟨value, hv, h⟩ := h
  obtain ⟨live, hload, _, rfl⟩ := buildPacket_inv hv
  have hlive : live = bytes := by
    have hsame := Memory.load_inv hload
    simp only [harray] at hsame
    rw [hsame, ← hlen, payload_padded]
  cases h
  have hsize' : Region.size .rpcProfileNotification = maxPayloadLength + 2 := rfl
  exact ⟨m, bytes, hlen, by omega, harray, hf, by rw [hlive]⟩

/-- The response is sent as it is put in the array, under the id it was labelled with. -/
theorem sendResponse_array {d d' : Dev σ} {status : Status} (hd : d.Installed)
    (h : sendResponse gatt d.rpc.commandId d.rpc.response d.rpc.responseLength d = .ok (d', status)) :
    ∃ m bytes, bytes.length = d.rpc.responseLength ∧
      (m .rpcProfileResponse).toList = padded (d.rpc.commandId :: UInt8.ofNat d.rpc.responseLength :: bytes) ∧
      (∀ r, r ≠ .rpcProfileResponse → m r = d.memory r) ∧
      d' = { d with memory := m }.observe
        (.sent .rpcResponse (d.rpc.responseId :: UInt8.ofNat d.rpc.responseLength :: bytes)) := by
  have hout := outside_of_responseBuffer hd
  have hsend := h
  rw [sendResponse, bind_eq_ok] at h
  obtain ⟨m, hm, h⟩ := h
  obtain ⟨_, hf⟩ := fillPacket_inv hm
  obtain ⟨bytes, hlen, hbytes, harray⟩ := fillPacket_array (r := .rpcProfileResponse) rfl hm
  rw [processCharCfg_response, bind_eq_ok] at h
  obtain ⟨value, hv, h⟩ := h
  obtain ⟨live, hload, _, rfl⟩ := buildPacket_inv hv
  have hlive : live = bytes := by
    rw [Memory.loadFrom_outside hf hout, hbytes hout] at hload
    cases hload
    rfl
  cases h
  exact ⟨m, bytes, hlen, harray, hf, by rw [hlive]⟩

/-! ## What the host makes of it -/

/-- The packets sent on a characteristic have a header that counts their payload, and the reader has room for them. -/
def Accepted (gatt : GattServer σ) (d : Dev σ) : Prop :=
  ∀ uuid, ∀ packet ∈ sentOn uuid d.trace, Host.WellFormed packet ∧ packet.length ≤ gatt.maxLen.toNat

/-- One more packet. -/
theorem accepted_observe {d d' : Dev σ} (h : Accepted gatt d) {uuid : Uuid} {id : UInt8} {bytes : Bytes} {length : ℕ}
    (hlen : bytes.length = length) (hle : length ≤ maxPayloadLength) (hmax : length + 2 ≤ gatt.maxLen.toNat)
    (ht : d'.trace = d.trace ++ [.sent uuid (id :: UInt8.ofNat length :: bytes)]) : Accepted gatt d' := by
  intro u packet hp
  rw [ht] at hp
  by_cases hu : uuid = u
  · subst hu
    rw [sentOn_self] at hp
    rcases List.mem_append.mp hp with hp | hp
    · exact h uuid packet hp
    · rw [List.mem_singleton.mp hp]
      exact ⟨wellFormed_of_le id hlen hle, by rw [List.length_cons, List.length_cons, hlen]; exact hmax⟩
  · rw [sentOn_other hu] at hp
    exact h u packet hp

theorem accepted_sending {d d' : Dev σ} (hd : d.Installed) (h : Accepted gatt d) (hs : Sending gatt d d') :
    Accepted gatt d' := by
  cases hs with
  | aside _ _ _ _ _ sent => exact fun uuid packet hp => h uuid packet (sent uuid ▸ hp)
  | notified hsend =>
    obtain ⟨m, bytes, hlen, hle, _, _, hd'⟩ := sendNotification_array hsend
    obtain ⟨_, _, _, _, hmax, _⟩ := sendNotification_inv hsend
    exact accepted_observe h hlen hle hmax (by rw [hd']; rfl)
  | responded hsend =>
    obtain ⟨m, bytes, hlen, _, _, hd'⟩ := sendResponse_array hd hsend
    obtain ⟨_, _, _, hle, hmax, _⟩ := sendResponse_inv (outside_of_responseBuffer hd) hsend
    exact accepted_observe h hlen hle hmax (by rw [hd']; rfl)

theorem Sending.installed {d d' : Dev σ} (h : Sending gatt d d') (hd : d.Installed) : d'.Installed := by
  cases h with
  | aside installed => exact installed.trans hd
  | notified hsend => obtain ⟨_, _, _, _, _, _, rfl⟩ := sendNotification_array hsend; exact hd
  | responded hsend => obtain ⟨_, _, _, _, _, rfl⟩ := sendResponse_array hd hsend; exact hd

/-! ## What is remembered -/

/-- The notification sent last is in its array and in `rpc`, and the response sent last in its array, but for the id. -/
structure Remembers (d : Dev σ) : Prop where
  installed : d.Installed
  notification : ∃ bytes, bytes.length = d.rpc.notificationLength ∧
    lastSent .rpcNotification d.trace = d.rpc.notificationId :: UInt8.ofNat d.rpc.notificationLength :: bytes
  fits : d.rpc.notificationLength ≤ maxPayloadLength
  array : (d.memory .rpcProfileNotification).toList = padded (lastSent .rpcNotification d.trace)
  response : (d.memory .rpcProfileResponse).toList.tail = (padded (lastSent .rpcResponse d.trace)).tail

theorem remembers_reset (app : σ) : Remembers (reset app) where
  installed := rfl
  notification := ⟨[], rfl, rfl⟩
  fits := by simp [reset, rpcInit]
  array := rfl
  response := rfl

/-- **Every event keeps what is remembered**, or replaces it by the packet it sends. -/
theorem remembers_sending {d d' : Dev σ} (h : Remembers d) (hs : Sending gatt d d') : Remembers d' := by
  cases hs with
  | aside installed id length notification response sent =>
    have hn := lastSent_congr (sent .rpcNotification)
    have hr := lastSent_congr (sent .rpcResponse)
    refine ⟨installed.trans h.installed, ?_, by rw [length]; exact h.fits, ?_, ?_⟩
    · rw [hn, id, length]
      exact h.notification
    · rw [hn, notification]
      exact h.array
    · rw [hr, response]
      exact h.response
  | notified hsend =>
    obtain ⟨m, bytes, hlen, hle, harray, hf, rfl⟩ := sendNotification_array hsend
    refine ⟨h.installed, ⟨bytes, hlen, lastSent_self ..⟩, hle, ?_, ?_⟩
    · rw [Dev.observe_trace, lastSent_self]
      exact harray
    · have hframe : m .rpcProfileResponse = d.memory .rpcProfileResponse := hf _ (by decide)
      rw [Dev.observe_trace, lastSent_congr (sentOn_other (by decide) ..)]
      exact (congrArg (·.toList.tail) hframe).trans h.response
  | responded hsend =>
    obtain ⟨m, bytes, -, harray, hf, rfl⟩ := sendResponse_array h.installed hsend
    refine ⟨h.installed, ?_, h.fits, ?_, ?_⟩
    · rw [Dev.observe_trace, lastSent_congr (sentOn_other (by decide) ..)]
      exact h.notification
    · have hframe : m .rpcProfileNotification = d.memory .rpcProfileNotification := hf _ (by decide)
      rw [Dev.observe_trace, lastSent_congr (sentOn_other (by decide) ..)]
      exact (congrArg (·.toList) hframe).trans h.array
    · rw [Dev.observe_trace, lastSent_self]
      exact (congrArg List.tail harray).trans rfl

/-! ## Reading back -/

/-- The attribute of E003. -/
def notificationAttr : Attribute := ⟨.uuid16 .rpcNotification, .value .rpcNotification⟩

/-- **E003 is read as it was notified**, with room for it. -/
theorem read_notification {d : Dev σ} (h : Remembers d) {maxLen : UInt16}
    (hmax : (lastSent .rpcNotification d.trace).length ≤ maxLen.toNat) :
    readAttrCB notificationAttr 0 maxLen d =
      .ok ({ d with rpc := d.rpc.notifying }, .success, lastSent .rpcNotification d.trace) := by
  obtain ⟨bytes, hlen, hlast⟩ := h.notification
  have hload : d.memory.loadFrom (.ptr (some ⟨.rpcProfileNotification, 2⟩)) d.rpc.notificationLength = .ok bytes := by
    rw [Memory.loadFrom, Memory.load_of_le (readable_notification h.fits)]
    simp only
    rw [h.array, hlast, ← hlen, payload_padded]
  rw [hlast] at hmax ⊢
  simp only [List.length_cons, hlen] at hmax
  rw [notificationAttr, readAttrCB_notification, buildPacket_ok hload (by omega), ok_bind]

namespace Profile

/-- **What was sent last is kept**, whatever is written, read, set and run since: the notification as a whole, to a read
of E003 with room for it and to `SimpleGattProfile_getParameter`; of the response, to the latter, all but its id. -/
theorem last_sent_kept (gatt : GattServer σ) (table : List (Entry (Handler σ))) (app : σ) (events : List Event)
    (s : Profile σ) (h : run (step gatt table) (init app) events = some s) :
    (∀ maxLen : UInt16, (lastSent .rpcNotification s.dev.trace).length ≤ maxLen.toNat →
      (readAttrCB notificationAttr 0 maxLen s.dev).map Prod.snd =
        .ok (.success, lastSent .rpcNotification s.dev.trace)) ∧
    getParameter .clientServerNotification s.dev = (.success, padded (lastSent .rpcNotification s.dev.trace)) ∧
    ∃ id, getParameter .clientServerResponse s.dev =
      (.success, id :: (padded (lastSent .rpcResponse s.dev.trace)).tail) := by
  have hr : Remembers s.dev := by
    refine run_inv (I := fun s => Remembers s.dev) ?_ (remembers_reset app) h
    intro s e s' hi hs
    exact remembers_sending hi (effect_sending hi.installed (step_effect hs))
  refine ⟨?_, congrArg (ParamStatus.success, ·) hr.array, ?_⟩
  · intro maxLen hmax
    rw [read_notification hr hmax]
    rfl
  · cases hl : (s.dev.memory .rpcProfileResponse).toList with
    | nil =>
      have hlen := (s.dev.memory .rpcProfileResponse).toList_length
      rw [hl] at hlen
      cases hlen
    | cons id rest =>
      have htail := hr.response
      rw [hl] at htail
      exact ⟨id, by rw [getParameter, hl, ← htail]; rfl⟩

/-- A packet read with room for at most 255 bytes of payload has a header that counts it. -/
theorem wellFormed_of_build {m : Memory} {maxLen : UInt16} {id : UInt8} {length : ℕ} {src : Option Ptr} {value : Bytes}
    (hmax : maxLen.toNat < 258) (h : buildPacket m maxLen id length src = .ok value) : Host.WellFormed value := by
  obtain ⟨bytes, hload, hle, rfl⟩ := buildPacket_inv h
  have hlen := Memory.length_of_loadFrom hload
  subst hlen
  exact Host.wellFormed_packet id (by omega)

/-- **The host accepts whatever the device sends**, in any run with any callbacks that gets there: every packet sent on
E002 or E003 passes the checks of its handler and is no longer than the reader has room for; and so would what a client
reads from E002 or E003 with room for less than 258 bytes. -/
theorem sent_accepted (gatt : GattServer σ) (table : List (Entry (Handler σ))) (app : σ) (events : List Event)
    (s : Profile σ) (h : run (step gatt table) (init app) events = some s) :
    (∀ packet ∈ sentOn .rpcResponse s.dev.trace,
      Host.checkResponse packet = .ok () ∧ packet.length ≤ gatt.maxLen.toNat) ∧
    (∀ packet ∈ sentOn .rpcNotification s.dev.trace,
      Host.checkNotification packet = .ok () ∧ packet.length ≤ gatt.maxLen.toNat) ∧
    ∀ (maxLen : UInt16) (d : Dev σ) (value : Bytes), maxLen.toNat < 258 →
      (readAttrCB responseAttr 0 maxLen s.dev = .ok (d, .success, value) → Host.checkResponse value = .ok ()) ∧
      (readAttrCB notificationAttr 0 maxLen s.dev = .ok (d, .success, value) →
        Host.checkNotification value = .ok ()) := by
  have hi : s.dev.Installed ∧ Accepted gatt s.dev := by
    refine run_inv (I := fun s => s.dev.Installed ∧ Accepted gatt s.dev) ?_ ⟨rfl, fun _ _ hp => by cases hp⟩ h
    intro s e s' hi hs
    have hsending := effect_sending hi.1 (step_effect hs)
    exact ⟨hsending.installed hi.1, accepted_sending hi.1 hi.2 hsending⟩
  refine ⟨?_, ?_, ?_⟩
  · intro packet hp
    exact (hi.2 _ packet hp).imp_left Host.checkResponse_ok.mpr
  · intro packet hp
    exact (hi.2 _ packet hp).imp_left Host.checkNotification_ok.mpr
  · intro maxLen d value hmax
    constructor
    · intro hread
      rw [responseAttr, readAttrCB_response, bind_eq_ok] at hread
      obtain ⟨value', hvalue, hread⟩ := hread
      cases hread
      exact Host.checkResponse_ok.mpr (wellFormed_of_build hmax hvalue)
    · intro hread
      rw [notificationAttr, readAttrCB_notification, bind_eq_ok] at hread
      obtain ⟨value', hvalue, hread⟩ := hread
      cases hread
      exact Host.checkNotification_ok.mpr (wellFormed_of_build hmax hvalue)

/-- One entry, whose callback notifies before it answers. -/
def notifiesFirst : List (Entry (Handler Unit)) :=
  [⟨5, some fun _ _ _ => .notify 9 (.own [7]) 1 (.storeResponse 0 8 (.setResponseLength 1 .ret))⟩, ⟨0, none⟩]

theorem char1Attr_mem : Plain.attr .char1 ∈ attrTbl := by decide

/-- Command 6 is written while command 5 runs; a byte of the response buffer is notified, then Characteristic 1 is
written. -/
def rewritten : List Event := List.flatten [
  .write ⟨commandAttr, commandAttr_mem⟩ [5, 0] 0 :: List.replicate 5 .work,
  .write ⟨commandAttr, commandAttr_mem⟩ [6, 0] 0 :: List.replicate 3 .work,
  [.notify 3 (.ptr (some ⟨.rcpResponseBuffer, 0⟩)) 1, .write ⟨Plain.attr .char1, char1Attr_mem⟩ [66] 0]]

/-- The response was sent as command 5's, and the array has it as command 6's. -/
theorem last_sent_kept_rewritten : ∃ s, run (step (.plain 251) notifiesFirst) (init ()) rewritten = some s ∧
    lastSent .rpcResponse s.dev.trace = [5, 1, 8] ∧ (s.dev.memory .rpcProfileResponse).toList.head? = some 6 ∧
    (readAttrCB notificationAttr 0 22 s.dev).map Prod.snd = .ok (.success, [3, 1, 8]) ∧
    ∃ id, getParameter .clientServerResponse s.dev = (.success, id :: (padded [5, 1, 8]).tail) := by
  have hspec := last_sent_kept (.plain 251) notifiesFirst () rewritten _ rfl
  exact ⟨_, rfl, rfl, rfl, hspec.1 22 (by decide), hspec.2.2⟩

/-- Two notifications and a response have been sent. -/
theorem sent_accepted_rewritten : ∃ s, run (step (.plain 251) notifiesFirst) (init ()) rewritten = some s ∧
    sentOn .rpcResponse s.dev.trace = [[5, 1, 8]] ∧ sentOn .rpcNotification s.dev.trace = [[9, 1, 7], [3, 1, 8]] ∧
    Host.checkResponse [5, 1, 8] = .ok () ∧ Host.checkNotification [3, 1, 8] = .ok () := by
  have hspec := sent_accepted (.plain 251) notifiesFirst () rewritten _ rfl
  exact ⟨_, rfl, rfl, rfl, (hspec.1 _ (by decide)).1, (hspec.2.1 _ (by decide)).1⟩

end Profile

end BleRpc.Device
