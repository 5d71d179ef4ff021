import BleRpc.Device.Gatt

/-!
# What the read callback and the send functions do

Rules for each function of `Gatt.lean` that moves a packet: exactly when it goes through (`…_iff`), with what result
when it does (`…_ok`), and what is known when it did (`…_inv`).
-/

namespace BleRpc.Device

open Outcome

/-- A source that does not lie in the array `r`. -/
def Source.Outside (r : Region) : Source → Prop
  | .ptr (some p) => p.region ≠ r
  | .ptr none => True
  | .own _ => True

/-- A source in another array shares no cell with this one. -/
theorem not_overlaps {src : Source} {p : Ptr} (h : src.Outside p.region) (length : ℕ) : ¬ src.Overlaps p length := by
  match src, h with
  | .ptr (some _), h => exact fun hover => h hover.1
  | .ptr none, _ => exact id
  | .own _, _ => exact id

/-- There are that many bytes. -/
def Source.Readable : Source → ℕ → Prop
  | .ptr none, _ => False
  | .ptr (some p), length => p.offset + length ≤ p.region.size
  | .own bytes, length => length ≤ bytes.length

instance : ∀ (src : Source) (length : ℕ), Decidable (src.Readable length)
  | .ptr none, _ => isFalse id
  | .ptr (some p), length => inferInstanceAs (Decidable (p.offset + length ≤ p.region.size))
  | .own bytes, length => inferInstanceAs (Decidable (length ≤ bytes.length))

theorem loadFrom_iff {m : Memory} {src : Source} {length : ℕ} :
    (∃ bytes, m.loadFrom src length = .ok bytes) ↔ src.Readable length := by
  match src with
  | .ptr none => exact ⟨fun ⟨_, h⟩ => (by cases h), False.elim⟩
  | .ptr (some p) =>
    constructor
    · rintro ⟨bytes, h⟩
      by_contra hlt
      have hlt : ¬ p.offset + length ≤ p.region.size := hlt
      rw [Memory.loadFrom, Memory.load, Buffer.load?, if_neg hlt] at h
      cases h
    · exact fun h => ⟨_, Memory.load_of_le h⟩
  | .own bytes =>
    constructor
    · rintro ⟨_, h⟩
      by_contra hlt
      have hlt : ¬ length ≤ bytes.length := hlt
      rw [Memory.loadFrom, if_neg hlt] at h
      cases h
    · exact fun h => ⟨_, if_pos h⟩

/-- The cells of a notification that fits. -/
theorem readable_notification {length : ℕ} (h : length ≤ maxPayloadLength) :
    (Source.ptr (some ⟨.rpcProfileNotification, 2⟩)).Readable length := by
  have hsize : Region.size .rpcProfileNotification = maxPayloadLength + 2 := rfl
  simp only [Source.Readable, hsize]
  omega

theorem outside_of_responseBuffer {p : Option Ptr} (h : p = some ⟨.rcpResponseBuffer, 0⟩) :
    (Source.ptr p).Outside .rpcProfileResponse := by
  subst h
  simp [Source.Outside]

/-- The response buffer can be read up to its size. -/
theorem load_responseBuffer (m : Memory) {p : Option Ptr} (h : p = some ⟨.rcpResponseBuffer, 0⟩) {length : ℕ}
    (hlen : length ≤ Region.size .rcpResponseBuffer) :
    m.loadFrom (.ptr p) length = .ok ((m .rcpResponseBuffer).toList.take length) := by
  subst h
  exact Memory.load_of_le (p := ⟨.rcpResponseBuffer, 0⟩) (by simpa using hlen)

/-- Data outside an array does not change with the array. -/
theorem Memory.loadFrom_outside {m m' : Memory} {r : Region} (hm : ∀ r', r' ≠ r → m' r' = m r') {src : Source}
    (hs : src.Outside r) (length : ℕ) : m'.loadFrom src length = m.loadFrom src length := by
  match src, hs with
  | .ptr none, _ => rfl
  | .ptr (some p), hs => exact Memory.load_congr (hm p.region hs) length
  | .own _, _ => rfl

/-! ## `pValue` -/

theorem storeValue_of_le {n : ℕ} (v : List.Vector UInt8 n) (off : ℕ) (bytes : Bytes) (h : off + bytes.length ≤ n) :
    ∃ w, storeValue v off bytes = .ok w ∧ w.toList = Buffer.patch v.toList off bytes := by
  obtain ⟨w, hw, hl⟩ := Buffer.store?_of_le v h
  exact ⟨w, by rw [storeValue, hw], hl⟩

theorem storeValue_inv {n off : ℕ} {v w : List.Vector UInt8 n} {bytes : Bytes} (h : storeValue v off bytes = .ok w) :
    off + bytes.length ≤ n := by
  unfold storeValue at h
  split at h
  · rename_i hw
    exact (Buffer.store?_some hw).1
  · cases h

/-- A packet that fits in `pValue` is id, length byte and payload. -/
theorem buildPacket_ok {m : Memory} {maxLen : UInt16} {id : UInt8} {length : ℕ} {src : Option Ptr} {bytes : Bytes}
    (hload : m.loadFrom (.ptr src) length = .ok bytes) (hmax : length + 2 ≤ maxLen.toNat) :
    buildPacket m maxLen id length src = .ok (id :: UInt8.ofNat length :: bytes) := by
  have hlen := Memory.length_of_loadFrom hload
  obtain ⟨v₁, h₁, l₁⟩ := storeValue_of_le (List.Vector.replicate maxLen.toNat 0) 0 [id]
    (by simp; omega)
  obtain ⟨v₂, h₂, l₂⟩ := storeValue_of_le v₁ 1 [UInt8.ofNat length] (by simp; omega)
  obtain ⟨v₃, h₃, l₃⟩ := storeValue_of_le v₂ 2 bytes (by omega)
  have hv : v₃.toList = id :: UInt8.ofNat length :: bytes ++ List.replicate (maxLen.toNat - (2 + length)) 0 := by
    rw [l₃, l₂, l₁, Buffer.toList_replicate, Buffer.patch_header (by simp; omega), List.drop_replicate, hlen]
  have hmod : (length + 2) % 2 ^ 16 = (id :: UInt8.ofNat length :: bytes).length := by
    have := maxLen.toNat_lt
    simp only [List.length_cons, hlen]
    omega
  simp only [buildPacket, h₁, h₂, h₃, hload, ok_bind, hv, hmod]
  rw [List.take_left]
  rfl

/-- A packet that was built fits in `pValue`. -/
theorem buildPacket_inv {m : Memory} {maxLen : UInt16} {id : UInt8} {length : ℕ} {src : Option Ptr} {value : Bytes}
    (h : buildPacket m maxLen id length src = .ok value) :
    ∃ bytes, m.loadFrom (.ptr src) length = .ok bytes ∧ length + 2 ≤ maxLen.toNat ∧
      value = id :: UInt8.ofNat length :: bytes := by
  have h' := h
  simp only [buildPacket, bind_eq_ok] at h
  obtain ⟨v₁, _, v₂, _, bytes, hload, v₃, h₃, _⟩ := h
  have hb := storeValue_inv h₃
  rw [Memory.length_of_loadFrom hload] at hb
  refine ⟨bytes, hload, by omega, ?_⟩
  rw [buildPacket_ok hload (by omega)] at h'
  cases h'
  rfl

/-- A packet is built iff there is its data, and room for it. -/
theorem buildPacket_iff (m : Memory) (maxLen : UInt16) (id : UInt8) {length : ℕ} {src : Option Ptr} :
    (∃ value, buildPacket m maxLen id length src = .ok value) ↔
      (Source.ptr src).Readable length ∧ length + 2 ≤ maxLen.toNat := by
  constructor
  · rintro ⟨value, h⟩
    obtain ⟨bytes, hload, hmax, _⟩ := buildPacket_inv h
    exact ⟨loadFrom_iff.mp ⟨bytes, hload⟩, hmax⟩
  · rintro ⟨hread, hmax⟩
    obtain ⟨bytes, hload⟩ := loadFrom_iff (m := m).mpr hread
    exact ⟨_, buildPacket_ok hload hmax⟩

/-! ## The characteristic arrays -/

/-- The array a packet of at most `RPC_MAX_PAYLOAD_LENGTH` bytes of payload is put in, padded with zeros. -/
theorem fillPacket_ok {m : Memory} {r : Region} (hr : r.size = maxPacketLength) (id : UInt8) {data : Source}
    {length : ℕ} {bytes : Bytes} (hdata : m.loadFrom data length = .ok bytes) (hout : data.Outside r)
    (hlen : length ≤ maxPayloadLength) :
    ∃ m', fillPacket m r id data length = .ok m' ∧
      (m' r).toList = id :: UInt8.ofNat length :: bytes ++ List.replicate (maxPayloadLength - length) 0 ∧
      ∀ r', r' ≠ r → m' r' = m r' := by
  have hbytes := Memory.length_of_loadFrom hdata
  have hsize : maxPacketLength = maxPayloadLength + 2 := rfl
  obtain ⟨m₁, h₁, l₁, f₁⟩ := Memory.store_of_le (m.memset r) ⟨r, 0⟩ [id]
    (by simp [hr, hsize])
  obtain ⟨m₂, h₂, l₂, f₂⟩ := Memory.store_of_le m₁ ⟨r, 1⟩ [UInt8.ofNat length]
    (by simp [hr, hsize])
  obtain ⟨m₃, h₃, l₃, f₃⟩ := Memory.store_of_le m₂ ⟨r, 2⟩ bytes
    (by simp only [hr, hsize]; omega)
  have hframe : ∀ r', r' ≠ r → m₂ r' = m r' := fun r' h => by rw [f₂ r' h, f₁ r' h, Memory.memset_ne m h]
  have hload : m₂.loadFrom data length = .ok bytes := by rw [Memory.loadFrom_outside hframe hout, hdata]
  refine ⟨m₃, ?_, ?_, fun r' h => by rw [f₃ r' h, hframe r' h]⟩
  · simp only [fillPacket, h₁, h₂, ok_bind]
    exact Memory.memcpy_eq_ok.mpr ⟨bytes, hload, not_overlaps hout length, h₃⟩
  · simp only at l₁ l₂ l₃
    rw [l₃, l₂, l₁, Memory.memset_self, Buffer.patch_header (by simp [hr, hsize]), List.drop_replicate, hr, hsize,
      hbytes]
    congr 2
    omega

/-- A packet that was put in an array fits in it, and nothing else changed. -/
theorem fillPacket_inv {m m' : Memory} {r : Region} {id : UInt8} {data : Source} {length : ℕ}
    (h : fillPacket m r id data length = .ok m') : length + 2 ≤ r.size ∧ ∀ r', r' ≠ r → m' r' = m r' := by
  simp only [fillPacket, bind_eq_ok, Memory.memcpy_eq_ok] at h
  obtain ⟨m₁, h₁, m₂, h₂, bytes, hload, _, h₃⟩ := h
  constructor
  · by_contra hlt
    rw [Memory.store_error (by rw [Memory.length_of_loadFrom hload]; simp only; omega)] at h₃
    cases h₃
  · intro r' hr'
    rw [Memory.store_frame h₃ hr', Memory.store_frame h₂ hr', Memory.store_frame h₁ hr', Memory.memset_ne m hr']

/-- It is put in its array iff there is its data, away from where it goes, and it fits. -/
theorem fillPacket_iff (m : Memory) {r : Region} (hr : r.size = maxPacketLength) (id : UInt8) {data : Source}
    {length : ℕ} :
    (∃ m', fillPacket m r id data length = .ok m') ↔
      data.Readable length ∧ ¬ data.Overlaps ⟨r, 2⟩ length ∧ length ≤ maxPayloadLength := by
  have hsize : maxPacketLength = maxPayloadLength + 2 := rfl
  constructor
  · rintro ⟨m', h⟩
    have hfit := (fillPacket_inv h).1
    simp only [fillPacket, bind_eq_ok, Memory.memcpy_eq_ok] at h
    obtain ⟨m₁, _, m₂, _, bytes, hload, hover, _⟩ := h
    exact ⟨loadFrom_iff.mp ⟨bytes, hload⟩, hover, by omega⟩
  · rintro ⟨hread, hover, hlen⟩
    obtain ⟨m₁, h₁, _⟩ := Memory.store_of_le (m.memset r) ⟨r, 0⟩ [id] (by simp [hr, hsize])
    obtain ⟨m₂, h₂, _⟩ := Memory.store_of_le m₁ ⟨r, 1⟩ [UInt8.ofNat length] (by simp [hr, hsize])
    obtain ⟨bytes, hload⟩ := loadFrom_iff (m := m₂).mpr hread
    have hbytes := Memory.length_of_loadFrom hload
    obtain ⟨m₃, h₃, _⟩ := Memory.store_of_le m₂ ⟨r, 2⟩ bytes (by simp only [hr, hsize]; omega)
    refine ⟨m₃, ?_⟩
    simp only [fillPacket, h₁, h₂, ok_bind]
    exact Memory.memcpy_eq_ok.mpr ⟨bytes, hload, hover, h₃⟩

/-! ## The sends -/

variable {σ : Type} {gatt : GattServer σ}

theorem find_response :
    attrTbl.find? (fun a => a.pValue == .value .rpcResponse) = some ⟨.uuid16 .rpcResponse, .value .rpcResponse⟩ := by
  decide

theorem find_notification : attrTbl.find? (fun a => a.pValue == .value .rpcNotification) =
    some ⟨.uuid16 .rpcNotification, .value .rpcNotification⟩ := by
  decide

/-- The read callback on E002. -/
theorem readAttrCB_response (obj : Obj) (maxLen : UInt16) (d : Dev σ) :
    readAttrCB ⟨.uuid16 .rpcResponse, obj⟩ 0 maxLen d =
      (buildPacket d.memory maxLen d.rpc.responseId d.rpc.responseLength d.rpc.response >>= fun value =>
        .ok (d, .success, value)) := rfl

/-- The struct as the read callback on E003 leaves it. -/
def Rpc.notifying (rpc : Rpc) : Rpc := { rpc with notification := some ⟨.rpcProfileNotification, 2⟩ }

/-- The read callback on E003. -/
theorem readAttrCB_notification (obj : Obj) (maxLen : UInt16) (d : Dev σ) :
    readAttrCB ⟨.uuid16 .rpcNotification, obj⟩ 0 maxLen d =
      (buildPacket d.memory maxLen d.rpc.notificationId d.rpc.notificationLength (some ⟨.rpcProfileNotification, 2⟩) >>=
        fun value => .ok ({ d with rpc := d.rpc.notifying }, .success, value)) := rfl

theorem processCharCfg_response (d : Dev σ) :
    gatt.processCharCfg readAttrCB attrTbl (.value .rpcResponse) d =
      (buildPacket d.memory gatt.maxLen d.rpc.responseId d.rpc.responseLength d.rpc.response >>= fun value =>
        .ok (d.observe (.sent .rpcResponse value), .success)) := by
  rw [gatt.delivers _ _ _ _ _ _ find_response rfl, readAttrCB_response]
  cases buildPacket d.memory gatt.maxLen d.rpc.responseId d.rpc.responseLength d.rpc.response <;> rfl

theorem processCharCfg_notification (d : Dev σ) :
    gatt.processCharCfg readAttrCB attrTbl (.value .rpcNotification) d =
      (buildPacket d.memory gatt.maxLen d.rpc.notificationId d.rpc.notificationLength
          (some ⟨.rpcProfileNotification, 2⟩) >>= fun value =>
        .ok ({ d with rpc := d.rpc.notifying }.observe (.sent .rpcNotification value), .success)) := by
  rw [gatt.delivers _ _ _ _ _ _ find_notification rfl, readAttrCB_notification]
  cases buildPacket d.memory gatt.maxLen d.rpc.notificationId d.rpc.notificationLength
    (some ⟨.rpcProfileNotification, 2⟩) <;> rfl

/-- A response that fits is put in its array and sent, assembled from the live fields of `rpc`. -/
theorem sendResponse_ok (gatt : GattServer σ) {d : Dev σ} (id : UInt8) {data : Option Ptr} {length : ℕ}
    {bytes live : Bytes} (hdata : d.memory.loadFrom (.ptr data) length = .ok bytes)
    (hout : (Source.ptr data).Outside .rpcProfileResponse)
    (hlen : length ≤ maxPayloadLength)
    (hlive : d.memory.loadFrom (.ptr d.rpc.response) d.rpc.responseLength = .ok live)
    (hlout : (Source.ptr d.rpc.response).Outside .rpcProfileResponse)
    (hmax : d.rpc.responseLength + 2 ≤ gatt.maxLen.toNat) :
    ∃ m, sendResponse gatt id data length d =
        .ok ({ d with memory := m }.observe
          (.sent .rpcResponse (d.rpc.responseId :: UInt8.ofNat d.rpc.responseLength :: live)), .success) ∧
      (m .rpcProfileResponse).toList =
        id :: UInt8.ofNat length :: bytes ++ List.replicate (maxPayloadLength - length) 0 ∧
      ∀ r, r ≠ .rpcProfileResponse → m r = d.memory r := by
  obtain ⟨m, hm, hl, hf⟩ := fillPacket_ok (r := .rpcProfileResponse) rfl id hdata hout hlen
  refine ⟨m, ?_, hl, hf⟩
  have hload : m.loadFrom (.ptr d.rpc.response) d.rpc.responseLength = .ok live := by
    rw [Memory.loadFrom_outside hf hlout, hlive]
  simp only [sendResponse, hm, ok_bind, processCharCfg_response, buildPacket_ok hload hmax]

/-- What is known of a response that was sent: it was assembled after its array was filled. -/
theorem sendResponse_frame {d d' : Dev σ} {id : UInt8} {data : Option Ptr} {length : ℕ} {status : Status}
    (h : sendResponse gatt id data length d = .ok (d', status)) :
    ∃ m live, status = .success ∧ length ≤ maxPayloadLength ∧ d.rpc.responseLength + 2 ≤ gatt.maxLen.toNat ∧
      m.loadFrom (.ptr d.rpc.response) d.rpc.responseLength = .ok live ∧
      (∀ r, r ≠ .rpcProfileResponse → m r = d.memory r) ∧
      d' = { d with memory := m }.observe
        (.sent .rpcResponse (d.rpc.responseId :: UInt8.ofNat d.rpc.responseLength :: live)) := by
  rw [sendResponse, bind_eq_ok] at h
  obtain ⟨m, hm, h⟩ := h
  obtain ⟨hsize, hf⟩ := fillPacket_inv hm
  rw [processCharCfg_response, bind_eq_ok] at h
  obtain ⟨value, hv, h⟩ := h
  obtain ⟨live, hload, hmax, rfl⟩ := buildPacket_inv hv
  cases h
  have hle : length ≤ maxPayloadLength := by
    have hs : Region.size .rpcProfileResponse = maxPayloadLength + 2 := rfl
    omega
  exact ⟨m, live, rfl, hle, hmax, hload, hf, rfl⟩

/-- The same, when `rpc.response` does not lie in that array. -/
theorem sendResponse_inv {d d' : Dev σ} {id : UInt8} {data : Option Ptr} {length : ℕ} {status : Status}
    (hlout : (Source.ptr d.rpc.response).Outside .rpcProfileResponse)
    (h : sendResponse gatt id data length d = .ok (d', status)) :
    ∃ m live, status = .success ∧ length ≤ maxPayloadLength ∧ d.rpc.responseLength + 2 ≤ gatt.maxLen.toNat ∧
      d.memory.loadFrom (.ptr d.rpc.response) d.rpc.responseLength = .ok live ∧
      (∀ r, r ≠ .rpcProfileResponse → m r = d.memory r) ∧
      d' = { d with memory := m }.observe
        (.sent .rpcResponse (d.rpc.responseId :: UInt8.ofNat d.rpc.responseLength :: live)) := by
  obtain ⟨m, live, hstatus, hle, hmax, hload, hf, rfl⟩ := sendResponse_frame h
  exact ⟨m, live, hstatus, hle, hmax, by rw [← hload]; exact (Memory.loadFrom_outside hf hlout _).symm, hf, rfl⟩

/-- A notification that fits is put in its array and sent from there. -/
theorem sendNotification_ok (gatt : GattServer σ) {d : Dev σ} (id : UInt8) {data : Source} {length : ℕ} {bytes : Bytes}
    (hdata : d.memory.loadFrom data length = .ok bytes) (hout : data.Outside .rpcProfileNotification)
    (hlen : length ≤ maxPayloadLength) (hmax : length + 2 ≤ gatt.maxLen.toNat) :
    ∃ m, sendNotification gatt id data length d =
        .ok ({ d with
          memory := m
          rpc := { d.rpc with notificationId := id, notificationLength := length }.notifying }.observe
            (.sent .rpcNotification (id :: UInt8.ofNat length :: bytes)), .success) ∧
      (m .rpcProfileNotification).toList =
        id :: UInt8.ofNat length :: bytes ++ List.replicate (maxPayloadLength - length) 0 ∧
      ∀ r, r ≠ .rpcProfileNotification → m r = d.memory r := by
  obtain ⟨m, hm, hl, hf⟩ := fillPacket_ok (r := .rpcProfileNotification) rfl id hdata hout hlen
  refine ⟨m, ?_, hl, hf⟩
  have hload : m.loadFrom (.ptr (some ⟨.rpcProfileNotification, 2⟩)) length = .ok bytes := by
    have hb := Memory.length_of_loadFrom hdata
    rw [Memory.loadFrom, Memory.load_of_le (readable_notification hlen)]
    simp only
    rw [hl]
    simp [← hb]
  simp only [sendNotification, hm, ok_bind, processCharCfg_notification, buildPacket_ok hload hmax]

/-- What is known of a notification that was sent. -/
theorem sendNotification_inv {d d' : Dev σ} {id : UInt8} {data : Source} {length : ℕ} {status : Status}
    (h : sendNotification gatt id data length d = .ok (d', status)) :
    ∃ m live, status = .success ∧ length ≤ maxPayloadLength ∧ length + 2 ≤ gatt.maxLen.toNat ∧
      live.length = length ∧ (∀ r, r ≠ .rpcProfileNotification → m r = d.memory r) ∧
      d' = { d with
        memory := m
        rpc := { d.rpc with notificationId := id, notificationLength := length }.notifying }.observe
          (.sent .rpcNotification (id :: UInt8.ofNat length :: live)) := by
  rw [sendNotification, bind_eq_ok] at h
  obtain ⟨m, hm, h⟩ := h
  obtain ⟨hsize, hf⟩ := fillPacket_inv hm
  rw [processCharCfg_notification, bind_eq_ok] at h
  obtain ⟨value, hv, h⟩ := h
  obtain ⟨live, hload, hmax, rfl⟩ := buildPacket_inv hv
  cases h
  have hle : length ≤ maxPayloadLength := by
    have hs : Region.size .rpcProfileNotification = maxPayloadLength + 2 := rfl
    omega
  exact ⟨m, live, rfl, hle, hmax, Memory.length_of_loadFrom hload, hf, rfl⟩

/-- A notification is sent iff there is its data, away from where it goes, and it fits. -/
theorem sendNotification_iff (gatt : GattServer σ) (id : UInt8) {data : Source} {length : ℕ} (d : Dev σ) :
    (∃ r, sendNotification gatt id data length d = .ok r) ↔
      data.Readable length ∧ ¬ data.Overlaps ⟨.rpcProfileNotification, 2⟩ length ∧
        length ≤ maxPayloadLength ∧ length + 2 ≤ gatt.maxLen.toNat := by
  have hr : Region.size .rpcProfileNotification = maxPacketLength := rfl
  constructor
  · rintro ⟨⟨d', status⟩, h⟩
    obtain ⟨_, _, _, hlen, hmax, _⟩ := sendNotification_inv h
    rw [sendNotification, bind_eq_ok] at h
    obtain ⟨m, hm, _⟩ := h
    obtain ⟨hread, hover, _⟩ := (fillPacket_iff d.memory hr id).mp ⟨m, hm⟩
    exact ⟨hread, hover, hlen, hmax⟩
  · rintro ⟨hread, hover, hlen, hmax⟩
    obtain ⟨m, hm⟩ := (fillPacket_iff d.memory hr id).mpr ⟨hread, hover, hlen⟩
    obtain ⟨value, hv⟩ := (buildPacket_iff m gatt.maxLen id).mpr ⟨readable_notification hlen, hmax⟩
    rw [sendNotification, hm, ok_bind, processCharCfg_notification, hv]
    exact ⟨_, rfl⟩

/-! ## Command writes -/

/-- A packet as `rpcProfile_command` holds it: padded with zeros. -/
def padded (packet : Bytes) : Bytes := packet ++ List.replicate (maxPacketLength - packet.length) 0

/-- The attribute of E001. -/
def commandAttr : Attribute := ⟨.uuid16 .rpcCommand, .value .rpcCommand⟩

/-- A command write went through: the packet is in its array, its header in `rpc`, and the worker is woken. -/
structure Stored (packet : Bytes) (d d' : Dev σ) : Prop where
  command : (d'.memory .rpcProfileCommand).toList = padded packet
  frame : ∀ r, r ≠ .rpcProfileCommand → d'.memory r = d.memory r
  rpc : d'.rpc = { d.rpc with
    commandId := (padded packet).getD 0 0
    commandLength := ((padded packet).getD 1 0).toNat
    command := some ⟨.rpcProfileCommand, 2⟩
    commandReceivedSem := d.rpc.commandReceivedSem + 1 }
  rcpCommandCount : d'.rcpCommandCount = d.rcpCommandCount + 1
  app : d'.app = d.app
  trace : d'.trace = d.trace

/-- Every packet that fits in the array is accepted, whatever its header says. -/
theorem writeCommand_ok (d : Dev σ) {packet : Bytes} (h : packet.length ≤ maxPacketLength) :
    ∃ d', writeCommand packet d = .ok d' ∧ Stored packet d d' := by
  obtain ⟨m, hm, hl, hf⟩ := Memory.store_of_le (d.memory.memset .rpcProfileCommand) ⟨.rpcProfileCommand, 0⟩ packet
    (by simpa [Region.size] using h)
  have hcmd : (m .rpcProfileCommand).toList = padded packet := by
    simp only at hl
    rw [hl, Memory.memset_self, Buffer.patch_replicate]
    rfl
  refine ⟨d.postCommand m, by rw [writeCommand, hm, ok_bind]; rfl, hcmd, ?_, ?_, rfl, rfl, rfl⟩
  · intro r hr
    exact (hf r hr).trans (Memory.memset_ne d.memory hr)
  · simp only [Dev.postCommand, Memory.cell, hcmd]

/-- A packet that was accepted fits in the array. -/
theorem writeCommand_inv {d d' : Dev σ} {packet : Bytes} (h : writeCommand packet d = .ok d') :
    packet.length ≤ maxPacketLength ∧ Stored packet d d' := by
  have hle : packet.length ≤ maxPacketLength := by
    by_contra hlt
    rw [writeCommand, Memory.store_error (by simp only [Region.size]; omega), error_bind] at h
    cases h
  obtain ⟨e, he, hs⟩ := writeCommand_ok d hle
  rw [he] at h
  cases h
  exact ⟨hle, hs⟩

theorem writeAttrCB_command (packet : Bytes) (offset : UInt16) (d : Dev σ) :
    writeAttrCB gatt commandAttr packet offset d = (writeCommand packet d >>= fun d' => .ok (d', .success)) := rfl

theorem getD_padded {packet : Bytes} {i : ℕ} (h : i < packet.length) : (padded packet).getD i 0 = packet.getD i 0 := by
  rw [padded, List.getD_eq_getElem?_getD, List.getElem?_append_left h, List.getD_eq_getElem?_getD]

/-- The bytes the callback may read are the ones after the header, when the header counts them. -/
theorem Stored.payload {packet : Bytes} {d d' : Dev σ} (h : Stored packet d d') :
    d'.payload = ((padded packet).drop 2).take ((padded packet).getD 1 0).toNat := by
  simp only [Dev.payload, h.rpc, h.command]

end BleRpc.Device
