import BleRpc.Device.Worker
import BleRpc.Lib.LastMatch
import BleRpc.Lib.Transition

/-!
# The characteristics beside the RPC

Characteristics 1, 2, 3 and 5 of the profile that the RPC characteristics were added to, with their parameter functions
`SimpleGattProfile_setParameter` and `SimpleGattProfile_getParameter`, while commands are written and run.

- `value_eq_lastAccepted`: in every run, each holds the bytes last accepted for it;
- `readsBack_iff`: only Characteristic 5 is read back. Reads of Characteristics 1 and 2 fall through, in the `switch` of
  the read callback, to the case of E002 and return the response.
-/

namespace BleRpc.Device

open Outcome Transition LastMatch

variable {σ : Type}

/-- The characteristics of the sample profile. -/
inductive Plain
  | char1
  | char2
  | char3
  | char5
  deriving DecidableEq

namespace Plain

def uuid : Plain → Uuid
  | .char1 => .char1
  | .char2 => .char2
  | .char3 => .char3
  | .char5 => .char5

/-- `sizeof(uint8)`, or `SIMPLEGATTPROFILE_CHAR5_LEN`. -/
def length : Plain → ℕ
  | .char5 => char5Len
  | _ => 1

/-- The attribute of its value. -/
def attr (c : Plain) : Attribute := ⟨.uuid16 c.uuid, .value c.uuid⟩

end Plain

/-- What a characteristic holds. -/
def Dev.value (d : Dev σ) : Plain → Bytes
  | .char1 => [d.char1]
  | .char2 => [d.char2]
  | .char3 => [d.char3]
  | .char5 => d.char5.toList

/-- `bytes` stored in a characteristic. -/
def Dev.setValue (d : Dev σ) : Plain → Bytes → Dev σ
  | .char1, bytes => { d with char1 := bytes.getD 0 0 }
  | .char2, bytes => { d with char2 := bytes.getD 0 0 }
  | .char3, bytes => { d with char3 := bytes.getD 0 0 }
  | .char5, bytes => { d with char5 := List.Vector.ofFn fun i => bytes.getD i 0 }

/-! ## The parameter functions -/

/-- The parameters the two functions know; `SIMPLEGATTPROFILE_CHAR4` and `CLIENT_SERVER_COMMAND` are among the others. -/
inductive Param
  | plain (c : Plain)
  | clientServerResponse
  | clientServerNotification
  | other (id : UInt8)
  deriving DecidableEq

/-- `bStatus_t`, as the two functions return it. -/
inductive ParamStatus
  | success
  | bleInvalidRange
  | invalidParameter
  deriving DecidableEq

/-- `SimpleGattProfile_setParameter`; its four cases differ in the variable and its size. -/
def setParameter (param : Param) (len : UInt8) (value : Source) (d : Dev σ) : Except Fault (Dev σ × ParamStatus) :=
  match param with
  | .plain c =>
    if len.toNat = c.length then do
      let bytes ← d.memory.loadFrom value c.length
      return (d.setValue c bytes, .success)
    else .ok (d, .bleInvalidRange)
  | _ => .ok (d, .invalidParameter)

/-- `SimpleGattProfile_getParameter`: status, and the bytes it puts at `value`. -/
def getParameter (param : Param) (d : Dev σ) : ParamStatus × Bytes :=
  match param with
  | .clientServerResponse => (.success, (d.memory .rpcProfileResponse).toList)
  | .clientServerNotification => (.success, (d.memory .rpcProfileNotification).toList)
  | .plain c => (.success, d.value c)
  | .other _ => (.invalidParameter, [])

/-- A store in one characteristic leaves the others alone. -/
theorem value_setValue (d : Dev σ) {c : Plain} {bytes : Bytes} (h : bytes.length = c.length) :
    (d.setValue c bytes).value = Function.update d.value c bytes := by
  funext c'
  by_cases hc : c' = c
  · subst hc
    rw [Function.update_self]
    cases c' with
    | char5 =>
      apply List.ext_getElem
      · simp [Dev.setValue, Dev.value, h, Plain.length]
      · intro i h₁ h₂
        simp [Dev.setValue, Dev.value, h₂]
    | _ =>
      obtain ⟨b, rfl⟩ := List.length_eq_one_iff.mp h
      rfl
  · rw [Function.update_of_ne hc]
    cases c <;> cases c' <;> first | rfl | exact absurd rfl hc

/-! ## What is accepted -/

/-- A parameter that is not accepted changes nothing; one that is goes to its characteristic. -/
theorem setParameter_inv {param : Param} {len : UInt8} {value : Source} {d d' : Dev σ} {status : ParamStatus}
    (h : setParameter param len value d = .ok (d', status)) :
    (status ≠ .success ∧ d' = d) ∨ ∃ c bytes, status = .success ∧ param = .plain c ∧ bytes.length = c.length ∧
      d.memory.loadFrom value len.toNat = .ok bytes ∧ d' = d.setValue c bytes := by
  cases param with
  | plain c =>
    rw [setParameter] at h
    split at h
    · rename_i hlen
      obtain ⟨bytes, hload, h⟩ := bind_eq_ok.mp h
      cases h
      exact .inr ⟨c, bytes, rfl, rfl, Memory.length_of_loadFrom hload, by rw [hlen, hload], rfl⟩
    · cases h
      exact .inl ⟨nofun, rfl⟩
  | clientServerResponse | clientServerNotification | other => cases h; exact .inl ⟨nofun, rfl⟩

/-- In the attribute table, an attribute of the type of Characteristic 1 or 3 has its value. -/
theorem pValue_of_mem : ∀ attr ∈ attrTbl, (attr.type = .uuid16 .char1 → attr.pValue = .value .char1) ∧
    (attr.type = .uuid16 .char3 → attr.pValue = .value .char3) := by
  decide

variable {gatt : GattServer σ}

/-- What an accepted write stores where: only Characteristics 1 and 3 are written so. -/
def acceptedWrite (attr : Attribute) (value : Bytes) : Status → List (Plain × Bytes)
  | .success =>
    match attr.type with
    | .uuid16 .char1 => [(.char1, value)]
    | .uuid16 .char3 => [(.char3, value)]
    | _ => []
  | _ => []

/-- What an accepted parameter stores where. -/
def acceptedParameter (param : Param) (bytes : Bytes) : ParamStatus → List (Plain × Bytes)
  | .success =>
    match param with
    | .plain c => [(c, bytes)]
    | _ => []
  | _ => []

/-- A write to Characteristic 1 or 3 is accepted iff it is one byte at offset 0. -/
theorem writeAttrCB_byte (gatt : GattServer σ) {attr : Attribute}
    (h : attr.type = .uuid16 .char1 ∨ attr.type = .uuid16 .char3) (value : Bytes) (offset : UInt16) (d : Dev σ) :
    (offset = 0 ∧ value.length = 1 ∧
      writeAttrCB gatt attr value offset d = .ok (d.setObject attr.pValue (value.getD 0 0), .success)) ∨
    ((offset ≠ 0 ∨ value.length ≠ 1) ∧
      ∃ status, status ≠ .success ∧ writeAttrCB gatt attr value offset d = .ok (d, status)) := by
  obtain ⟨type, obj⟩ := attr
  by_cases hoffset : offset = 0
  · by_cases hlen : value.length = 1
    · left
      refine ⟨hoffset, hlen, ?_⟩
      rcases h with rfl | rfl <;> simp [writeAttrCB, hoffset, hlen]
    · right
      refine ⟨.inr hlen, .attErrInvalidValueSize, nofun, ?_⟩
      rcases h with rfl | rfl <;> simp [writeAttrCB, hoffset, hlen]
  · right
    refine ⟨.inl hoffset, .attErrAttrNotLong, nofun, ?_⟩
    rcases h with rfl | rfl <;> simp [writeAttrCB, hoffset]

/-- Any other write touches no characteristic, and nothing at all if it is rejected. -/
theorem writeAttrCB_other {attr : Attribute} (h : ¬ (attr.type = .uuid16 .char1 ∨ attr.type = .uuid16 .char3))
    {value : Bytes} {offset : UInt16} {d d' : Dev σ} {status : Status}
    (hw : writeAttrCB gatt attr value offset d = .ok (d', status)) :
    d'.value = d.value ∧ (status ≠ .success → d' = d) ∧ acceptedWrite attr value status = [] := by
  obtain ⟨type, obj⟩ := attr
  have hnone : acceptedWrite ⟨type, obj⟩ value status = [] := by
    unfold acceptedWrite
    split
    · split
      · exact absurd (.inl (by assumption)) h
      · exact absurd (.inr (by assumption)) h
      · rfl
    · rfl
  rw [not_or] at h
  match type, h with
  | .uuid16 .rpcCommand, _ =>
    obtain ⟨e, he, hw⟩ := bind_eq_ok.mp hw
    cases hw
    obtain ⟨m, _, he⟩ := bind_eq_ok.mp he
    cases he
    exact ⟨rfl, fun hs => absurd rfl hs, hnone⟩
  | .uuid16 .char1, h => exact absurd rfl h.1
  | .uuid16 .char3, h => exact absurd rfl h.2
  | .uuid16 .primaryService, _ | .uuid16 .character, _ | .uuid16 .charUserDesc, _ | .uuid16 .clientCharCfg, _
  | .uuid16 .char2, _ | .uuid16 .char5, _ | .uuid16 .rpcResponse, _ | .uuid16 .rpcNotification, _ | .uuid128, _ =>
    cases hw
    exact ⟨rfl, fun _ => rfl, hnone⟩

/-- A write that is not accepted changes nothing. -/
theorem writeAttrCB_rejected {attr : Attribute} {value : Bytes} {offset : UInt16} {d d' : Dev σ} {status : Status}
    (hw : writeAttrCB gatt attr value offset d = .ok (d', status)) (hs : status ≠ .success) : d' = d := by
  by_cases h : attr.type = .uuid16 .char1 ∨ attr.type = .uuid16 .char3
  · rcases writeAttrCB_byte gatt h value offset d with ⟨_, _, hok⟩ | ⟨_, status', _, hrej⟩
    · rw [hok] at hw
      cases hw
      exact absurd rfl hs
    · rw [hrej] at hw
      cases hw
      rfl
  · exact (writeAttrCB_other h hw).2.1 hs

/-- A write to an attribute of the table stores a byte in its characteristic, or touches no characteristic. -/
theorem writeAttrCB_inv {attr : Attribute} (hattr : attr ∈ attrTbl) {value : Bytes} {offset : UInt16} {d d' : Dev σ}
    {status : Status} (hw : writeAttrCB gatt attr value offset d = .ok (d', status)) :
    (d'.value = d.value ∧ acceptedWrite attr value status = []) ∨
      ∃ c, value.length = c.length ∧ d' = d.setValue c value ∧ acceptedWrite attr value status = [(c, value)] := by
  obtain ⟨hp₁, hp₃⟩ := pValue_of_mem attr hattr
  by_cases h : attr.type = .uuid16 .char1 ∨ attr.type = .uuid16 .char3
  · rcases writeAttrCB_byte gatt h value offset d with ⟨_, hlen, hok⟩ | ⟨_, status', hne, hrej⟩
    · rw [hok] at hw
      cases hw
      right
      rcases h with ht | ht
      · exact ⟨.char1, hlen, by rw [hp₁ ht]; rfl, by rw [acceptedWrite, ht]⟩
      · exact ⟨.char3, hlen, by rw [hp₃ ht]; rfl, by rw [acceptedWrite, ht]⟩
    · rw [hrej] at hw
      cases hw
      left
      refine ⟨rfl, ?_⟩
      cases status with
      | success => exact absurd rfl hne
      | _ => rfl
  · obtain ⟨hvalue, _, hnone⟩ := writeAttrCB_other h hw
    exact .inl ⟨hvalue, hnone⟩

/-- The bytes last accepted for a characteristic; before the first, zeros. -/
def lastAccepted (accepted : List (Plain × Bytes)) (c : Plain) : Bytes :=
  ((accepted.findRev? (·.1 = c)).map Prod.snd).getD (List.replicate c.length 0)

theorem lastAccepted_concat (accepted : List (Plain × Bytes)) (c : Plain) (bytes : Bytes) :
    lastAccepted (accepted ++ [(c, bytes)]) = Function.update (lastAccepted accepted) c bytes := by
  funext c'
  rw [lastAccepted, findRev?_concat]
  by_cases h : c' = c
  · subst h
    simp
  · rw [Function.update_of_ne h, if_neg (by simpa using Ne.symm h)]
    rfl

/-! ## The system -/

/-- The worker, and what was accepted for the characteristics so far. -/
structure Profile (σ : Type) where
  worker : Worker σ
  accepted : List (Plain × Bytes)

namespace Profile

inductive Event
  /-- A client's write to an attribute of the table: a command, a characteristic, or another. -/
  | write (attr : { a : Attribute // a ∈ attrTbl }) (value : Bytes) (offset : UInt16)
  /-- A client's read. -/
  | read (attr : { a : Attribute // a ∈ attrTbl }) (offset maxLen : UInt16)
  /-- A call of `SimpleGattProfile_setParameter`. -/
  | setParameter (param : Param) (len : UInt8) (value : Source)
  /-- A call of `RPC_sendNotification` outside the callbacks. -/
  | notify (id : UInt8) (data : Source) (length : ℕ)
  /-- A step of the worker. -/
  | work

def dev (s : Profile σ) : Dev σ := s.worker.dev

def init (app : σ) : Profile σ := ⟨⟨.waiting, reset app⟩, []⟩

/-- The device after something that is not a step of the worker. -/
def withDev (s : Profile σ) (d : Dev σ) : Profile σ := { s with worker := ⟨s.worker.pc, d⟩ }

def step (gatt : GattServer σ) (table : List (Entry (Handler σ))) (s : Profile σ) : Event → Option (Profile σ)
  | .write attr value offset =>
    match writeAttrCB gatt attr value offset s.dev with
    | .ok (d, status) => some { s.withDev d with accepted := s.accepted ++ acceptedWrite attr value status }
    | .error _ => none
  | .read attr offset maxLen =>
    match readAttrCB attr offset maxLen s.dev with
    | .ok (d, _) => some (s.withDev d)
    | .error _ => none
  | .setParameter param len value =>
    match setParameter param len value s.dev with
    | .ok (d, status) =>
      let bytes := (s.dev.memory.loadFrom value len.toNat).toOption.getD []
      some { s.withDev d with accepted := s.accepted ++ acceptedParameter param bytes status }
    | .error _ => none
  | .notify id data length =>
    match sendNotification gatt id data length s.dev with
    | .ok (d, _) => some (s.withDev d)
    | .error _ => none
  | .work => (s.worker.step gatt table).map fun w => { s with worker := w }

variable {table : List (Entry (Handler σ))}

/-! ## What an event does to the characteristics -/

/-- The event leaves the characteristics alone, or stores what it was accepted with in one of them. -/
def Accepting (s s' : Profile σ) : Prop :=
  (s'.dev.value = s.dev.value ∧ s'.accepted = s.accepted) ∨
    ∃ c bytes, bytes.length = c.length ∧ s'.dev = s.dev.setValue c bytes ∧ s'.accepted = s.accepted ++ [(c, bytes)]

theorem value_sendNotification {d d' : Dev σ} {id : UInt8} {data : Source} {length : ℕ} {status : Status}
    (h : sendNotification gatt id data length d = .ok (d', status)) : d'.value = d.value := by
  obtain ⟨m, live, _, _, _, _, _, rfl⟩ := sendNotification_inv h
  rfl

theorem value_act {p p' : Prog σ} {d d' : Dev σ} (h : p.act gatt d = .ok (p', d')) : d'.value = d.value := by
  cases Prog.act_eq_ok.mp h with
  | ret | look | load | setResponseLength | modify => rfl
  | storeResponse hstore =>
    obtain ⟨a, m, _, _, rfl⟩ := storeResponse_inv hstore
    rfl
  | notify hsend => exact value_sendNotification hsend

/-- Running commands does not touch the characteristics. -/
theorem value_worked {w w' : Worker σ} (h : Worker.Worked gatt table w w') : w'.dev.value = w.dev.value := by
  cases h with
  | wait | finish | skip | hit | label | call => rfl
  | act _ hact => exact value_act hact
  | send hsend =>
    obtain ⟨m, live, _, _, _, _, _, rfl⟩ := sendResponse_frame hsend
    rfl

/-- Nor does reading. -/
theorem value_readAttrCB {attr : Attribute} {offset maxLen : UInt16} {d d' : Dev σ} {status : Status} {value : Bytes}
    (h : readAttrCB attr offset maxLen d = .ok (d', status, value)) : d'.value = d.value := by
  unfold readAttrCB at h
  split at h
  · cases h; rfl
  · split at h
    · obtain ⟨v, _, h⟩ := bind_eq_ok.mp h; cases h; rfl
    · obtain ⟨v, _, h⟩ := bind_eq_ok.mp h; cases h; rfl
    · obtain ⟨v, _, h⟩ := bind_eq_ok.mp h; cases h; rfl
    · obtain ⟨v, _, h⟩ := bind_eq_ok.mp h; cases h; rfl
    · obtain ⟨bytes, _, h⟩ := bind_eq_ok.mp h
      obtain ⟨v, _, h⟩ := bind_eq_ok.mp h
      cases h
      rfl
    · cases h; rfl
    · cases h; rfl

/-- **A step accepts at most one value, and stores it.** -/
theorem step_accepting {s s' : Profile σ} {e : Event} (h : s.step gatt table e = some s') : Accepting s s' := by
  cases e with
  | write attr value offset =>
    rw [step] at h
    split at h
    · rename_i d status hw
      cases h
      rcases writeAttrCB_inv attr.2 hw with ⟨hvalue, hnone⟩ | ⟨c, hlen, rfl, hsome⟩
      · exact .inl ⟨hvalue, by simp [hnone]⟩
      · exact .inr ⟨c, value, hlen, rfl, by rw [hsome]⟩
    · cases h
  | read attr offset maxLen =>
    rw [step] at h
    split at h
    · rename_i d r hr
      obtain ⟨status, value⟩ := r
      cases h
      exact .inl ⟨value_readAttrCB hr, rfl⟩
    · cases h
  | setParameter param len value =>
    rw [step] at h
    split at h
    · rename_i d status hset
      cases h
      rcases setParameter_inv hset with ⟨hne, rfl⟩ | ⟨c, bytes, rfl, rfl, hlen, hload, rfl⟩
      · left
        refine ⟨rfl, ?_⟩
        cases status with
        | success => exact absurd rfl hne
        | _ => exact List.append_nil _
      · right
        refine ⟨c, bytes, hlen, rfl, ?_⟩
        simp only [hload]
        rfl
    · cases h
  | notify id data length =>
    rw [step] at h
    split at h
    · rename_i d status hn
      cases h
      exact .inl ⟨value_sendNotification hn, rfl⟩
    · cases h
  | work =>
    obtain ⟨w, hw, rfl⟩ := Option.map_eq_some_iff.mp h
    exact .inl ⟨value_worked (Worker.step_worked hw), rfl⟩

/-- **In every run, each characteristic holds the bytes last accepted for it.** -/
theorem value_eq_lastAccepted {app : σ} {events : List Event} {s : Profile σ}
    (h : run (step gatt table) (init app) events = some s) : s.dev.value = lastAccepted s.accepted := by
  refine run_inv (I := fun s => s.dev.value = lastAccepted s.accepted) ?_ ?_ h
  · intro s e s' hi hs
    rcases step_accepting hs with ⟨hvalue, haccepted⟩ | ⟨c, bytes, hlen, hdev, haccepted⟩
    · rw [hvalue, haccepted, hi]
    · rw [hdev, haccepted, value_setValue _ hlen, lastAccepted_concat, hi]
  · funext c
    cases c <;> rfl

/-! ## Reading back -/

/-- A read of the characteristic, with room for it, returns the bytes last accepted. -/
def ReadsBack (s : Profile σ) (c : Plain) : Prop :=
  ∀ maxLen : UInt16, c.length ≤ maxLen.toNat →
    readAttrCB c.attr 0 maxLen s.dev = .ok (s.dev, .success, lastAccepted s.accepted c)

/-- What is stored: `getParameter` returns what was last accepted, and what is rejected changes nothing. -/
structure Holds (gatt : GattServer σ) (s : Profile σ) : Prop where
  get : ∀ c, getParameter (.plain c) s.dev = (.success, lastAccepted s.accepted c)
  write : ∀ attr value offset d status, writeAttrCB gatt attr value offset s.dev = .ok (d, status) →
    status ≠ .success → d = s.dev
  writeRejected : ∀ attr value offset, attr.type = .uuid16 .char1 ∨ attr.type = .uuid16 .char3 →
    offset ≠ 0 ∨ value.length ≠ 1 →
      ∃ status, status ≠ .success ∧ writeAttrCB gatt attr value offset s.dev = .ok (s.dev, status)
  set : ∀ param len value d status, setParameter param len value s.dev = .ok (d, status) →
    status ≠ .success → d = s.dev
  setRejected : ∀ c len value, len.toNat ≠ c.length →
    setParameter (.plain c) len value s.dev = .ok (s.dev, .bleInvalidRange)

/-- The characteristics are as if the RPC were not there. -/
structure Kept (gatt : GattServer σ) (s : Profile σ) : Prop extends Holds gatt s where
  read : ∀ c, c = .char1 ∨ c = .char2 → ReadsBack s c
  independent : ∀ c : Plain, c = .char1 ∨ c = .char2 → ∀ maxLen response responseId responseLength,
    (readAttrCB c.attr 0 maxLen { s.dev with rpc := { s.dev.rpc with
      response := response, responseId := responseId, responseLength := responseLength } }).map Prod.snd =
    (readAttrCB c.attr 0 maxLen s.dev).map Prod.snd

theorem holds_of_value {s : Profile σ} (h : s.dev.value = lastAccepted s.accepted) : Holds gatt s where
  get c := congrArg (ParamStatus.success, ·) (congrFun h c)
  write attr value offset d status hw hs := writeAttrCB_rejected hw hs
  writeRejected attr value offset ht hbad := by
    rcases writeAttrCB_byte gatt ht value offset s.dev with ⟨hoffset, hlen, _⟩ | ⟨_, hrej⟩
    · exact absurd hbad (not_or.mpr ⟨not_not.mpr hoffset, not_not.mpr hlen⟩)
    · exact hrej
  set param len value d status hset hs := by
    rcases setParameter_inv hset with ⟨_, hd⟩ | ⟨c, bytes, hsuccess, _⟩
    · exact hd
    · exact absurd hsuccess hs
  setRejected c len value hlen := if_neg hlen

/-- **A read of Characteristic 1 or 2 returns the response.** -/
theorem read_response {c : Plain} (hc : c = .char1 ∨ c = .char2) {maxLen : UInt16} {d d' : Dev σ} {status : Status}
    {value : Bytes} (h : readAttrCB c.attr 0 maxLen d = .ok (d', status, value)) :
    ∃ bytes, d.memory.loadFrom (.ptr d.rpc.response) d.rpc.responseLength = .ok bytes ∧
      value = d.rpc.responseId :: UInt8.ofNat d.rpc.responseLength :: bytes := by
  have hread : readAttrCB c.attr 0 maxLen d =
      (buildPacket d.memory maxLen d.rpc.responseId d.rpc.responseLength d.rpc.response >>= fun value =>
        .ok (d, .success, value)) := by
    rcases hc with rfl | rfl <;> rfl
  rw [hread, bind_eq_ok] at h
  obtain ⟨packet, hpacket, h⟩ := h
  cases h
  obtain ⟨bytes, hload, _, hvalue⟩ := buildPacket_inv hpacket
  exact ⟨bytes, hload, hvalue⟩

/-- Characteristic 5 has a case of its own. -/
theorem readAttrCB_char5 {maxLen : UInt16} (h : char5Len ≤ maxLen.toNat) (d : Dev σ) :
    readAttrCB Plain.char5.attr 0 maxLen d = .ok (d, .success, d.value .char5) := by
  have hlen : d.char5.toList.length = char5Len := d.char5.toList_length
  obtain ⟨v, hv, hl⟩ := storeValue_of_le (List.Vector.replicate maxLen.toNat 0) 0 d.char5.toList (by omega)
  have hload : d.memory.loadFrom (.own (d.object (.value .char5))) char5Len = .ok d.char5.toList := by
    rw [Memory.loadFrom, Dev.object, if_pos (by omega), List.take_of_length_le (by omega)]
  have hread : readAttrCB Plain.char5.attr 0 maxLen d =
      (d.memory.loadFrom (.own (d.object (.value .char5))) char5Len >>= fun bytes =>
        storeValue (List.Vector.replicate maxLen.toNat 0) 0 bytes >>= fun pValue =>
          .ok (d, .success, pValue.toList.take char5Len)) := rfl
  rw [hread, hload, ok_bind, hv, ok_bind, hl, Buffer.toList_replicate, Buffer.patch_replicate,
    List.take_left' hlen]
  rfl

/-- **Only Characteristic 5 is read back.** -/
theorem readsBack_iff {s : Profile σ} (h : s.dev.value = lastAccepted s.accepted) (c : Plain) :
    ReadsBack s c ↔ c = .char5 := by
  constructor
  · intro hread
    have hroom : c.length ≤ (251 : UInt16).toNat := by cases c <;> decide
    have hvalue := hread 251 hroom
    rw [← h] at hvalue
    cases c with
    | char1 =>
      obtain ⟨bytes, _, heq⟩ := read_response (.inl rfl) hvalue
      exact absurd (congrArg List.length heq) (by simp [Dev.value])
    | char2 =>
      obtain ⟨bytes, _, heq⟩ := read_response (.inr rfl) hvalue
      exact absurd (congrArg List.length heq) (by simp [Dev.value])
    | char3 => cases hvalue
    | char5 => rfl
  · rintro rfl maxLen hroom
    rw [readAttrCB_char5 hroom, h]

/-- **The characteristics are never as if the RPC were not there.** In every run they hold what was last accepted, but
only Characteristic 5 is read back: a read of Characteristic 1 or 2 returns the response. -/
theorem never_kept (gatt : GattServer σ) (table : List (Entry (Handler σ))) (app : σ) (events : List Event)
    (s : Profile σ) (h : run (step gatt table) (init app) events = some s) :
    ¬ Kept gatt s ∧ Holds gatt s ∧ (∀ c, ReadsBack s c ↔ c = .char5) ∧
      ∀ c : Plain, c = .char1 ∨ c = .char2 → ∀ maxLen d status value,
        readAttrCB c.attr 0 maxLen s.dev = .ok (d, status, value) →
          ∃ bytes, s.dev.memory.loadFrom (.ptr s.dev.rpc.response) s.dev.rpc.responseLength = .ok bytes ∧
            value = s.dev.rpc.responseId :: UInt8.ofNat s.dev.rpc.responseLength :: bytes := by
  have hvalue := value_eq_lastAccepted h
  refine ⟨?_, holds_of_value hvalue, readsBack_iff hvalue, fun c hc maxLen d status value => read_response hc⟩
  intro hkept
  have hchar1 : Plain.char1 = .char5 := (readsBack_iff hvalue .char1).mp (hkept.read .char1 (.inl rfl))
  cases hchar1

/-- One entry, whose callback answers with the byte 7. -/
def answersSeven : List (Entry (Handler Unit)) :=
  [⟨5, some fun _ _ _ => .storeResponse 0 7 (.setResponseLength 1 .ret)⟩, ⟨0, none⟩]

/-- Characteristic 1 is written, then command 5 is run. -/
def writeThenRun : List Event :=
  .write ⟨Plain.attr .char1, by decide⟩ [66] 0 :: .write ⟨commandAttr, by decide⟩ [5, 0] 0 :: List.replicate 8 .work

/-- A run with a command in it. -/
theorem never_kept_run : ∃ s, run (step (.plain 251) answersSeven) (init ()) writeThenRun = some s ∧
    ¬ Kept (.plain 251) s ∧ Holds (.plain 251) s :=
  have h := never_kept (.plain 251) answersSeven () writeThenRun _ rfl
  ⟨_, rfl, h.1, h.2.1⟩

/-- The byte 66 was accepted, and the read returns the response to command 5. -/
theorem char1_reads_response : ∃ s, run (step (.plain 251) answersSeven) (init ()) writeThenRun = some s ∧
    lastAccepted s.accepted .char1 = [66] ∧ getParameter (.plain .char1) s.dev = (.success, [66]) ∧
    (readAttrCB Plain.char1.attr 0 251 s.dev).map Prod.snd = .ok (.success, [5, 1, 7]) ∧ ¬ Kept (.plain 251) s := by
  refine ⟨_, rfl, by decide, by decide, rfl, ?_⟩
  intro hkept
  have hread := congrArg (Except.map Prod.snd) (hkept.read .char1 (.inl rfl) 251 (by decide))
  cases hread

end Profile

end BleRpc.Device
