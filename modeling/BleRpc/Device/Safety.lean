import BleRpc.Device.Characteristics
import BleRpc.Device.Firmware
import BleRpc.Device.Snapshot

/-!
# Which steps end in undefined behaviour

The whole profile, with writes and reads of any attribute, parameter calls and notifications between any two steps of
the worker. `Prog.Bounded` is what a callback has to keep to by itself, whatever the others do meanwhile. A notification
whose data lies where it is copied to faults, as one that is too long does: `memcpy` must not be used on overlapping
cells.

- `bounded_act`: a bounded callback takes its next action in every device that is `InBounds`, and leaves it so;
- `Effect`: all an event can do, one constructor per kind (`step_effect`);
- `faults_iff`: in every run, `Allowed` says which events go through. The worker never faults; a command write does when
  it is longer than the array, a read when its reader has too little room, a notification when its data cannot be read,
  does not fit or is copied onto itself.
-/

namespace BleRpc.Device

open Outcome Transition

variable {σ : Type} {gatt : GattServer σ}

/-! ## The device in bounds -/

/-- The response buffer is installed, and both packets fit. -/
structure InBounds (gatt : GattServer σ) (d : Dev σ) : Prop where
  installed : d.Installed
  response : Fits gatt d.rpc.responseLength
  notification : Fits gatt d.rpc.notificationLength

/-- A response that fits can be read from the buffer. -/
theorem InBounds.readable {d : Dev σ} (h : InBounds gatt d) :
    (Source.ptr d.rpc.response).Readable d.rpc.responseLength := by
  have hlen := h.response.1
  have hinst := h.installed
  unfold Dev.Installed at hinst
  have hmax : maxPayloadLength ≤ 256 := by decide
  rw [hinst]
  simp only [Source.Readable, Region.size]
  omega

/-- The response is sent. -/
theorem InBounds.sends {d : Dev σ} (h : InBounds gatt d) (id : UInt8) :
    ∃ d', sendResponse gatt id d.rpc.response d.rpc.responseLength d = .ok (d', .success) := by
  obtain ⟨bytes, hload⟩ := loadFrom_iff (m := d.memory).mpr h.readable
  have hout := outside_of_responseBuffer h.installed
  obtain ⟨m, hsend, _⟩ := sendResponse_ok gatt id hload hout h.response.1 hload hout h.response.2
  exact ⟨_, hsend⟩

theorem inBounds_sendNotification {d d' : Dev σ} {id : UInt8} {data : Source} {length : ℕ} {status : Status}
    (hd : InBounds gatt d) (h : sendNotification gatt id data length d = .ok (d', status)) : InBounds gatt d' := by
  obtain ⟨m, live, _, hlen, hmax, _, _, rfl⟩ := sendNotification_inv h
  exact ⟨hd.installed, hd.response, hlen, hmax⟩

/-! ## Callbacks -/

/-- A callback that, whatever it finds in a device in bounds, keeps within the arrays and leaves it in bounds. -/
inductive Prog.Bounded (gatt : GattServer σ) : Prog σ → Prop
  | ret : Bounded gatt .ret
  | look {k : Dev σ → Prog σ} (h : ∀ d, InBounds gatt d → Bounded gatt (k d)) : Bounded gatt (.look k)
  | load {p : Option Ptr} {length : ℕ} {k : Bytes → Prog σ} (hp : (Source.ptr p).Readable length)
    (h : ∀ bytes, bytes.length = length → Bounded gatt (k bytes)) : Bounded gatt (.load p length k)
  | storeResponse {i : ℕ} {b : UInt8} {next : Prog σ} (hi : i < Region.size .rcpResponseBuffer)
    (h : Bounded gatt next) : Bounded gatt (.storeResponse i b next)
  | setResponseLength {n : ℕ} {next : Prog σ} (hn : Fits gatt n) (h : Bounded gatt next) :
    Bounded gatt (.setResponseLength n next)
  | modify {f : σ → σ} {next : Prog σ} (h : Bounded gatt next) : Bounded gatt (.modify f next)
  | notify {id : UInt8} {data : Source} {length : ℕ} {next : Prog σ} (hdata : data.Readable length)
    (hover : ¬ data.Overlaps ⟨.rpcProfileNotification, 2⟩ length) (hlen : Fits gatt length) (h : Bounded gatt next) :
    Bounded gatt (.notify id data length next)

/-- The callback is bounded for every command it may be called with, whatever the header byte says. -/
def Handler.Bounded (gatt : GattServer σ) (h : Handler σ) : Prop :=
  ∀ id length, length < 256 → (h id (some ⟨.rpcProfileCommand, 2⟩) length).Bounded gatt

/-- **A bounded callback goes on**: its next action does not fault, and leaves the device in bounds. -/
theorem bounded_act {p : Prog σ} {d : Dev σ} (hp : p.Bounded gatt) (hd : InBounds gatt d) :
    ∃ p' d', p.act gatt d = .ok (p', d') ∧ p'.Bounded gatt ∧ InBounds gatt d' := by
  cases hp with
  | ret => exact ⟨_, _, rfl, .ret, hd⟩
  | look h => exact ⟨_, _, rfl, h d hd, hd⟩
  | load hread h =>
    obtain ⟨bytes, hload⟩ := loadFrom_iff (m := d.memory).mpr hread
    exact ⟨_, _, Prog.act_eq_ok.mpr (.load hload), h bytes (Memory.length_of_loadFrom hload), hd⟩
  | @storeResponse i b next hi h =>
    obtain ⟨m, hstore, _⟩ := storeResponse_ok hd.installed hi b
    exact ⟨_, _, Prog.act_eq_ok.mpr (.storeResponse hstore), h, hd.installed, hd.response, hd.notification⟩
  | setResponseLength hn h => exact ⟨_, _, rfl, h, hd.installed, hn, hd.notification⟩
  | modify h => exact ⟨_, _, rfl, h, hd.installed, hd.response, hd.notification⟩
  | @notify id data length next hdata hover hlen h =>
    obtain ⟨⟨d', status⟩, hsend⟩ := (sendNotification_iff gatt id d).mpr ⟨hdata, hover, hlen⟩
    exact ⟨_, _, Prog.act_eq_ok.mpr (.notify hsend), h, inBounds_sendNotification hd hsend⟩

/-- A table that ends, and whose callbacks are bounded. -/
structure BoundedTable (gatt : GattServer σ) (table : List (Entry (Handler σ))) : Prop where
  ended : ∃ e ∈ table, e.callback = none
  bounded : ∀ e ∈ table, ∀ h, e.callback = some h → h.Bounded gatt

theorem BoundedTable.tail {id : UInt8} {h : Handler σ} {rest : List (Entry (Handler σ))}
    (ht : BoundedTable gatt (⟨id, some h⟩ :: rest)) : BoundedTable gatt rest :=
  ⟨ended_tail rfl ht.ended, fun e he => ht.bounded e (List.mem_cons_of_mem _ he)⟩

namespace Worker

variable {table : List (Entry (Handler σ))}

/-! ## The worker -/

/-- What the worker still has to do is bounded. -/
inductive BoundedPc (gatt : GattServer σ) : Pc σ → Prop
  | waiting : BoundedPc gatt .waiting
  | scanning {rest : List (Entry (Handler σ))} (hr : BoundedTable gatt rest) : BoundedPc gatt (.scanning rest)
  | matched {h : Handler σ} {rest : List (Entry (Handler σ))} (hh : h.Bounded gatt) (hr : BoundedTable gatt rest) :
    BoundedPc gatt (.matched h rest)
  | labelled {h : Handler σ} {rest : List (Entry (Handler σ))} (hh : h.Bounded gatt) (hr : BoundedTable gatt rest) :
    BoundedPc gatt (.labelled h rest)
  | running {p : Prog σ} {rest : List (Entry (Handler σ))} (hp : p.Bounded gatt) (hr : BoundedTable gatt rest) :
    BoundedPc gatt (.running p rest)

/-- Device and worker in bounds; a worker that has taken a command, or can take one, has the address of its payload. -/
structure Safe (gatt : GattServer σ) (w : Worker σ) : Prop where
  dev : InBounds gatt w.dev
  command : w.dev.rpc.command = some ⟨.rpcProfileCommand, 2⟩ ∨ w.Blocked
  length : w.dev.rpc.commandLength < 256
  pc : BoundedPc gatt w.pc

theorem safe_init (hmax : 2 ≤ gatt.maxLen.toNat) (app : σ) : Safe gatt ⟨.waiting, reset app⟩ :=
  ⟨⟨rfl, ⟨Nat.zero_le _, hmax⟩, ⟨Nat.zero_le _, hmax⟩⟩, .inr ⟨rfl, rfl⟩, Nat.zero_lt_succ _, .waiting⟩

theorem Safe.address {pc : Pc σ} {d : Dev σ} (h : Safe gatt ⟨pc, d⟩) (hpc : pc ≠ .waiting) :
    d.rpc.command = some ⟨.rpcProfileCommand, 2⟩ := h.command.resolve_right fun hb => hpc hb.1

/-- What leaves `rpc` alone. -/
theorem Safe.of_rpc {w : Worker σ} {d : Dev σ} (h : Safe gatt w) (hrpc : d.rpc = w.dev.rpc) : Safe gatt ⟨w.pc, d⟩ := by
  obtain ⟨⟨hinst, hresp, hnot⟩, hcmd, hlen, hpc⟩ := h
  unfold Dev.Installed at hinst
  unfold Blocked at hcmd
  rw [← hrpc] at hinst hresp hnot hcmd hlen
  exact ⟨⟨hinst, hresp, hnot⟩, hcmd, hlen, hpc⟩

/-- What leaves the command alone and the packets in their bounds. -/
theorem Safe.withDev {w : Worker σ} {d : Dev σ} (h : Safe gatt w) (hd : InBounds gatt d)
    (hcmd : d.rpc.command = w.dev.rpc.command) (hsem : d.rpc.commandReceivedSem = w.dev.rpc.commandReceivedSem)
    (hlen : d.rpc.commandLength = w.dev.rpc.commandLength) : Safe gatt ⟨w.pc, d⟩ := by
  refine ⟨hd, ?_, by rw [hlen]; exact h.length, h.pc⟩
  rcases h.command with hc | hb
  · exact .inl (hcmd.trans hc)
  · exact .inr ⟨hb.1, hsem.trans hb.2⟩

/-- **The worker goes on** unless it waits and there is nothing to take. -/
theorem step_iff (table : List (Entry (Handler σ))) {w : Worker σ} (h : Safe gatt w) :
    (∃ w', w.step gatt table = some w') ↔ ¬ w.Blocked := by
  obtain ⟨pc, d⟩ := w
  constructor
  · rintro ⟨w, hw⟩ ⟨hpc, hsem⟩
    have hpc : pc = .waiting := hpc
    subst hpc
    obtain ⟨e, he, _⟩ := Option.map_eq_some_iff.mp hw
    have := (waitForCommand_inv he).1
    omega
  · intro hgo
    cases h.pc with
    | waiting =>
      cases hsem : d.rpc.commandReceivedSem with
      | zero => exact absurd ⟨rfl, hsem⟩ hgo
      | succ n => exact ⟨_, by simp only [step, waitForCommand, hsem]; rfl⟩
    | scanning hr => exact LockStep.step_scanning hr.ended
    | matched | labelled => exact ⟨_, rfl⟩
    | @running p rest hp hr =>
      by_cases hret : p = .ret
      · subst hret
        obtain ⟨d', hsend⟩ := h.dev.sends d.rpc.commandId
        exact ⟨_, by simp only [step, hsend]; rfl⟩
      · obtain ⟨p', d', hact, _⟩ := bounded_act hp h.dev
        exact ⟨_, step_of_act hret hact⟩

/-- **A step of the worker keeps the device in bounds.** -/
theorem safe_step (ht : BoundedTable gatt table) {w w' : Worker σ} (h : Safe gatt w) (hw : Worked gatt table w w') :
    Safe gatt w' := by
  have hdev := h.dev
  have hpc := h.pc
  cases hw with
  | @wait d n hsem =>
    refine ⟨⟨hdev.installed, hdev.response, hdev.notification⟩, .inl ?_, h.length, .scanning ht⟩
    refine h.command.resolve_right fun hb => ?_
    have hzero : d.rpc.commandReceivedSem = 0 := hb.2
    omega
  | finish =>
    exact ⟨⟨hdev.installed, hdev.response, hdev.notification⟩, .inl (h.address nofun), h.length, .waiting⟩
  | skip =>
    cases hpc with
    | scanning hr => exact ⟨hdev, .inl (h.address nofun), h.length, .scanning hr.tail⟩
  | hit =>
    cases hpc with
    | scanning hr =>
      exact ⟨hdev, .inl (h.address nofun), h.length, .matched (hr.bounded _ List.mem_cons_self _ rfl) hr.tail⟩
  | label =>
    cases hpc with
    | matched hh hr =>
      exact ⟨⟨hdev.installed, hdev.response, hdev.notification⟩, .inl (h.address nofun), h.length, .labelled hh hr⟩
  | @call d h' rest =>
    cases hpc with
    | labelled hh hr =>
      have hcmd := h.address nofun
      refine ⟨⟨hdev.installed, hdev.response, hdev.notification⟩, .inl hcmd, h.length, .running ?_ hr⟩
      rw [hcmd]
      exact hh _ _ h.length
  | @act d d' p p' rest hp hact =>
    cases hpc with
    | running hb hr =>
      obtain ⟨q, e, hact', hb', hdev'⟩ := bounded_act hb hdev
      rw [hact] at hact'
      cases hact'
      have hu := undisturbed_act hdev.installed hact
      exact ⟨hdev', .inl (hu.command.trans (h.address nofun)), hu.commandLength ▸ h.length, .running hb' hr⟩
  | send hsend =>
    cases hpc with
    | running hb hr =>
      obtain ⟨m, live, _, _, _, _, _, rfl⟩ := sendResponse_frame hsend
      exact ⟨⟨hdev.installed, hdev.response, hdev.notification⟩, .inl (h.address nofun), h.length, .scanning hr⟩

end Worker

namespace Profile

variable {table : List (Entry (Handler σ))}

/-! ## Events -/

/-- The bytes the read callback stores at `pValue`. -/
def valueLength (d : Dev σ) (attr : Attribute) : ℕ :=
  match attr.type with
  | .uuid16 .char1 | .uuid16 .char2 | .uuid16 .rpcResponse => d.rpc.responseLength + 2
  | .uuid16 .rpcNotification => d.rpc.notificationLength + 2
  | .uuid16 .char5 => char5Len
  | _ => 0

/-- The event stays within the arrays, or, for a step of the worker, does not block. -/
def Allowed (gatt : GattServer σ) (s : Profile σ) : Event → Prop
  | .write attr value _ => attr.1.type = .uuid16 .rpcCommand → value.length ≤ maxPacketLength
  | .read attr offset maxLen => offset = 0 → valueLength s.dev attr.1 ≤ maxLen.toNat
  | .setParameter param len value => ∀ c, param = .plain c → len.toNat = c.length → value.Readable len.toNat
  | .notify _ data length =>
    data.Readable length ∧ ¬ data.Overlaps ⟨.rpcProfileNotification, 2⟩ length ∧ Fits gatt length
  | .work => ¬ s.worker.Blocked

/-! ## Reads and writes -/

/-- In the attribute table, an attribute of the type of Characteristic 5 has its value. -/
theorem pValue_char5 : ∀ attr ∈ attrTbl, attr.type = .uuid16 .char5 → attr.pValue = .value .char5 := by
  decide

/-- **A read goes through iff the reader has room** for the value. -/
theorem readAttrCB_iff {attr : Attribute} (hattr : attr ∈ attrTbl) {offset maxLen : UInt16} {d : Dev σ}
    (hd : InBounds gatt d) :
    (∃ r, readAttrCB attr offset maxLen d = .ok r) ↔ (offset = 0 → valueLength d attr ≤ maxLen.toNat) := by
  have hpv := pValue_char5 attr hattr
  obtain ⟨type, obj⟩ := attr
  by_cases hoff : offset = 0
  · subst hoff
    simp only [forall_const]
    have hresp : (∃ value, buildPacket d.memory maxLen d.rpc.responseId d.rpc.responseLength d.rpc.response =
        .ok value) ↔ d.rpc.responseLength + 2 ≤ maxLen.toNat :=
      (buildPacket_iff _ _ _).trans (and_iff_right hd.readable)
    have hnot := readable_notification hd.notification.1
    match type, hpv with
    | .uuid16 .char1, _ | .uuid16 .char2, _ | .uuid16 .rpcResponse, _ =>
      refine Iff.trans ?_ hresp
      constructor
      · rintro ⟨r, hr⟩
        obtain ⟨value, hv, _⟩ := bind_eq_ok.mp hr
        exact ⟨value, hv⟩
      · rintro ⟨value, hv⟩
        exact ⟨(d, .success, value), bind_eq_ok.mpr ⟨value, hv, rfl⟩⟩
    | .uuid16 .rpcNotification, _ =>
      refine Iff.trans ?_ ((buildPacket_iff d.memory maxLen d.rpc.notificationId).trans (and_iff_right hnot))
      constructor
      · rintro ⟨r, hr⟩
        obtain ⟨value, hv, _⟩ := bind_eq_ok.mp hr
        exact ⟨value, hv⟩
      · rintro ⟨value, hv⟩
        exact ⟨_, bind_eq_ok.mpr ⟨value, hv, rfl⟩⟩
    | .uuid16 .char5, hpv =>
      have hobj : obj = .value .char5 := hpv rfl
      subst hobj
      have hlen : d.char5.toList.length = char5Len := d.char5.toList_length
      constructor
      · rintro ⟨r, hr⟩
        obtain ⟨bytes, hload, hr⟩ := bind_eq_ok.mp hr
        obtain ⟨v, hv, _⟩ := bind_eq_ok.mp hr
        have hroom := storeValue_inv hv
        rw [Memory.length_of_loadFrom hload, Nat.zero_add] at hroom
        exact hroom
      · exact fun hroom => ⟨_, readAttrCB_char5 hroom d⟩
    | .uuid16 .primaryService, _ | .uuid16 .character, _ | .uuid16 .charUserDesc, _ | .uuid16 .clientCharCfg, _
    | .uuid16 .char3, _ | .uuid16 .rpcCommand, _ | .uuid128, _ =>
      exact ⟨fun _ => Nat.zero_le _, fun _ => ⟨_, rfl⟩⟩
  · have hpos : offset > 0 := UInt16.pos_iff_ne_zero.mpr hoff
    refine ⟨fun _ h => absurd h hoff, fun _ => ⟨(d, .attErrAttrNotLong, []), ?_⟩⟩
    rw [readAttrCB, if_pos hpos]

theorem readAttrCB_frame {attr : Attribute} {offset maxLen : UInt16} {d d' : Dev σ} {r : Status × Bytes}
    (h : readAttrCB attr offset maxLen d = .ok (d', r)) :
    d' = d ∨ d' = { d with rpc := d.rpc.notifying } := by
  unfold readAttrCB at h
  split at h
  · cases h; exact .inl rfl
  · split at h
    · obtain ⟨v, _, h⟩ := bind_eq_ok.mp h; cases h; exact .inl rfl
    · obtain ⟨v, _, h⟩ := bind_eq_ok.mp h; cases h; exact .inl rfl
    · obtain ⟨v, _, h⟩ := bind_eq_ok.mp h; cases h; exact .inl rfl
    · obtain ⟨v, _, h⟩ := bind_eq_ok.mp h; cases h; exact .inr rfl
    · obtain ⟨bytes, _, h⟩ := bind_eq_ok.mp h
      obtain ⟨v, _, h⟩ := bind_eq_ok.mp h
      cases h
      exact .inl rfl
    · cases h; exact .inl rfl
    · cases h; exact .inl rfl

/-- Nothing of the RPC changed: at most a characteristic of the sample profile did. -/
structure Aside (d d' : Dev σ) : Prop where
  memory : d'.memory = d.memory
  rpc : d'.rpc = d.rpc
  rcpCommandExecutionCount : d'.rcpCommandExecutionCount = d.rcpCommandExecutionCount
  trace : d'.trace = d.trace

theorem Aside.refl (d : Dev σ) : Aside d d := ⟨rfl, rfl, rfl, rfl⟩

theorem aside_setObject (d : Dev σ) (obj : Obj) (b : UInt8) : Aside d (d.setObject obj b) := by
  unfold Dev.setObject
  split <;> exact ⟨rfl, rfl, rfl, rfl⟩

theorem aside_setValue (d : Dev σ) (c : Plain) (bytes : Bytes) : Aside d (d.setValue c bytes) := by
  cases c <;> exact ⟨rfl, rfl, rfl, rfl⟩

/-- **A write goes through iff a command fits** in the command array. -/
theorem writeAttrCB_iff (gatt : GattServer σ) {attr : Attribute} {value : Bytes} (offset : UInt16) (d : Dev σ) :
    (∃ r, writeAttrCB gatt attr value offset d = .ok r) ↔
      (attr.type = .uuid16 .rpcCommand → value.length ≤ maxPacketLength) := by
  by_cases hbyte : attr.type = .uuid16 .char1 ∨ attr.type = .uuid16 .char3
  · constructor
    · rintro _ hcmd
      rcases hbyte with h | h <;> rw [hcmd] at h <;> cases h
    · intro _
      rcases writeAttrCB_byte gatt hbyte value offset d with ⟨_, _, hok⟩ | ⟨_, status, _, hrej⟩
      · exact ⟨_, hok⟩
      · exact ⟨_, hrej⟩
  · obtain ⟨type, obj⟩ := attr
    rw [not_or] at hbyte
    match type, hbyte with
    | .uuid16 .rpcCommand, _ =>
      constructor
      · rintro ⟨r, hr⟩ _
        obtain ⟨e, he, _⟩ := bind_eq_ok.mp hr
        exact (writeCommand_inv he).1
      · intro h
        obtain ⟨e, he, _⟩ := writeCommand_ok d (h rfl)
        exact ⟨_, bind_eq_ok.mpr ⟨e, he, rfl⟩⟩
    | .uuid16 .char1, h => exact absurd rfl h.1
    | .uuid16 .char3, h => exact absurd rfl h.2
    | .uuid16 .primaryService, _ | .uuid16 .character, _ | .uuid16 .charUserDesc, _ | .uuid16 .clientCharCfg, _
    | .uuid16 .char2, _ | .uuid16 .char5, _ | .uuid16 .rpcResponse, _ | .uuid16 .rpcNotification, _ | .uuid128, _ =>
      exact ⟨fun _ h => (by cases h), fun _ => ⟨_, rfl⟩⟩

/-- A write stores a command, or leaves the RPC alone. -/
theorem writeAttrCB_cases {attr : Attribute} {value : Bytes} {offset : UInt16} {d d' : Dev σ} {status : Status}
    (h : writeAttrCB gatt attr value offset d = .ok (d', status)) :
    (attr.type ≠ .uuid16 .rpcCommand ∧ Aside d d') ∨
      (attr.type = .uuid16 .rpcCommand ∧ writeCommand value d = .ok d') := by
  by_cases hbyte : attr.type = .uuid16 .char1 ∨ attr.type = .uuid16 .char3
  · have hne : attr.type ≠ .uuid16 .rpcCommand := by rintro ht; simp [ht] at hbyte
    rcases writeAttrCB_byte gatt hbyte value offset d with ⟨_, _, hok⟩ | ⟨_, status', _, hrej⟩
    · rw [hok] at h
      cases h
      exact .inl ⟨hne, aside_setObject d _ _⟩
    · rw [hrej] at h
      cases h
      exact .inl ⟨hne, .refl d⟩
  · obtain ⟨type, obj⟩ := attr
    rw [not_or] at hbyte
    match type, hbyte with
    | .uuid16 .rpcCommand, _ =>
      obtain ⟨e, he, h⟩ := bind_eq_ok.mp h
      cases h
      exact .inr ⟨rfl, he⟩
    | .uuid16 .char1, hb => exact absurd rfl hb.1
    | .uuid16 .char3, hb => exact absurd rfl hb.2
    | .uuid16 .primaryService, _ | .uuid16 .character, _ | .uuid16 .charUserDesc, _ | .uuid16 .clientCharCfg, _
    | .uuid16 .char2, _ | .uuid16 .char5, _ | .uuid16 .rpcResponse, _ | .uuid16 .rpcNotification, _ | .uuid128, _ =>
      cases h
      exact .inl ⟨by simp, .refl d⟩

theorem setParameter_iff {param : Param} {len : UInt8} {value : Source} (d : Dev σ) :
    (∃ r, setParameter param len value d = .ok r) ↔
      ∀ c, param = .plain c → len.toNat = c.length → value.Readable len.toNat := by
  cases param with
  | plain c =>
    by_cases hlen : len.toNat = c.length
    · rw [setParameter, if_pos hlen]
      constructor
      · rintro ⟨r, hr⟩ c' hc' _
        cases hc'
        obtain ⟨bytes, hload, _⟩ := bind_eq_ok.mp hr
        rw [hlen]
        exact loadFrom_iff.mp ⟨bytes, hload⟩
      · intro h
        obtain ⟨bytes, hload⟩ := loadFrom_iff (m := d.memory).mpr (h c rfl hlen)
        rw [hlen] at hload
        exact ⟨_, bind_eq_ok.mpr ⟨bytes, hload, rfl⟩⟩
    · rw [setParameter, if_neg hlen]
      constructor
      · rintro _ c' hc' hlen'
        cases hc'
        exact absurd hlen' hlen
      · exact fun _ => ⟨_, rfl⟩
  | clientServerResponse | clientServerNotification | other => exact ⟨fun _ _ h => (by cases h), fun _ => ⟨_, rfl⟩⟩

/-! ## Every run -/

/-- An event goes through iff it is allowed. -/
theorem step_iff {s : Profile σ} (h : s.worker.Safe gatt) (e : Event) :
    (∃ s', s.step gatt table e = some s') ↔ Allowed gatt s e := by
  cases e with
  | write attr value offset =>
    refine Iff.trans ?_ (writeAttrCB_iff gatt offset s.dev)
    rw [step]
    cases writeAttrCB gatt attr value offset s.dev <;> simp
  | read attr offset maxLen =>
    refine Iff.trans ?_ (readAttrCB_iff attr.2 h.dev)
    show _ ↔ ∃ r, readAttrCB attr offset maxLen s.dev = .ok r
    rw [step]
    cases readAttrCB attr offset maxLen s.dev <;> simp
  | setParameter param len value =>
    refine Iff.trans ?_ (setParameter_iff s.dev)
    rw [step]
    cases Device.setParameter param len value s.dev <;> simp
  | notify id data length =>
    refine Iff.trans ?_ (sendNotification_iff gatt id s.dev)
    rw [step]
    cases sendNotification gatt id data length s.dev <;> simp
  | work =>
    refine Iff.trans ?_ (Worker.step_iff table h)
    rw [step]
    cases s.worker.step gatt table <;> simp

/-- The command writes of an event: one or none. -/
def Event.posts : Event → ℕ
  | .write attr _ _ => if attr.1.type = .uuid16 .rpcCommand then 1 else 0
  | _ => 0

/-- All an event can do to the worker, one constructor per kind. -/
inductive Effect (gatt : GattServer σ) (table : List (Entry (Handler σ))) (e : Event) : Worker σ → Worker σ → Prop
  | aside {pc : Pc σ} {d d' : Dev σ} (hposts : e.posts = 0) (haside : Aside d d') : Effect gatt table e ⟨pc, d⟩ ⟨pc, d'⟩
  /-- A read of E003 sets `rpc.notification`. -/
  | looked {pc : Pc σ} {d : Dev σ} (hposts : e.posts = 0) :
    Effect gatt table e ⟨pc, d⟩ ⟨pc, { d with rpc := d.rpc.notifying }⟩
  | posted {pc : Pc σ} {d d' : Dev σ} {packet : Bytes} (hposts : e.posts = 1)
    (hwrite : writeCommand packet d = .ok d') :
    Effect gatt table e ⟨pc, d⟩ ⟨pc, d'⟩
  | notified {pc : Pc σ} {d d' : Dev σ} {id : UInt8} {data : Source} {length : ℕ} {status : Status}
    (hposts : e.posts = 0) (hsend : sendNotification gatt id data length d = .ok (d', status)) :
    Effect gatt table e ⟨pc, d⟩ ⟨pc, d'⟩
  | worked {w w' : Worker σ} (hposts : e.posts = 0) (hworked : Worker.Worked gatt table w w') : Effect gatt table e w w'

/-- **An event has one of the five effects.** -/
theorem step_effect {s s' : Profile σ} {e : Event} (hs : s.step gatt table e = some s') :
    Effect gatt table e s.worker s'.worker := by
  cases e with
  | write attr value offset =>
    rw [step] at hs
    split at hs
    · rename_i d status hw
      cases hs
      rcases writeAttrCB_cases hw with ⟨ht, haside⟩ | ⟨ht, hwrite⟩
      · exact .aside (if_neg ht) haside
      · exact .posted (if_pos ht) hwrite
    · cases hs
  | read attr offset maxLen =>
    rw [step] at hs
    split at hs
    · rename_i d r hr
      cases hs
      rcases readAttrCB_frame hr with rfl | rfl
      · exact .aside rfl (.refl _)
      · exact .looked rfl
    · cases hs
  | setParameter param len value =>
    rw [step] at hs
    split at hs
    · rename_i d status hset
      cases hs
      rcases setParameter_inv hset with ⟨_, rfl⟩ | ⟨c, bytes, _, _, _, _, rfl⟩
      · exact .aside rfl (.refl _)
      · exact .aside rfl (aside_setValue ..)
    · cases hs
  | notify id data length =>
    rw [step] at hs
    split at hs
    · rename_i d status hn
      cases hs
      exact .notified rfl hn
    · cases hs
  | work =>
    obtain ⟨w, hw, rfl⟩ := Option.map_eq_some_iff.mp hs
    exact .worked rfl (Worker.step_worked hw)

/-- **Every event keeps the device in bounds.** -/
theorem safe_effect (ht : BoundedTable gatt table) {w w' : Worker σ} {e : Event} (h : w.Safe gatt)
    (he : Effect gatt table e w w') : w'.Safe gatt := by
  cases he with
  | aside _ haside => exact h.of_rpc haside.rpc
  | looked => exact h.withDev ⟨h.dev.installed, h.dev.response, h.dev.notification⟩ rfl rfl rfl
  | posted _ hwrite =>
    have hst := (writeCommand_inv hwrite).2
    refine ⟨⟨?_, ?_, ?_⟩, .inl ?_, ?_, h.pc⟩
    · exact (congrArg Rpc.response hst.rpc).trans h.dev.installed
    · exact (congrArg Rpc.responseLength hst.rpc) ▸ h.dev.response
    · exact (congrArg Rpc.notificationLength hst.rpc) ▸ h.dev.notification
    · exact congrArg Rpc.command hst.rpc
    · exact (congrArg Rpc.commandLength hst.rpc) ▸ UInt8.toNat_lt _
  | notified _ hn =>
    have hd := inBounds_sendNotification h.dev hn
    have hu := undisturbed_sendNotification hn
    exact h.withDev hd hu.command hu.commandReceivedSem hu.commandLength
  | worked _ hw => exact Worker.safe_step ht h hw

/-- **Which events fault.** With bounded callbacks, in every run the device stays in bounds, and an event goes through
iff it is allowed: the worker never faults, whatever is written, read and notified between its steps. -/
theorem faults_iff (gatt : GattServer σ) (ht : BoundedTable gatt table) (hmax : 2 ≤ gatt.maxLen.toNat) (app : σ)
    (events : List Event) (s : Profile σ) (h : run (step gatt table) (init app) events = some s) :
    InBounds gatt s.dev ∧ ∀ e, (∃ s', s.step gatt table e = some s') ↔ Allowed gatt s e := by
  have hsafe : s.worker.Safe gatt :=
    run_inv (I := fun s => s.worker.Safe gatt) (fun _ _ _ hi hs => safe_effect ht hi (step_effect hs))
      (Worker.safe_init hmax app) h
  exact ⟨hsafe.dev, step_iff hsafe⟩

end Profile

/-! ## The shipped callback -/

theorem respond_bounded {gatt : GattServer UInt32} (hmax : 6 ≤ gatt.maxLen.toNat) : respond.Bounded gatt := by
  have hfits : Fits gatt 4 := ⟨by decide, hmax⟩
  refine .look fun d _ => .storeResponse (by decide) <| .look fun d _ => .storeResponse (by decide) <|
    .look fun d _ => .storeResponse (by decide) <| .look fun d _ => .storeResponse (by decide) <|
    .look fun d hd => ?_
  by_cases hc : d.app % 3 = 0
  · have hinst := hd.installed
    unfold Dev.Installed at hinst
    rw [if_pos hc, hinst]
    exact .notify (by decide) (by decide) hfits (.setResponseLength hfits .ret)
  · rw [if_neg hc]
    exact .setResponseLength hfits .ret

/-- `ping_device` reads one byte, whatever the header byte says, and answers with four. -/
theorem testRcpCallbacks_bounded {gatt : GattServer UInt32} (hmax : 6 ≤ gatt.maxLen.toNat) :
    BoundedTable gatt testRcpCallbacks := by
  refine ⟨⟨_, List.mem_cons_of_mem _ List.mem_cons_self, rfl⟩, ?_⟩
  intro e he h hcb
  rcases List.mem_cons.mp he with rfl | he
  · cases hcb
    intro id length _
    apply Prog.Bounded.load (by decide)
    intro payload _
    by_cases hone : payload.getD 0 0 = 1
    · rw [if_pos hone]
      exact .modify (respond_bounded hmax)
    · rw [if_neg hone]
      exact respond_bounded hmax
  · rw [List.mem_singleton.mp he] at hcb
    cases hcb

namespace Profile

theorem commandAttr_mem : commandAttr ∈ attrTbl := by decide

theorem responseAttr_mem : responseAttr ∈ attrTbl := by decide

/-- The header byte of the command counts 255 bytes; E002 is read while the callback runs. -/
def lyingCommand : List Event := List.flatten [
  .write ⟨commandAttr, commandAttr_mem⟩ [0, 255, 1] 0 :: List.replicate 7 .work,
  .read ⟨responseAttr, responseAttr_mem⟩ 0 22 :: List.replicate 4 .work]

/-- Nothing has faulted; now a packet of 203 bytes would, and so would a read with room for one byte, and a notification
with data from where it is copied to. -/
theorem faults_iff_ping : ∃ s, run (step (.plain 251) testRcpCallbacks) (init 0) lyingCommand = some s ∧
    InBounds (.plain 251) s.dev ∧ (∃ s', s.step (.plain 251) testRcpCallbacks .work = some s') ∧
    s.step (.plain 251) testRcpCallbacks (.write ⟨commandAttr, commandAttr_mem⟩ (List.replicate 203 0) 0) = none ∧
    s.step (.plain 251) testRcpCallbacks (.read ⟨responseAttr, responseAttr_mem⟩ 0 1) = none ∧
    s.step (.plain 251) testRcpCallbacks (.notify 3 (.ptr (some ⟨.rpcProfileNotification, 2⟩)) 1) = none := by
  have hspec := faults_iff (.plain 251) (testRcpCallbacks_bounded (by decide)) (by decide) 0 lyingCommand _ rfl
  refine ⟨_, rfl, hspec.1, (hspec.2 .work).mpr ?_, ?_, ?_, ?_⟩
  · intro hb
    cases hb.1
  · rw [Option.eq_none_iff_forall_ne_some]
    intro s' hs
    have hlen : (List.replicate 203 (0 : UInt8)).length ≤ maxPacketLength := (hspec.2 _).mp ⟨s', hs⟩ rfl
    rw [List.length_replicate] at hlen
    exact absurd hlen (by decide)
  · rw [Option.eq_none_iff_forall_ne_some]
    intro s' hs
    exact absurd ((hspec.2 _).mp ⟨s', hs⟩ rfl) (by decide)
  · rw [Option.eq_none_iff_forall_ne_some]
    intro s' hs
    exact ((hspec.2 _).mp ⟨s', hs⟩).2.1 (by decide)

end Profile

end BleRpc.Device
