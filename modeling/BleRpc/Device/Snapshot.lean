import BleRpc.Device.Framing
import BleRpc.Device.ResponseRead

/-!
# The two copies of a packet

A send puts its packet in a characteristic array, and the read callback assembles it again from the fields of `rpc`. A
callback may send notifications while its response is half built, with data from the response buffer itself.

- `Points`: what holds at every action of a callback; `run_of_points`: a callback all of whose actions are `Sound` runs
  to its end;
- `snapshots_agree`: for such a callback the two copies of every packet agree and the host accepts it, and no
  notification changes the response.
-/

namespace BleRpc.Device

open Outcome

variable {σ : Type}

/-! ## The points of a run -/

/-- `P` holds at every point of the run. -/
def Points (gatt : GattServer σ) (P : Prog σ → Dev σ → Prop) (p : Prog σ) (d : Dev σ) : Prop :=
  ∀ q e, Reaches gatt (p, d) (q, e) → P q e

/-- A packet with that many bytes of payload fits in its array and in the reader's buffer. -/
def Fits (gatt : GattServer σ) (length : ℕ) : Prop := length ≤ maxPayloadLength ∧ length + 2 ≤ gatt.maxLen.toNat

/-- An action stays within the arrays; the data of a notification is not in the array it is copied to; packets fit. -/
def Sound (gatt : GattServer σ) : Prog σ → Dev σ → Prop
  | .ret, d => Fits gatt d.rpc.responseLength
  | .look _, _ => True
  | .load p length _, d => ∃ bytes, d.memory.loadFrom (.ptr p) length = .ok bytes
  | .storeResponse i b _, d => ∃ d', d.storeResponse i b = .ok d'
  | .setResponseLength _ _, _ => True
  | .modify _ _, _ => True
  | .notify _ data length _, d =>
    Fits gatt length ∧ data.Outside .rpcProfileNotification ∧ ∃ bytes, d.memory.loadFrom data length = .ok bytes

section Points

variable {gatt : GattServer σ} {P Q : Prog σ → Dev σ → Prop} {p p' : Prog σ} {d d' : Dev σ}

theorem Points.here (h : Points gatt P p d) : P p d := h p d .refl

/-- What holds at every point holds at those that are left after an action. -/
theorem Points.next (h : Points gatt P p d) (hact : p.act gatt d = .ok (p', d')) : Points gatt P p' d' :=
  fun q e hr => h q e (.head hact hr)

/-- A callback that has returned goes nowhere. -/
theorem points_ret (h : P .ret d) : Points gatt P .ret d := by
  have hend : ∀ t, Reaches gatt (.ret, d) t → t = (.ret, d) := by
    intro t hr
    induction hr with
    | refl => rfl
    | tail _ hstep ih =>
      rw [ih] at hstep
      cases hstep
      rfl
  intro q e hr
  cases hend _ hr
  exact h

/-- A point, and those after its action. -/
theorem points_of_act (hact : p.act gatt d = .ok (p', d')) (h : P p d) (hrest : Points gatt P p' d') :
    Points gatt P p d := by
  intro q e hr
  rcases Relation.ReflTransGen.cases_head hr with heq | ⟨⟨q', e'⟩, hstep, hr⟩
  · cases heq
    exact h
  · rw [hact] at hstep
    cases hstep
    exact hrest q e hr

/-! ## Soundness -/

/-- A packet in its array: header, payload, and zeros for the rest. -/
theorem padded_packet {id b : UInt8} {bytes : Bytes} {length : ℕ} (h : bytes.length = length) :
    padded (id :: b :: bytes) = id :: b :: bytes ++ List.replicate (maxPayloadLength - length) 0 := by
  rw [padded, List.length_cons, List.length_cons, h]
  congr 2
  unfold maxPacketLength commandNotifierIdLength
  omega

/-- A sound notification is stored, sent and accepted. -/
theorem notify_ok {id : UInt8} {data : Source} {length : ℕ} {next : Prog σ}
    (h : Sound gatt (.notify id data length next) d) :
    ∃ m bytes, d.memory.loadFrom data length = .ok bytes ∧
      (Prog.notify id data length next).act gatt d = .ok (next, { d with
        memory := m
        rpc := { d.rpc with notificationId := id, notificationLength := length }.notifying }.observe
          (.sent .rpcNotification (id :: UInt8.ofNat length :: bytes))) ∧
      (m .rpcProfileNotification).toList = padded (id :: UInt8.ofNat length :: bytes) ∧
      ∀ r, r ≠ .rpcProfileNotification → m r = d.memory r := by
  obtain ⟨⟨hlen, hmax⟩, hout, bytes, hload⟩ := h
  obtain ⟨m, hsend, harray, hframe⟩ := sendNotification_ok gatt id hload hout hlen hmax
  refine ⟨m, bytes, hload, ?_, ?_, hframe⟩
  · simp only [Prog.act, hsend, ok_bind]
    rfl
  · rw [harray, padded_packet (Memory.length_of_loadFrom hload)]

/-- **A callback all of whose actions are sound** runs to its end, and leaves a response that fits. -/
theorem run_of_points (h : Points gatt (Sound gatt) p d) :
    ∃ e, p.run gatt d = .ok e ∧ Fits gatt e.rpc.responseLength := by
  induction p generalizing d with
  | ret => exact ⟨d, rfl, h.here⟩
  | look k ih => exact ih d (h.next rfl)
  | load a length k ih =>
    obtain ⟨bytes, hload⟩ := h.here
    have hact : (Prog.load a length k).act gatt d = .ok (k bytes, d) := Prog.act_eq_ok.mpr (.load hload)
    rw [Prog.run_of_act hact]
    exact ih bytes (h.next hact)
  | storeResponse i b next ih =>
    obtain ⟨f, hf⟩ := h.here
    have hact : (Prog.storeResponse i b next).act gatt d = .ok (next, f) := Prog.act_eq_ok.mpr (.storeResponse hf)
    rw [Prog.run_of_act hact]
    exact ih (h.next hact)
  | setResponseLength n next ih => exact ih (h.next rfl)
  | modify f next ih => exact ih (h.next rfl)
  | notify id data length next ih =>
    obtain ⟨m, bytes, _, hact, _⟩ := notify_ok h.here
    rw [Prog.run_of_act hact]
    exact ih (h.next hact)

end Points

/-! ## Agreement -/

/-- A packet exists twice: the read callback built it from the fields, and it is what its array begins with, the rest
of the array being zero. -/
structure Mirrored (uuid : Uuid) (r : Region) (packet : Bytes) (d d' : Dev σ) : Prop where
  built : d'.trace = d.trace ++ [.sent uuid packet]
  placed : (d'.memory r).toList = padded packet

/-- The two copies of the response are as they were: what the read callback builds, and the array. -/
structure SameResponse (d d' : Dev σ) : Prop where
  built : ∀ offset maxLen, (readAttrCB responseAttr offset maxLen d').map Prod.snd =
    (readAttrCB responseAttr offset maxLen d).map Prod.snd
  placed : d'.memory .rpcProfileResponse = d.memory .rpcProfileResponse

/-- The packet of a notification, as it is sent, as it is kept and as the host takes it; the response is left alone. -/
def NotificationAgrees (gatt : GattServer σ) : Prog σ → Dev σ → Prop
  | .notify id data length next, d => ∃ d' bytes,
    (Prog.notify id data length next).act gatt d = .ok (next, d') ∧
      d.memory.loadFrom data length = .ok bytes ∧ bytes.length = length ∧
      Mirrored .rpcNotification .rpcProfileNotification (id :: UInt8.ofNat length :: bytes) d d' ∧
      Host.checkNotification (id :: UInt8.ofNat length :: bytes) = .ok () ∧ SameResponse d d'
  | _, _ => True

/-- The packet of the response, as it is sent, as it is kept and as the host takes it: the command's id, and the payload
the callback left. -/
def ResponseAgrees (gatt : GattServer σ) (h : Handler σ) (d : Dev σ) : Prop :=
  ∃ e d' payload, (h d.rpc.commandId d.rpc.command d.rpc.commandLength).run gatt d.label.call = .ok e ∧
    dispatch gatt (h.callback gatt) d = .ok d' ∧
    e.memory.loadFrom (.ptr e.rpc.response) e.rpc.responseLength = .ok payload ∧
    payload.length = e.rpc.responseLength ∧
    Mirrored .rpcResponse .rpcProfileResponse (d.rpc.commandId :: UInt8.ofNat e.rpc.responseLength :: payload) e d' ∧
    Host.checkResponse (d.rpc.commandId :: UInt8.ofNat e.rpc.responseLength :: payload) = .ok ()

/-- The read callback on E002 depends on the response buffer, not on the other arrays. -/
theorem sameResponse_of_frame {d d' : Dev σ} (hd : d.Installed) (hresp : d'.rpc.response = d.rpc.response)
    (hid : d'.rpc.responseId = d.rpc.responseId) (hlen : d'.rpc.responseLength = d.rpc.responseLength)
    (hf : ∀ r, r ≠ .rpcProfileNotification → d'.memory r = d.memory r) : SameResponse d d' := by
  refine ⟨?_, hf _ (by decide)⟩
  intro offset maxLen
  have hload : d'.memory.loadFrom (.ptr d.rpc.response) d.rpc.responseLength =
      d.memory.loadFrom (.ptr d.rpc.response) d.rpc.responseLength := by
    unfold Dev.Installed at hd
    rw [hd]
    exact Memory.load_congr (hf _ (by decide)) _
  by_cases hoff : offset > 0
  · simp only [readAttrCB, if_pos hoff]
    rfl
  · have hbuild : buildPacket d'.memory maxLen d.rpc.responseId d.rpc.responseLength d.rpc.response =
        buildPacket d.memory maxLen d.rpc.responseId d.rpc.responseLength d.rpc.response := by
      simp only [buildPacket, hload]
    simp only [readAttrCB, if_neg hoff, responseAttr, hresp, hid, hlen, hbuild]
    cases buildPacket d.memory maxLen d.rpc.responseId d.rpc.responseLength d.rpc.response <;> rfl

/-- **Every notification** of a sound callback agrees. -/
theorem notification_agrees {gatt : GattServer σ} {p : Prog σ} {d : Dev σ} (hd : d.Installed) (h : Sound gatt p d) :
    NotificationAgrees gatt p d := by
  cases p with
  | notify id data length next =>
    obtain ⟨m, bytes, hload, hact, harray, hframe⟩ := notify_ok h
    have hlen := Memory.length_of_loadFrom hload
    refine ⟨_, bytes, hact, hload, hlen, ⟨rfl, harray⟩, ?_, ?_⟩
    · exact Host.checkNotification_ok.mpr (wellFormed_of_le id hlen h.1.1)
    · exact sameResponse_of_frame hd rfl rfl rfl hframe
  | _ => trivial

/-- **The response** of a callback that has returned is what it left, under the command's id. -/
theorem sendResponse_mirrored {gatt : GattServer σ} {d e : Dev σ} (hd : d.Installed) (hu : Undisturbed d.label.call e)
    (hfits : Fits gatt e.rpc.responseLength) :
    ∃ d' payload, sendResponse gatt e.rpc.commandId e.rpc.response e.rpc.responseLength e = .ok (d', .success) ∧
      e.memory.loadFrom (.ptr e.rpc.response) e.rpc.responseLength = .ok payload ∧
      Mirrored .rpcResponse .rpcProfileResponse
        (d.rpc.commandId :: UInt8.ofNat e.rpc.responseLength :: payload) e d' := by
  have he : e.Installed := hu.installed hd
  have hsize : e.rpc.responseLength ≤ Region.size .rcpResponseBuffer :=
    hfits.1.trans (show maxPayloadLength ≤ 256 by decide)
  have hload := load_responseBuffer e.memory he hsize
  have hout := outside_of_responseBuffer he
  have hid : e.rpc.responseId = d.rpc.commandId := hu.responseId
  have hcmd : e.rpc.commandId = d.rpc.commandId := hu.commandId
  obtain ⟨m, hsend, harray, _⟩ := sendResponse_ok gatt e.rpc.commandId hload hout hfits.1 hload hout hfits.2
  refine ⟨_, _, hsend, hload, ?_, ?_⟩
  · rw [hid]
    rfl
  · show (m .rpcProfileResponse).toList = _
    rw [harray, hcmd, padded_packet (Memory.length_of_loadFrom hload)]

/-- The response of a sound callback agrees. -/
theorem response_agrees {gatt : GattServer σ} {h : Handler σ} {d : Dev σ} (hd : d.Installed)
    (hs : Points gatt (Sound gatt) (h d.rpc.commandId d.rpc.command d.rpc.commandLength) d.label.call) :
    ResponseAgrees gatt h d := by
  obtain ⟨e, hrun, hfits⟩ := run_of_points hs
  obtain ⟨d', payload, hsend, hload, hmirror⟩ := sendResponse_mirrored hd (undisturbed_run hd hrun) hfits
  have hlen := Memory.length_of_loadFrom hload
  have hcb : h.callback gatt d.label.call.rpc.commandId d.label.call.rpc.command d.label.call.rpc.commandLength
      d.label.call = .ok e := hrun
  refine ⟨e, d', payload, hrun, ?_, hload, hlen, hmirror, ?_⟩
  · simp only [dispatch, hcb, ok_bind, hsend]
    rfl
  · exact Host.checkResponse_ok.mpr (wellFormed_of_le d.rpc.commandId hlen hfits.1)

/-- **The snapshot and the packet sent agree**, for the response and for every notification on the way to it; no
notification changes the response. -/
theorem snapshots_agree (gatt : GattServer σ) (h : Handler σ) (d : Dev σ) (hd : d.Installed)
    (hs : Points gatt (Sound gatt) (h d.rpc.commandId d.rpc.command d.rpc.commandLength) d.label.call) :
    ResponseAgrees gatt h d ∧
      Points gatt (NotificationAgrees gatt) (h d.rpc.commandId d.rpc.command d.rpc.commandLength) d.label.call := by
  refine ⟨response_agrees hd hs, ?_⟩
  intro q f hr
  have hu := undisturbed_of_reaches hd hr
  exact notification_agrees (hu.installed hd) (hs q f hr)

/-- A callback that notifies the first byte of its response before it changes it. -/
def halfBuilt : Handler Unit := fun _ _ _ =>
  .storeResponse 0 7 <| .notify 9 (.ptr (some ⟨.rcpResponseBuffer, 0⟩)) 1 <| .storeResponse 0 8 <|
    .setResponseLength 1 .ret

/-- The byte notified and the byte answered differ, and both copies of either packet agree. -/
theorem half_built_agrees : ResponseAgrees (.plain 251) halfBuilt (reset ()) ∧
    Points (.plain 251) (NotificationAgrees (.plain 251)) (halfBuilt 0 none 0) (reset ()).label.call := by
  have hfits : Fits (.plain 251 : GattServer Unit) 1 := ⟨by decide, by decide⟩
  have hout : (Source.ptr (some ⟨.rcpResponseBuffer, 0⟩)).Outside .rpcProfileNotification := by
    simp [Source.Outside]
  refine snapshots_agree (.plain 251) halfBuilt (reset ()) rfl ?_
  refine points_of_act rfl ⟨_, rfl⟩ (points_of_act rfl ⟨hfits, hout, _, rfl⟩ ?_)
  exact points_of_act rfl ⟨_, rfl⟩ (points_of_act rfl trivial (points_ret hfits))

end BleRpc.Device
