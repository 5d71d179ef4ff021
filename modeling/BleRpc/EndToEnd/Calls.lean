import BleRpc.Device.Firmware
import BleRpc.Host.Correlation
import BleRpc.Host.Queue
import Mathlib.Data.List.GetD

/-!
# Any number of calls, end to end

Calls of `send_command` that run at once, over the link and the firmware with any callback table: the event loop takes
its steps, a command reaches the write callback, the worker takes its steps, the responses are handled in the order
they are sent.

- `order`: the calls in the order in which their commands reached the device;
- `linearizable`: in a run whose commands reach a device that has answered what it was sent, clear of the current scan,
  and whose responses are delivered on time, the calls take effect one after another in this order, each between its
  start and its return, and each returns the reply of the service.
-/

namespace BleRpc

open Device (Command Entry GattServer Handler LockStep Service TableServes tableIds testRcpCallbacks)
open Transition

/-- Client and device, and the writes that have reached the device. -/
structure Calls (σ : Type) where
  client : Host.Client
  device : LockStep σ
  reached : List ℕ

namespace Calls

variable {σ : Type}

inductive Event
  /-- Anything the event loop does but handling a notification. -/
  | loop (e : Host.Client.Event)
  /-- A command reaches the write callback. -/
  | reach (write : ℕ)
  /-- A step of the worker. -/
  | work
  /-- The next response sent is handled. -/
  | deliver

def init (app : σ) : Calls σ := ⟨.init, .init app, []⟩

/-- The packets sent on E002. -/
def responses (s : Calls σ) : List Host.Bytes := Device.responses s.device.worker.dev.trace

/-- `write_gatt_char` returns once the device has the command: it waits for the write response. -/
def Acknowledged (s : Calls σ) : Host.Client.Event → Prop
  | .written _ => s.client.writes.length - 1 ∈ s.reached
  | _ => True

instance (s : Calls σ) : ∀ e, Decidable (s.Acknowledged e)
  | .written _ => inferInstanceAs (Decidable (s.client.writes.length - 1 ∈ s.reached))
  | .connection _ | .start _ _ | .acquire | .writeFailed _ _ | .notify _ | .resume _ | .timeout _ | .cancel _ =>
    isTrue trivial

def step (gatt : GattServer σ) (table : List (Entry (Handler σ))) (s : Calls σ) : Event → Option (Calls σ)
  | .loop e =>
    if e.packets = [] ∧ s.Acknowledged e then (s.client.step e).map fun c => { s with client := c } else none
  | .reach k =>
    match s.client.writes[k]? with
    | some (_, packet) =>
      if k ∈ s.reached then none
      else
        match Device.writeAttrCB gatt Device.commandAttr packet 0 s.device.worker.dev with
        | .ok (d, .success) =>
          some { s with
            device := ⟨⟨s.device.worker.pc, d⟩, s.device.written ++ [Command.ofPacket packet]⟩
            reached := s.reached ++ [k] }
        | _ => none
    | none => none
  | .work => (s.device.worker.step gatt table).map fun w => { s with device := ⟨w, s.device.written⟩ }
  | .deliver =>
    s.responses[s.client.received.length]?.map fun data => { s with client := (s.client.responseHandler data).1 }

/-- The client's side of the link: each response is to the write that reached the device in its turn. -/
def link (s : Calls σ) : Host.Link := ⟨s.client, s.reached, s.reached.zip s.responses⟩

/-- A command may reach the device: all before it are answered, the scan under way does not meet its id, and it is one
that the service answers. -/
structure Ready (table : List (Entry (Handler σ))) (P : Command → Prop) (s : LockStep σ) (c : Command) : Prop where
  mayWrite : s.MayWrite
  known : c.id ∈ tableIds table
  clear : c.id ∉ tableIds s.worker.pc.rest
  proper : P c

/-- Commands reach a device that is ready for them; responses are delivered on time. -/
def Orderly (table : List (Entry (Handler σ))) (P : Command → Prop) (s : Calls σ) : Event → Prop
  | .reach k => ∀ w ∈ s.client.writes[k]?, Ready table P s.device (Command.ofPacket w.2)
  | .deliver => s.link.OnTime .deliver
  | _ => True

/-- The calls in the order in which their commands reached the device. -/
def order (s : Calls σ) : List ℕ := s.reached.map fun k => s.client.writers.getD k 0

/-- The command of a call. -/
def commandOf (s : Calls σ) (i : ℕ) : Command := Command.ofPacket (s.client.command i)

/-- The calls took effect one after another, in `order`. -/
structure Linearized (f : Service σ) (app : σ) (s : Calls σ) : Prop where
  once : s.order.Nodup
  begun : ∀ i ∈ s.order, s.client.stage i ≠ .idle ∧ s.client.stage i ≠ .queued
  written : s.device.written = s.order.map s.commandOf
  history : s.device.worker.dev.trace <+: f.history app (s.order.map s.commandOf)
  /-- A call returns the service's reply to its command after those before it. -/
  returned : ∀ i future r, s.client.stage i = .returned future r → ∃ before after, s.order = before ++ i :: after ∧
    r.data = (f (s.commandOf i) (f.after app (before.map s.commandOf))).packet (s.commandOf i)

/-! ## The parts -/

/-- The reply to a command among others. -/
theorem responses_history_mid (f : Service σ) (app : σ) (before after : List Command) (c : Command) :
    (Device.responses (f.history app (before ++ c :: after)))[before.length]? =
      some ((f c (f.after app before)).packet c) := by
  have hsplit : before ++ c :: after = (before ++ [c]) ++ after := by simp
  have hlen : (Device.responses (f.history app before)).length = before.length := Service.length_responses_history before
  rw [hsplit, Service.history_append, Device.responses_append, Service.responses_history_concat]
  simp [← hlen]

/-- More responses leave the results as they were. -/
theorem link_grow {l : Host.Link} (h : l.Inv) {reached : List ℕ} {sent : List (ℕ × Host.Bytes)}
    (hsent : ∀ (n : ℕ) (x : ℕ × Host.Bytes), l.sent[n]? = some x → sent[n]? = some x) : Host.Link.Inv ⟨l.client, reached, sent⟩ :=
  ⟨h.client, h.owned, fun f r hr => hsent _ _ (h.matched f r hr)⟩

/-- Longer lists pair the same at the beginning. -/
theorem getElem?_zip_mono {α β : Type*} {l l' : List α} {r r' : List β} (hl : l <+: l') (hr : r <+: r') {n : ℕ}
    {x : α × β} (h : (l.zip r)[n]? = some x) : (l'.zip r')[n]? = some x := by
  rw [List.getElem?_zip_eq_some] at h ⊢
  obtain ⟨l₂, rfl⟩ := hl
  obtain ⟨r₂, rfl⟩ := hr
  rw [List.getElem?_append_left (List.getElem?_eq_some_iff.mp h.1).1,
    List.getElem?_append_left (List.getElem?_eq_some_iff.mp h.2).1]
  exact h

/-! ## The invariant -/

section Invariant

variable {gatt : GattServer σ} {f : Service σ} {app : σ} {P : Command → Prop} {table : List (Entry (Handler σ))}

/-- What the device has been sent is what the writes that reached it hold. -/
def Carried (writes : List (ℕ × Host.Bytes)) : List ℕ → List Command → Prop :=
  List.Forall₂ fun k c => (writes[k]?).map (fun w => Command.ofPacket w.2) = some c

structure Inv (gatt : GattServer σ) (f : Service σ) (app : σ) (P : Command → Prop) (table : List (Entry (Handler σ)))
    (s : Calls σ) : Prop where
  link : s.link.Inv
  lined : s.client.Lined
  device : LockStep.Refined gatt f app P table s.device
  nodup : s.reached.Nodup
  carried : Carried s.client.writes s.reached s.device.written

theorem inv_init : Inv gatt f app P table (init app) :=
  ⟨Host.Link.inv_init, Host.Client.lined_init, LockStep.refined_init app, List.nodup_nil, .nil⟩

theorem Carried.mono {writes writes' : List (ℕ × Host.Bytes)} {reached : List ℕ} {cs : List Command}
    (h : Carried writes reached cs) (hw : writes <+: writes') : Carried writes' reached cs := by
  obtain ⟨more, rfl⟩ := hw
  refine List.Forall₂.imp ?_ h
  intro k c hk
  obtain ⟨w, hw, rfl⟩ := Option.map_eq_some_iff.mp hk
  rw [List.getElem?_append_left (List.getElem?_eq_some_iff.mp hw).1, hw]
  rfl

theorem inv_loop {s s' : Calls σ} {e : Host.Client.Event} (hi : Inv gatt f app P table s)
    (h : s.step gatt table (.loop e) = some s') : Inv gatt f app P table s' := by
  by_cases he : e.packets = [] ∧ s.Acknowledged e
  · simp only [step, if_pos he] at h
    obtain ⟨c, hc, rfl⟩ := Option.map_eq_some_iff.mp h
    have hm := Host.Client.step_moved hc
    have hlink : s.link.step (.loop e) = some ({ s with client := c } : Calls σ).link := by
      have hc' : s.link.client.step e = some c := hc
      simp only [Host.Link.step, if_pos he.1, hc']
      rfl
    have htime : s.link.OnTime (.loop e) := trivial
    exact ⟨Host.Link.inv_step hi.link htime hlink, Host.Client.lined_step hi.link.client hi.lined hm, hi.device,
      hi.nodup, hi.carried.mono (Host.Client.writes_step hm)⟩
  · rw [step, if_neg he] at h
    cases h

/-- A command that reaches the device is accepted by the write callback. -/
theorem step_reach_inv {s s' : Calls σ} {k : ℕ} (h : s.step gatt table (.reach k) = some s') :
    ∃ i packet d, s.client.writes[k]? = some (i, packet) ∧ k ∉ s.reached ∧
      Device.writeAttrCB gatt Device.commandAttr packet 0 s.device.worker.dev = .ok (d, .success) ∧
      s' = { s with
        device := ⟨⟨s.device.worker.pc, d⟩, s.device.written ++ [Command.ofPacket packet]⟩
        reached := s.reached ++ [k] } := by
  simp only [step] at h
  split at h
  · rename_i i packet hw
    by_cases hk : k ∈ s.reached
    · rw [if_pos hk] at h
      cases h
    · rw [if_neg hk] at h
      split at h
      · rename_i d hd
        cases h
        exact ⟨i, packet, d, hw, hk, hd, rfl⟩
      · cases h
  · cases h

/-- It is stored. -/
theorem step_reach_stored {s s' : Calls σ} {k : ℕ} (h : s.step gatt table (.reach k) = some s') :
    ∃ i packet d, s.client.writes[k]? = some (i, packet) ∧ k ∉ s.reached ∧
      Device.Stored packet s.device.worker.dev d ∧
      s' = { s with
        device := ⟨⟨s.device.worker.pc, d⟩, s.device.written ++ [Command.ofPacket packet]⟩
        reached := s.reached ++ [k] } := by
  obtain ⟨i, packet, d, hw, hk, hd, rfl⟩ := step_reach_inv h
  rw [Device.writeAttrCB_command, Outcome.bind_eq_ok] at hd
  obtain ⟨d', hd', heq⟩ := hd
  cases heq
  exact ⟨i, packet, _, hw, hk, (Device.writeCommand_inv hd').2, rfl⟩

theorem inv_reach {s s' : Calls σ} {k : ℕ} (hi : Inv gatt f app P table s) (ho : s.Orderly table P (.reach k))
    (h : s.step gatt table (.reach k) = some s') : Inv gatt f app P table s' := by
  obtain ⟨i, packet, d, hw, hk, hd, rfl⟩ := step_reach_inv h
  have hready := ho (i, packet) hw
  have hdevice : s.device.step gatt table (.write packet) =
      some ⟨⟨s.device.worker.pc, d⟩, s.device.written ++ [Command.ofPacket packet]⟩ := by
    simp only [LockStep.step, if_pos hready.mayWrite, hd]
  refine ⟨link_grow hi.link ?_, hi.lined, LockStep.refined_write hi.device hready.known hready.clear hready.proper hdevice,
    ?_, ?_⟩
  · intro n x hx
    obtain ⟨_, d', hst, heq⟩ := LockStep.step_write_inv hdevice
    have hdev : d = d' := congrArg (fun l : LockStep σ => l.worker.dev) heq
    have hresp : Device.responses d.trace = s.responses := congrArg Device.responses (hdev ▸ hst.trace)
    exact getElem?_zip_mono (List.prefix_append _ _) (hresp ▸ List.prefix_refl _) hx
  · simpa [List.nodup_append] using ⟨hi.nodup, fun a ha hak => hk (hak ▸ ha)⟩
  · refine List.rel_append hi.carried (.cons ?_ .nil)
    rw [hw]
    rfl

theorem inv_work {s s' : Calls σ} (ht : TableServes gatt f P table) (hi : Inv gatt f app P table s)
    (h : s.step gatt table .work = some s') : Inv gatt f app P table s' := by
  obtain ⟨w, hw, rfl⟩ := Option.map_eq_some_iff.mp h
  have htrace := ((Device.Worker.step_worked hw).keeps hi.device.inv.installed).1
  refine ⟨link_grow hi.link ?_, hi.lined, LockStep.refined_work ht hi.device hw, hi.nodup, hi.carried⟩
  intro n x hx
  exact getElem?_zip_mono (List.prefix_refl _) (htrace.filterMap _) hx

/-- The responses are the service's, as far as they have come. -/
theorem Inv.responses_prefix {s : Calls σ} (hi : Inv gatt f app P table s) :
    s.responses <+: Device.responses (f.history app s.device.written) :=
  hi.device.trace_prefix.filterMap _

/-- There is a response for each command at most. -/
theorem Inv.responses_le {s : Calls σ} (hi : Inv gatt f app P table s) : s.responses.length ≤ s.reached.length := by
  have hle := hi.responses_prefix.length_le
  have hreached := hi.carried.length_eq
  rw [Service.length_responses_history] at hle
  omega

theorem inv_deliver {s s' : Calls σ} (hi : Inv gatt f app P table s) (ho : s.Orderly table P .deliver)
    (h : s.step gatt table .deliver = some s') : Inv gatt f app P table s' := by
  obtain ⟨data, hdata, rfl⟩ := Option.map_eq_some_iff.mp h
  have hlt := (List.getElem?_eq_some_iff.mp hdata).1
  have hle := hi.responses_le
  have hnext : s.link.next = some (s.reached[s.client.received.length], data) := by
    refine List.getElem?_zip_eq_some.mpr ⟨?_, hdata⟩
    exact List.getElem?_eq_getElem (show s.client.received.length < s.reached.length by omega)
  have hk := Host.Client.responseHandler_kept s.client data
  refine ⟨Host.Link.inv_deliver hi.link hnext ho, Host.Client.lined_step hi.link.client hi.lined (.notified data), hi.device,
    hi.nodup, ?_⟩
  rw [hk.writes]
  exact hi.carried

/-- **Every orderly step keeps the invariant.** -/
theorem inv_step {s s' : Calls σ} {e : Event} (ht : TableServes gatt f P table) (hi : Inv gatt f app P table s)
    (ho : s.Orderly table P e) (h : s.step gatt table e = some s') : Inv gatt f app P table s' := by
  cases e with
  | loop e => exact inv_loop hi h
  | reach k => exact inv_reach hi ho h
  | work => exact inv_work ht hi h
  | deliver => exact inv_deliver hi ho h

/-! ## The order of the calls -/

/-- A write that has reached the device is in the list. -/
theorem Inv.reached_lt {s : Calls σ} (hi : Inv gatt f app P table s) {k : ℕ} (hk : k ∈ s.reached) :
    k < s.client.writes.length := by
  obtain ⟨n, hn, rfl⟩ := List.getElem_of_mem hk
  have hn' : n < s.device.written.length := hi.carried.length_eq ▸ hn
  have hc := List.forall₂_iff_get.mp hi.carried |>.2 n hn hn'
  obtain ⟨w, hw, _⟩ := Option.map_eq_some_iff.mp hc
  exact (List.getElem?_eq_some_iff.mp hw).1

/-- The call that made a write, and its command. -/
theorem Inv.call_of_write {s : Calls σ} (hi : Inv gatt f app P table s) {k i : ℕ} {packet : Host.Bytes}
    (h : s.client.writes[k]? = some (i, packet)) :
    s.client.writers.getD k 0 = i ∧ s.commandOf i = Command.ofPacket packet := by
  constructor
  · simp [Host.Client.writers, List.getD_eq_getElem?_getD, h]
  · rw [commandOf, ← hi.lined.recorded (i, packet) (List.mem_of_getElem? h)]

/-- The device has been sent the commands of the calls in order. -/
theorem Inv.written_eq {s : Calls σ} (hi : Inv gatt f app P table s) :
    s.device.written = s.order.map s.commandOf := by
  have heq : List.Forall₂ (fun k c => s.commandOf (s.client.writers.getD k 0) = c) s.reached s.device.written := by
    refine List.Forall₂.imp ?_ hi.carried
    intro k c hc
    obtain ⟨⟨i, packet⟩, hw, rfl⟩ := Option.map_eq_some_iff.mp hc
    obtain ⟨hi', hcmd⟩ := hi.call_of_write hw
    rw [hi', hcmd]
  rw [order, List.map_map]
  have hmap := List.forall₂_map_left_iff.mpr heq
  rw [List.forall₂_eq_eq_eq] at hmap
  exact hmap.symm

/-- Calls in the order have written. -/
theorem Inv.mem_writers {s : Calls σ} (hi : Inv gatt f app P table s) {i : ℕ} (h : i ∈ s.order) :
    i ∈ s.client.writers := by
  obtain ⟨k, hk, rfl⟩ := List.mem_map.mp h
  have hlt : k < s.client.writers.length := by simpa [Host.Client.writers] using hi.reached_lt hk
  rw [List.getD_eq_getElem _ _ hlt]
  exact List.getElem_mem hlt

/-- No call is in the order twice. -/
theorem Inv.nodup_order {s : Calls σ} (hi : Inv gatt f app P table s) : s.order.Nodup := by
  refine List.Nodup.map_on ?_ hi.nodup
  intro k hk l hl hkl
  have hlen : s.client.writers.length = s.client.writes.length := by simp [Host.Client.writers]
  have hk' : k < s.client.writers.length := hlen ▸ hi.reached_lt hk
  have hl' : l < s.client.writers.length := hlen ▸ hi.reached_lt hl
  rw [List.getD_eq_getElem _ _ hk', List.getD_eq_getElem _ _ hl'] at hkl
  exact (hi.lined.nodup.getElem_inj_iff).mp hkl

/-- What a call returns is the reply to its command. -/
theorem Inv.returned {s : Calls σ} (hi : Inv gatt f app P table s) {i future : ℕ} {r : Host.Response}
    (h : s.client.stage i = .returned future r) : ∃ before after, s.order = before ++ i :: after ∧
      r.data = (f (s.commandOf i) (f.after app (before.map s.commandOf))).packet (s.commandOf i) := by
  obtain ⟨k, hsent, hw⟩ := hi.link.correlated i future r h
  obtain ⟨hreached, hresp⟩ := List.getElem?_zip_eq_some.mp hsent
  obtain ⟨hcall, _⟩ := hi.call_of_write hw
  -- the call is in the order where its response is among the responses
  obtain ⟨hlt, hk⟩ := List.getElem?_eq_some_iff.mp hreached
  have hlt : r.number < s.reached.length := hlt
  have hlt' : r.number < s.order.length := by simpa [order] using hlt
  have hget : s.order[r.number] = i := by
    have hk : s.reached[r.number] = k := hk
    simp only [order, List.getElem_map, hk, hcall]
  have hsplit : s.order = s.order.take r.number ++ i :: s.order.drop (r.number + 1) := by
    rw [← hget, List.cons_getElem_drop_succ, List.take_append_drop]
  refine ⟨_, _, hsplit, ?_⟩
  have hlen : ((s.order.take r.number).map s.commandOf).length = r.number := by
    rw [List.length_map, List.length_take]
    omega
  have hmid := responses_history_mid f app ((s.order.take r.number).map s.commandOf)
    ((s.order.drop (r.number + 1)).map s.commandOf) (s.commandOf i)
  rw [← List.map_cons, ← List.map_append, ← hsplit, hlen, ← hi.written_eq] at hmid
  have hpre := List.prefix_iff_getElem?.mp hi.responses_prefix r.number (List.getElem?_eq_some_iff.mp hresp).1
  rw [hmid] at hpre
  exact (List.getElem?_eq_some_iff.mp hresp).2.symm.trans (Option.some.inj hpre).symm

/-- The invariant gives the order. -/
theorem Inv.linearized {s : Calls σ} (hi : Inv gatt f app P table s) : Linearized f app s where
  once := hi.nodup_order
  begun _ h := hi.lined.begun _ (hi.mem_writers h)
  written := hi.written_eq
  history := hi.written_eq ▸ hi.device.trace_prefix
  returned _ _ _ h := hi.returned h

/-- The calls so far keep their places. -/
theorem order_step {s s' : Calls σ} {e : Event} (hi : Inv gatt f app P table s)
    (h : s.step gatt table e = some s') : s.order <+: s'.order := by
  cases e with
  | loop e =>
    by_cases he : e.packets = [] ∧ s.Acknowledged e
    · simp only [step, if_pos he] at h
      obtain ⟨c, hc, rfl⟩ := Option.map_eq_some_iff.mp h
      obtain ⟨more, hmore⟩ := Host.Client.writes_step (Host.Client.step_moved hc)
      have hsame : ({ s with client := c } : Calls σ).order = s.order := by
        apply List.map_congr_left
        intro k hk
        have hlt : k < s.client.writers.length := by simpa [Host.Client.writers] using hi.reached_lt hk
        show c.writers.getD k 0 = _
        rw [Host.Client.writers, ← hmore, List.map_append]
        exact List.getD_append _ _ _ _ hlt
      exact hsame ▸ List.prefix_refl _
    · rw [step, if_neg he] at h
      cases h
  | reach k =>
    obtain ⟨i, packet, d, _, _, _, rfl⟩ := step_reach_inv h
    exact (List.prefix_append _ _).map _
  | work =>
    obtain ⟨w, _, rfl⟩ := Option.map_eq_some_iff.mp h
    exact List.prefix_refl _
  | deliver =>
    obtain ⟨data, _, rfl⟩ := Option.map_eq_some_iff.mp h
    have hsame : ({ s with client := (s.client.responseHandler data).1 } : Calls σ).order = s.order := by
      simp only [order, Host.Client.writers, (Host.Client.responseHandler_kept s.client data).writes]
    exact hsame ▸ List.prefix_refl _

/-- An event of the event loop is one of the client's. -/
theorem step_loop_inv {s s' : Calls σ} {e : Host.Client.Event} (h : s.step gatt table (.loop e) = some s') :
    ∃ c, s.client.step e = some c ∧ s' = { s with client := c } := by
  simp only [step] at h
  split at h
  · obtain ⟨c, hc, rfl⟩ := Option.map_eq_some_iff.mp h
    exact ⟨c, hc, rfl⟩
  · cases h

/-- Only its own start begins a call, and gives it its command. -/
theorem begun_step {s s' : Calls σ} {e : Event} {j : ℕ} (hi : Inv gatt f app P table s)
    (hnew : ∀ command, e ≠ .loop (.start j command)) (h : s.step gatt table e = some s') :
    (s'.client.stage j ≠ .idle → s.client.stage j ≠ .idle) ∧ s'.client.command j = s.client.command j := by
  cases e with
  | loop e =>
    obtain ⟨c, hc, rfl⟩ := step_loop_inv h
    exact Host.Client.begun_step hi.link.client (Host.Client.step_moved hc) fun command he => hnew command (he ▸ rfl)
  | reach k =>
    obtain ⟨i, packet, d, _, _, _, rfl⟩ := step_reach_inv h
    exact ⟨id, rfl⟩
  | work =>
    obtain ⟨w, _, rfl⟩ := Option.map_eq_some_iff.mp h
    exact ⟨id, rfl⟩
  | deliver =>
    obtain ⟨data, _, rfl⟩ := Option.map_eq_some_iff.mp h
    exact Host.Client.begun_step hi.link.client (.notified data) nofun

end Invariant

/-! ## Linearizability -/

/-- **The calls are linearizable.** In an orderly run the calls take effect one after another, as the service does, and
each returns the reply to its own command; a call that has returned before another starts comes before it. -/
theorem linearizable (gatt : GattServer σ) (f : Service σ) (P : Command → Prop) (table : List (Entry (Handler σ)))
    (ht : TableServes gatt f P table) (app : σ) (events events' : List Event)
    (ho : Meets (step gatt table) (Orderly table P) (init app) (events ++ events')) (s s' : Calls σ)
    (h : run (step gatt table) (init app) events = some s) (h' : run (step gatt table) s events' = some s') :
    Linearized f app s' ∧ ∀ i j future r, s.client.stage i = .returned future r → s.client.stage j = .idle →
      j ∈ s'.order → [i, j].Sublist s'.order := by
  have hi : Inv gatt f app P table s :=
    run_inv_of_meets (fun _ _ _ hi ho hs => inv_step ht hi ho hs) inv_init ho.take h
  have hkeep : Inv gatt f app P table s' ∧ s.order <+: s'.order := by
    refine run_inv_of_meets (I := fun t => Inv gatt f app P table t ∧ s.order <+: t.order) ?_ ⟨hi, List.prefix_refl _⟩
      (ho.drop h) h'
    intro t e t' ht' ho' hs
    exact ⟨inv_step ht ht'.1 ho' hs, ht'.2.trans (order_step ht'.1 hs)⟩
  refine ⟨hkeep.1.linearized, ?_⟩
  intro i j future r hret hidle hj
  obtain ⟨before, after, hsplit, _⟩ := hi.returned hret
  obtain ⟨more, hmore⟩ := hkeep.2
  rw [← hmore] at hj ⊢
  have hnew : j ∉ s.order := fun hmem => (hi.linearized.begun j hmem).1 hidle
  have hmem : i ∈ s.order := by rw [hsplit]; simp
  have hj : j ∈ more := (List.mem_append.mp hj).resolve_left hnew
  exact (List.singleton_sublist.mpr hmem).append (List.singleton_sublist.mpr hj)

instance (table : List (Entry (Handler σ))) (P : Command → Prop) [DecidablePred P] (s : LockStep σ) (c : Command) :
    Decidable (Ready table P s c) :=
  decidable_of_iff (s.MayWrite ∧ c.id ∈ tableIds table ∧ c.id ∉ tableIds s.worker.pc.rest ∧ P c)
    ⟨fun h => ⟨h.1, h.2.1, h.2.2.1, h.2.2.2⟩, fun h => ⟨h.mayWrite, h.known, h.clear, h.proper⟩⟩

instance (table : List (Entry (Handler σ))) (P : Command → Prop) [DecidablePred P] (s : Calls σ) :
    ∀ e, Decidable (s.Orderly table P e)
  | .reach k => inferInstanceAs (Decidable (∀ w ∈ s.client.writes[k]?, _))
  | .deliver => inferInstanceAs (Decidable (s.link.OnTime .deliver))
  | .loop _ | .work => isTrue trivial

/-- A second call starts while the first is under way. -/
def overlapping : List Event := List.flatten [
  [.loop (.connection true), .loop (.start 0 [0, 1, 1]), .loop (.start 1 [0, 1, 1]), .reach 0, .loop (.written 0)],
  List.replicate 17 .work,
  [.deliver, .loop (.resume 0)]]

/-- It gets the lock and writes while the worker has yet to find the end marker; a third call has come. -/
def overlapping' : List Event := List.flatten [
  [.loop .acquire, .loop (.start 2 [0, 1, 1]), .reach 1, .loop (.written 1)],
  List.replicate 18 .work,
  [.deliver, .loop (.resume 1)]]

/-- The first call counts 1, the second 2. -/
theorem linearizable_overlapping : ∃ s s', run (step (.plain 251) testRcpCallbacks) (init 0) overlapping = some s ∧
    run (step (.plain 251) testRcpCallbacks) s overlapping' = some s' ∧ s'.order = [0, 1] ∧
    s.client.stage 0 = .returned 0 ⟨0, [0, 4, 0, 0, 0, 1]⟩ ∧ s'.client.stage 1 = .returned 1 ⟨1, [0, 4, 0, 0, 0, 2]⟩ ∧
    Linearized Device.pingService 0 s' := by
  refine ⟨_, _, rfl, rfl, by decide +kernel, by decide +kernel, by decide +kernel, ?_⟩
  exact (linearizable (.plain 251) Device.pingService (fun c => c.payload ≠ []) testRcpCallbacks
    (Device.testRcpCallbacks_serves (by decide)) 0 overlapping overlapping' (by decide +kernel) _ _ rfl rfl).1

end Calls

end BleRpc
