import BleRpc.Device.LockStep
import BleRpc.Device.ResponseRead
import Mathlib.Data.List.Induction

/-!
# The device as an atomic service

What the firmware is for, without steps: a service gives each command a reply, which is the callbacks' variables after
it, the notifications on the way, and the payload of the response (`Service`).

A device in lock step whose callbacks compute the replies refines the service: whatever the interleaving, its history
is at any time a beginning of the service's, it is the service's once all commands are answered, and until then the
worker can take a step (`Refined.spec`).
-/

namespace BleRpc.Device

open Outcome Transition

variable {σ : Type}

/-- What serving a command comes to. -/
structure Reply (σ : Type) where
  app : σ
  notifications : List Bytes
  payload : Bytes

/-- The packet on E002. -/
def Reply.packet (r : Reply σ) (c : Command) : Bytes := c.id :: UInt8.ofNat r.payload.length :: r.payload

/-- The notifications, as sent. -/
def Reply.notified (r : Reply σ) : List Observation := r.notifications.map (.sent .rpcNotification)

/-- The history of one command. -/
def Reply.history (r : Reply σ) (c : Command) : List Observation :=
  .called c.id c.payload c.length :: (r.notified ++ [.sent .rpcResponse (r.packet c)])

/-- The reply to each command, given the variables before it. -/
abbrev Service (σ : Type) := Command → σ → Reply σ

namespace Service

/-- The variables after some commands. -/
def after (f : Service σ) (app : σ) (cs : List Command) : σ := cs.foldl (fun app c => (f c app).app) app

/-- The history of some commands. -/
def history (f : Service σ) (app : σ) : List Command → List Observation
  | [] => []
  | c :: cs => (f c app).history c ++ history f (f c app).app cs

variable {f : Service σ} {app : σ}

theorem after_concat (cs : List Command) (c : Command) : f.after app (cs ++ [c]) = (f c (f.after app cs)).app := by
  simp [after]

theorem history_append (cs cs' : List Command) :
    f.history app (cs ++ cs') = f.history app cs ++ f.history (f.after app cs) cs' := by
  induction cs generalizing app with
  | nil => rfl
  | cons c cs ih =>
    simp only [List.cons_append, history, ih, List.append_assoc]
    rfl

theorem history_concat (cs : List Command) (c : Command) :
    f.history app (cs ++ [c]) = f.history app cs ++ (f c (f.after app cs)).history c := by
  simp [history_append, history]

theorem history_prefix {cs cs' : List Command} (h : cs <+: cs') : f.history app cs <+: f.history app cs' := by
  obtain ⟨rest, rfl⟩ := h
  rw [history_append]
  exact List.prefix_append _ _

/-- Notifications are no dispatches. -/
theorem marks_notified (r : Reply σ) : marks r.notified = [] := by
  simp [marks, Reply.notified]

/-- Each command is run once and answered once. -/
theorem marks_history (cs : List Command) : marks (f.history app cs) = cs.flatMap once := by
  induction cs generalizing app with
  | nil => rfl
  | cons c cs ih =>
    have hc : marks ((f c app).history c) = once c := by
      rw [Reply.history, ← List.singleton_append, marks_append, marks_append, marks_notified]
      rfl
    rw [history, marks_append, ih, hc, List.flatMap_cons]

theorem responses_notified (r : Reply σ) : responses r.notified = [] := by
  simp [responses, Reply.notified]

/-- One response a command. -/
theorem responses_history_concat (cs : List Command) (c : Command) :
    responses (f.history app (cs ++ [c])) = responses (f.history app cs) ++ [(f c (f.after app cs)).packet c] := by
  rw [history_concat, responses_append, Reply.history, ← List.singleton_append, responses_append, responses_append,
    responses_notified]
  rfl

theorem length_responses_history (cs : List Command) : (responses (f.history app cs)).length = cs.length := by
  induction cs using List.reverseRecOn with
  | nil => rfl
  | append_singleton cs c ih => rw [responses_history_concat, List.length_append, ih, List.length_append]; rfl

end Service

/-! ## Callbacks that compute replies -/

/-- A callback has returned with a reply, in a device with history `t` at the call. -/
structure Replied (gatt : GattServer σ) (r : Reply σ) (t : List Observation) (d : Dev σ) : Prop where
  app : d.app = r.app
  trace : d.trace = t ++ r.notified
  length : d.rpc.responseLength = r.payload.length
  payload : d.memory.loadFrom (.ptr d.rpc.response) r.payload.length = .ok r.payload
  fits : r.payload.length ≤ maxPayloadLength ∧ r.payload.length + 2 ≤ gatt.maxLen.toNat

/-- Called for a command that meets `P`, the callback returns with the service's reply. -/
def Handler.Serves (gatt : GattServer σ) (f : Service σ) (P : Command → Prop) (h : Handler σ) : Prop :=
  ∀ d : Dev σ, d.Installed → d.rpc.command = some ⟨.rpcProfileCommand, 2⟩ → P d.slot →
    ∃ d', (h d.rpc.commandId d.rpc.command d.rpc.commandLength).run gatt d = .ok d' ∧
      Replied gatt (f d.slot d.app) d.trace d'

/-- A table that ends, and whose callbacks serve the commands with their ids. -/
structure TableServes (gatt : GattServer σ) (f : Service σ) (P : Command → Prop) (table : List (Entry (Handler σ))) :
    Prop where
  nodup : (tableIds table).Nodup
  ended : ∃ e ∈ table, e.callback = none
  serves : ∀ e ∈ table, ∀ h, e.callback = some h → h.Serves gatt f fun c => P c ∧ c.id = e.id

/-- Served in one step: the history is longer by that of the command. -/
structure ServedBy (f : Service σ) (d d' : Dev σ) : Prop where
  app : d'.app = (f d.slot d.app).app
  trace : d'.trace = d.trace ++ (f d.slot d.app).history d.slot

/-- **A dispatch serves** the command when the callback does. -/
theorem Handler.Serves.dispatch_ok {gatt : GattServer σ} {f : Service σ} {P : Command → Prop} {h : Handler σ}
    {d : Dev σ} (hs : h.Serves gatt f P) (hd : d.Installed) (hcmd : d.rpc.command = some ⟨.rpcProfileCommand, 2⟩)
    (hP : P d.slot) : ∃ d', dispatch gatt (h.callback gatt) d = .ok d' ∧ Dispatched d d' ∧ ServedBy f d d' := by
  obtain ⟨e, hrun, hrep⟩ := hs d.label.call hd hcmd hP
  have hu : Undisturbed d.label.call e := undisturbed_run hd hrun
  have hout := outside_of_responseBuffer (hu.installed hd)
  have hload := hrep.payload
  have hfits := hrep.fits
  rw [← hrep.length] at hload hfits
  obtain ⟨m, hsend, _⟩ := sendResponse_ok gatt e.rpc.commandId hload hout hfits.1 hload hout hfits.2
  have hcb : h.callback gatt d.label.call.rpc.commandId d.label.call.rpc.command d.label.call.rpc.commandLength
      d.label.call = .ok e := hrun
  have hok : dispatch gatt (h.callback gatt) d = .ok ({ e with memory := m }.observe
      (.sent .rpcResponse (e.rpc.responseId :: UInt8.ofNat e.rpc.responseLength :: (f d.slot d.app).payload))) := by
    simp only [dispatch, hcb, ok_bind, hsend]
    rfl
  have hid : e.rpc.responseId = d.slot.id := hu.responseId
  refine ⟨_, hok, dispatch_inv hd hok, hrep.app, ?_⟩
  have hcalled : d.label.call.trace = d.trace ++ [.called d.slot.id d.slot.payload d.slot.length] := rfl
  have hnotified : (f d.label.call.slot d.label.call.app).notified = (f d.slot d.app).notified := rfl
  rw [Dev.observe_trace, hrep.trace, hcalled, hnotified, hid, hrep.length, Reply.history, List.append_assoc,
    List.append_assoc]
  rfl

/-- A table that ends and has no such id is passed over. -/
theorem processEntries_skip {gatt : GattServer σ} {table : List (Entry (Handler σ))} {d : Dev σ}
    (hend : ∃ e ∈ table, e.callback = none) (hid : d.rpc.commandId ∉ tableIds table) :
    processEntries gatt (table.map (Entry.map (Handler.callback gatt))) d = .ok d := by
  induction table with
  | nil =>
    obtain ⟨_, hmem, _⟩ := hend
    cases hmem
  | cons e rest ih =>
    obtain ⟨id, cb⟩ := e
    cases cb with
    | none => rfl
    | some cb =>
      rw [tableIds_some, List.mem_cons, not_or] at hid
      rw [List.map_cons, Entry.map, Option.map_some, processEntries, if_neg hid.1]
      exact ih (ended_tail rfl hend) hid.2

/-- **A scan serves** the command in the slot, if its id is in the table. -/
theorem TableServes.processEntries_ok {gatt : GattServer σ} {f : Service σ} {P : Command → Prop}
    {table : List (Entry (Handler σ))} {d : Dev σ} (ht : TableServes gatt f P table) (hd : d.Installed)
    (hcmd : d.rpc.command = some ⟨.rpcProfileCommand, 2⟩) (hP : P d.slot) (hid : d.rpc.commandId ∈ tableIds table) :
    ∃ d', processEntries gatt (table.map (Entry.map (Handler.callback gatt))) d = .ok d' ∧ Dispatched d d' ∧
      ServedBy f d d' := by
  obtain ⟨hn, hend, hserves⟩ := ht
  induction table with
  | nil => cases hid
  | cons e rest ih =>
    obtain ⟨id, cb⟩ := e
    cases cb with
    | none => cases hid
    | some cb =>
      rw [tableIds_some, List.nodup_cons] at hn
      rw [tableIds_some, List.mem_cons] at hid
      rw [List.map_cons, Entry.map, Option.map_some, processEntries]
      by_cases heq : d.rpc.commandId = id
      · obtain ⟨d', hok, hdis, hserved⟩ :=
          (hserves ⟨id, some cb⟩ List.mem_cons_self cb rfl).dispatch_ok hd hcmd ⟨hP, heq⟩
        -- the rest of the table has other ids
        have hrest : d'.rpc.commandId ∉ tableIds rest := by
          rw [hdis.commandId, heq]
          exact hn.1
        refine ⟨d', ?_, hdis, hserved⟩
        rw [if_pos heq, hok, ok_bind]
        exact processEntries_skip (ended_tail rfl hend) hrest
      · rw [if_neg heq]
        exact ih (hid.resolve_left heq) hn.2 (ended_tail rfl hend) fun e he => hserves e (List.mem_cons_of_mem _ he)

/-- A program that runs through can take its first action. -/
theorem Prog.act_of_run {gatt : GattServer σ} {p : Prog σ} {d d' : Dev σ} (h : p.run gatt d = .ok d') :
    ∃ r, p.act gatt d = .ok r := by
  rcases Relation.ReflTransGen.cases_head (Prog.reaches_of_run h) with heq | ⟨r, hact, _⟩
  · cases heq
    exact ⟨_, rfl⟩
  · exact ⟨r, hact⟩

/-- The call of the command in the slot. -/
def Dev.calling (d : Dev σ) : Observation := .called d.slot.id d.slot.payload d.slot.length

namespace LockStep

/-- The commands answered so far. -/
def answered (s : LockStep σ) : List Command :=
  s.written.take ((marks s.worker.dev.trace).countP Mark.isAnswer)

/-- The handler about to be called. -/
def target : Pc σ → Option (Handler σ)
  | .matched h _ | .labelled h _ => some h
  | _ => none

/-- The worker is inside the table, and the handler about to be called is that of the command's id. -/
structure Sited (table : List (Entry (Handler σ))) (w : Worker σ) : Prop where
  mem : ∀ e ∈ w.pc.rest, e ∈ table
  ended : w.pc = .waiting ∨ ∃ e ∈ w.pc.rest, e.callback = none
  entry : ∀ h, target w.pc = some h → ∃ e ∈ table, e.callback = some h ∧ e.id = w.dev.rpc.commandId

/-- The device next to the service: between callbacks it is where the service is after the commands answered; a
callback under way will return with the service's reply. -/
inductive Tracked (gatt : GattServer σ) (f : Service σ) (app : σ) : LockStep σ → Prop
  | still {s : LockStep σ} (hpc : ∀ p rest, s.worker.pc ≠ .running p rest)
    (htrace : s.worker.dev.trace = f.history app s.answered) (happ : s.worker.dev.app = f.after app s.answered) :
    Tracked gatt f app s
  | running {s : LockStep σ} {p : Prog σ} {rest : List (Entry (Handler σ))} {d' : Dev σ}
    (hpc : s.worker.pc = .running p rest) (hrun : p.run gatt s.worker.dev = .ok d')
    (hrep : Replied gatt (f s.worker.dev.slot (f.after app s.answered))
      (f.history app s.answered ++ [s.worker.dev.calling]) d') :
    Tracked gatt f app s

structure Refined (gatt : GattServer σ) (f : Service σ) (app : σ) (P : Command → Prop)
    (table : List (Entry (Handler σ))) (s : LockStep σ) : Prop where
  inv : Inv table s
  sited : Sited table s.worker
  tracked : Tracked gatt f app s
  proper : ∀ c ∈ s.written, P c

/-! ## The commands answered -/

/-- With every command answered, those are the commands answered. -/
theorem answered_of_all {s : LockStep σ} (hm : marks s.worker.dev.trace = s.written.flatMap once) :
    s.answered = s.written := by
  simp [answered, hm, countP_once]

/-- With every command answered, the client may write. -/
theorem mayWrite_of_all {s : LockStep σ} (hm : marks s.worker.dev.trace = s.written.flatMap once) : s.MayWrite := by
  simp [MayWrite, hm, countP_once]

/-- With a command pending, those before it are answered. -/
theorem Pending.answered {d : Dev σ} {written : List Command} {ms : List Mark} (h : Pending d written ms) (pc : Pc σ)
    (hms : ms.countP Mark.isAnswer = 0) :
    written = (⟨⟨pc, d⟩, written⟩ : LockStep σ).answered ++ [d.slot] := by
  obtain ⟨done, hw, hm⟩ := h.ends
  have hcount : (marks d.trace).countP Mark.isAnswer = done.length := by
    rw [hm, List.countP_append, countP_once, hms, Nat.add_zero]
  simp [LockStep.answered, hcount, hw]

/-- The commands answered depend on the number of answers only. -/
theorem answered_congr {s s' : LockStep σ} (hw : s'.written = s.written)
    (hm : (marks s'.worker.dev.trace).countP Mark.isAnswer = (marks s.worker.dev.trace).countP Mark.isAnswer) :
    s'.answered = s.answered := by
  rw [answered, answered, hw, hm]

section Refinement

variable {gatt : GattServer σ} {f : Service σ} {app : σ} {P : Command → Prop} {table : List (Entry (Handler σ))}

/-- A step outside callbacks that leaves history and variables alone. -/
theorem Tracked.still_congr {s s' : LockStep σ} (h : Tracked gatt f app s)
    (hpc : ∀ p rest, s.worker.pc ≠ .running p rest) (hpc' : ∀ p rest, s'.worker.pc ≠ .running p rest)
    (hw : s'.written = s.written) (ht : s'.worker.dev.trace = s.worker.dev.trace)
    (ha : s'.worker.dev.app = s.worker.dev.app) : Tracked gatt f app s' := by
  have hans : s'.answered = s.answered := answered_congr hw (by rw [ht])
  cases h with
  | still _ htrace happ => exact .still hpc' (by rw [ht, hans]; exact htrace) (by rw [ha, hans]; exact happ)
  | running hrun => exact absurd hrun (hpc _ _)

/-- The history and the variables of a worker between callbacks. -/
theorem Tracked.of_still {s : LockStep σ} (h : Tracked gatt f app s) (hpc : ∀ p rest, s.worker.pc ≠ .running p rest) :
    s.worker.dev.trace = f.history app s.answered ∧ s.worker.dev.app = f.after app s.answered := by
  cases h with
  | still _ htrace happ => exact ⟨htrace, happ⟩
  | running hrun => exact absurd hrun (hpc _ _)

/-- The call: the callback will return with the service's reply. -/
theorem tracked_call {d : Dev σ} {h : Handler σ} {rest : List (Entry (Handler σ))} {written : List Command}
    (ht : TableServes gatt f P table) (hi : Refined gatt f app P table ⟨⟨.labelled h rest, d⟩, written⟩) :
    Tracked gatt f app ⟨⟨.running (h d.rpc.commandId d.rpc.command d.rpc.commandLength) rest, d.call⟩, written⟩ := by
  obtain ⟨e, he, hcb, hid⟩ := hi.sited.entry h rfl
  obtain ⟨htrace, happ⟩ := hi.tracked.of_still nofun
  cases hi.inv.phase with
  | labelled hp hsem hid' hlabel =>
    have hwritten := hp.answered (.labelled h rest) rfl
    have hslot : P d.slot := hi.proper _ (by rw [hwritten]; simp)
    obtain ⟨d', hrun, hrep⟩ := ht.serves e he h hcb d.call hi.inv.installed hp.command ⟨hslot, hid.symm⟩
    have hans : (⟨⟨.running (h d.rpc.commandId d.rpc.command d.rpc.commandLength) rest, d.call⟩, written⟩ :
        LockStep σ).answered = (⟨⟨.labelled h rest, d⟩, written⟩ : LockStep σ).answered := by
      refine answered_congr rfl ?_
      rw [Dev.call, Dev.observe_trace, marks_append, List.countP_append]
      rfl
    refine .running rfl hrun ?_
    rw [hans, ← htrace, ← happ]
    exact hrep

/-- An action brings the callback closer to its return. -/
theorem tracked_act {d d' : Dev σ} {p p' : Prog σ} {rest : List (Entry (Handler σ))} {written : List Command}
    (hi : Refined gatt f app P table ⟨⟨.running p rest, d⟩, written⟩) (hact : p.act gatt d = .ok (p', d')) :
    Tracked gatt f app ⟨⟨.running p' rest, d'⟩, written⟩ := by
  have hu := undisturbed_act hi.inv.installed hact
  have hans : (⟨⟨.running p' rest, d'⟩, written⟩ : LockStep σ).answered =
      (⟨⟨.running p rest, d⟩, written⟩ : LockStep σ).answered := answered_congr rfl (by rw [hu.marks])
  cases hi.inv.phase with
  | running hp hsem hid hlabel =>
    have hslot : d'.slot = d.slot := hu.slot hp.command
    cases hi.tracked with
    | still hpc => exact absurd rfl (hpc p rest)
    | running hpc hrun hrep =>
      cases hpc
      refine .running rfl ((Prog.run_of_act hact).symm.trans hrun) ?_
      rw [hans]
      simp only [hslot, Dev.calling]
      exact hrep

/-- The response goes out: the service has answered one more command. -/
theorem tracked_send {d d' : Dev σ} {rest : List (Entry (Handler σ))} {written : List Command} {status : Status}
    (hi : Refined gatt f app P table ⟨⟨.running .ret rest, d⟩, written⟩)
    (hsend : sendResponse gatt d.rpc.commandId d.rpc.response d.rpc.responseLength d = .ok (d', status)) :
    Tracked gatt f app ⟨⟨.scanning rest, d'⟩, written⟩ := by
  obtain ⟨m, live, _, _, _, hload, _, rfl⟩ := sendResponse_inv (outside_of_responseBuffer hi.inv.installed) hsend
  cases hi.inv.phase with
  | running hp hsem hid hlabel =>
    have hwritten := hp.answered (.running .ret rest) rfl
    cases hi.tracked with
    | still hpc => exact absurd rfl (hpc .ret rest)
    | running hpc hrun hrep =>
      cases hpc
      cases hrun
      -- the packet sent is the service's
      have hpay := hrep.payload
      rw [← hrep.length, hload] at hpay
      have hlive := Except.ok.inj hpay
      have hsent : d.trace ++ [.sent .rpcResponse (d.rpc.responseId :: UInt8.ofNat d.rpc.responseLength :: live)] =
          f.history app written := by
        rw [hwritten, Service.history_concat, hrep.trace, hrep.length, hlabel, hlive, List.append_assoc,
          List.append_assoc]
        rfl
      have hall : (⟨⟨.scanning rest, { d with memory := m }.observe
          (.sent .rpcResponse (d.rpc.responseId :: UInt8.ofNat d.rpc.responseLength :: live))⟩, written⟩ :
          LockStep σ).answered = written := by
        apply answered_of_all
        show marks (d.trace ++ _) = _
        rw [hsent, Service.marks_history]
      refine .still nofun ?_ ?_
      · rw [hall]
        exact hsent
      · rw [hall, hwritten, Service.after_concat]
        exact hrep.app

/-! ## Steps -/

theorem refined_init (app : σ) : Refined gatt f app P table (init app) :=
  ⟨inv_init app, ⟨nofun, .inl rfl, nofun⟩, .still nofun rfl rfl, nofun⟩

/-- The worker stays inside the table. -/
theorem sited_work {w w' : Worker σ} (ht : TableServes gatt f P table) (hs : Sited table w) (hd : w.dev.Installed)
    (hw : Worker.Worked gatt table w w') : Sited table w' := by
  have hend : ∀ {rest : List (Entry (Handler σ))}, w.pc ≠ .waiting → w.pc.rest = rest →
      ∃ e ∈ rest, e.callback = none := by
    intro rest hne hrest
    rw [← hrest]
    exact hs.ended.resolve_left hne
  cases hw with
  | wait hsem => exact ⟨fun e he => he, .inr ht.ended, nofun⟩
  | finish => exact ⟨nofun, .inl rfl, nofun⟩
  | skip hne =>
    refine ⟨fun e he => hs.mem e (List.mem_cons_of_mem _ he), .inr ?_, nofun⟩
    exact ended_tail rfl (hend nofun rfl)
  | hit heq =>
    refine ⟨fun e he => hs.mem e (List.mem_cons_of_mem _ he), .inr ?_, ?_⟩
    · exact ended_tail rfl (hend nofun rfl)
    · intro h hh
      cases hh
      exact ⟨_, hs.mem _ List.mem_cons_self, rfl, heq.symm⟩
  | label => exact ⟨hs.mem, .inr (hend nofun rfl), hs.entry⟩
  | call => exact ⟨hs.mem, .inr (hend nofun rfl), nofun⟩
  | act => exact ⟨hs.mem, .inr (hend nofun rfl), nofun⟩
  | send => exact ⟨hs.mem, .inr (hend nofun rfl), nofun⟩

/-- **A step of the worker keeps the refinement.** -/
theorem refined_work {w w' : Worker σ} {written : List Command} (ht : TableServes gatt f P table)
    (hi : Refined gatt f app P table ⟨w, written⟩) (h : w.step gatt table = some w') :
    Refined gatt f app P table ⟨w', written⟩ := by
  have hinv := inv_work ht.nodup hi.inv h
  have hw := Worker.step_worked h
  refine ⟨hinv, sited_work ht hi.sited hi.inv.installed hw, ?_, hi.proper⟩
  have htr := hi.tracked
  cases hw with
  | wait | finish | skip | hit | label => exact htr.still_congr nofun nofun rfl rfl rfl
  | call => exact tracked_call ht hi
  | act _ hact => exact tracked_act hi hact
  | send hsend => exact tracked_send hi hsend

/-- While the client may write, no callback is about to be called or under way. -/
theorem idle_of_mayWrite {s : LockStep σ} (hi : Inv table s) (hmay : s.MayWrite) :
    target s.worker.pc = none ∧ ∀ p rest, s.worker.pc ≠ .running p rest := by
  obtain ⟨⟨pc, d⟩, written⟩ := s
  cases hi.phase with
  | idle | served => exact ⟨rfl, nofun⟩
  | posted hp | sought hp | matched hp | labelled hp | running hp | postedEarly hp =>
    exact absurd hmay (hp.not_mayWrite rfl)

/-- **A write keeps the refinement**, under the conditions of the lock step. -/
theorem refined_write {s s' : LockStep σ} {packet : Bytes} (hi : Refined gatt f app P table s)
    (hk : (Command.ofPacket packet).id ∈ tableIds table)
    (hc : (Command.ofPacket packet).id ∉ tableIds s.worker.pc.rest) (hP : P (Command.ofPacket packet))
    (h : s.step gatt table (.write packet) = some s') : Refined gatt f app P table s' := by
  have hinv := inv_write hi.inv hk hc h
  obtain ⟨hmay, d, hst, rfl⟩ := step_write_inv h
  have hall := hi.inv.exactlyOnce.complete hmay
  obtain ⟨htarget, hnot⟩ := idle_of_mayWrite hi.inv hmay
  obtain ⟨htrace, happ⟩ := hi.tracked.of_still hnot
  have hans : (⟨⟨s.worker.pc, d⟩, s.written ++ [Command.ofPacket packet]⟩ : LockStep σ).answered = s.answered := by
    rw [answered_of_all hall]
    simp [answered, hst.trace, hall, countP_once]
  refine ⟨hinv, ⟨hi.sited.mem, hi.sited.ended, ?_⟩, .still hnot ?_ ?_, ?_⟩
  · intro h hh
    have hh : target s.worker.pc = some h := hh
    rw [htarget] at hh
    cases hh
  · rw [hans]
    exact hst.trace.trans htrace
  · rw [hans]
    exact hst.app.trans happ
  · intro c hc
    rcases List.mem_append.mp hc with hc | hc
    · exact hi.proper c hc
    · rw [List.mem_singleton.mp hc]
      exact hP

/-! ## What the refinement gives -/

/-- A callback adds to the history. -/
theorem trace_of_reaches {s t : Prog σ × Dev σ} (hr : Reaches gatt s t) : s.2.trace <+: t.2.trace := by
  induction hr with
  | refl => exact List.prefix_refl _
  | tail _ hact ih => exact ih.trans (Worker.trace_act hact)

/-- The history is a beginning of the service's. -/
theorem Refined.trace_prefix {s : LockStep σ} (hi : Refined gatt f app P table s) :
    s.worker.dev.trace <+: f.history app s.written := by
  have hans : s.answered <+: s.written := List.take_prefix _ _
  cases hi.tracked with
  | still _ htrace _ =>
    rw [htrace]
    exact Service.history_prefix hans
  | @running p rest d' hpc hrun hrep =>
    obtain ⟨⟨pc, d⟩, written⟩ := s
    cases hpc
    cases hi.inv.phase with
    | running hp =>
      have hwritten := hp.answered (.running p rest) rfl
      have hend := trace_of_reaches (Prog.reaches_of_run hrun)
      rw [hrep.trace, List.append_assoc] at hend
      show d.trace <+: f.history app written
      rw [hwritten, Service.history_concat]
      exact hend.trans ((List.prefix_append_right_inj _).mpr ⟨_, rfl⟩)

/-- A first entry with a callback, or the end marker. -/
theorem step_scanning {d : Dev σ} {rest : List (Entry (Handler σ))} (hend : ∃ e ∈ rest, e.callback = none) :
    ∃ w', (⟨.scanning rest, d⟩ : Worker σ).step gatt table = some w' := by
  cases rest with
  | nil => simp at hend
  | cons e rest =>
    obtain ⟨id, cb⟩ := e
    cases cb with
    | none => exact ⟨_, rfl⟩
    | some h =>
      by_cases hid : d.rpc.commandId = id
      · exact ⟨_, if_pos hid⟩
      · exact ⟨_, if_neg hid⟩

/-- A callback under way takes its next action, or its response is sent. -/
theorem step_running {d d' : Dev σ} {p : Prog σ} {rest : List (Entry (Handler σ))} {r : Reply σ}
    {t : List Observation} (hins : d.Installed) (hrun : p.run gatt d = .ok d') (hrep : Replied gatt r t d') :
    ∃ w', (⟨.running p rest, d⟩ : Worker σ).step gatt table = some w' := by
  by_cases hp : p = .ret
  · subst hp
    cases hrun
    have hout := outside_of_responseBuffer hins
    obtain ⟨m, hsend, _⟩ := sendResponse_ok gatt d.rpc.commandId (hrep.length.symm ▸ hrep.payload) hout
      (hrep.length.symm ▸ hrep.fits.1) (hrep.length.symm ▸ hrep.payload) hout (hrep.length.symm ▸ hrep.fits.2)
    exact ⟨_, by simp only [Worker.step, hsend]; rfl⟩
  · obtain ⟨r, hr⟩ := Prog.act_of_run hrun
    cases p with
    | ret => exact absurd rfl hp
    | _ => exact ⟨_, by simp only [Worker.step, hr]; rfl⟩

/-- The worker is not stuck while a command waits for its answer. -/
theorem Refined.alive {s : LockStep σ} (hi : Refined gatt f app P table s) (hmay : ¬ s.MayWrite) :
    ∃ w', s.worker.step gatt table = some w' := by
  obtain ⟨⟨pc, d⟩, written⟩ := s
  have hend := hi.sited.ended
  cases hi.inv.phase with
  | idle hm => exact absurd (mayWrite_of_all hm) hmay
  | posted hp hone => exact ⟨_, by simp only [Worker.step, waitForCommand, hone]; rfl⟩
  | sought | served | postedEarly =>
    apply step_scanning
    rcases hend with hpc | hend
    · cases hpc
    · exact hend
  | matched | labelled => exact ⟨_, rfl⟩
  | @running _ _ p rest =>
    cases hi.tracked with
    | still hpc => exact absurd rfl (hpc p rest)
    | running hpc hrun hrep =>
      cases hpc
      exact step_running hi.inv.installed hrun hrep

/-- **The device refines the service.** Its history is a beginning of the service's, and all of it once every command
is answered; until then the worker can take a step. -/
theorem Refined.spec {s : LockStep σ} (hi : Refined gatt f app P table s) :
    s.worker.dev.trace <+: f.history app s.written ∧
      (s.MayWrite → s.worker.dev.trace = f.history app s.written) ∧
      (¬ s.MayWrite → ∃ w', s.worker.step gatt table = some w') := by
  refine ⟨hi.trace_prefix, ?_, hi.alive⟩
  intro hmay
  rw [← answered_of_all (hi.inv.exactlyOnce.complete hmay)]
  exact (hi.tracked.of_still (idle_of_mayWrite hi.inv hmay).2).1

/-- **The refinement in every run** whose commands are the service's and whose writes are clear of the current scan. -/
theorem refined_run (ht : TableServes gatt f P table) (app : σ) {events : List Event} {s : LockStep σ}
    (hk : ∀ e ∈ events, Known table e ∧ ∀ packet, e = .write packet → P (Command.ofPacket packet))
    (hc : Meets (step gatt table) Clear (init app) events) (h : run (step gatt table) (init app) events = some s) :
    Refined gatt f app P table s := by
  have hm := (meets_of_forall hk).and hc
  refine run_inv_of_meets ?_ (refined_init app) hm h
  intro s e s' hi hg hs
  cases e with
  | write packet => exact refined_write hi hg.1.1 hg.2 (hg.1.2 packet rfl) hs
  | work =>
    obtain ⟨w, hw, rfl⟩ := Option.map_eq_some_iff.mp hs
    exact refined_work ht hi hw

end Refinement

end LockStep

end BleRpc.Device
