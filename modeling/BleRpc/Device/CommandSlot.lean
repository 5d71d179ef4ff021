import BleRpc.Device.Dispatch
import BleRpc.Lib.Mailbox

/-!
# Command writes and worker iterations

Command writes and iterations of `rcpThread`, each atomic, in any order. All writes share `rpcProfile_command` and the
header fields of `rpc`, while the semaphore counts them: the device is a mailbox with one slot and a count
(`Lib/Mailbox.lean`), and `slot_sim` is the simulation.

`no_command_lost_iff`: once the semaphore is back to zero, the commands handed to callbacks are the accepted ones, in
order, iff no write that found the semaphore above zero brought a command other than the one in the slot.
-/

namespace BleRpc.Device

open Outcome Transition

variable {σ : Type}

/-- What a callback is handed: id, payload and length. -/
structure Command where
  id : UInt8
  payload : Bytes
  length : ℕ
  deriving DecidableEq

/-- The command a stored packet makes. -/
def Command.ofPacket (packet : Bytes) : Command where
  id := (padded packet).getD 0 0
  payload := ((padded packet).drop 2).take ((padded packet).getD 1 0).toNat
  length := ((padded packet).getD 1 0).toNat

/-- The command in the slot. -/
def Dev.slot (d : Dev σ) : Command := ⟨d.rpc.commandId, d.payload, d.rpc.commandLength⟩

/-- The commands handed to callbacks. -/
def handed (trace : List Observation) : List Command :=
  trace.filterMap fun
    | .called id data length => some ⟨id, data, length⟩
    | .sent _ _ => none

@[simp] theorem handed_append (t u : List Observation) : handed (t ++ u) = handed t ++ handed u :=
  List.filterMap_append

/-- Handed commands are dispatches. -/
theorem handed_dispatches (t : List Observation) : handed (dispatches t) = handed t :=
  filterMap_dispatches (fun _ => rfl) t

theorem Stored.slot {packet : Bytes} {d d' : Dev σ} (h : Stored packet d d') : d'.slot = Command.ofPacket packet := by
  rw [Dev.slot, h.payload, h.rpc]
  rfl

theorem Dispatched.handed {d d' : Dev σ} (h : Dispatched d d') : handed d'.trace = handed d.trace ++ [d.slot] := by
  obtain ⟨bytes, hb⟩ := h.dispatches
  rw [← handed_dispatches, hb, handed_append, handed_dispatches]
  rfl

/-- No action of a callback changes the command in the slot. -/
theorem Undisturbed.slot {d d' : Dev σ} (h : Undisturbed d d') (hcmd : d.rpc.command = some ⟨.rpcProfileCommand, 2⟩) :
    d'.slot = d.slot := by
  simp only [Dev.slot, Dev.payload, h.command, h.commandId, h.commandLength, hcmd, h.packet]

theorem Dispatched.slot {d d' : Dev σ} (h : Dispatched d d')
    (hcmd : d.rpc.command = some ⟨.rpcProfileCommand, 2⟩) : d'.slot = d.slot := by
  simp only [Dev.slot, Dev.payload, h.command, h.commandId, h.commandLength, hcmd, h.packet]

/-! ## The system -/

/-- The device and the packets it has accepted. -/
structure SlotState (σ : Type) where
  dev : Dev σ
  accepted : List Command

inductive SlotEvent
  /-- A write to E001, of a packet at an offset. -/
  | write (packet : Bytes) (offset : UInt16)
  /-- An iteration of the worker. -/
  | iterate

namespace SlotState

def init (app : σ) : SlotState σ := ⟨reset app, []⟩

/-- Writes that return `SUCCESS`, and iterations that neither block nor fault. -/
def step (gatt : GattServer σ) (table : List (Entry (Handler σ))) (s : SlotState σ) : SlotEvent → Option (SlotState σ)
  | .write packet offset =>
    match writeAttrCB gatt commandAttr packet offset s.dev with
    | .ok (d, .success) => some ⟨d, s.accepted ++ [Command.ofPacket packet]⟩
    | _ => none
  | .iterate => do
    let d ← rcpThreadIteration gatt (table.map (Entry.map (Handler.callback gatt))) s.dev
    return ⟨d, s.accepted⟩

/-- A write while earlier ones still wait, unless it repeats the command in the slot. -/
def QuietWrite (s : SlotState σ) : SlotEvent → Prop
  | .write packet _ => s.dev.rpc.commandReceivedSem = 0 ∨ s.dev.slot = Command.ofPacket packet
  | .iterate => True

instance (s : SlotState σ) : ∀ ev, Decidable (s.QuietWrite ev)
  | .write packet _ => inferInstanceAs (Decidable (s.dev.rpc.commandReceivedSem = 0 ∨ s.dev.slot = .ofPacket packet))
  | .iterate => isTrue trivial

/-- The write's id is in the table. -/
def Known (table : List (Entry (Handler σ))) : SlotEvent → Prop
  | .write packet _ => (Command.ofPacket packet).id ∈ tableIds table
  | .iterate => True

instance (table : List (Entry (Handler σ))) : ∀ ev, Decidable (Known table ev)
  | .write packet _ => inferInstanceAs (Decidable ((Command.ofPacket packet).id ∈ tableIds table))
  | .iterate => isTrue trivial

end SlotState

/-- The mailbox operation of an event. -/
def SlotEvent.op : SlotEvent → Mailbox.Op Command
  | .write packet _ => .put (Command.ofPacket packet)
  | .iterate => .take

/-- The mailbox the device implements. -/
structure Implements (table : List (Entry (Handler σ))) (s : SlotState σ) (m : Mailbox.Box Command) : Prop where
  installed : s.dev.Installed
  count : m.count = s.dev.rpc.commandReceivedSem
  puts : m.puts = s.accepted
  takes : m.takes = handed s.dev.trace
  /-- Before the first write there is nothing in the slot, and nothing to take. -/
  slot : m.slot = none ∧ m.count = 0 ∨ m.slot = some s.dev.slot ∧ s.dev.rpc.command = some ⟨.rpcProfileCommand, 2⟩ ∧
    s.dev.rpc.commandId ∈ tableIds table

theorem implements_init (table : List (Entry (Handler σ))) (app : σ) :
    Implements table (SlotState.init app) Mailbox.empty :=
  ⟨rfl, rfl, rfl, rfl, Or.inl ⟨rfl, rfl⟩⟩

section Simulation

variable {gatt : GattServer σ} {table : List (Entry (Handler σ))} {s s' : SlotState σ} {m : Mailbox.Box Command}

theorem step_write_inv {packet : Bytes} {offset : UInt16} (h : s.step gatt table (.write packet offset) = some s') :
    Stored packet s.dev s'.dev ∧ s'.accepted = s.accepted ++ [Command.ofPacket packet] := by
  simp only [SlotState.step, writeAttrCB_command] at h
  cases hw : writeCommand packet s.dev with
  | error e => simp [hw] at h
  | ok d =>
    simp only [hw, ok_bind, Option.some.injEq] at h
    subst h
    exact ⟨(writeCommand_inv hw).2, rfl⟩

theorem step_iterate_inv (h : s.step gatt table .iterate = some s') :
    ∃ d e, waitForCommand s.dev = some d ∧
      processEntries gatt (table.map (Entry.map (Handler.callback gatt))) d = .ok e ∧
      s' = ⟨e.countExecution, s.accepted⟩ := by
  simp only [SlotState.step, Option.bind_eq_bind, Option.bind_eq_some_iff, Option.pure_def, Option.some.injEq] at h
  obtain ⟨d', hd', rfl⟩ := h
  obtain ⟨d, e, hd, he, rfl⟩ := rcpThreadIteration_inv hd'
  exact ⟨d, e, hd, he, rfl⟩

/-- A write is a put. -/
theorem implements_write {packet : Bytes} {offset : UInt16} (hR : Implements table s m)
    (hk : (Command.ofPacket packet).id ∈ tableIds table) (h : s.step gatt table (.write packet offset) = some s') :
    ∃ m', Mailbox.step m (.put (Command.ofPacket packet)) = some m' ∧ Implements table s' m' := by
  obtain ⟨hst, hacc⟩ := step_write_inv h
  refine ⟨_, rfl, ⟨?_, ?_, ?_, ?_, Or.inr ⟨?_, ?_, ?_⟩⟩⟩
  · rw [Dev.Installed, hst.rpc]; exact hR.installed
  · rw [hst.rpc, hR.count]
  · rw [hacc, hR.puts]
  · rw [hst.trace]; exact hR.takes
  · rw [hst.slot]
  · rw [hst.rpc]
  · rw [hst.rpc]; exact hk

/-- An iteration is a take. -/
theorem implements_iterate (hn : (tableIds table).Nodup) (hR : Implements table s m)
    (h : s.step gatt table .iterate = some s') :
    ∃ m', Mailbox.step m .take = some m' ∧ Implements table s' m' := by
  obtain ⟨d, e, hw, he, rfl⟩ := step_iterate_inv h
  obtain ⟨hsem, hd⟩ := waitForCommand_inv hw
  obtain ⟨slot, count, puts, takes⟩ := m
  have hcount : count = d.rpc.commandReceivedSem + 1 := hR.count.trans hsem
  rcases hR.slot with ⟨_, hz⟩ | ⟨hslot, hcmd, hid⟩
  · simp only [hcount] at hz
    omega
  · simp only at hslot
    have hdslot : d.slot = s.dev.slot := by rw [hd]; rfl
    have hdcmd : d.rpc.command = some ⟨.rpcProfileCommand, 2⟩ := by rw [hd]; exact hcmd
    have hdid : d.rpc.commandId ∈ tableIds table := by rw [hd]; exact hid
    have hdins : d.Installed := by rw [hd]; exact hR.installed
    have hdtrace : d.trace = s.dev.trace := by rw [hd]
    have hdis := processEntries_distinct hdins hn hdid he
    subst hslot hcount
    refine ⟨_, rfl, ⟨hdis.installed, hdis.commandReceivedSem.symm, hR.puts, ?_, Or.inr ⟨?_, ?_, ?_⟩⟩⟩
    · exact (congrArg (· ++ [s.dev.slot]) hR.takes).trans (by rw [← hdslot, ← hdtrace]; exact hdis.handed.symm)
    · rw [← hdslot]; exact congrArg some (hdis.slot hdcmd).symm
    · exact hdis.command.trans hdcmd
    · show e.rpc.commandId ∈ tableIds table
      rw [hdis.commandId]; exact hdid

/-- **The device implements the mailbox.** -/
theorem slot_sim (hn : (tableIds table).Nodup) (s : SlotState σ) (m : Mailbox.Box Command) (ev : SlotEvent)
    (s' : SlotState σ) (hk : SlotState.Known table ev) (hR : Implements table s m)
    (h : s.step gatt table ev = some s') :
    ∃ m', Mailbox.step m ev.op = some m' ∧ Implements table s' m' := by
  cases ev with
  | write packet offset => exact implements_write hR hk h
  | iterate => exact implements_iterate hn hR h

/-- A quiet write is a quiet put. -/
theorem quiet_iff (s : SlotState σ) (m : Mailbox.Box Command) (ev : SlotEvent) (hR : Implements table s m) :
    s.QuietWrite ev ↔ Mailbox.Quiet m ev.op := by
  cases ev with
  | iterate => exact Iff.rfl
  | write packet offset =>
    simp only [SlotState.QuietWrite, SlotEvent.op, Mailbox.Quiet, ← hR.count]
    rcases hR.slot with ⟨hslot, hz⟩ | ⟨hslot, _⟩
    · simp [hz]
    · simp [hslot]

end Simulation

/-- **No accepted command is lost, run twice or reordered exactly when no write overwrites a different command that
still waits.** -/
theorem no_command_lost_iff (gatt : GattServer σ) (table : List (Entry (Handler σ))) (hn : (tableIds table).Nodup)
    (app : σ) (events : List SlotEvent) (hk : ∀ ev ∈ events, SlotState.Known table ev) (s : SlotState σ)
    (h : run (SlotState.step gatt table) (SlotState.init app) events = some s)
    (hz : s.dev.rpc.commandReceivedSem = 0) :
    handed s.dev.trace = s.accepted ↔
      Meets (SlotState.step gatt table) SlotState.QuietWrite (SlotState.init app) events := by
  have hinit := implements_init table app
  obtain ⟨m, hm, hR⟩ := run_sim (slot_sim hn) hk hinit h
  rw [meets_sim (slot_sim hn) quiet_iff hk hinit h, ← hR.takes, ← hR.puts]
  exact Mailbox.takes_eq_puts_iff hm (hR.count.trans hz)

/-- A callback that leaves everything as it is, for two ids. -/
def twoIdle : List (Entry (Handler Unit)) := [⟨0, some fun _ _ _ => .ret⟩, ⟨4, some fun _ _ _ => .ret⟩, ⟨0, none⟩]

/-- The second command is written twice before the worker takes it. -/
def repeated : List SlotEvent :=
  [.write [4, 2, 1, 2] 0, .iterate, .write [0, 1, 7] 0, .write [0, 1, 7] 0, .iterate, .iterate, .write [4, 0] 0,
    .iterate]

/-- Four commands are accepted, and handed over in order, the repeated one twice. -/
theorem no_command_lost_repeated : ∃ s,
    run (SlotState.step (.plain 251) twoIdle) (SlotState.init ()) repeated = some s ∧
    s.accepted = [⟨4, [1, 2], 2⟩, ⟨0, [7], 1⟩, ⟨0, [7], 1⟩, ⟨4, [], 0⟩] ∧ handed s.dev.trace = s.accepted :=
  ⟨_, rfl, by decide, (no_command_lost_iff (.plain 251) twoIdle (by decide) () repeated (by decide) _ rfl rfl).mpr
    (by decide)⟩

/-- A table of one callback that leaves everything as it is. -/
def idleTable : List (Entry (Handler Unit)) := [⟨0, some fun _ _ _ => .ret⟩, ⟨0, none⟩]

/-- Two commands written before the worker runs: the second is run twice, the first never. -/
theorem second_write_overwrites : ∃ s, run (SlotState.step (.plain 251) idleTable) (SlotState.init ())
      [.write [0, 1, 7] 0, .write [0, 1, 8] 0, .iterate, .iterate] = some s ∧ s.dev.rpc.commandReceivedSem = 0 ∧
        s.accepted = [⟨0, [7], 1⟩, ⟨0, [8], 1⟩] ∧ handed s.dev.trace = [⟨0, [8], 1⟩, ⟨0, [8], 1⟩] :=
  ⟨_, rfl, rfl, by decide, by decide⟩

end BleRpc.Device
