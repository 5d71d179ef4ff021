import BleRpc.Device.CommandSlot
import BleRpc.Device.Worker

/-!
# A client in lock step

The client writes a command once every command before it has been answered, as `send_command` does under its lock. The
answer is sent from inside the scan of the callback table, so the next command may be stored while the worker still
tests the remaining entries against `rpc->command_id`.

`lock_step_exactly_once`: each command is run once and answered once, in order, if no command is written whose id is
among the entries the current scan has yet to test.
-/

namespace BleRpc.Device

open Outcome Transition

variable {σ : Type}

/-- A command run, or a response sent with an id. -/
inductive Mark
  | ran (c : Command)
  | answered (id : UInt8)
  deriving DecidableEq

def Mark.isAnswer : Mark → Bool
  | .ran _ => false
  | .answered _ => true

/-- The history without notifications. -/
def marks (trace : List Observation) : List Mark :=
  trace.filterMap fun
    | .called id data length => some (.ran ⟨id, data, length⟩)
    | .sent .rpcResponse value => some (.answered (value.headD 0))
    | _ => none

/-- What a command leaves in the history when all goes well. -/
def once (c : Command) : List Mark := [.ran c, .answered c.id]

@[simp] theorem marks_append (t u : List Observation) : marks (t ++ u) = marks t ++ marks u :=
  List.filterMap_append

theorem marks_dispatches (t : List Observation) : marks (dispatches t) = marks t :=
  filterMap_dispatches (fun _ => rfl) t

/-- Each command answered once makes one answer a command. -/
theorem countP_once (cs : List Command) : (cs.flatMap once).countP Mark.isAnswer = cs.length := by
  induction cs with
  | nil => rfl
  | cons c cs ih =>
    rw [List.flatMap_cons, List.countP_append, ih, List.length_cons, Nat.add_comm]
    rfl

/-- What the callbacks do not touch makes the same history. -/
theorem Undisturbed.marks {d d' : Dev σ} (h : Undisturbed d d') : marks d'.trace = marks d.trace := by
  rw [← marks_dispatches, h.dispatches, marks_dispatches]

/-! ## The system -/

/-- Device and worker, and the commands written. -/
structure LockStep (σ : Type) where
  worker : Worker σ
  written : List Command

namespace LockStep

inductive Event
  /-- The client writes its next command packet to E001. -/
  | write (packet : Bytes)
  /-- A step of the worker. -/
  | work

def init (app : σ) : LockStep σ := ⟨⟨.waiting, reset app⟩, []⟩

/-- Every command written has been answered. -/
def MayWrite (s : LockStep σ) : Prop := s.written.length ≤ (marks s.worker.dev.trace).countP Mark.isAnswer

instance (s : LockStep σ) : Decidable s.MayWrite := inferInstanceAs (Decidable (_ ≤ _))

def step (gatt : GattServer σ) (table : List (Entry (Handler σ))) (s : LockStep σ) : Event → Option (LockStep σ)
  | .write packet =>
    if s.MayWrite then
      match writeAttrCB gatt commandAttr packet 0 s.worker.dev with
      | .ok (d, .success) => some ⟨⟨s.worker.pc, d⟩, s.written ++ [Command.ofPacket packet]⟩
      | _ => none
    else none
  | .work => (s.worker.step gatt table).map fun w => ⟨w, s.written⟩

/-- The write's id is in the table. -/
def Known (table : List (Entry (Handler σ))) : Event → Prop
  | .write packet => (Command.ofPacket packet).id ∈ tableIds table
  | .work => True

/-- The write's id is not among the entries the current scan has yet to test. -/
def Clear (s : LockStep σ) : Event → Prop
  | .write packet => (Command.ofPacket packet).id ∉ tableIds s.worker.pc.rest
  | .work => True

/-- Commands are run and answered once each, in the order they were written; while the client waits, the worker does
not block. -/
structure ExactlyOnce (s : LockStep σ) : Prop where
  inOrder : marks s.worker.dev.trace <+: s.written.flatMap once
  complete : s.MayWrite → marks s.worker.dev.trace = s.written.flatMap once
  alive : ¬ s.MayWrite → ¬ s.worker.Blocked

/-! ## The phases of a command -/

/-- The last command written is in the slot, and the history is that of the commands before it and `ms`. -/
structure Pending (d : Dev σ) (written : List Command) (ms : List Mark) : Prop where
  ends : ∃ done, written = done ++ [d.slot] ∧ marks d.trace = done.flatMap once ++ ms
  command : d.rpc.command = some ⟨.rpcProfileCommand, 2⟩

/-- Worker, semaphore and history while a command goes through the device. -/
inductive Phase (table : List (Entry (Handler σ))) : LockStep σ → Prop
  | idle {d : Dev σ} {written : List Command} (hm : marks d.trace = written.flatMap once)
    (hsem : d.rpc.commandReceivedSem = 0) : Phase table ⟨⟨.waiting, d⟩, written⟩
  | posted {d : Dev σ} {written : List Command} (hp : Pending d written []) (hsem : d.rpc.commandReceivedSem = 1)
    (hid : d.rpc.commandId ∈ tableIds table) : Phase table ⟨⟨.waiting, d⟩, written⟩
  | sought {d : Dev σ} {written : List Command} {rest : List (Entry (Handler σ))} (hp : Pending d written [])
    (hsem : d.rpc.commandReceivedSem = 0) (hid : d.rpc.commandId ∈ tableIds rest) :
    Phase table ⟨⟨.scanning rest, d⟩, written⟩
  | matched {d : Dev σ} {written : List Command} {h : Handler σ} {rest : List (Entry (Handler σ))}
    (hp : Pending d written []) (hsem : d.rpc.commandReceivedSem = 0) (hid : d.rpc.commandId ∉ tableIds rest) :
    Phase table ⟨⟨.matched h rest, d⟩, written⟩
  | labelled {d : Dev σ} {written : List Command} {h : Handler σ} {rest : List (Entry (Handler σ))}
    (hp : Pending d written []) (hsem : d.rpc.commandReceivedSem = 0) (hid : d.rpc.commandId ∉ tableIds rest)
    (hlabel : d.rpc.responseId = d.rpc.commandId) : Phase table ⟨⟨.labelled h rest, d⟩, written⟩
  | running {d : Dev σ} {written : List Command} {p : Prog σ} {rest : List (Entry (Handler σ))}
    (hp : Pending d written [.ran d.slot]) (hsem : d.rpc.commandReceivedSem = 0)
    (hid : d.rpc.commandId ∉ tableIds rest) (hlabel : d.rpc.responseId = d.rpc.commandId) :
    Phase table ⟨⟨.running p rest, d⟩, written⟩
  | served {d : Dev σ} {written : List Command} {rest : List (Entry (Handler σ))}
    (hm : marks d.trace = written.flatMap once) (hsem : d.rpc.commandReceivedSem = 0)
    (hid : d.rpc.commandId ∉ tableIds rest) : Phase table ⟨⟨.scanning rest, d⟩, written⟩
  /-- The next command is there while the scan for the last goes on. -/
  | postedEarly {d : Dev σ} {written : List Command} {rest : List (Entry (Handler σ))} (hp : Pending d written [])
    (hsem : d.rpc.commandReceivedSem = 1) (hid : d.rpc.commandId ∈ tableIds table)
    (hclear : d.rpc.commandId ∉ tableIds rest) : Phase table ⟨⟨.scanning rest, d⟩, written⟩

structure Inv (table : List (Entry (Handler σ))) (s : LockStep σ) : Prop where
  installed : s.worker.dev.Installed
  nodup : (tableIds s.worker.pc.rest).Nodup
  phase : Phase table s

variable {gatt : GattServer σ} {table : List (Entry (Handler σ))}

theorem inv_init (app : σ) : Inv table (init app) := ⟨rfl, List.nodup_nil, .idle rfl rfl⟩

/-- With a command pending, the client waits. -/
theorem Pending.not_mayWrite {d : Dev σ} {pc : Pc σ} {written : List Command} {ms : List Mark}
    (h : Pending d written ms) (hms : ms.countP Mark.isAnswer = 0) : ¬ (⟨⟨pc, d⟩, written⟩ : LockStep σ).MayWrite := by
  intro hmay
  obtain ⟨done, hw, hm⟩ := h.ends
  have hlen : written.length = done.length + 1 := by rw [hw]; simp
  have hans : (marks d.trace).countP Mark.isAnswer = done.length := by
    rw [hm, List.countP_append, countP_once, hms, Nat.add_zero]
  have : written.length ≤ (marks d.trace).countP Mark.isAnswer := hmay
  omega

/-- A pending command's history grows with the worker's. -/
theorem Pending.isPrefix {d : Dev σ} {written : List Command} {ms : List Mark} (h : Pending d written ms)
    (hms : ms <+: once d.slot) : marks d.trace <+: written.flatMap once := by
  obtain ⟨done, hw, hm⟩ := h.ends
  rw [hm, hw, List.flatMap_append, List.flatMap_singleton]
  exact (List.prefix_append_right_inj _).mpr hms

/-- Steps that keep the slot and the history keep what is pending. -/
theorem Pending.congr {d d' : Dev σ} {written : List Command} {ms : List Mark} (h : Pending d written ms)
    (hslot : d'.slot = d.slot) (hm : marks d'.trace = marks d.trace) (hcmd : d'.rpc.command = d.rpc.command) :
    Pending d' written ms := by
  refine ⟨?_, hcmd.trans h.command⟩
  rw [hslot, hm]
  exact h.ends

/-! ## Steps -/

instance (table : List (Entry (Handler σ))) : ∀ e, Decidable (Known table e)
  | .write packet => inferInstanceAs (Decidable ((Command.ofPacket packet).id ∈ tableIds table))
  | .work => isTrue trivial

instance (s : LockStep σ) : ∀ e, Decidable (s.Clear e)
  | .write packet => inferInstanceAs (Decidable ((Command.ofPacket packet).id ∉ tableIds s.worker.pc.rest))
  | .work => isTrue trivial

/-- The client writes when every command has been answered. -/
theorem step_write_inv {s s' : LockStep σ} {packet : Bytes} (h : s.step gatt table (.write packet) = some s') :
    s.MayWrite ∧ ∃ d, Stored packet s.worker.dev d ∧
      s' = ⟨⟨s.worker.pc, d⟩, s.written ++ [Command.ofPacket packet]⟩ := by
  simp only [step, writeAttrCB_command] at h
  by_cases hmay : s.MayWrite
  · rw [if_pos hmay] at h
    cases hw : writeCommand packet s.worker.dev with
    | error e => simp [hw] at h
    | ok d =>
      simp only [hw, ok_bind, Option.some.injEq] at h
      exact ⟨hmay, d, (writeCommand_inv hw).2, h.symm⟩
  · rw [if_neg hmay] at h
    cases h

/-- After a write, the command is pending. -/
theorem pending_write {packet : Bytes} {d d' : Dev σ} {written : List Command} (h : Stored packet d d')
    (hm : marks d.trace = written.flatMap once) : Pending d' (written ++ [Command.ofPacket packet]) [] := by
  refine ⟨⟨written, by rw [h.slot], ?_⟩, by rw [h.rpc]⟩
  rw [h.trace, List.append_nil]
  exact hm

theorem inv_write {s s' : LockStep σ} {packet : Bytes} (hi : Inv table s)
    (hk : (Command.ofPacket packet).id ∈ tableIds table)
    (hc : (Command.ofPacket packet).id ∉ tableIds s.worker.pc.rest) (h : s.step gatt table (.write packet) = some s') :
    Inv table s' := by
  obtain ⟨hmay, d, hst, rfl⟩ := step_write_inv h
  have hins : d.Installed := by rw [Dev.Installed, hst.rpc]; exact hi.installed
  have hid : d.rpc.commandId = (Command.ofPacket packet).id := by rw [hst.rpc]; rfl
  have hsem : d.rpc.commandReceivedSem = s.worker.dev.rpc.commandReceivedSem + 1 := by rw [hst.rpc]
  refine ⟨hins, hi.nodup, ?_⟩
  cases hi.phase with
  | idle hm hz => exact .posted (pending_write hst hm) (by rw [hsem]; exact congrArg (· + 1) hz) (hid ▸ hk)
  | served hm hz _ =>
    exact .postedEarly (pending_write hst hm) (by rw [hsem]; exact congrArg (· + 1) hz) (hid ▸ hk) (hid ▸ hc)
  | posted hp => exact absurd hmay (hp.not_mayWrite rfl)
  | sought hp => exact absurd hmay (hp.not_mayWrite rfl)
  | matched hp => exact absurd hmay (hp.not_mayWrite rfl)
  | labelled hp => exact absurd hmay (hp.not_mayWrite rfl)
  | running hp => exact absurd hmay (hp.not_mayWrite rfl)
  | postedEarly hp => exact absurd hmay (hp.not_mayWrite rfl)

/-- A callback's action keeps the phase. -/
theorem phase_act {d d' : Dev σ} {p p' : Prog σ} {rest : List (Entry (Handler σ))} {written : List Command}
    (hu : Undisturbed d d') (h : Phase table ⟨⟨.running p rest, d⟩, written⟩) :
    Phase table ⟨⟨.running p' rest, d'⟩, written⟩ := by
  cases h with
  | running hp hsem hid hlabel =>
    have hslot : d'.slot = d.slot := hu.slot hp.command
    refine .running ?_ ?_ ?_ ?_
    · rw [hslot]; exact hp.congr hslot hu.marks hu.command
    · rw [hu.commandReceivedSem]; exact hsem
    · rw [hu.commandId]; exact hid
    · rw [hu.responseId, hu.commandId]; exact hlabel

/-- The response goes out: the command is served. -/
theorem phase_send {d d' : Dev σ} {rest : List (Entry (Handler σ))} {written : List Command} {status : Status}
    (hd : d.Installed) (h : Phase table ⟨⟨.running .ret rest, d⟩, written⟩)
    (hsend : sendResponse gatt d.rpc.commandId d.rpc.response d.rpc.responseLength d = .ok (d', status)) :
    d'.Installed ∧ Phase table ⟨⟨.scanning rest, d'⟩, written⟩ := by
  obtain ⟨m, live, _, _, _, _, _, rfl⟩ := sendResponse_inv (outside_of_responseBuffer hd) hsend
  refine ⟨hd, ?_⟩
  cases h with
  | running hp hsem hid hlabel =>
    obtain ⟨done, hw, hm⟩ := hp.ends
    refine .served ?_ hsem hid
    rw [Dev.observe_trace, marks_append, hm, hw, List.flatMap_append, List.append_assoc, hlabel]
    rfl

/-- A step of the worker that is not an action or a send keeps the device's slot; the phases follow one another. -/
theorem inv_work {w w' : Worker σ} {written : List Command} (hn : (tableIds table).Nodup)
    (hi : Inv table ⟨w, written⟩) (h : w.step gatt table = some w') : Inv table ⟨w', written⟩ := by
  obtain ⟨hins, hnd, hph⟩ := hi
  cases Worker.step_worked h with
  | wait hsem =>
    cases hph with
    | idle hm hz => rw [hz] at hsem; cases hsem
    | posted hp hone hid =>
      rw [hone] at hsem; cases hsem
      exact ⟨hins, hn, .sought (hp.congr rfl rfl rfl) rfl hid⟩
  | finish =>
    cases hph with
    | sought hp hz hid => cases hid
    | served hm hz hid => exact ⟨hins, List.nodup_nil, .idle hm hz⟩
    | postedEarly hp hone hid hclear => exact ⟨hins, List.nodup_nil, .posted (hp.congr rfl rfl rfl) hone hid⟩
  | skip hne =>
    have hnd' := List.nodup_cons.mp hnd
    cases hph with
    | sought hp hz hid => exact ⟨hins, hnd'.2, .sought hp hz ((List.mem_cons.mp hid).resolve_left hne)⟩
    | served hm hz hid => exact ⟨hins, hnd'.2, .served hm hz fun hmem => hid (List.mem_cons_of_mem _ hmem)⟩
    | postedEarly hp hone hid hclear =>
      exact ⟨hins, hnd'.2, .postedEarly hp hone hid fun hmem => hclear (List.mem_cons_of_mem _ hmem)⟩
  | hit heq =>
    have hnd' := List.nodup_cons.mp hnd
    cases hph with
    | sought hp hz hid => exact ⟨hins, hnd'.2, .matched hp hz (heq ▸ hnd'.1)⟩
    | served hm hz hid => exact absurd (heq ▸ List.mem_cons_self) hid
    | postedEarly hp hone hid hclear => exact absurd (heq ▸ List.mem_cons_self) hclear
  | label =>
    cases hph with
    | matched hp hz hid => exact ⟨hins, hnd, .labelled (hp.congr rfl rfl rfl) hz hid rfl⟩
  | call =>
    cases hph with
    | labelled hp hz hid hlabel =>
      refine ⟨hins, hnd, .running ⟨?_, hp.command⟩ hz hid hlabel⟩
      obtain ⟨done, hw, hm⟩ := hp.ends
      refine ⟨done, hw, ?_⟩
      rw [Dev.call, Dev.observe_trace, marks_append, hm, List.append_nil]
      rfl
  | act _ hact =>
    have hu := undisturbed_act hins hact
    exact ⟨hu.installed hins, hnd, phase_act hu hph⟩
  | send hsend =>
    obtain ⟨hins', hph'⟩ := phase_send hins hph hsend
    exact ⟨hins', hnd, hph'⟩

/-- **Every step keeps the invariant**, writes under their condition. -/
theorem inv_step (hn : (tableIds table).Nodup) {s s' : LockStep σ} {e : Event} (hi : Inv table s) (hk : Known table e)
    (hc : s.Clear e) (h : s.step gatt table e = some s') : Inv table s' := by
  cases e with
  | write packet => exact inv_write hi hk hc h
  | work =>
    obtain ⟨w, hw, rfl⟩ := Option.map_eq_some_iff.mp h
    exact inv_work hn hi hw

/-! ## Exactly once -/

/-- All commands answered. -/
theorem exactlyOnce_of_answered {s : LockStep σ} (hm : marks s.worker.dev.trace = s.written.flatMap once) :
    ExactlyOnce s := by
  refine ⟨hm ▸ List.prefix_refl _, fun _ => hm, fun hno => absurd ?_ hno⟩
  show s.written.length ≤ (marks s.worker.dev.trace).countP Mark.isAnswer
  rw [hm, countP_once]

/-- A command on its way. -/
theorem exactlyOnce_of_pending {pc : Pc σ} {d : Dev σ} {written : List Command} {ms : List Mark}
    (hp : Pending d written ms) (hms : ms <+: once d.slot) (hans : ms.countP Mark.isAnswer = 0)
    (hb : ¬ (⟨pc, d⟩ : Worker σ).Blocked) : ExactlyOnce ⟨⟨pc, d⟩, written⟩ :=
  ⟨hp.isPrefix hms, fun hmay => absurd hmay (hp.not_mayWrite hans), fun _ => hb⟩

/-- The invariant gives the property. -/
theorem Inv.exactlyOnce {s : LockStep σ} (hi : Inv table s) : ExactlyOnce s := by
  cases hi.phase with
  | idle hm | served hm => exact exactlyOnce_of_answered hm
  | posted hp hone =>
    apply exactlyOnce_of_pending hp List.nil_prefix rfl
    intro hb
    exact absurd (hone.symm.trans hb.2) (by decide)
  | sought hp | matched hp | labelled hp | postedEarly hp =>
    exact exactlyOnce_of_pending hp List.nil_prefix rfl fun hb => by cases hb.1
  | running hp => exact exactlyOnce_of_pending hp ⟨[.answered _], rfl⟩ rfl fun hb => by cases hb.1

/-- **Each command is run once and answered once, in order**, if no command is written that the current scan has yet
to meet. -/
theorem lock_step_exactly_once (gatt : GattServer σ) (table : List (Entry (Handler σ))) (hn : (tableIds table).Nodup)
    (app : σ) (events : List Event) (hk : ∀ e ∈ events, Known table e)
    (hc : Meets (step gatt table) Clear (init app) events) (s : LockStep σ)
    (h : run (step gatt table) (init app) events = some s) : ExactlyOnce s := by
  have hm := (meets_of_forall hk).and hc
  have hi := run_inv_of_meets (fun _ _ _ hi hg hs => inv_step hn hi hg.1 hg.2 hs) (inv_init app) hm h
  exact hi.exactlyOnce

/-- Two callbacks that do nothing. -/
def twoEntries : List (Entry (Handler Unit)) :=
  [⟨0, some fun _ _ _ => .ret⟩, ⟨1, some fun _ _ _ => .ret⟩, ⟨0, none⟩]

/-- The second command is written before the worker has tested the entry for its id. -/
def earlyWrite : List Event :=
  [.write [0, 0], .work, .work, .work, .work, .work, .write [1, 0]] ++ List.replicate 12 .work

/-- The same commands, the second written after the scan for the first. -/
def lateWrite : List Event :=
  .write [0, 0] :: List.replicate 7 .work ++ .write [1, 0] :: List.replicate 7 .work

/-- Two commands, the second once the worker waits again. -/
theorem lock_step_exactly_once_late : ∃ s, run (step (.plain 251) twoEntries) (init ()) lateWrite = some s ∧
    ExactlyOnce s := by
  exact ⟨_, rfl, lock_step_exactly_once (.plain 251) twoEntries (by decide) () lateWrite (by decide) (by decide) _ rfl⟩

/-- The command written early is run twice and answered twice. -/
theorem early_write_runs_twice : ∃ s, run (step (.plain 251) twoEntries) (init ()) earlyWrite = some s ∧
    s.written = [⟨0, [], 0⟩, ⟨1, [], 0⟩] ∧
    marks s.worker.dev.trace = once ⟨0, [], 0⟩ ++ once ⟨1, [], 0⟩ ++ once ⟨1, [], 0⟩ ∧ ¬ ExactlyOnce s := by
  refine ⟨_, rfl, by decide, by decide, ?_⟩
  intro h
  exact absurd h.inOrder (by decide)

end LockStep

end BleRpc.Device
