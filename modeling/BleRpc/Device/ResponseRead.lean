import BleRpc.Device.CommandSlot
import BleRpc.Device.Worker

/-!
# Reads of E002

Client reads of E002 and command writes, served between any two steps of the worker. The read callback does not serve
the packet `__RPC_sendResponse` keeps in `rpcProfile_response`; it assembles one from `rpc.response_id`,
`rpc.response_length` and the response buffer as they are at that moment.

`reads_whole`: every packet seen on E002 is that of one completed execution, and a read returns the last one sent, if
no read is served from the store to `response_id` until the response is sent, and no write brings another id between
that store and the call.
-/

namespace BleRpc.Device

open Outcome Transition

variable {σ : Type}

/-- A callback that has returned: the id it was called with, the length it set, the bytes it left. -/
structure Execution where
  id : UInt8
  length : ℕ
  payload : Bytes
  deriving DecidableEq

/-- Id, length byte and payload. -/
def Execution.packet (e : Execution) : Bytes := e.id :: UInt8.ofNat e.length :: e.payload

/-- The packets sent on E002. -/
def responses (trace : List Observation) : List Bytes :=
  trace.filterMap fun
    | .sent .rpcResponse value => some value
    | _ => none

@[simp] theorem responses_append (t u : List Observation) : responses (t ++ u) = responses t ++ responses u :=
  List.filterMap_append

theorem responses_dispatches (t : List Observation) : responses (dispatches t) = responses t :=
  filterMap_dispatches (fun _ => rfl) t

/-- The last response sent; before the first, id 0 and no payload. -/
def latest (trace : List Observation) : Bytes := (responses trace).getLastD [0, 0]

/-- The id of the last call. -/
def lastCalled (trace : List Observation) : UInt8 := ((handed trace).map Command.id).getLastD 0

/-- The response as it stands. -/
def Dev.execution (d : Dev σ) : Execution where
  id := lastCalled d.trace
  length := d.rpc.responseLength
  payload := (d.memory .rcpResponseBuffer).toList.take d.rpc.responseLength

theorem lastCalled_call (d : Dev σ) : lastCalled d.call.trace = d.rpc.commandId := by
  rw [lastCalled, Dev.call, Dev.observe_trace, handed_append, List.map_append]
  exact List.getLastD_concat ..

theorem responses_call (d : Dev σ) : responses d.call.trace = responses d.trace := by
  rw [Dev.call, Dev.observe_trace, responses_append]
  exact List.append_nil _

/-- The packet the read callback assembles. -/
def Dev.live (d : Dev σ) : Bytes := { d.execution with id := d.rpc.responseId }.packet

/-! ## The system -/

/-- A packet read, and the last response sent before the read. -/
structure Read where
  packet : Bytes
  latest : Bytes
  deriving DecidableEq

structure Served (σ : Type) where
  worker : Worker σ
  executions : List Execution
  reads : List Read

/-- The attribute of E002. -/
def responseAttr : Attribute := ⟨.uuid16 .rpcResponse, .value .rpcResponse⟩

namespace Served

inductive Event
  /-- A write to E001. -/
  | write (packet : Bytes) (offset : UInt16)
  /-- A client read of E002. -/
  | read (maxLen : UInt16)
  /-- A step of the worker. -/
  | work

def init (app : σ) : Served σ := ⟨⟨.waiting, reset app⟩, [], []⟩

/-- The execution a step of the worker completes. -/
def completes (w : Worker σ) : List Execution :=
  match w.pc with
  | .running .ret _ => [w.dev.execution]
  | _ => []

def step (gatt : GattServer σ) (table : List (Entry (Handler σ))) (s : Served σ) : Event → Option (Served σ)
  | .write packet offset =>
    match writeAttrCB gatt commandAttr packet offset s.worker.dev with
    | .ok (d, .success) => some { s with worker := ⟨s.worker.pc, d⟩ }
    | _ => none
  | .read maxLen =>
    match readAttrCB responseAttr 0 maxLen s.worker.dev with
    | .ok (d, .success, packet) =>
      some { s with worker := ⟨s.worker.pc, d⟩, reads := s.reads ++ [⟨packet, latest s.worker.dev.trace⟩] }
    | _ => none
  | .work => (s.worker.step gatt table).map fun w => ⟨w, s.executions ++ completes s.worker, s.reads⟩

/-- No read from the store to `response_id` until the response is sent; no other id between that store and the
call. -/
def Calm (s : Served σ) : Event → Prop
  | .write packet _ =>
    match s.worker.pc with
    | .labelled _ _ => (Command.ofPacket packet).id = s.worker.dev.rpc.commandId
    | _ => True
  | .read _ =>
    match s.worker.pc with
    | .labelled _ _ | .running _ _ => False
    | _ => True
  | .work => True

instance (s : Served σ) : ∀ e, Decidable (s.Calm e)
  | .write packet _ => by unfold Calm; cases s.worker.pc <;> infer_instance
  | .read _ => by unfold Calm; cases s.worker.pc <;> infer_instance
  | .work => isTrue trivial

/-- Every E002 packet is one whole response. -/
structure Whole (s : Served σ) : Prop where
  sent : responses s.worker.dev.trace = s.executions.map Execution.packet
  read : ∀ r ∈ s.reads, r.packet = r.latest
  whole : ∀ r ∈ s.reads, r.packet = [0, 0] ∨ ∃ e ∈ s.executions, r.packet = e.packet

/-! ## The invariant -/

/-- The label while a command is run; otherwise the live packet is the last one sent. -/
def Label (w : Worker σ) : Prop :=
  match w.pc with
  | .labelled _ _ => w.dev.rpc.responseId = w.dev.rpc.commandId
  | .running _ _ => w.dev.rpc.responseId = lastCalled w.dev.trace
  | _ => w.dev.live = latest w.dev.trace

structure Inv (s : Served σ) : Prop where
  installed : s.worker.dev.Installed
  label : Label s.worker
  whole : Whole s

variable {gatt : GattServer σ} {table : List (Entry (Handler σ))}

theorem inv_init (app : σ) : Inv (init app) := by
  refine ⟨rfl, ?_, rfl, ?_, ?_⟩
  · show Dev.live (reset app) = latest []
    rfl
  · intro r hr; cases hr
  · intro r hr; cases hr

/-- The last response sent is that of an execution, or there is none. -/
theorem latest_whole {s : Served σ} (h : Whole s) :
    latest s.worker.dev.trace = [0, 0] ∨ ∃ e ∈ s.executions, latest s.worker.dev.trace = e.packet := by
  rw [latest, h.sent]
  rcases List.eq_nil_or_concat s.executions with hnil | ⟨es, e, hes⟩
  · left; rw [hnil]; rfl
  · right
    refine ⟨e, by rw [hes]; simp, ?_⟩
    rw [hes]
    simp

/-- What is loaded through `rpc.response` is the beginning of the response buffer. -/
theorem load_response {d : Dev σ} (hd : d.Installed) {bytes : Bytes}
    (h : d.memory.loadFrom (.ptr d.rpc.response) d.rpc.responseLength = .ok bytes) :
    d.rpc.responseId :: UInt8.ofNat d.rpc.responseLength :: bytes = d.live := by
  unfold Dev.Installed at hd
  rw [hd, Memory.loadFrom] at h
  rw [Memory.load_inv h]
  rfl

/-- A read returns the live packet and changes nothing. -/
theorem step_read_inv {s s' : Served σ} {maxLen : UInt16} (hd : s.worker.dev.Installed)
    (h : s.step gatt table (.read maxLen) = some s') :
    s' = { s with reads := s.reads ++ [⟨s.worker.dev.live, latest s.worker.dev.trace⟩] } := by
  simp only [step, responseAttr, readAttrCB_response] at h
  cases hb : buildPacket s.worker.dev.memory maxLen s.worker.dev.rpc.responseId s.worker.dev.rpc.responseLength
      s.worker.dev.rpc.response with
  | error e => simp [hb] at h
  | ok value =>
    simp only [hb, ok_bind, Option.some.injEq] at h
    obtain ⟨bytes, hload, _, rfl⟩ := buildPacket_inv hb
    rw [load_response hd hload] at h
    exact h.symm

theorem step_write_inv {s s' : Served σ} {packet : Bytes} {offset : UInt16}
    (h : s.step gatt table (.write packet offset) = some s') :
    ∃ d, Stored packet s.worker.dev d ∧ s' = { s with worker := ⟨s.worker.pc, d⟩ } := by
  simp only [step, writeAttrCB_command] at h
  cases hw : writeCommand packet s.worker.dev with
  | error e => simp [hw] at h
  | ok d =>
    simp only [hw, ok_bind, Option.some.injEq] at h
    exact ⟨d, (writeCommand_inv hw).2, h.symm⟩

/-- A write leaves the response alone. -/
theorem Stored.live {packet : Bytes} {d d' : Dev σ} (h : Stored packet d d') : d'.live = d.live := by
  simp only [Dev.live, Dev.execution, h.rpc, h.frame .rcpResponseBuffer (by decide), h.trace]

theorem inv_write {s s' : Served σ} {packet : Bytes} {offset : UInt16} (hi : Inv s)
    (hc : s.Calm (.write packet offset)) (h : s.step gatt table (.write packet offset) = some s') : Inv s' := by
  obtain ⟨d, hst, rfl⟩ := step_write_inv h
  refine ⟨?_, ?_, ?_, hi.whole.read, hi.whole.whole⟩
  · show d.Installed
    rw [Dev.Installed, hst.rpc]
    exact hi.installed
  · have hl := hi.label
    unfold Label at hl ⊢
    unfold Calm at hc
    cases hpc : s.worker.pc <;> simp only [hpc] at hl hc ⊢
    case labelled => rw [hst.rpc]; exact hl.trans hc.symm
    case running => rw [hst.rpc, hst.trace]; exact hl
    all_goals rw [Stored.live hst, hst.trace]; exact hl
  · show responses d.trace = s.executions.map Execution.packet
    rw [hst.trace]
    exact hi.whole.sent

theorem inv_read {s s' : Served σ} {maxLen : UInt16} (hi : Inv s) (hc : s.Calm (.read maxLen))
    (h : s.step gatt table (.read maxLen) = some s') : Inv s' := by
  have hlive : s.worker.dev.live = latest s.worker.dev.trace := by
    have hl := hi.label
    unfold Label at hl
    unfold Calm at hc
    cases hpc : s.worker.pc <;> simp only [hpc] at hl hc
    all_goals exact hl
  rw [step_read_inv hi.installed h]
  refine ⟨hi.installed, hi.label, hi.whole.sent, ?_, ?_⟩
  · intro r hr
    rcases List.mem_append.mp hr with hr | hr
    · exact hi.whole.read r hr
    · rw [List.mem_singleton.mp hr]; exact hlive
  · intro r hr
    rcases List.mem_append.mp hr with hr | hr
    · exact hi.whole.whole r hr
    · rw [List.mem_singleton.mp hr]
      show s.worker.dev.live = _ ∨ _
      rw [hlive]
      exact latest_whole hi.whole

/-- Steps that complete nothing and send nothing keep what was seen. -/
theorem Whole.congr {w w' : Worker σ} {es : List Execution} {rs : List Read} (h : Whole ⟨w, es, rs⟩)
    (hr : responses w'.dev.trace = responses w.dev.trace) : Whole ⟨w', es, rs⟩ :=
  ⟨hr.trans h.sent, h.read, h.whole⟩

/-- A completed execution is sent as its packet. -/
theorem inv_send {d d' : Dev σ} {rest : List (Entry (Handler σ))} {es : List Execution} {rs : List Read}
    {status : Status} (hi : Inv ⟨⟨.running .ret rest, d⟩, es, rs⟩)
    (hsend : sendResponse gatt d.rpc.commandId d.rpc.response d.rpc.responseLength d = .ok (d', status)) :
    Inv ⟨⟨.scanning rest, d'⟩, es ++ [d.execution], rs⟩ := by
  obtain ⟨hins, hlabel, hsent, hread, hwhole⟩ := hi
  obtain ⟨m, live, _, _, _, hload, hf, rfl⟩ := sendResponse_inv (outside_of_responseBuffer hins) hsend
  rw [load_response hins hload]
  have hpacket : d.live = d.execution.packet := by
    rw [Dev.live, show d.rpc.responseId = d.execution.id from hlabel]
  have htrace : responses ({ d with memory := m }.observe (.sent .rpcResponse d.live)).trace =
      responses d.trace ++ [d.live] := by
    rw [Dev.observe_trace, responses_append]
    rfl
  refine ⟨hins, ?_, ?_, hread, ?_⟩
  · show Dev.live _ = latest _
    rw [latest, htrace, List.getLastD_concat]
    simp only [Dev.live, Dev.execution, Dev.observe_rpc, Dev.observe_memory, hf .rcpResponseBuffer (by decide)]
  · rw [List.map_append, ← hsent]
    exact htrace.trans (congrArg (fun packet => responses d.trace ++ [packet]) hpacket)
  · intro r hr
    rcases hwhole r hr with hz | ⟨e, he, hre⟩
    · exact Or.inl hz
    · exact Or.inr ⟨e, List.mem_append_left _ he, hre⟩

/-- A callback that has not returned completes nothing. -/
theorem completes_running {p : Prog σ} {rest : List (Entry (Handler σ))} {d : Dev σ} (hp : p ≠ .ret) :
    completes ⟨.running p rest, d⟩ = [] := by
  cases p with
  | ret => exact absurd rfl hp
  | _ => rfl

/-- A callback's action keeps label and history. -/
theorem inv_act {d d' : Dev σ} {p p' : Prog σ} {rest : List (Entry (Handler σ))} {es : List Execution}
    {rs : List Read} (hu : Undisturbed d d') (hi : Inv ⟨⟨.running p rest, d⟩, es, rs⟩) :
    Inv ⟨⟨.running p' rest, d'⟩, es, rs⟩ := by
  obtain ⟨hins, hlabel, hwhole⟩ := hi
  refine ⟨hu.installed hins, ?_, hwhole.congr ?_⟩
  · show d'.rpc.responseId = lastCalled d'.trace
    have hcalled : lastCalled d'.trace = lastCalled d.trace := by
      rw [lastCalled, lastCalled, ← handed_dispatches, hu.dispatches, handed_dispatches]
    rw [hu.responseId, hcalled]
    exact hlabel
  · rw [← responses_dispatches, hu.dispatches, responses_dispatches]

/-- The steps of the worker. -/
theorem inv_work {w w' : Worker σ} {es : List Execution} {rs : List Read} (hi : Inv ⟨w, es, rs⟩)
    (h : w.step gatt table = some w') : Inv ⟨w', es ++ completes w, rs⟩ := by
  cases Worker.step_worked h with
  | act hp hact =>
    rw [completes_running hp, List.append_nil]
    exact inv_act (undisturbed_act hi.installed hact) hi
  | send hsend => exact inv_send hi hsend
  | wait _ | finish | skip _ | hit _ =>
    rw [completes, List.append_nil]
    exact ⟨hi.installed, hi.label, hi.whole.congr rfl⟩
  | label =>
    rw [completes, List.append_nil]
    exact ⟨hi.installed, rfl, hi.whole.congr rfl⟩
  | call =>
    rw [completes, List.append_nil]
    obtain ⟨hins, hlabel, hwhole⟩ := hi
    exact ⟨hins, hlabel.trans (lastCalled_call _).symm, hwhole.congr (responses_call _)⟩

/-- **Every step keeps the invariant**, writes and reads under their condition. -/
theorem inv_step {s s' : Served σ} {e : Event} (hi : Inv s) (hc : s.Calm e) (h : s.step gatt table e = some s') :
    Inv s' := by
  cases e with
  | write packet offset => exact inv_write hi hc h
  | read maxLen => exact inv_read hi hc h
  | work =>
    obtain ⟨w, hw, rfl⟩ := Option.map_eq_some_iff.mp h
    exact inv_work hi hw

end Served

end BleRpc.Device
