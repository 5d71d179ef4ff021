import BleRpc.Device.Handler

/-!
# The dispatch loop

`RPC_processCommands`, `RPC_waitForCommand` and the loop of `rcpThread`, each as one uninterrupted step. The callback
table is a list; scanning past its end is a fault.

- `Dispatched`: what is known after a matching entry has been run and its response sent;
- `processEntries_distinct`: with distinct ids before the end marker, exactly one entry is run for an id of the table.
-/

namespace BleRpc.Device

open Outcome

variable {σ : Type}

/-- `struct rpc_callback_entry`; the callback `NULL` is `none`. -/
structure Entry (α : Type) where
  id : UInt8
  callback : Option α

def Entry.map {α β : Type} (f : α → β) (e : Entry α) : Entry β := ⟨e.id, e.callback.map f⟩

/-- The ids of the entries before the first `NULL` callback. -/
def tableIds {α : Type} : List (Entry α) → List UInt8
  | ⟨id, some _⟩ :: rest => id :: tableIds rest
  | _ => []

@[simp] theorem tableIds_some {α : Type} (id : UInt8) (a : α) (rest : List (Entry α)) :
    tableIds (⟨id, some a⟩ :: rest) = id :: tableIds rest := rfl

@[simp] theorem tableIds_none {α : Type} (id : UInt8) (rest : List (Entry α)) :
    tableIds (⟨id, none⟩ :: rest) = [] := rfl

@[simp] theorem tableIds_map {α β : Type} (f : α → β) (table : List (Entry α)) :
    tableIds (table.map (Entry.map f)) = tableIds table := by
  induction table with
  | nil => rfl
  | cons e rest ih =>
    obtain ⟨id, cb⟩ := e
    cases cb with
    | none => rfl
    | some a => exact congrArg (id :: ·) ih

/-- The callbacks `RPC_processCommands` runs for an id, in order. -/
def callbacks {α : Type} (id : UInt8) : List (Entry α) → List α
  | ⟨i, some a⟩ :: rest => if id = i then a :: callbacks id rest else callbacks id rest
  | _ => []

/-- The rest of a table that ends ends, if its first entry has a callback. -/
theorem ended_tail {α : Type} {e : Entry α} {rest : List (Entry α)} {a : α} (he : e.callback = some a)
    (hend : ∃ e' ∈ e :: rest, e'.callback = none) : ∃ e' ∈ rest, e'.callback = none := by
  obtain ⟨e', hmem, hnone⟩ := hend
  rcases List.mem_cons.mp hmem with rfl | hmem
  · rw [he] at hnone
    cases hnone
  · exact ⟨e', hmem, hnone⟩

/-- A C function of the callback type: it may change anything. -/
abbrev Callback (σ : Type) := UInt8 → Option Ptr → ℕ → Dev σ → Except Fault (Dev σ)

/-- A handler run without interruption. -/
def Handler.callback (gatt : GattServer σ) (h : Handler σ) : Callback σ :=
  fun id data length d => (h id data length).run gatt d

/-- `rpc->response_id = rpc->command_id` -/
def Dev.label (d : Dev σ) : Dev σ := { d with rpc := { d.rpc with responseId := d.rpc.commandId } }

/-- The call is on record. -/
def Dev.call (d : Dev σ) : Dev σ := d.observe (.called d.rpc.commandId d.payload d.rpc.commandLength)

/-- The body of the `if` in `RPC_processCommands`. -/
def dispatch (gatt : GattServer σ) (cb : Callback σ) (d : Dev σ) : Except Fault (Dev σ) := do
  let d := d.label.call
  let d ← cb d.rpc.commandId d.rpc.command d.rpc.commandLength d
  let (d, _) ← sendResponse gatt d.rpc.commandId d.rpc.response d.rpc.responseLength d
  return d

/-- The `while` loop of `RPC_processCommands` from an entry on. -/
def processEntries (gatt : GattServer σ) : List (Entry (Callback σ)) → Dev σ → Except Fault (Dev σ)
  | [], _ => .error .tableEnd
  | ⟨_, none⟩ :: _, d => .ok d
  | ⟨id, some cb⟩ :: rest, d =>
    if d.rpc.commandId = id then do
      let d ← dispatch gatt cb d
      processEntries gatt rest d
    else processEntries gatt rest d

/-- `RPC_processCommands`. -/
def processCommands (gatt : GattServer σ) (table : List (Entry (Callback σ))) (d : Dev σ) : Except Fault (Dev σ) :=
  processEntries gatt table d

/-- `RPC_waitForCommand`, when it does not block. -/
def waitForCommand (d : Dev σ) : Option (Dev σ) :=
  match d.rpc.commandReceivedSem with
  | 0 => none
  | n + 1 => some { d with rpc := { d.rpc with commandReceivedSem := n } }

/-- The counters at the end of an iteration of `rcpThread`. -/
def Dev.countExecution (d : Dev σ) : Dev σ :=
  { d with rcpCommandExecutionCount := d.rcpCommandExecutionCount + 1, rcpCommandCount := d.rcpCommandCount - 1 }

/-- One iteration of the loop of `rcpThread`, if it does not block or fault. -/
def rcpThreadIteration (gatt : GattServer σ) (table : List (Entry (Callback σ))) (d : Dev σ) : Option (Dev σ) := do
  let d ← waitForCommand d
  let d ← (processCommands gatt table d).toOption
  return d.countExecution

/-! ## What the loop does -/

/-- What is known after a callback has been run for the command in `rpc` and its response sent. -/
structure Dispatched (d d' : Dev σ) : Prop where
  installed : d'.Installed
  command : d'.rpc.command = d.rpc.command
  commandId : d'.rpc.commandId = d.rpc.commandId
  commandLength : d'.rpc.commandLength = d.rpc.commandLength
  commandReceivedSem : d'.rpc.commandReceivedSem = d.rpc.commandReceivedSem
  packet : d'.memory .rpcProfileCommand = d.memory .rpcProfileCommand
  dispatches : ∃ bytes, dispatches d'.trace = dispatches d.trace ++
    [.called d.rpc.commandId d.payload d.rpc.commandLength,
      .sent .rpcResponse (d.rpc.commandId :: UInt8.ofNat d'.rpc.responseLength :: bytes)]

theorem dispatched_of_run {gatt : GattServer σ} {d e d' : Dev σ} {status : Status} (hd : d.Installed)
    (hu : Undisturbed d.label.call e)
    (h : sendResponse gatt e.rpc.commandId e.rpc.response e.rpc.responseLength e = .ok (d', status)) :
    Dispatched d d' := by
  have he : e.Installed := hu.installed hd
  obtain ⟨m, live, _, _, _, _, hf, rfl⟩ := sendResponse_inv (outside_of_responseBuffer he) h
  have hid : e.rpc.responseId = d.rpc.commandId := hu.responseId
  refine ⟨he, hu.command, hu.commandId, hu.commandLength, hu.commandReceivedSem, ?_, live, ?_⟩
  · exact (hf _ (by decide)).trans hu.packet
  · have hdis := hu.dispatches
    rw [Dev.observe_trace, dispatches_append, hdis, hid]
    simp [Dev.call, Dev.label, Dev.payload, dispatches]

/-- **One matching entry**: the callback runs, then its response is sent. -/
theorem dispatch_inv {gatt : GattServer σ} {h : Handler σ} {d d' : Dev σ} (hd : d.Installed)
    (hrun : dispatch gatt (h.callback gatt) d = .ok d') : Dispatched d d' := by
  unfold dispatch at hrun
  obtain ⟨e, he, hrun⟩ := bind_eq_ok.mp hrun
  obtain ⟨⟨f, status⟩, hf, hrun⟩ := bind_eq_ok.mp hrun
  cases hrun
  exact dispatched_of_run hd (undisturbed_run hd he) hf

/-- No entry matches: nothing happens. -/
theorem processEntries_unmatched {gatt : GattServer σ} {table : List (Entry (Callback σ))} {d d' : Dev σ}
    (hid : d.rpc.commandId ∉ tableIds table) (h : processEntries gatt table d = .ok d') : d' = d := by
  induction table with
  | nil => cases h
  | cons e rest ih =>
    obtain ⟨id, cb⟩ := e
    cases cb with
    | none => cases h; rfl
    | some cb =>
      rw [tableIds_some, List.mem_cons, not_or] at hid
      rw [processEntries, if_neg hid.1] at h
      exact ih hid.2 h

/-- **Distinct ids**: for an id of the table, exactly one entry is run. -/
theorem processEntries_distinct {gatt : GattServer σ} {table : List (Entry (Handler σ))} {d d' : Dev σ}
    (hd : d.Installed) (hn : (tableIds table).Nodup) (hid : d.rpc.commandId ∈ tableIds table)
    (h : processEntries gatt (table.map (Entry.map (Handler.callback gatt))) d = .ok d') : Dispatched d d' := by
  induction table with
  | nil => cases hid
  | cons e rest ih =>
    obtain ⟨id, cb⟩ := e
    cases cb with
    | none => cases hid
    | some cb =>
      rw [tableIds_some, List.nodup_cons] at hn
      rw [tableIds_some, List.mem_cons] at hid
      rw [List.map_cons, Entry.map, Option.map_some, processEntries] at h
      by_cases heq : d.rpc.commandId = id
      · rw [if_pos heq, bind_eq_ok] at h
        obtain ⟨e, he, h⟩ := h
        have hdis := dispatch_inv hd he
        -- the rest of the table has another id, and the callback did not change the command
        have hrest : e.rpc.commandId ∉ tableIds (rest.map (Entry.map (Handler.callback gatt))) := by
          rw [hdis.commandId, heq, tableIds_map]
          exact hn.1
        rw [processEntries_unmatched hrest h]
        exact hdis
      · rw [if_neg heq] at h
        exact ih hn.2 (hid.resolve_left heq) h

theorem rcpThreadIteration_inv {gatt : GattServer σ} {table : List (Entry (Callback σ))} {d d' : Dev σ}
    (h : rcpThreadIteration gatt table d = some d') :
    ∃ e f, waitForCommand d = some e ∧ processEntries gatt table e = .ok f ∧ d' = f.countExecution := by
  simp only [rcpThreadIteration, processCommands, Option.bind_eq_bind, Option.bind_eq_some_iff, toOption_eq_some,
    Option.pure_def, Option.some.injEq] at h
  obtain ⟨e, he, f, hf, rfl⟩ := h
  exact ⟨e, f, he, hf, rfl⟩

theorem waitForCommand_inv {d d' : Dev σ} (h : waitForCommand d = some d') :
    d.rpc.commandReceivedSem = d'.rpc.commandReceivedSem + 1 ∧
      d' = { d with rpc := { d.rpc with commandReceivedSem := d'.rpc.commandReceivedSem } } := by
  unfold waitForCommand at h
  split at h
  · cases h
  · rename_i n hn
    cases h
    exact ⟨hn, rfl⟩

end BleRpc.Device
