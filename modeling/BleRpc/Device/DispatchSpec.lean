import BleRpc.Device.Dispatch

/-!
# The dispatch loop against its specification

`RPC_processCommands` with a record of what it does: its stores to `response_id`, its calls and its sends. The
specification (`Answers`) knows no table: it is given the callbacks that are to run.

- `traced_eq`: the record is of the loop as it is;
- `processCommands_spec`: on a table with an end marker, and callbacks that leave the command alone, the loop runs the
  callbacks of the entries with the command's id before the marker, in order, and answers after each.
-/

namespace BleRpc.Device

open Outcome

variable {σ : Type}

/-- What `RPC_processCommands` does. -/
inductive Act (σ : Type)
  /-- `rpc->response_id = id` -/
  | label (id : UInt8)
  /-- `callback(id, data, length)` -/
  | call (callback : Callback σ) (id : UInt8) (data : Option Ptr) (length : ℕ)
  /-- `__RPC_sendResponse(id, data, length)`, and the bytes that `data` points to. -/
  | send (id : UInt8) (data : Option Ptr) (length : ℕ) (bytes : Except Fault Bytes)

/-- The call of `__RPC_sendResponse` for the response as it stands. -/
def Dev.sendAct (d : Dev σ) (id : UInt8) : Act σ :=
  .send id d.rpc.response d.rpc.responseLength (d.memory.loadFrom (.ptr d.rpc.response) d.rpc.responseLength)

/-- `dispatch`, with a record. -/
def tracedDispatch (gatt : GattServer σ) (cb : Callback σ) (d : Dev σ) : List (Act σ) × Except Fault (Dev σ) :=
  let d := d.label.call
  let acts := [.label d.rpc.responseId, .call cb d.rpc.commandId d.rpc.command d.rpc.commandLength]
  match cb d.rpc.commandId d.rpc.command d.rpc.commandLength d with
  | .error x => (acts, .error x)
  | .ok d =>
    (acts ++ [d.sendAct d.rpc.commandId],
      (sendResponse gatt d.rpc.commandId d.rpc.response d.rpc.responseLength d).map Prod.fst)

/-- `processEntries`, with a record. -/
def tracedEntries (gatt : GattServer σ) : List (Entry (Callback σ)) → Dev σ → List (Act σ) × Except Fault (Dev σ)
  | [], _ => ([], .error .tableEnd)
  | ⟨_, none⟩ :: _, d => ([], .ok d)
  | ⟨id, some cb⟩ :: rest, d =>
    if d.rpc.commandId = id then
      match tracedDispatch gatt cb d with
      | (acts, .error x) => (acts, .error x)
      | (acts, .ok d) => (acts ++ (tracedEntries gatt rest d).1, (tracedEntries gatt rest d).2)
    else tracedEntries gatt rest d

/-- `processCommands`, with a record. -/
def tracedCommands (gatt : GattServer σ) (table : List (Entry (Callback σ))) (d : Dev σ) :
    List (Act σ) × Except Fault (Dev σ) :=
  tracedEntries gatt table d

variable {gatt : GattServer σ} {table : List (Entry (Callback σ))}

theorem tracedDispatch_eq (gatt : GattServer σ) (cb : Callback σ) (d : Dev σ) :
    (tracedDispatch gatt cb d).2 = dispatch gatt cb d := by
  unfold tracedDispatch dispatch
  simp only
  cases cb d.label.call.rpc.commandId d.label.call.rpc.command d.label.call.rpc.commandLength d.label.call with
  | error x => rfl
  | ok e =>
    simp only [ok_bind]
    cases sendResponse gatt e.rpc.commandId e.rpc.response e.rpc.responseLength e <;> rfl

/-- **The record changes nothing.** -/
theorem traced_eq (gatt : GattServer σ) (table : List (Entry (Callback σ))) (d : Dev σ) :
    (tracedCommands gatt table d).2 = processCommands gatt table d := by
  rw [tracedCommands, processCommands]
  induction table generalizing d with
  | nil => rfl
  | cons e rest ih =>
    obtain ⟨id, cb⟩ := e
    cases cb with
    | none => rfl
    | some cb =>
      rw [tracedEntries, processEntries, ← tracedDispatch_eq]
      by_cases h : d.rpc.commandId = id
      · rw [if_pos h, if_pos h]
        obtain ⟨acts, r⟩ := tracedDispatch gatt cb d
        cases r with
        | error x => rfl
        | ok e => exact ih e
      · rw [if_neg h, if_neg h]
        exact ih d

/-! ## The specification -/

/-- What a callback is called with. -/
structure Args where
  id : UInt8
  data : Option Ptr
  length : ℕ

def Dev.args (d : Dev σ) : Args := ⟨d.rpc.commandId, d.rpc.command, d.rpc.commandLength⟩

/-- A callback that leaves `rpc.command_id`, `rpc.command` and `rpc.command_length` as they are. -/
def KeepsCommand (cb : Callback σ) : Prop :=
  ∀ id data length d d', cb id data length d = .ok d' → d'.args = d.args

/-- The device as a callback finds it: `response_id` is set. -/
def Dev.labelled (d : Dev σ) (id : UInt8) : Dev σ := { d with rpc := { d.rpc with responseId := id } }.call

/-- The callbacks are called one after the other, each with the command, after `response_id` was set to its id, and each
followed by one send, labelled with that id, of the length and the bytes it left. It ends early if a callback or
`__RPC_sendResponse` does something undefined. -/
inductive Answers (gatt : GattServer σ) (a : Args) :
    List (Callback σ) → Dev σ → List (Act σ) → Except Fault (Dev σ) → Prop
  | done (d : Dev σ) : Answers gatt a [] d [] (.ok d)
  | answered {cb : Callback σ} {cbs : List (Callback σ)} {d e f : Dev σ} {status : Status} {acts : List (Act σ)}
    {r : Except Fault (Dev σ)} (hcall : cb a.id a.data a.length (d.labelled a.id) = .ok e)
    (hsend : sendResponse gatt a.id e.rpc.response e.rpc.responseLength e = .ok (f, status))
    (hrest : Answers gatt a cbs f acts r) :
    Answers gatt a (cb :: cbs) d (.label a.id :: .call cb a.id a.data a.length :: e.sendAct a.id :: acts) r
  | callFault {cb : Callback σ} {cbs : List (Callback σ)} {d : Dev σ} {x : Fault}
    (hcall : cb a.id a.data a.length (d.labelled a.id) = .error x) :
    Answers gatt a (cb :: cbs) d [.label a.id, .call cb a.id a.data a.length] (.error x)
  | sendFault {cb : Callback σ} {cbs : List (Callback σ)} {d e : Dev σ} {x : Fault}
    (hcall : cb a.id a.data a.length (d.labelled a.id) = .ok e)
    (hsend : sendResponse gatt a.id e.rpc.response e.rpc.responseLength e = .error x) :
    Answers gatt a (cb :: cbs) d [.label a.id, .call cb a.id a.data a.length, e.sendAct a.id] (.error x)

/-- One after the other: label, call, send. -/
def record (a : Args) (cbs : List (Callback σ)) (left : List (Dev σ)) : List (Act σ) :=
  (cbs.zip left).flatMap fun (cb, e) => [.label a.id, .call cb a.id a.data a.length, e.sendAct a.id]

/-- A callback that returns and leaves a response that can be sent. -/
def Answerable (gatt : GattServer σ) (a : Args) (cb : Callback σ) : Prop :=
  ∀ d, ∃ e r, cb a.id a.data a.length d = .ok e ∧ sendResponse gatt a.id e.rpc.response e.rpc.responseLength e = .ok r

/-- When it does not end early, every callback has been called and answered. -/
theorem Answers.record_of_ok {a : Args} {cbs : List (Callback σ)} {d d' : Dev σ} {acts : List (Act σ)}
    (h : Answers gatt a cbs d acts (.ok d')) : ∃ left, left.length = cbs.length ∧ acts = record a cbs left := by
  generalize hr : Except.ok d' = r at h
  induction h with
  | done d => exact ⟨[], rfl, rfl⟩
  | @answered cb cbs d e f status acts r hcall hsend _ ih =>
    obtain ⟨left, hlen, hacts⟩ := ih hr
    refine ⟨e :: left, congrArg (· + 1) hlen, ?_⟩
    rw [hacts]
    rfl
  | callFault _ => cases hr
  | sendFault _ _ => cases hr

/-- It ends early only where something cannot be answered. -/
theorem Answers.ok {a : Args} {cbs : List (Callback σ)} {d : Dev σ} {acts : List (Act σ)} {r : Except Fault (Dev σ)}
    (h : Answers gatt a cbs d acts r) (hcbs : ∀ cb ∈ cbs, Answerable gatt a cb) : ∃ d', r = .ok d' := by
  induction h with
  | done d => exact ⟨d, rfl⟩
  | answered _ _ _ ih => exact ih fun cb hcb => hcbs cb (List.mem_cons_of_mem _ hcb)
  | callFault hcall =>
    obtain ⟨e, r, he, _⟩ := hcbs _ List.mem_cons_self _
    rw [hcall] at he
    cases he
  | sendFault hcall hsend =>
    obtain ⟨e, r, he, hr⟩ := hcbs _ List.mem_cons_self _
    rw [hcall] at he
    cases he
    rw [hsend] at hr
    cases hr

/-! ## The loop meets it -/

/-- The callbacks that run are those of the entries before the first `NULL` one that have the id, in table order. -/
theorem callbacks_eq_filter {α : Type} (id : UInt8) (table : List (Entry α)) : callbacks id table =
    ((table.takeWhile (·.callback.isSome)).filter (·.id = id)).filterMap (·.callback) := by
  induction table with
  | nil => rfl
  | cons e rest ih =>
    obtain ⟨i, cb⟩ := e
    cases cb with
    | none => rfl
    | some a =>
      by_cases h : id = i
      · subst h
        simp [callbacks, ih]
      · simp [callbacks, ih, h, Ne.symm h]

/-- No entry before the end marker has the id. -/
theorem callbacks_of_notMem {α : Type} {id : UInt8} {table : List (Entry α)} (h : id ∉ tableIds table) :
    callbacks id table = [] := by
  induction table with
  | nil => rfl
  | cons e rest ih =>
    obtain ⟨i, cb⟩ := e
    cases cb with
    | none => rfl
    | some a =>
      rw [tableIds_some, List.mem_cons, not_or] at h
      rw [callbacks, if_neg h.1]
      exact ih h.2

/-- A send leaves the command alone. -/
theorem sendResponse_args {d d' : Dev σ} {id : UInt8} {data : Option Ptr} {length : ℕ} {status : Status}
    (h : sendResponse gatt id data length d = .ok (d', status)) : d'.args = d.args := by
  obtain ⟨m, live, _, _, _, _, _, rfl⟩ := sendResponse_frame h
  rfl

/-- A callback that returns is followed by one send. -/
theorem tracedDispatch_ok (gatt : GattServer σ) {cb : Callback σ} {d e : Dev σ} (hkeep : KeepsCommand cb)
    (hcall : cb d.args.id d.args.data d.args.length (d.labelled d.args.id) = .ok e) :
    e.args = d.args ∧ tracedDispatch gatt cb d =
      ([.label d.args.id, .call cb d.args.id d.args.data d.args.length, e.sendAct d.args.id],
        (sendResponse gatt d.args.id e.rpc.response e.rpc.responseLength e).map Prod.fst) := by
  have hargs : e.args = d.args := hkeep _ _ _ (d.labelled d.args.id) _ hcall
  have hid : e.rpc.commandId = d.args.id := congrArg Args.id hargs
  refine ⟨hargs, ?_⟩
  change cb d.label.call.rpc.commandId d.label.call.rpc.command d.label.call.rpc.commandLength d.label.call = _ at hcall
  simp only [tracedDispatch, hcall, hid]
  rfl

/-- A callback that does not return is the last thing on record. -/
theorem tracedDispatch_error {cb : Callback σ} {d : Dev σ} {x : Fault}
    (hcall : cb d.args.id d.args.data d.args.length (d.labelled d.args.id) = .error x) :
    tracedDispatch gatt cb d =
      ([.label d.args.id, .call cb d.args.id d.args.data d.args.length], .error x) := by
  change cb d.label.call.rpc.commandId d.label.call.rpc.command d.label.call.rpc.commandLength d.label.call = _ at hcall
  simp only [tracedDispatch, hcall]
  rfl

theorem tracedEntries_hit (cb : Callback σ) (rest : List (Entry (Callback σ))) (d : Dev σ) :
    tracedEntries gatt (⟨d.args.id, some cb⟩ :: rest) d =
      match tracedDispatch gatt cb d with
      | (acts, .error x) => (acts, .error x)
      | (acts, .ok d) => (acts ++ (tracedEntries gatt rest d).1, (tracedEntries gatt rest d).2) := if_pos rfl

theorem tracedEntries_skip {d : Dev σ} {id : UInt8} (h : d.args.id ≠ id) (cb : Callback σ)
    (rest : List (Entry (Callback σ))) :
    tracedEntries gatt (⟨id, some cb⟩ :: rest) d = tracedEntries gatt rest d := if_neg h

/-- **The loop from an entry on** answers with the callbacks that run from there on. -/
theorem answers_tracedEntries (hend : ∃ e ∈ table, e.callback = none) {d : Dev σ}
    (hkeep : ∀ cb ∈ callbacks d.args.id table, KeepsCommand cb) :
    Answers gatt d.args (callbacks d.args.id table) d (tracedEntries gatt table d).1 (tracedEntries gatt table d).2 := by
  induction table generalizing d with
  | nil =>
    obtain ⟨e, he, _⟩ := hend
    cases he
  | cons e rest ih =>
    obtain ⟨id, cb⟩ := e
    cases cb with
    | none => exact .done d
    | some cb =>
      have hend' := ended_tail rfl hend
      by_cases heq : d.args.id = id
      · subst heq
        rw [callbacks, if_pos rfl] at hkeep ⊢
        rw [tracedEntries_hit]
        cases hcall : cb d.args.id d.args.data d.args.length (d.labelled d.args.id) with
        | error x =>
          rw [tracedDispatch_error hcall]
          exact .callFault hcall
        | ok e =>
          obtain ⟨hargs, htraced⟩ := tracedDispatch_ok gatt (hkeep cb List.mem_cons_self) hcall
          rw [htraced]
          cases hsend : sendResponse gatt d.args.id e.rpc.response e.rpc.responseLength e with
          | error x => exact .sendFault hcall hsend
          | ok r =>
            obtain ⟨f, status⟩ := r
            -- the rest of the loop serves the same command
            have hf : f.args = d.args := (sendResponse_args hsend).trans hargs
            have hrest := ih hend' (d := f) fun cb' h => hkeep cb' (by rw [hf] at h; exact List.mem_cons_of_mem _ h)
            rw [hf] at hrest
            exact .answered hcall hsend hrest
      · rw [callbacks, if_neg heq] at hkeep ⊢
        rw [tracedEntries_skip heq]
        exact ih hend' hkeep

/-- **The dispatch loop meets its specification**: on a table with an end marker, it calls the callbacks of the entries
before the marker that have the command's id, in order, and answers after each. It comes to the marker unless one of them
cannot be answered, and where there are none it does nothing. -/
theorem processCommands_spec (gatt : GattServer σ) (table : List (Entry (Callback σ))) (d : Dev σ)
    (hend : ∃ e ∈ table, e.callback = none) (hkeep : ∀ cb ∈ callbacks d.args.id table, KeepsCommand cb) :
    (tracedCommands gatt table d).2 = processCommands gatt table d ∧
    callbacks d.args.id table =
      ((table.takeWhile (·.callback.isSome)).filter (·.id = d.args.id)).filterMap (·.callback) ∧
    Answers gatt d.args (callbacks d.args.id table) d (tracedCommands gatt table d).1 (processCommands gatt table d) ∧
    (∀ d', processCommands gatt table d = .ok d' → ∃ left, left.length = (callbacks d.args.id table).length ∧
      (tracedCommands gatt table d).1 = record d.args (callbacks d.args.id table) left) ∧
    ((∀ cb ∈ callbacks d.args.id table, Answerable gatt d.args cb) → ∃ d', processCommands gatt table d = .ok d') ∧
    (d.args.id ∉ tableIds table → (tracedCommands gatt table d).1 = [] ∧ processCommands gatt table d = .ok d) := by
  have hanswers : Answers gatt d.args (callbacks d.args.id table) d (tracedCommands gatt table d).1
      (processCommands gatt table d) := by
    rw [← traced_eq]
    exact answers_tracedEntries hend hkeep
  refine ⟨traced_eq gatt table d, callbacks_eq_filter d.args.id table, hanswers, ?_, hanswers.ok, ?_⟩
  · intro d' hd'
    rw [hd'] at hanswers
    exact hanswers.record_of_ok
  · intro hid
    rw [callbacks_of_notMem hid] at hanswers
    generalize (tracedCommands gatt table d).1 = acts at hanswers
    generalize processCommands gatt table d = r at hanswers
    cases hanswers
    exact ⟨rfl, rfl⟩

/-- Callbacks that leave a response of `n` bytes. -/
def answering (n : ℕ) : Callback Unit := fun _ _ _ d => .ok { d with rpc := { d.rpc with responseLength := n } }

/-- Id 5 twice before the end marker, and once after it. -/
def fiveTwice : List (Entry (Callback Unit)) :=
  [⟨5, some (answering 1)⟩, ⟨6, some (answering 2)⟩, ⟨5, some (answering 3)⟩, ⟨0, none⟩, ⟨5, some (answering 4)⟩]

/-- The device with command 5 to run. -/
def commandFive : Dev Unit := { reset () with rpc := { (reset ()).rpc with commandId := 5 } }

/-- The first and the third entry answer command 5. -/
theorem processCommands_spec_twice : ∃ left, left.length = 2 ∧
    (tracedCommands (.plain 251) fiveTwice commandFive).1 =
      record ⟨5, none, 0⟩ [answering 1, answering 3] left := by
  have hkeep : ∀ cb ∈ callbacks commandFive.args.id fiveTwice, KeepsCommand cb := by
    intro cb hcb
    change cb ∈ [answering 1, answering 3] at hcb
    have hn : ∃ n, cb = answering n := by
      rcases List.mem_pair.mp hcb with rfl | rfl
      · exact ⟨1, rfl⟩
      · exact ⟨3, rfl⟩
    obtain ⟨n, rfl⟩ := hn
    intro id data length d d' h
    cases h
    rfl
  have hspec := processCommands_spec (.plain 251) fiveTwice commandFive ⟨⟨0, none⟩, by simp [fiveTwice], rfl⟩ hkeep
  exact hspec.2.2.2.1 _ rfl

end BleRpc.Device
