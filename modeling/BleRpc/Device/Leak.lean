import BleRpc.Device.ResponseRead

/-!
# What an earlier command leaves behind

`RPC_init` clears `rpc.response_length` once; `RPC_processCommands` sets `rpc.response_id` for each command but never
clears the length or the buffer. A callback that writes neither (`LeavesResponse`) is answered with what is there.

- `repeats_latest`: after any history, such a command is answered with the last response sent, under its own id;
- `no_reply_leaks_iff`: the answer is the empty packet after two histories iff both left the length at zero.
-/

namespace BleRpc.Device

open Outcome Transition

variable {σ : Type}

/-- No branch stores through `rpc.response` or sets `rpc.response_length`. -/
def Prog.LeavesResponse : Prog σ → Prop
  | .ret => True
  | .look k => ∀ d, (k d).LeavesResponse
  | .load _ _ k => ∀ bytes, (k bytes).LeavesResponse
  | .storeResponse _ _ _ => False
  | .setResponseLength _ _ => False
  | .modify _ next => next.LeavesResponse
  | .notify _ _ _ next => next.LeavesResponse

def Handler.LeavesResponse (h : Handler σ) : Prop := ∀ id data length, (h id data length).LeavesResponse

/-- The responses sent since. -/
def answers (d d' : Dev σ) : List Bytes := (responses d'.trace).drop (responses d.trace).length

theorem answers_of_append {d d' : Dev σ} {sent : List Bytes} (h : responses d'.trace = responses d.trace ++ sent) :
    answers d d' = sent := by
  rw [answers, h, List.drop_left]

/-! ## What a dispatch sends -/

section Dispatch

variable {gatt : GattServer σ}

/-- A dispatch is a run of the callback, and the send of the response that stands after it. -/
structure Answered (p : Prog σ) (gatt : GattServer σ) (d d' e : Dev σ) : Prop where
  run : p.run gatt d.label.call = .ok e
  undisturbed : Undisturbed d.label.call e
  rpc : d'.rpc = e.rpc
  buffer : d'.memory .rcpResponseBuffer = e.memory .rcpResponseBuffer
  trace : d'.trace = e.trace ++ [.sent .rpcResponse e.live]

theorem answered_dispatch {h : Handler σ} {d d' : Dev σ} (hd : d.Installed)
    (hrun : dispatch gatt (h.callback gatt) d = .ok d') :
    ∃ e, Answered (h d.rpc.commandId d.rpc.command d.rpc.commandLength) gatt d d' e := by
  obtain ⟨e, he, hrun⟩ := bind_eq_ok.mp hrun
  obtain ⟨⟨f, status⟩, hsend, hrun⟩ := bind_eq_ok.mp hrun
  cases hrun
  have hu : Undisturbed d.label.call e := undisturbed_run hd he
  have hins : e.Installed := hu.installed hd
  obtain ⟨m, live, _, _, _, hload, hf, rfl⟩ := sendResponse_inv (outside_of_responseBuffer hins) hsend
  refine ⟨e, he, hu, rfl, hf _ (by decide), ?_⟩
  rw [← Served.load_response hins hload]
  rfl

theorem Answered.live {p : Prog σ} {d d' e : Dev σ} (h : Answered p gatt d d' e) : d'.live = e.live := by
  simp only [Dev.live, Dev.execution, h.rpc, h.buffer]

/-- A dispatch sends one response, the one that stands afterwards. -/
theorem responses_dispatch {h : Handler σ} {d d' : Dev σ} (hd : d.Installed)
    (hrun : dispatch gatt (h.callback gatt) d = .ok d') :
    d'.Installed ∧ responses d'.trace = responses d.trace ++ [d'.live] := by
  obtain ⟨e, he⟩ := answered_dispatch hd hrun
  have hcall : responses e.trace = responses d.trace := by
    rw [← responses_dispatches, he.undisturbed.dispatches, responses_dispatches, responses_call]
    rfl
  constructor
  · rw [Dev.Installed, he.rpc]
    exact he.undisturbed.installed hd
  · rw [he.live, he.trace, responses_append, hcall]
    rfl

/-- After a scan, the response that stands is the last one sent, if it was before. -/
theorem latest_processEntries {table : List (Entry (Handler σ))} {d d' : Dev σ} (hd : d.Installed)
    (hl : d.live = latest d.trace) (h : processEntries gatt (table.map (Entry.map (Handler.callback gatt))) d = .ok d') :
    d'.Installed ∧ d'.live = latest d'.trace := by
  induction table generalizing d with
  | nil => cases h
  | cons e rest ih =>
    obtain ⟨id, cb⟩ := e
    cases cb with
    | none =>
      cases h
      exact ⟨hd, hl⟩
    | some cb =>
      rw [List.map_cons, Entry.map, Option.map_some, processEntries] at h
      by_cases hid : d.rpc.commandId = id
      · rw [if_pos hid, bind_eq_ok] at h
        obtain ⟨e, he, h⟩ := h
        obtain ⟨hins, hresp⟩ := responses_dispatch hd he
        refine ih hins ?_ h
        rw [latest, hresp, List.getLastD_concat]
      · rw [if_neg hid] at h
        exact ih hd hl h

/-- What a callback that writes no response leaves as it was. -/
structure Untouched (d d' : Dev σ) : Prop where
  installed : d'.Installed
  commandId : d'.rpc.commandId = d.rpc.commandId
  responseLength : d'.rpc.responseLength = d.rpc.responseLength
  buffer : d'.memory .rcpResponseBuffer = d.memory .rcpResponseBuffer

/-- The response that stands, under the command's id. -/
theorem Untouched.live {d d' : Dev σ} (h : Untouched d d') : d'.label.live = d.label.live := by
  simp only [Dev.live, Dev.execution, Dev.label, h.commandId, h.responseLength, h.buffer]

/-- An action of a callback that writes no response. -/
theorem leaves_act {p p' : Prog σ} {d d' : Dev σ} (hp : p.LeavesResponse) (h : p.act gatt d = .ok (p', d')) :
    p'.LeavesResponse ∧ d'.rpc.responseLength = d.rpc.responseLength ∧
      d'.memory .rcpResponseBuffer = d.memory .rcpResponseBuffer := by
  cases Prog.act_eq_ok.mp h with
  | ret => exact ⟨trivial, rfl, rfl⟩
  | look => exact ⟨hp d, rfl, rfl⟩
  | load => exact ⟨hp _, rfl, rfl⟩
  | storeResponse | setResponseLength => exact hp.elim
  | modify => exact ⟨hp, rfl, rfl⟩
  | notify hsend =>
    obtain ⟨m, live, _, _, _, _, hf, rfl⟩ := sendNotification_inv hsend
    exact ⟨hp, rfl, hf _ (by decide)⟩

/-- **A callback that writes no response** changes neither its length nor its bytes. -/
theorem leaves_of_reaches {s t : Prog σ × Dev σ} (hp : s.1.LeavesResponse) (hr : Reaches gatt s t) :
    t.1.LeavesResponse ∧ t.2.rpc.responseLength = s.2.rpc.responseLength ∧
      t.2.memory .rcpResponseBuffer = s.2.memory .rcpResponseBuffer := by
  induction hr with
  | refl => exact ⟨hp, rfl, rfl⟩
  | tail _ hact ih =>
    obtain ⟨hleaves, hlen, hbuf⟩ := ih
    obtain ⟨hleaves', hlen', hbuf'⟩ := leaves_act hleaves hact
    exact ⟨hleaves', hlen'.trans hlen, hbuf'.trans hbuf⟩

/-- Its response is the one that stood before, under the command's id. -/
theorem untouched_dispatch {h : Handler σ} {d d' : Dev σ} (hd : d.Installed) (hh : h.LeavesResponse)
    (hrun : dispatch gatt (h.callback gatt) d = .ok d') : Untouched d d' ∧ d'.live = d.label.live := by
  obtain ⟨e, he⟩ := answered_dispatch hd hrun
  obtain ⟨_, hlen, hbuf⟩ := leaves_of_reaches (hh _ _ _) (Prog.reaches_of_run he.run)
  have hlength : d'.rpc.responseLength = d.rpc.responseLength := by
    rw [he.rpc]
    exact hlen
  have hid : d'.rpc.responseId = d.rpc.commandId := by
    rw [he.rpc]
    exact he.undisturbed.responseId
  have hcommand : d'.rpc.commandId = d.rpc.commandId := by
    rw [he.rpc]
    exact he.undisturbed.commandId
  have hbuffer : d'.memory .rcpResponseBuffer = d.memory .rcpResponseBuffer := he.buffer.trans hbuf
  refine ⟨⟨(responses_dispatch hd hrun).1, hcommand, hlength, hbuffer⟩, ?_⟩
  simp only [Dev.live, Dev.execution, Dev.label, hbuffer, hid, hlength]

/-- **Every callback of such an id** is answered with the response that stood before the scan. -/
theorem responses_untouched {table : List (Entry (Handler σ))} {d d' : Dev σ} (hd : d.Installed)
    (hq : ∀ h ∈ callbacks d.rpc.commandId table, h.LeavesResponse)
    (h : processEntries gatt (table.map (Entry.map (Handler.callback gatt))) d = .ok d') :
    responses d'.trace =
      responses d.trace ++ List.replicate (callbacks d.rpc.commandId table).length d.label.live := by
  induction table generalizing d with
  | nil => cases h
  | cons e rest ih =>
    obtain ⟨id, cb⟩ := e
    cases cb with
    | none =>
      cases h
      exact (List.append_nil _).symm
    | some cb =>
      rw [List.map_cons, Entry.map, Option.map_some, processEntries] at h
      by_cases hid : d.rpc.commandId = id
      · rw [if_pos hid, bind_eq_ok] at h
        obtain ⟨e, he, h⟩ := h
        rw [callbacks, if_pos hid] at hq ⊢
        obtain ⟨hu, hlive⟩ := untouched_dispatch hd (hq cb List.mem_cons_self) he
        have hrest := ih hu.installed (by rw [hu.commandId]; exact fun h' hm => hq h' (List.mem_cons_of_mem _ hm)) h
        rw [hrest, (responses_dispatch hd he).2, hlive, hu.live, hu.commandId, List.append_assoc, List.length_cons,
          List.replicate_succ]
        rfl
      · rw [if_neg hid] at h
        rw [callbacks, if_neg hid] at hq ⊢
        exact ih hd hq h

end Dispatch

/-! ## Histories -/

section Histories

variable {gatt : GattServer σ} {table : List (Entry (Handler σ))} {app : σ} {s s' t t' : SlotState σ}

/-- The response that stands is the last one sent. -/
structure Standing (s : SlotState σ) : Prop where
  installed : s.dev.Installed
  latest : s.dev.live = latest s.dev.trace

theorem standing_step {ev : SlotEvent} (hi : Standing s) (h : s.step gatt table ev = some s') : Standing s' := by
  cases ev with
  | write packet offset =>
    obtain ⟨hst, _⟩ := step_write_inv h
    refine ⟨?_, ?_⟩
    · rw [Dev.Installed, hst.rpc]
      exact hi.installed
    · rw [Served.Stored.live hst, hst.trace]
      exact hi.latest
  | iterate =>
    obtain ⟨d, e, hw, he, rfl⟩ := step_iterate_inv h
    obtain ⟨_, hd⟩ := waitForCommand_inv hw
    have hins : d.Installed := by rw [hd]; exact hi.installed
    have hlive : d.live = Device.latest d.trace := by rw [hd]; exact hi.latest
    obtain ⟨hins', hlive'⟩ := latest_processEntries hins hlive he
    exact ⟨hins', hlive'⟩

/-- **After every history** from reset, the response that stands is the last one sent. -/
theorem standing_run {events : List SlotEvent}
    (h : run (SlotState.step gatt table) (SlotState.init app) events = some s) : Standing s := by
  have hinit : Standing (SlotState.init app) := ⟨rfl, rfl⟩
  exact run_inv (fun _ _ _ hi hs => standing_step hi hs) hinit h

/-- What a command is answered with when its callbacks write no response. -/
theorem answers_untouched {packet : Bytes} {offset : UInt16} (hd : s.dev.Installed)
    (hq : ∀ h ∈ callbacks (Command.ofPacket packet).id table, h.LeavesResponse)
    (h : run (SlotState.step gatt table) s [.write packet offset, .iterate] = some s') :
    answers s.dev s'.dev = List.replicate (callbacks (Command.ofPacket packet).id table).length
      ((Command.ofPacket packet).id :: s.dev.live.tail) := by
  obtain ⟨u, hwrite, h⟩ := run_cons_some h
  obtain ⟨v, hiter, h⟩ := run_cons_some h
  cases h
  obtain ⟨hst, _⟩ := step_write_inv hwrite
  obtain ⟨d, e, hw, he, rfl⟩ := step_iterate_inv hiter
  obtain ⟨_, hdev⟩ := waitForCommand_inv hw
  have hins : d.Installed := by
    rw [hdev, Dev.Installed]
    simp only [hst.rpc]
    exact hd
  have hid : d.rpc.commandId = (Command.ofPacket packet).id := by
    rw [hdev]
    simp only [hst.rpc]
    rfl
  have hlive : d.label.live = (Command.ofPacket packet).id :: s.dev.live.tail := by
    rw [Dev.live, Dev.label]
    simp only [hid, Dev.execution, Execution.packet]
    rw [hdev]
    simp only [hst.rpc, hst.frame .rcpResponseBuffer (by decide)]
    rfl
  have htrace : d.trace = s.dev.trace := by rw [hdev]; exact hst.trace
  have hresp := responses_untouched hins (by rw [hid]; exact hq) he
  rw [hid, hlive, htrace] at hresp
  exact answers_of_append hresp

/-- **What leaks**: the last response sent, under the id of the command. -/
theorem repeats_latest {events : List SlotEvent} {packet : Bytes} {offset : UInt16}
    (hq : ∀ h ∈ callbacks (Command.ofPacket packet).id table, h.LeavesResponse)
    (hs : run (SlotState.step gatt table) (SlotState.init app) events = some s)
    (h : run (SlotState.step gatt table) s [.write packet offset, .iterate] = some s') :
    answers s.dev s'.dev = List.replicate (callbacks (Command.ofPacket packet).id table).length
      ((Command.ofPacket packet).id :: (latest s.dev.trace).tail) := by
  obtain ⟨hins, hlatest⟩ := standing_run hs
  rw [← hlatest]
  exact answers_untouched hins hq h

/-- A command is answered after two histories with the same packets, each the empty one. -/
structure NoLeak (id : UInt8) (s s' t t' : SlotState σ) : Prop where
  same : answers s.dev s'.dev = answers t.dev t'.dev
  answered : answers s.dev s'.dev ≠ []
  empty : ∀ packet ∈ answers s.dev s'.dev, packet = [id, 0]

/-- The response that stands is empty iff its length is zero. -/
theorem live_tail_eq (d : Dev σ) : d.live.tail = [0] ↔ d.rpc.responseLength = 0 := by
  have hlen : (d.memory .rcpResponseBuffer).toList.length = 256 := List.Vector.toList_length _
  constructor
  · intro h
    have hpay : (d.memory .rcpResponseBuffer).toList.take d.rpc.responseLength = [] := (List.cons.inj h).2
    rcases List.take_eq_nil_iff.mp hpay with h0 | hnil
    · exact h0
    · rw [hnil] at hlen
      cases hlen
  · intro h
    simp [Dev.live, Dev.execution, Execution.packet, h]

/-- **No earlier reply leaks into a later one exactly when neither history left a response length behind.** -/
theorem no_reply_leaks_iff (gatt : GattServer σ) (table : List (Entry (Handler σ))) (app : σ) (id : UInt8)
    (hid : callbacks id table ≠ []) (hl : ∀ h ∈ callbacks id table, h.LeavesResponse) (es fs : List SlotEvent)
    (p q : Bytes) (hp : (Command.ofPacket p).id = id) (hq : (Command.ofPacket q).id = id) (offset offset' : UInt16)
    (s s' t t' : SlotState σ) (hs : run (SlotState.step gatt table) (SlotState.init app) es = some s)
    (ht : run (SlotState.step gatt table) (SlotState.init app) fs = some t)
    (hs' : run (SlotState.step gatt table) s [.write p offset, .iterate] = some s')
    (ht' : run (SlotState.step gatt table) t [.write q offset', .iterate] = some t') :
    NoLeak id s s' t t' ↔ s.dev.rpc.responseLength = 0 ∧ t.dev.rpc.responseLength = 0 := by
  subst hp
  have hans := answers_untouched (standing_run hs).installed hl hs'
  have hant := answers_untouched (standing_run ht).installed (by rw [hq]; exact hl) ht'
  rw [hq] at hant
  obtain ⟨n, hn⟩ : ∃ n, (callbacks (Command.ofPacket p).id table).length = n + 1 :=
    Nat.exists_eq_succ_of_ne_zero (fun h => hid (List.length_eq_zero_iff.mp h))
  rw [hn] at hans hant
  rw [← live_tail_eq, ← live_tail_eq]
  constructor
  · rintro ⟨hsame, _, hempty⟩
    have hmem : (Command.ofPacket p).id :: s.dev.live.tail ∈ answers s.dev s'.dev := by
      rw [hans, List.replicate_succ]
      exact List.mem_cons_self
    have hleft : s.dev.live.tail = [0] := (List.cons.inj (hempty _ hmem)).2
    rw [hans, hant, List.replicate_succ, List.replicate_succ] at hsame
    have hright : s.dev.live.tail = t.dev.live.tail := (List.cons.inj (List.cons.inj hsame).1).2
    exact ⟨hleft, hright ▸ hleft⟩
  · rintro ⟨hleft, hright⟩
    rw [hleft] at hans
    rw [hright] at hant
    refine ⟨hans.trans hant.symm, ?_, ?_⟩
    · rw [hans, List.replicate_succ]
      exact List.cons_ne_nil _ _
    · intro packet hm
      rw [hans] at hm
      exact List.eq_of_mem_replicate hm

end Histories

/-- Callback 5 answers with one byte; callback 6 has nothing to answer. -/
def quietAfterAnswer : List (Entry (Handler Unit)) :=
  [⟨5, some fun _ _ _ => .storeResponse 0 7 (.setResponseLength 1 .ret)⟩, ⟨6, some fun _ _ _ => .ret⟩, ⟨0, none⟩]

/-- Command 6 alone, and command 6 twice. -/
theorem no_reply_leaks_quiet : ∃ s s' t t' : SlotState Unit,
    run (SlotState.step (.plain 251) quietAfterAnswer) (SlotState.init ()) [] = some s ∧
      run (SlotState.step (.plain 251) quietAfterAnswer) (SlotState.init ()) [.write [6, 0] 0, .iterate] = some t ∧
      run (SlotState.step (.plain 251) quietAfterAnswer) s [.write [6, 0] 0, .iterate] = some s' ∧
      run (SlotState.step (.plain 251) quietAfterAnswer) t [.write [6, 0] 0, .iterate] = some t' ∧
      (NoLeak 6 s s' t t' ↔ s.dev.rpc.responseLength = 0 ∧ t.dev.rpc.responseLength = 0) := by
  refine ⟨_, _, _, _, rfl, rfl, rfl, rfl, no_reply_leaks_iff (.plain 251) quietAfterAnswer () 6 (List.cons_ne_nil _ _)
    ?_ [] [.write [6, 0] 0, .iterate] [6, 0] [6, 0] (by decide) (by decide) 0 0 _ _ _ _ rfl rfl rfl rfl⟩
  intro h hh
  rw [List.mem_singleton.mp hh]
  exact fun _ _ _ => trivial

/-- After command 5, command 6 is answered with the byte of command 5. -/
theorem reply_leaks : ∃ s s' t t' : SlotState Unit,
    run (SlotState.step (.plain 251) quietAfterAnswer) (SlotState.init ()) [] = some s ∧
      run (SlotState.step (.plain 251) quietAfterAnswer) (SlotState.init ()) [.write [5, 0] 0, .iterate] = some t ∧
      run (SlotState.step (.plain 251) quietAfterAnswer) s [.write [6, 0] 0, .iterate] = some s' ∧
      run (SlotState.step (.plain 251) quietAfterAnswer) t [.write [6, 0] 0, .iterate] = some t' ∧
      answers s.dev s'.dev = [[6, 0]] ∧ answers t.dev t'.dev = [[6, 1, 7]] ∧ ¬ NoLeak 6 s s' t t' := by
  refine ⟨_, _, _, _, rfl, rfl, rfl, rfl, by decide, by decide, ?_⟩
  intro h
  exact absurd h.same (by decide)

end BleRpc.Device
