import BleRpc.Device.Progress
import BleRpc.EndToEnd.NoFault
import BleRpc.EndToEnd.System

/-!
# Patient calls are answered

Any number of calls at once, none of which times out, is cancelled or fails to write, and all with commands that the
service answers. The lock then puts them in turn (`Turn`), so that the other conditions of an orderly run come for free
but one: no command reaches the device while the scan under way has its id to test.

- `Calm`: where the calls are; every step keeps it (`calm_step`), and makes the next orderly (`Calm.orderly`);
- `Calm.alive`: while a call has not ended, something can happen; `spend`: only so often;
- `patient_calls_answered`: every call is answered, with the reply of the service.
-/

namespace BleRpc.Calls

open Device (Command Entry GattServer Handler LockStep Service TableServes Worker Brief iteration tableIds testRcpCallbacks)
open Transition

variable {σ : Type}

/-- A command the service answers. -/
structure Servable (table : List (Entry (Handler σ))) (P : Command → Prop) (c : Command) : Prop where
  known : c.id ∈ tableIds table
  proper : P c

/-- Nobody gives up, and what passes the checks is a command that the service answers. -/
def Patient (table : List (Entry (Handler σ))) (P : Command → Prop) : Event → Prop
  | .loop (.start _ command) => Host.checkCommand command = .ok () → Servable table P (Command.ofPacket command)
  | .loop (.timeout _) | .loop (.cancel _) | .loop (.writeFailed _ _) => False
  | _ => True

/-- The calls under way go on; no new ones, and the connection is left alone. -/
def Own : Event → Prop
  | .loop .acquire | .loop (.written _) | .loop (.resume _) | .reach _ | .work | .deliver => True
  | _ => False

/-- No command reaches the device while the scan under way has its id to test. -/
def Clear (s : Calls σ) : Event → Prop
  | .reach k => ∀ w ∈ s.client.writes[k]?, (Command.ofPacket w.2).id ∉ tableIds s.device.worker.pc.rest
  | _ => True

/-- Whose turn it is. -/
inductive Turn (s : Calls σ) : Prop
  /-- Nobody's: everything written has been answered, and the answers handled. -/
  | free (hf : s.client.responseFuture = none) (hr : s.reached.length = s.client.writes.length)
    (hv : s.client.received.length = s.client.writes.length)
  /-- A call's whose command is on its way to the device. -/
  | asked {f : ℕ} (hf : s.client.responseFuture = some f) (hp : s.client.result f = none)
    (hr : s.reached.length + 1 = s.client.writes.length) (hv : s.client.received.length + 1 = s.client.writes.length)
  /-- The device has its command. -/
  | underway {f : ℕ} (hf : s.client.responseFuture = some f) (hp : s.client.result f = none)
    (hr : s.reached.length = s.client.writes.length) (hv : s.client.received.length + 1 = s.client.writes.length)
  /-- Its future is done. -/
  | answered {f : ℕ} {r : Host.Response} (hf : s.client.responseFuture = some f) (hres : s.client.result f = some r)
    (hr : s.reached.length = s.client.writes.length) (hv : s.client.received.length = s.client.writes.length)

/-- The calls in turn, with commands that the service answers, and responses that the client takes. -/
structure Calm (table : List (Entry (Handler σ))) (P : Command → Prop) (s : Calls σ) : Prop where
  turn : Turn s
  inOrder : s.reached = List.range s.reached.length
  received : s.client.received.length ≤ s.responses.length
  wellFormed : ∀ data ∈ s.responses, Host.WellFormed data
  servable : ∀ i ∈ s.client.line, Host.checkCommand (s.client.command i) = .ok () ∧ Servable table P (s.commandOf i)
  refused : ∀ i e, s.client.stage i = .raised e →
    e = .ioError "BLE client is not connected" ∨ Host.checkCommand (s.client.command i) = .error e

section Steps

variable {gatt : GattServer σ} {f : Service σ} {app : σ} {P : Command → Prop} {table : List (Entry (Handler σ))}

theorem calm_init : Calm table P (init app) :=
  ⟨.free rfl rfl rfl, rfl, Nat.le_refl _, nofun, nofun, nofun⟩

/-- A call outside the line changes its stage and its command only. -/
theorem Calm.aside {s : Calls σ} {c : Host.Client} {i : ℕ} {st : Host.Stage} (h : Calm table P s)
    (hstage : c.stage = Function.update s.client.stage i st) (hfut : c.responseFuture = s.client.responseFuture)
    (hres : ∀ g, c.result g = s.client.result g) (hw : c.writes = s.client.writes)
    (hrecv : c.received = s.client.received)
    (hline : ∀ j ∈ c.line, Host.checkCommand (c.command j) = .ok () ∧ Servable table P (Command.ofPacket (c.command j)))
    (hcmd : ∀ j, j ≠ i → c.command j = s.client.command j)
    (href : ∀ e, st = .raised e → e = .ioError "BLE client is not connected" ∨
      Host.checkCommand (c.command i) = .error e) : Calm table P { s with client := c } := by
  refine ⟨?_, h.inOrder, hrecv ▸ h.received, h.wellFormed, hline, ?_⟩
  · cases h.turn with
    | free hf hr hv => exact .free (hfut.trans hf) (hw ▸ hr) (hw ▸ hrecv ▸ hv)
    | asked hf hp hr hv => exact .asked (hfut.trans hf) ((hres _).trans hp) (hw ▸ hr) (hw ▸ hrecv ▸ hv)
    | underway hf hp hr hv => exact .underway (hfut.trans hf) ((hres _).trans hp) (hw ▸ hr) (hw ▸ hrecv ▸ hv)
    | answered hf hres' hr hv => exact .answered (hfut.trans hf) ((hres _).trans hres') (hw ▸ hr) (hw ▸ hrecv ▸ hv)
  · intro j e hj
    have hj : c.stage j = .raised e := hj
    by_cases hji : j = i
    · subst hji
      rw [hstage, Function.update_self] at hj
      exact href e hj
    · rw [hstage, Function.update_of_ne hji] at hj
      have hold := h.refused j e hj
      rwa [← hcmd j hji] at hold

/-- A call gets the lock. -/
theorem Calm.enter {s : Calls σ} {i : ℕ} {lock : FairLock ℕ} (h : Calm table P s)
    (hnone : s.client.responseFuture = none)
    (hline : ∀ j ∈ (s.client.enter i lock).line, Host.checkCommand (s.client.command j) = .ok () ∧
      Servable table P (s.commandOf j)) : Calm table P { s with client := s.client.enter i lock } := by
  have hlen : (s.client.enter i lock).writes.length = s.client.writes.length + 1 := by simp [Host.Client.enter]
  refine ⟨?_, h.inOrder, h.received, h.wellFormed, hline, ?_⟩
  · cases h.turn with
    | free _ hr hv =>
      refine .asked (f := s.client.futures.length) rfl ?_ (by rw [hlen]; exact congrArg (· + 1) hr)
        (by rw [hlen]; exact congrArg (· + 1) hv)
      show (s.client.enter i lock).result _ = none
      rw [Host.Client.result_enter, Host.Client.result_length]
    | asked hf | underway hf | answered hf => rw [hnone] at hf; cases hf
  · intro j e hj
    have hji : j ≠ i := by
      rintro rfl
      simp [Host.Client.enter] at hj
    exact h.refused j e (by simpa [Host.Client.enter, hji] using hj)

/-- A new call is not in the line. -/
theorem Inv.not_mem_line {s : Calls σ} (hi : Inv gatt f app P table s) {i : ℕ} (hidle : s.client.stage i = .idle) :
    i ∉ s.client.line := by
  intro hmem
  rcases List.mem_append.mp hmem with hmem | hmem
  · exact (hi.lined.begun i hmem).1 hidle
  · have hqueued : s.client.stage i = .queued := (hi.link.client.locked.waiters i).mp hmem
    rw [hidle] at hqueued
    cases hqueued

theorem calm_start {s : Calls σ} {i : ℕ} {command : Host.Bytes} {c : Host.Client} (hi : Inv gatt f app P table s)
    (h : Calm table P s) (hp : Host.checkCommand command = .ok () → Servable table P (Command.ofPacket command))
    (hc : s.client.step (.start i command) = some c) : Calm table P { s with client := c } := by
  obtain ⟨hidle, hstart⟩ := Host.Client.start_inv hc
  have hnew := hi.not_mem_line hidle
  have hcmd : ∀ j, j ≠ i → (s.client.call i command).command j = s.client.command j :=
    fun j hj => Function.update_of_ne hj _ _
  have hself : (s.client.call i command).command i = command := Function.update_self _ _ _
  have hold : ∀ j ∈ s.client.line, Host.checkCommand ((s.client.call i command).command j) = .ok () ∧
      Servable table P (Command.ofPacket ((s.client.call i command).command j)) := by
    intro j hj
    rw [hcmd j (ne_of_mem_of_not_mem hj hnew)]
    exact h.servable j hj
  -- a call that passes the checks may join the line
  have hown : s.client.checkSend command = .ok () →
      Host.checkCommand ((s.client.call i command).command i) = .ok () ∧
        Servable table P (Command.ofPacket ((s.client.call i command).command i)) := by
    intro hok
    rw [hself]
    rw [Host.Client.checkSend] at hok
    split at hok
    · exact ⟨hok, hp hok⟩
    · cases hok
  cases hstart with
  | @refused err hcheck =>
    refine h.aside (by rfl) rfl (fun _ => rfl) rfl rfl hold hcmd ?_
    rintro e he
    cases he
    rw [Host.Client.checkSend] at hcheck
    split at hcheck
    · exact .inr (hself.symm ▸ hcheck)
    · cases hcheck
      exact .inl rfl
  | opened hok hopen =>
    have hcall : Calm table P { s with client := s.client.call i command } := by
      have hstage : (s.client.call i command).stage = Function.update s.client.stage i .idle := by
        rw [← hidle, Function.update_eq_self]
        rfl
      exact h.aside hstage rfl (fun _ => rfl) rfl rfl hold hcmd (by simp)
    refine hcall.enter (hi.link.client.linked.guarded.mpr hopen.1) ?_
    intro j hj
    by_cases hji : j = i
    · subst hji
      exact hown hok
    · refine hold j ?_
      have hline : ((s.client.call i command).enter i (s.client.commandLock.take i)).line = s.client.line ++ [i] := by
        simp [Host.Client.line, Host.Client.writers, Host.Client.enter, Host.Client.call, hopen.2]
      simpa [hline, hji] using hj
  | joined hok =>
    refine h.aside (by rfl) rfl (fun _ => rfl) rfl rfl ?_ hcmd (by simp)
    intro j hj
    by_cases hji : j = i
    · subst hji
      exact hown hok
    · refine hold j ?_
      simpa [Host.Client.line, Host.Client.writers, Host.Client.move, Host.Client.call, hji] using hj

/-- A call that is writing has the lock, and its future is the one that is awaited. -/
theorem Inv.holds_of_writing {s : Calls σ} (hi : Inv gatt f app P table s) {i : ℕ} (hw : s.client.stage i = .writing) :
    s.client.commandLock.holder = some i ∧ ∃ g, s.client.responseFuture = some g := by
  have hholder : s.client.commandLock.holder = some i :=
    (hi.link.client.locked.holder i).mpr (Host.Client.inside_of_writing hw)
  have hsome : s.client.responseFuture ≠ none := by
    intro hnone
    have hfree : s.client.commandLock.holder = none := hi.link.client.linked.guarded.mp hnone
    rw [hholder] at hfree
    cases hfree
  exact ⟨hholder, Option.ne_none_iff_exists'.mp hsome⟩

theorem calm_loop {s s' : Calls σ} {e : Host.Client.Event} (hi : Inv gatt f app P table s) (h : Calm table P s)
    (hp : Patient table P (.loop e)) (hs : s.step gatt table (.loop e) = some s') : Calm table P s' := by
  by_cases he : e.packets = [] ∧ s.Acknowledged e
  · simp only [step, if_pos he] at hs
    obtain ⟨c, hc, rfl⟩ := Option.map_eq_some_iff.mp hs
    cases e with
    | connection up =>
      cases hc
      exact ⟨by cases h.turn with
        | free hf hr hv => exact .free hf hr hv
        | asked hf hp hr hv => exact .asked hf hp hr hv
        | underway hf hp hr hv => exact .underway hf hp hr hv
        | answered hf hres hr hv => exact .answered hf hres hr hv,
        h.inOrder, h.received, h.wellFormed, h.servable, h.refused⟩
    | start i command => exact calm_start hi h hp hc
    | acquire =>
      obtain ⟨⟨i, lock⟩, hg, rfl⟩ := Option.map_eq_some_iff.mp hc
      obtain ⟨hnone, hw, _⟩ := FairLock.grant_eq_some hg
      refine h.enter (hi.link.client.linked.guarded.mpr hnone) ?_
      intro j hj
      refine h.servable j ?_
      simpa [Host.Client.line, Host.Client.writers, Host.Client.enter, hw] using hj
    | written i =>
      obtain ⟨hw, hmove⟩ := Host.Client.written_inv hc
      obtain ⟨_, g, hg⟩ := hi.holds_of_writing hw
      rw [hmove g hg]
      refine h.aside (by rfl) rfl (fun _ => rfl) rfl rfl h.servable (fun _ _ => rfl) ?_
      simp
    | resume i =>
      obtain ⟨g, r, hw, hr, rfl⟩ := Host.Client.resume_inv hc
      have hg : s.client.responseFuture = some g := hi.link.client.linked.awaited i g hw
      refine ⟨?_, h.inOrder, h.received, h.wellFormed, h.servable, ?_⟩
      · cases h.turn with
        | free hf => rw [hg] at hf; cases hf
        | asked hf hpend | underway hf hpend =>
          rw [hg] at hf
          cases hf
          rw [hr] at hpend
          cases hpend
        | answered _ _ hr hv => exact .free rfl hr hv
      · intro j e hj
        have hji : j ≠ i := by
          rintro rfl
          simp [Host.Client.leave] at hj
        exact h.refused j e (by simpa [Host.Client.leave, hji] using hj)
    | notify data => cases he.1
    | writeFailed | timeout | cancel => exact hp.elim
  · rw [step, if_neg he] at hs
    cases hs

/-! ## The device -/

theorem calm_work {s s' : Calls σ} (hi : Inv gatt f app P table s) (h : Calm table P s)
    (hs : s.step gatt table .work = some s') : Calm table P s' := by
  obtain ⟨w, hw, rfl⟩ := Option.map_eq_some_iff.mp hs
  have hworked := Worker.step_worked hw
  have hgrow : s.responses <+: Device.responses w.dev.trace := (hworked.keeps hi.device.inv.installed).1.filterMap _
  refine ⟨?_, h.inOrder, h.received.trans hgrow.length_le, wellFormed_work hi.device.inv.installed hworked h.wellFormed,
    h.servable, h.refused⟩
  cases h.turn with
  | free hf hr hv => exact .free hf hr hv
  | asked hf hp hr hv => exact .asked hf hp hr hv
  | underway hf hp hr hv => exact .underway hf hp hr hv
  | answered hf hres hr hv => exact .answered hf hres hr hv

/-- Only the newest write may have yet to reach the device. -/
theorem Calm.unreached {s : Calls σ} (h : Calm table P s) {k : ℕ} (hk : k < s.client.writes.length)
    (hnew : k ∉ s.reached) : k = s.reached.length ∧ s.reached.length + 1 = s.client.writes.length ∧
      s.client.received.length = s.reached.length ∧
      ∃ f, s.client.responseFuture = some f ∧ s.client.result f = none := by
  have hge : s.reached.length ≤ k := by
    rw [h.inOrder, List.mem_range] at hnew
    omega
  cases h.turn with
  | asked hf hp hr hv => exact ⟨by omega, hr, by omega, _, hf, hp⟩
  | free _ hr | underway _ _ hr | answered _ _ hr => omega

theorem calm_reach {s s' : Calls σ} {k : ℕ} (h : Calm table P s)
    (hs : s.step gatt table (.reach k) = some s') : Calm table P s' := by
  obtain ⟨i, packet, d, hw, hnew, hst, rfl⟩ := step_reach_stored hs
  obtain ⟨hk, hlen, hrecv, g, hg, hpend⟩ := h.unreached (List.getElem?_eq_some_iff.mp hw).1 hnew
  have htrace : d.trace = s.device.worker.dev.trace := hst.trace
  have hlen' : (s.reached ++ [k]).length = s.reached.length + 1 := by simp
  refine ⟨?_, ?_, ?_, ?_, h.servable, h.refused⟩
  · exact .underway hg hpend (hlen'.trans hlen) (by rw [hrecv]; exact hlen)
  · show s.reached ++ [k] = List.range (s.reached ++ [k]).length
    rw [hlen', List.range_succ, ← h.inOrder, hk]
  · show _ ≤ (Device.responses d.trace).length
    rw [htrace]
    exact h.received
  · intro data hdata
    have hdata : data ∈ Device.responses d.trace := hdata
    rw [htrace] at hdata
    exact h.wellFormed data hdata

/-- A response that has yet to be handled is the one to the newest write. -/
theorem Calm.next {s : Calls σ} (hi : Inv gatt f app P table s) (h : Calm table P s)
    (hlt : s.client.received.length < s.responses.length) :
    s.reached.length = s.client.writes.length ∧ s.client.received.length + 1 = s.client.writes.length ∧
      ∃ f, s.client.responseFuture = some f ∧ s.client.result f = none := by
  have hle := hi.responses_le
  cases h.turn with
  | underway hf hp hr hv => exact ⟨hr, hv, _, hf, hp⟩
  | free _ hr hv | asked _ _ hr hv | answered _ _ hr hv => omega

theorem calm_deliver {s s' : Calls σ} (hi : Inv gatt f app P table s) (h : Calm table P s)
    (hs : s.step gatt table .deliver = some s') : Calm table P s' := by
  obtain ⟨data, hdata, rfl⟩ := Option.map_eq_some_iff.mp hs
  have hlt := (List.getElem?_eq_some_iff.mp hdata).1
  obtain ⟨hr, hv, g, hg, hpend⟩ := h.next hi hlt
  have hglt := hi.link.client.current_lt g hg
  have hdone := Host.Client.responseHandler_complete hg hglt hpend (h.wellFormed data (List.mem_of_getElem? hdata))
  have hk := Host.Client.responseHandler_kept s.client data
  have hrecv := Host.Client.responseHandler_received s.client data
  refine ⟨?_, h.inOrder, ?_, h.wellFormed, ?_, ?_⟩
  · refine .answered (f := g) (r := ⟨s.client.received.length, data⟩) (hk.responseFuture.trans hg) ?_ (hk.writes ▸ hr) ?_
    · rw [congrArg Prod.fst hdone]
      have hself := Host.Client.result_complete (s := s.client.receive data) (g := g)
        (r := ⟨s.client.received.length, data⟩) hglt
      rw [if_pos rfl] at hself
      exact hself
    · rw [hrecv, hk.writes]
      simpa using hv
  · show (s.client.responseHandler data).1.received.length ≤ s.responses.length
    rw [hrecv, List.length_append, List.length_singleton]
    exact hlt
  · have hline : (s.client.responseHandler data).1.line = s.client.line := by
      simp [Host.Client.line, Host.Client.writers, hk.writes, hk.commandLock]
    simp only [hline, commandOf, hk.command]
    exact h.servable
  · simp only [hk.stage, hk.command]
    exact h.refused

/-! ## Every step -/

/-- There are as many answers as responses. -/
theorem mayWrite_iff {s : Calls σ} : s.device.MayWrite ↔ s.device.written.length ≤ s.responses.length := by
  rw [LockStep.MayWrite, EndToEnd.countP_marks]
  rfl

/-- **A calm step is orderly**, if what reaches the device is clear of the scan under way. -/
theorem Calm.orderly {s s' : Calls σ} {e : Event} (hi : Inv gatt f app P table s) (h : Calm table P s) (hc : s.Clear e)
    (hs : s.step gatt table e = some s') : s.Orderly table P e := by
  cases e with
  | loop e => trivial
  | work => trivial
  | reach k =>
    rintro ⟨i, packet⟩ hw
    obtain ⟨_, _, _, _, hnew, _⟩ := step_reach_inv hs
    obtain ⟨_, _, hrecv, _⟩ := h.unreached (List.getElem?_eq_some_iff.mp hw).1 hnew
    have hmem : i ∈ s.client.line := List.mem_append_left _ (List.mem_map_of_mem (List.mem_of_getElem? hw))
    obtain ⟨_, hcmd⟩ := hi.call_of_write hw
    have hservable := (h.servable i hmem).2
    rw [hcmd] at hservable
    refine ⟨?_, hservable.known, hc _ hw, hservable.proper⟩
    have hlen := hi.carried.length_eq
    have hle := h.received
    exact mayWrite_iff.mpr (by omega)
  | deliver =>
    obtain ⟨data, hdata, _⟩ := Option.map_eq_some_iff.mp hs
    obtain ⟨hr, hv, g, hg, hpend⟩ := h.next hi (List.getElem?_eq_some_iff.mp hdata).1
    rintro ⟨k, data'⟩ hnext _
    right
    -- the write it answers is the newest, and so is the future
    obtain ⟨hk, _⟩ := List.getElem?_zip_eq_some.mp hnext
    have hk : s.reached[s.client.received.length]? = some k := hk
    rw [h.inOrder, List.getElem?_range (by omega)] at hk
    have hcur : g + 1 = s.client.futures.length := hi.link.client.linked.current g hg
    have hlen : s.client.writes.length = s.client.futures.length := hi.link.owned.length
    have hgk : g = k := by
      have := Option.some.inj hk
      omega
    subst hgk
    show s.client.expected = some g
    simp [Host.Client.expected, hg, Host.Client.isDone, hpend]

/-- **Every step keeps the calls calm.** -/
theorem calm_step {s s' : Calls σ} {e : Event} (hi : Inv gatt f app P table s) (h : Calm table P s)
    (hp : Patient table P e) (hs : s.step gatt table e = some s') : Calm table P s' := by
  cases e with
  | loop e => exact calm_loop hi h hp hs
  | reach k => exact calm_reach h hs
  | work => exact calm_work hi h hs
  | deliver => exact calm_deliver hi h hs

/-! ## Something can happen -/

theorem loop_ok {s : Calls σ} {e : Host.Client.Event} {c : Host.Client} (he : e.packets = [] ∧ s.Acknowledged e)
    (hc : s.client.step e = some c) : s.step gatt table (.loop e) = some { s with client := c } := by
  simp only [step, if_pos he, hc, Option.map_some]

/-- A call that has started and not ended. -/
def Pending (s : Calls σ) (i : ℕ) : Prop := s.client.stage i = .queued ∨ (s.client.stage i).Inside

/-- A command that may be written, and is not clear of the scan under way, lets the worker go on with the scan. -/
theorem scan_goes_on {d : LockStep σ} (hi : LockStep.Refined gatt f app P table d) (hmay : d.MayWrite) {id : UInt8}
    (hid : id ∈ tableIds d.worker.pc.rest) : ∃ w', d.worker.step gatt table = some w' := by
  obtain ⟨⟨pc, dev⟩, written⟩ := d
  have hend := hi.sited.ended
  cases hi.inv.phase with
  | idle => cases hid
  | served =>
    apply LockStep.step_scanning
    rcases hend with hpc | hend
    · cases hpc
    · exact hend
  | posted hp | sought hp | matched hp | labelled hp | running hp | postedEarly hp =>
    exact absurd hmay (hp.not_mayWrite rfl)

/-- A command of the line is accepted by the write callback. -/
theorem Calm.reach_ok {s : Calls σ} (hi : Inv gatt f app P table s) (h : Calm table P s) {k : ℕ}
    (hk : k < s.client.writes.length) (hnew : k ∉ s.reached) : ∃ s', s.step gatt table (.reach k) = some s' := by
  obtain ⟨⟨i, packet⟩, hw⟩ : ∃ w, s.client.writes[k]? = some w := ⟨_, List.getElem?_eq_getElem hk⟩
  have hmem : i ∈ s.client.line := List.mem_append_left _ (List.mem_map_of_mem (List.mem_of_getElem? hw))
  have hcmd : packet = s.client.command i := hi.lined.recorded (i, packet) (List.mem_of_getElem? hw)
  have hcheck := (h.servable i hmem).1
  rw [← hcmd] at hcheck
  obtain ⟨d, hd, _⟩ := Device.accepted_of_check gatt hcheck 0 s.device.worker.dev
  exact ⟨_, by simp only [step, hw, if_neg hnew, hd]; rfl⟩

/-- The call that has the lock. -/
theorem Inv.holder_of_future {s : Calls σ} (hi : Inv gatt f app P table s) {g : ℕ}
    (hg : s.client.responseFuture = some g) : ∃ i, s.client.stage i = .writing ∨ s.client.stage i = .waiting g := by
  have hsome : s.client.commandLock.holder ≠ none := by
    intro hnone
    have hfut : s.client.responseFuture = none := hi.link.client.linked.guarded.mpr hnone
    rw [hg] at hfut
    cases hfut
  obtain ⟨i, hholder⟩ := Option.ne_none_iff_exists'.mp hsome
  have hin : (s.client.stage i).Inside := (hi.link.client.locked.holder i).mp hholder
  refine ⟨i, ?_⟩
  cases hst : s.client.stage i with
  | writing => exact .inl rfl
  | waiting g' =>
    have hg' : s.client.responseFuture = some g' := hi.link.client.linked.awaited i g' hst
    rw [hg] at hg'
    cases hg'
    exact .inr rfl
  | idle | queued | returned | raised => rw [hst] at hin; cases hin

/-- **While a call has not ended, something can happen.** -/
theorem Calm.alive {s : Calls σ} (hi : Inv gatt f app P table s) (h : Calm table P s) {i : ℕ} (hp : s.Pending i) :
    ∃ e s', Own e ∧ s.Clear e ∧ s.step gatt table e = some s' := by
  cases h.turn with
  | free hf hr hv =>
    have hnone : s.client.commandLock.holder = none := hi.link.client.linked.guarded.mp hf
    have hw : s.client.commandLock.waiters ≠ [] := by
      intro hnil
      rcases hp with hq | hin
      · have hmem : i ∈ s.client.commandLock.waiters := (hi.link.client.locked.waiters i).mpr hq
        rw [hnil] at hmem
        cases hmem
      · have hholder : s.client.commandLock.holder = some i := (hi.link.client.locked.holder i).mpr hin
        rw [hnone] at hholder
        cases hholder
    obtain ⟨j, lock, hg⟩ := FairLock.exists_grant hnone hw
    have hc : s.client.step .acquire = some (s.client.enter j lock) := by rw [Host.Client.step, hg]; rfl
    exact ⟨.loop .acquire, _, trivial, trivial, loop_ok ⟨rfl, trivial⟩ hc⟩
  | asked hf hpend hr hv =>
    have hnew : s.reached.length ∉ s.reached := by
      rw [h.inOrder]
      simp
    by_cases hclear : s.Clear (.reach s.reached.length)
    · obtain ⟨s', hs'⟩ := h.reach_ok hi (by omega) hnew
      exact ⟨.reach _, s', trivial, hclear, hs'⟩
    · -- the worker first goes on with its scan
      simp only [Clear, not_forall, not_not] at hclear
      obtain ⟨w, _, hid⟩ := hclear
      have hmay : s.device.MayWrite := by
        have hlen := hi.carried.length_eq
        have hle := h.received
        exact mayWrite_iff.mpr (by omega)
      obtain ⟨w', hw'⟩ := scan_goes_on hi.device hmay hid
      exact ⟨.work, _, trivial, trivial, by simp only [step, hw']; rfl⟩
  | underway hf hpend hr hv =>
    by_cases hlt : s.client.received.length < s.responses.length
    · exact ⟨.deliver, _, trivial, trivial, by rw [step, List.getElem?_eq_getElem hlt]; rfl⟩
    · have hmay : ¬ s.device.MayWrite := by
        have hlen := hi.carried.length_eq
        rw [mayWrite_iff]
        omega
      obtain ⟨w', hw'⟩ := hi.device.alive hmay
      exact ⟨.work, _, trivial, trivial, by simp only [step, hw']; rfl⟩
  | @answered g r hf hres hr hv =>
    obtain ⟨j, hj | hj⟩ := hi.holder_of_future hf
    · have hack : s.Acknowledged (.written j) := by
        have hcur : g + 1 = s.client.futures.length := hi.link.client.linked.current g hf
        have hlen : s.client.writes.length = s.client.futures.length := hi.link.owned.length
        show s.client.writes.length - 1 ∈ s.reached
        rw [h.inOrder, List.mem_range]
        omega
      exact ⟨.loop (.written j), _, trivial, trivial, loop_ok ⟨rfl, hack⟩ (Host.Client.written_ok hj hf)⟩
    · exact ⟨.loop (.resume j), _, trivial, trivial, loop_ok ⟨rfl, trivial⟩ (Host.Client.resume_ok hj hres)⟩

/-! ## Only so often -/

/-- What the call that has the lock has left to do. -/
def left (s : Calls σ) : ℕ :=
  match s.client.commandLock.holder.map s.client.stage with
  | some .writing => 2
  | some (.waiting _) => 1
  | _ => 0

/-- What is left to happen: the worker's steps, for each call in the queue the acquisition, the arrival of its command,
the iteration for it, the response and the two ends of its waits, and what remains of this for the call whose turn it
is. -/
def Budget (K : ℕ) (table : List (Entry (Handler σ))) (s : Calls σ) (n : ℕ) : Prop :=
  ∃ m, s.device.worker.Left K table m ∧
    n = m + (iteration K table + 5) * s.client.commandLock.waiters.length +
      (iteration K table + 1) * (s.client.writes.length - s.reached.length) +
      (s.client.writes.length - s.client.received.length) + s.left

variable {K n : ℕ}

/-- The worker can always be budgeted. -/
theorem left_step {s s' : Calls σ} {e : Event} (hb : Brief K table) (hi : Inv gatt f app P table s)
    (hl : ∃ m, s.device.worker.Left K table m) (hs : s.step gatt table e = some s') :
    ∃ m, s'.device.worker.Left K table m := by
  obtain ⟨m, hm⟩ := hl
  cases e with
  | loop e =>
    by_cases he : e.packets = [] ∧ s.Acknowledged e
    · simp only [step, if_pos he] at hs
      obtain ⟨c, _, rfl⟩ := Option.map_eq_some_iff.mp hs
      exact ⟨m, hm⟩
    · rw [step, if_neg he] at hs
      cases hs
  | reach k =>
    obtain ⟨i, packet, d, _, _, hst, rfl⟩ := step_reach_stored hs
    exact ⟨_, Worker.left_write hm hst⟩
  | work =>
    obtain ⟨w, hw, rfl⟩ := Option.map_eq_some_iff.mp hs
    obtain ⟨m', hm', _⟩ := Worker.left_step hb hi.device.inv.installed hm (Worker.step_worked hw)
    exact ⟨m', hm'⟩
  | deliver =>
    obtain ⟨data, _, rfl⟩ := Option.map_eq_some_iff.mp hs
    exact ⟨m, hm⟩

theorem spend_acquire {s s' : Calls σ} (hi : Inv gatt f app P table s) (h : Calm table P s) (hb : Budget K table s n)
    (hs : s.step gatt table (.loop .acquire) = some s') : ∃ m, Budget K table s' m ∧ m < n := by
  rw [step, if_pos ⟨rfl, trivial⟩] at hs
  obtain ⟨c, hc, rfl⟩ := Option.map_eq_some_iff.mp hs
  obtain ⟨⟨i, lock⟩, hg, rfl⟩ := Option.map_eq_some_iff.mp hc
  obtain ⟨hnone, hw, hholder⟩ := FairLock.grant_eq_some hg
  have hf : s.client.responseFuture = none := hi.link.client.linked.guarded.mpr hnone
  obtain ⟨m, hm, rfl⟩ := hb
  refine ⟨_, ⟨m, hm, rfl⟩, ?_⟩
  have hleft : ({ s with client := s.client.enter i lock } : Calls σ).left = 2 := by
    simp [left, Host.Client.enter, hholder]
  have hlen : (s.client.enter i lock).writes.length = s.client.writes.length + 1 := by simp [Host.Client.enter]
  have hwait : s.client.commandLock.waiters.length = (s.client.enter i lock).commandLock.waiters.length + 1 := by
    simp [Host.Client.enter, hw]
  have hrecv : (s.client.enter i lock).received = s.client.received := rfl
  cases h.turn with
  | free _ hr hv =>
    simp only [hleft, hlen, hwait, hrecv, hr, hv, Nat.mul_succ, Nat.add_sub_cancel_left, Nat.sub_self]
    omega
  | asked hf' | underway hf' | answered hf' => rw [hf] at hf'; cases hf'

theorem spend_written {s s' : Calls σ} {i : ℕ} (hi : Inv gatt f app P table s) (hb : Budget K table s n)
    (hs : s.step gatt table (.loop (.written i)) = some s') : ∃ m, Budget K table s' m ∧ m < n := by
  by_cases he : (Host.Client.Event.written i).packets = [] ∧ s.Acknowledged (.written i)
  · rw [step, if_pos he] at hs
    obtain ⟨c, hc, rfl⟩ := Option.map_eq_some_iff.mp hs
    obtain ⟨hw, hmove⟩ := Host.Client.written_inv hc
    obtain ⟨hholder, g, hg⟩ := hi.holds_of_writing hw
    obtain ⟨m, hm, rfl⟩ := hb
    refine ⟨_, ⟨m, hm, rfl⟩, ?_⟩
    have hwas : s.left = 2 := by simp [left, hholder, hw]
    have hnow : ({ s with client := s.client.move i (.waiting g) } : Calls σ).left = 1 := by
      simp [left, Host.Client.move, hholder]
    rw [hmove g hg, hwas, hnow]
    simp only [Host.Client.move]
    omega
  · rw [step, if_neg he] at hs
    cases hs

theorem spend_resume {s s' : Calls σ} {i : ℕ} (hi : Inv gatt f app P table s) (hb : Budget K table s n)
    (hs : s.step gatt table (.loop (.resume i)) = some s') : ∃ m, Budget K table s' m ∧ m < n := by
  rw [step, if_pos ⟨rfl, trivial⟩] at hs
  obtain ⟨c, hc, rfl⟩ := Option.map_eq_some_iff.mp hs
  obtain ⟨g, r, hw, _, rfl⟩ := Host.Client.resume_inv hc
  have hholder : s.client.commandLock.holder = some i :=
    (hi.link.client.locked.holder i).mpr (Host.Client.inside_of_waiting hw)
  obtain ⟨m, hm, rfl⟩ := hb
  refine ⟨_, ⟨m, hm, rfl⟩, ?_⟩
  have hwas : s.left = 1 := by simp [left, hholder, hw]
  have hnow : ({ s with client := s.client.leave i (.returned g r) } : Calls σ).left = 0 := by
    simp [left, Host.Client.leave]
  rw [hwas, hnow]
  simp only [Host.Client.leave, FairLock.waiters_release]
  omega

/-- **Each step of the calls under way spends one.** -/
theorem spend {s s' : Calls σ} {e : Event} (hbrief : Brief K table) (hi : Inv gatt f app P table s)
    (h : Calm table P s) (ho : Own e) (hb : Budget K table s n) (hs : s.step gatt table e = some s') :
    ∃ m, Budget K table s' m ∧ m < n := by
  cases e with
  | loop e =>
    cases e with
    | acquire => exact spend_acquire hi h hb hs
    | written i => exact spend_written hi hb hs
    | resume i => exact spend_resume hi hb hs
    | connection | start | writeFailed | notify | timeout | cancel => exact ho.elim
  | reach k =>
    obtain ⟨i, packet, d, hw, hnew, hst, rfl⟩ := step_reach_stored hs
    obtain ⟨hk, hlen, hrecv, _⟩ := h.unreached (List.getElem?_eq_some_iff.mp hw).1 hnew
    obtain ⟨m, hm, rfl⟩ := hb
    refine ⟨_, ⟨_, Worker.left_write hm hst, rfl⟩, ?_⟩
    have hleft : ({ s with
        device := ⟨⟨s.device.worker.pc, d⟩, s.device.written ++ [Command.ofPacket packet]⟩
        reached := s.reached ++ [k] } : Calls σ).left = s.left := rfl
    have hgone : s.client.writes.length - (s.reached ++ [k]).length = 0 := by
      rw [List.length_append, List.length_singleton]
      omega
    have hone : s.client.writes.length - s.reached.length = 1 := by omega
    simp only [hleft, hgone, hone, Nat.mul_one, Nat.mul_zero]
    omega
  | work =>
    obtain ⟨w, hw, rfl⟩ := Option.map_eq_some_iff.mp hs
    obtain ⟨m, hm, rfl⟩ := hb
    obtain ⟨m', hm', hlt⟩ := Worker.left_step hbrief hi.device.inv.installed hm (Worker.step_worked hw)
    refine ⟨_, ⟨m', hm', rfl⟩, ?_⟩
    have hleft : ({ s with device := ⟨w, s.device.written⟩ } : Calls σ).left = s.left := rfl
    simp only [hleft]
    omega
  | deliver =>
    obtain ⟨data, hdata, rfl⟩ := Option.map_eq_some_iff.mp hs
    obtain ⟨hr, hv, _⟩ := h.next hi (List.getElem?_eq_some_iff.mp hdata).1
    obtain ⟨m, hm, rfl⟩ := hb
    have hk := Host.Client.responseHandler_kept s.client data
    have hrecv := Host.Client.responseHandler_received s.client data
    refine ⟨_, ⟨m, hm, rfl⟩, ?_⟩
    have hleft : ({ s with client := (s.client.responseHandler data).1 } : Calls σ).left = s.left := by
      simp only [left, hk.commandLock, hk.stage]
    simp only [hleft, hk.commandLock, hk.writes, hrecv, List.length_append, List.length_singleton]
    omega

/-! ## Every run -/

/-- The calls under way go on, and what reaches the device is clear. -/
def GoesOn (s : Calls σ) (e : Event) : Prop := Own e ∧ s.Clear e

instance : ∀ e, Decidable (Own e)
  | .loop .acquire | .loop (.written _) | .loop (.resume _) | .reach _ | .work | .deliver => isTrue trivial
  | .loop (.connection _) | .loop (.start _ _) | .loop (.writeFailed _ _) | .loop (.notify _) | .loop (.timeout _)
  | .loop (.cancel _) => isFalse id

instance (s : Calls σ) : ∀ e, Decidable (s.Clear e)
  | .reach k => inferInstanceAs (Decidable (∀ w ∈ s.client.writes[k]?, _))
  | .loop _ | .work | .deliver => isTrue trivial

instance (s : Calls σ) (e : Event) : Decidable (s.GoesOn e) := inferInstanceAs (Decidable (_ ∧ _))

/-- What patient calls come to: they are linearized, one that raises was refused by the checks, and while one has not
ended, something can happen. -/
structure Answers (gatt : GattServer σ) (table : List (Entry (Handler σ))) (f : Service σ) (app : σ) (s : Calls σ) :
    Prop where
  linearized : Linearized f app s
  refused : ∀ i e, s.client.stage i = .raised e →
    e = .ioError "BLE client is not connected" ∨ Host.checkCommand (s.client.command i) = .error e
  alive : ∀ i, s.Pending i → ∃ e s', s.GoesOn e ∧ s.step gatt table e = some s'

/-- All the invariants. -/
structure Sound (gatt : GattServer σ) (f : Service σ) (app : σ) (P : Command → Prop) (table : List (Entry (Handler σ)))
    (K : ℕ) (s : Calls σ) : Prop where
  inv : Inv gatt f app P table s
  calm : Calm table P s
  left : ∃ m, s.device.worker.Left K table m

theorem Sound.answers {s : Calls σ} (h : Sound gatt f app P table K s) : Answers gatt table f app s where
  linearized := h.inv.linearized
  refused := h.calm.refused
  alive _ hp := by
    obtain ⟨e, s', ho, hc, hs⟩ := h.calm.alive h.inv hp
    exact ⟨e, s', ⟨ho, hc⟩, hs⟩

theorem patient_of_own {e : Event} (h : Own e) : Patient table P e := by
  cases e with
  | loop e =>
    cases e with
    | start | timeout | cancel | writeFailed => exact h.elim
    | connection | acquire | written | notify | resume => trivial
  | reach | work | deliver => trivial

theorem sound_step {s s' : Calls σ} {e : Event} (ht : TableServes gatt f P table) (hb : Brief K table)
    (h : Sound gatt f app P table K s) (hp : Patient table P e) (hc : s.Clear e)
    (hs : s.step gatt table e = some s') : Sound gatt f app P table K s' :=
  ⟨inv_step ht h.inv (h.calm.orderly h.inv hc hs) hs, calm_step h.inv h.calm hp hs, left_step hb h.inv h.left hs⟩

/-- **Patient calls are answered.** In every run in which nobody gives up, all commands are the service's, and none
reaches the device while the scan under way has its id to test: the calls are linearized, and those under way go on, for
boundedly many steps whatever the interleaving, until each has returned. -/
theorem patient_calls_answered (gatt : GattServer σ) (f : Service σ) (P : Command → Prop)
    (table : List (Entry (Handler σ))) (ht : TableServes gatt f P table) (hb : Brief K table) (app : σ)
    (events : List Event) (hp : ∀ e ∈ events, Patient table P e) (hc : Meets (step gatt table) Clear (init app) events)
    (s : Calls σ) (h : run (step gatt table) (init app) events = some s) :
    (∃ n, ∀ more s', Meets (step gatt table) GoesOn s more → run (step gatt table) s more = some s' →
      Answers gatt table f app s' ∧ more.length ≤ n) ∧
    ∃ more s', Meets (step gatt table) GoesOn s more ∧ run (step gatt table) s more = some s' ∧
      ∀ i, ¬ s'.Pending i := by
  have hinit : Sound gatt f app P table K (init app) := ⟨inv_init, calm_init, 0, 0, .waiting, rfl⟩
  have hsound : Sound gatt f app P table K s := by
    refine run_inv_of_meets ?_ hinit ((meets_of_forall hp).and hc) h
    exact fun _ _ _ hi hg hs => sound_step ht hb hi hg.1 hg.2 hs
  have hkeep : ∀ (s : Calls σ) e s', Sound gatt f app P table K s →
      guarded (step gatt table) GoesOn s e = some s' → Sound gatt f app P table K s' := by
    intro s e s' hi hs
    obtain ⟨hg, hs⟩ := guarded_eq_some.mp hs
    exact sound_step ht hb hi (patient_of_own hg.1) hg.2 hs
  have hspend : ∀ (s : Calls σ) e s' n, Sound gatt f app P table K s → Budget K table s n →
      guarded (step gatt table) GoesOn s e = some s' → ∃ m, Budget K table s' m ∧ m < n := by
    intro s e s' n hi hbudget hs
    obtain ⟨hg, hs⟩ := guarded_eq_some.mp hs
    exact spend hb hi.inv hi.calm hg.1 hbudget hs
  obtain ⟨n, hbudget⟩ : ∃ n, Budget K table s n := by
    obtain ⟨m, hm⟩ := hsound.left
    exact ⟨_, m, hm, rfl⟩
  refine ⟨⟨n, ?_⟩, ?_⟩
  · intro more s' hmeets hrun
    have hguarded := run_guarded.mpr ⟨hmeets, hrun⟩
    exact ⟨(run_inv hkeep hsound hguarded).answers, run_short hkeep hspend hsound hbudget hguarded⟩
  · have hgo : ∀ s : Calls σ, Sound gatt f app P table K s → ¬ (∀ i, ¬ s.Pending i) →
        ∃ e s', True ∧ guarded (step gatt table) GoesOn s e = some s' := by
      intro s hi hpending
      obtain ⟨i, hi'⟩ := not_forall_not.mp hpending
      obtain ⟨e, s', hg, hs⟩ := hi.answers.alive i hi'
      exact ⟨e, s', trivial, guarded_eq_some.mpr ⟨hg, hs⟩⟩
    obtain ⟨more, s', _, hrun, hdone⟩ := run_done (Q := fun _ => True) hkeep
      (fun s e s' n hi _ hn hs => hspend s e s' n hi hn hs) hgo hsound hbudget
    obtain ⟨hmeets, hrun⟩ := run_guarded.mp hrun
    exact ⟨more, s', hmeets, hrun, hdone⟩

end Steps

/-- Three calls at once. -/
def threeCalls : List Event :=
  [.loop (.connection true), .loop (.start 0 [0, 1, 1]), .loop (.start 1 [0, 1, 1]), .loop (.start 2 [0, 1, 2])]

/-- All three can be brought to their ends, each answered by `ping_device`. -/
theorem patient_calls_answered_three : ∃ s, run (step (.plain 251) testRcpCallbacks) (init 0) threeCalls = some s ∧
    ∃ more s', run (step (.plain 251) testRcpCallbacks) s more = some s' ∧ (∀ i, ¬ s'.Pending i) ∧
      Linearized Device.pingService 0 s' := by
  have hpatient : ∀ e ∈ threeCalls, Patient testRcpCallbacks (fun c => c.payload ≠ []) e := by
    intro e he
    simp only [threeCalls, List.mem_cons, List.not_mem_nil, or_false] at he
    rcases he with rfl | rfl | rfl | rfl
    · trivial
    all_goals exact fun _ => ⟨List.mem_singleton_self _, by decide⟩
  obtain ⟨⟨n, hall⟩, more, s', hmeets, hrun, hdone⟩ := patient_calls_answered (.plain 251) Device.pingService
    (fun c => c.payload ≠ []) testRcpCallbacks (Device.testRcpCallbacks_serves (by decide))
    Device.testRcpCallbacks_brief 0 threeCalls hpatient (by decide) _ rfl
  exact ⟨_, rfl, more, s', hrun, hdone, (hall more s' hmeets hrun).1.linearized⟩

end BleRpc.Calls
