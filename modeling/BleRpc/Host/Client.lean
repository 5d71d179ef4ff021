import BleRpc.Host.Packet
import BleRpc.Lib.FairLock
import BleRpc.Lib.Transition
import Mathlib.Logic.Function.Basic

/-!
# The client's calls and its one future

`RPC.send_command` and `RPC.response_handler` on one asyncio event loop: any number of calls, each a coroutine that
other events may interrupt at its awaits only (the lock, the write, the wait for the response), the lock they share,
and the future in `self.response_future` that the handler completes.

- `Moved`: all a step can do, one constructor per kind of step (`step_moved`);
- `Inv`: the lock is the calls' stages, the future is the holder's, and every completed future has a notification of
  its own;
- `future_discipline`: what this gives for the calls, in every run.
-/

namespace BleRpc.Host

open Transition

/-- A packet that `response_handler` passed on, and which of the notifications it was. -/
structure Response where
  number : ℕ
  data : Bytes
  deriving DecidableEq

/-- An `asyncio.Future`; the shield keeps those of the program from being cancelled. -/
inductive Future
  | pending
  | done (r : Response)
  deriving DecidableEq

/-- Where a call of `send_command` is. -/
inductive Stage
  | idle
  /-- Waits for the lock. -/
  | queued
  /-- Awaits `write_gatt_char`. -/
  | writing
  /-- Awaits the future. -/
  | waiting (future : ℕ)
  /-- Has returned the result of the future. -/
  | returned (future : ℕ) (r : Response)
  /-- Has raised. -/
  | raised (e : PyErr)
  deriving DecidableEq

/-- Between the acquisition of the lock and its release. -/
def Stage.Inside : Stage → Prop
  | .writing | .waiting _ => True
  | _ => False

/-- The attributes of `RPC` that the calls use, the calls, and what has been written, received and completed so far. -/
structure Client where
  connected : Bool
  commandLock : FairLock ℕ
  responseFuture : Option ℕ
  responseCount : ℕ
  futures : List Future
  stage : ℕ → Stage
  command : ℕ → Bytes
  /-- The calls of `write_gatt_char`. -/
  writes : List (ℕ × Bytes)
  received : List Bytes
  completed : List ℕ

namespace Client

/-- After `__init__`. -/
def init : Client := ⟨false, .free, none, 0, [], fun _ => .idle, fun _ => [], [], [], []⟩

/-- The call's next stage. -/
def move (s : Client) (i : ℕ) (stage : Stage) : Client := { s with stage := Function.update s.stage i stage }

/-- The checks before the lock. -/
def checkSend (s : Client) (command : Bytes) : Except PyErr Unit :=
  if s.connected then checkCommand command else .error (.ioError "BLE client is not connected")

/-- The lock is the call's: it creates its future and begins to write. -/
def enter (s : Client) (i : ℕ) (lock : FairLock ℕ) : Client :=
  { s with
    commandLock := lock
    responseFuture := some s.futures.length
    futures := s.futures ++ [.pending]
    writes := s.writes ++ [(i, s.command i)]
    stage := Function.update s.stage i .writing }

/-- `finally`, and the end of `async with`. -/
def leave (s : Client) (i : ℕ) (stage : Stage) : Client :=
  { s with
    commandLock := s.commandLock.release
    responseFuture := none
    stage := Function.update s.stage i stage }

/-- `Future.set_result`, which refuses a future that is done. -/
def setResult (s : Client) (f : ℕ) (r : Response) : Client × Except PyErr Unit :=
  match s.futures[f]? with
  | some .pending => ({ s with futures := s.futures.set f (.done r), completed := s.completed ++ [f] }, .ok ())
  | _ => ({ s with completed := s.completed ++ [f] }, .error .invalidStateError)

/-- `Future.result`, if it is done. -/
def result (s : Client) (f : ℕ) : Option Response :=
  match s.futures[f]? with
  | some (.done r) => some r
  | _ => none

/-- `Future.done`. -/
def isDone (s : Client) (f : ℕ) : Bool := (s.result f).isSome

/-- The notification is counted, whatever it holds. -/
def receive (s : Client) (data : Bytes) : Client :=
  { s with responseCount := s.responseCount + 1, received := s.received ++ [data] }

/-- `response_handler`. -/
def responseHandler (s : Client) (data : Bytes) : Client × Except PyErr Unit :=
  match checkResponse data with
  | .error e => (s.receive data, .error e)
  | .ok () =>
    match s.responseFuture with
    | none => (s.receive data, .ok ())
    | some f =>
      -- the second response to a call is dropped with a warning
      if s.isDone f then (s.receive data, .ok ())
      else (s.receive data).setResult f ⟨s.received.length, data⟩

/-- What the event loop may do next. -/
inductive Event
  | connection (up : Bool)
  /-- A new call, up to its first await. -/
  | start (i : ℕ) (command : Bytes)
  /-- The lock is handed on. -/
  | acquire
  /-- `write_gatt_char` returns. -/
  | written (i : ℕ)
  /-- `write_gatt_char` raises. -/
  | writeFailed (i : ℕ) (e : PyErr)
  | notify (data : Bytes)
  /-- A call finds its future done. -/
  | resume (i : ℕ)
  | timeout (i : ℕ)
  | cancel (i : ℕ)

def step (s : Client) : Event → Option Client
  | .connection up => some { s with connected := up }
  | .start i command =>
    match s.stage i with
    | .idle =>
      let s := { s with command := Function.update s.command i command }
      match s.checkSend command with
      | .error e => some (s.move i (.raised e))
      | .ok () =>
        if s.commandLock.Open then some (s.enter i (s.commandLock.take i))
        else some ({ s with commandLock := s.commandLock.enqueue i }.move i .queued)
    | _ => none
  | .acquire => s.commandLock.grant.map fun (i, lock) => s.enter i lock
  | .written i =>
    match s.stage i with
    | .writing =>
      match s.responseFuture with
      | some f => some (s.move i (.waiting f))
      | none => some (s.leave i (.raised .typeError))
    | _ => none
  | .writeFailed i e =>
    match s.stage i with
    | .writing => some (s.leave i (.raised e))
    | _ => none
  | .notify data => some (s.responseHandler data).1
  | .resume i =>
    match s.stage i with
    | .waiting f => (s.result f).map fun r => s.leave i (.returned f r)
    | _ => none
  -- the timeout may win against a future that is done
  | .timeout i =>
    match s.stage i with
    | .waiting _ => some (s.leave i (.raised .timeoutError))
    | _ => none
  | .cancel i =>
    match s.stage i with
    | .queued => some ({ s with commandLock := s.commandLock.abandon i }.move i (.raised .cancelledError))
    | .writing | .waiting _ => some (s.leave i (.raised .cancelledError))
    | _ => none

/-! ## What a step can do -/

/-- How a call that has the lock may end. -/
inductive Ends (s : Client) (i : ℕ) : Stage → Prop
  | raised (e : PyErr) : Ends s i (.raised e)
  | returned {f : ℕ} {r : Response} (hw : s.stage i = .waiting f) (hr : s.result f = some r) :
    Ends s i (.returned f r)

/-- The packets an event brings. -/
def Event.packets : Event → List Bytes
  | .notify data => [data]
  | _ => []

/-- The call gets its argument. -/
def call (s : Client) (i : ℕ) (command : Bytes) : Client :=
  { s with command := Function.update s.command i command }

/-- All a step can do. -/
inductive Moved (s : Client) : Event → Client → Prop
  | connection (up : Bool) : Moved s (.connection up) { s with connected := up }
  | rejected {i : ℕ} {command : Bytes} {e : PyErr} (hi : s.stage i = .idle) :
    Moved s (.start i command) ((s.call i command).move i (.raised e))
  | opened {i : ℕ} {command : Bytes} (hi : s.stage i = .idle) (hopen : s.commandLock.Open) :
    Moved s (.start i command) ((s.call i command).enter i (s.commandLock.take i))
  | joined {i : ℕ} {command : Bytes} (hi : s.stage i = .idle) :
    Moved s (.start i command) ({ s.call i command with commandLock := s.commandLock.enqueue i }.move i .queued)
  | granted {i : ℕ} {lock : FairLock ℕ} (hg : s.commandLock.grant = some (i, lock)) :
    Moved s .acquire (s.enter i lock)
  | awaits {i f : ℕ} (hi : s.stage i = .writing) (hf : s.responseFuture = some f) :
    Moved s (.written i) (s.move i (.waiting f))
  | left {e : Event} {i : ℕ} {stage : Stage} (he : e.packets = []) (hin : (s.stage i).Inside) (hends : Ends s i stage) :
    Moved s e (s.leave i stage)
  | gaveUp {i : ℕ} (hi : s.stage i = .queued) :
    Moved s (.cancel i) ({ s with commandLock := s.commandLock.abandon i }.move i (.raised .cancelledError))
  | notified (data : Bytes) : Moved s (.notify data) (s.responseHandler data).1

/-- A call that awaits the write or the future is inside. -/
theorem inside_of_writing {st : Stage} (h : st = .writing) : st.Inside := by rw [h]; trivial

theorem inside_of_waiting {st : Stage} {f : ℕ} (h : st = .waiting f) : st.Inside := by rw [h]; trivial

/-- **A step is one of the kinds.** -/
theorem step_moved {s s' : Client} {e : Event} (h : s.step e = some s') : Moved s e s' := by
  cases e with
  | connection up => cases h; exact .connection up
  | start i command =>
    cases hi : s.stage i with
    | idle =>
      simp only [step, hi] at h
      split at h
      · cases h; exact .rejected hi
      · by_cases hopen : s.commandLock.Open
        · rw [if_pos hopen] at h; cases h; exact .opened hi hopen
        · rw [if_neg hopen] at h; cases h; exact .joined hi
    | _ => simp only [step, hi] at h; cases h
  | acquire =>
    obtain ⟨⟨i, lock⟩, hg, rfl⟩ := Option.map_eq_some_iff.mp h
    exact .granted hg
  | written i =>
    cases hi : s.stage i with
    | writing =>
      simp only [step, hi] at h
      cases hf : s.responseFuture with
      | some f => simp only [hf] at h; cases h; exact .awaits hi hf
      | none => simp only [hf] at h; cases h; exact .left rfl (inside_of_writing hi) (.raised _)
    | _ => simp only [step, hi] at h; cases h
  | writeFailed i e =>
    cases hi : s.stage i with
    | writing => simp only [step, hi] at h; cases h; exact .left rfl (inside_of_writing hi) (.raised _)
    | _ => simp only [step, hi] at h; cases h
  | notify data => cases h; exact .notified data
  | resume i =>
    cases hi : s.stage i with
    | waiting f =>
      simp only [step, hi] at h
      obtain ⟨r, hr, rfl⟩ := Option.map_eq_some_iff.mp h
      exact .left rfl (inside_of_waiting hi) (.returned hi hr)
    | _ => simp only [step, hi] at h; cases h
  | timeout i =>
    cases hi : s.stage i with
    | waiting f => simp only [step, hi] at h; cases h; exact .left rfl (inside_of_waiting hi) (.raised _)
    | _ => simp only [step, hi] at h; cases h
  | cancel i =>
    cases hi : s.stage i with
    | queued => simp only [step, hi] at h; cases h; exact .gaveUp hi
    | writing => simp only [step, hi] at h; cases h; exact .left rfl (inside_of_writing hi) (.raised _)
    | waiting f => simp only [step, hi] at h; cases h; exact .left rfl (inside_of_waiting hi) (.raised _)
    | _ => simp only [step, hi] at h; cases h

/-- A call that passes the checks takes an open lock at once. -/
theorem start_ok {s : Client} {i : ℕ} {command : Bytes} (hi : s.stage i = .idle)
    (hc : s.checkSend command = .ok ()) (hopen : s.commandLock.Open) :
    s.step (.start i command) = some ((s.call i command).enter i (s.commandLock.take i)) := by
  have hc' : (s.call i command).checkSend command = .ok () := hc
  unfold call at hc' ⊢
  simp only [step, hi, hc', if_pos hopen]

/-- Only a call that awaits its write goes on after it. -/
theorem written_inv {s c : Client} {i : ℕ} (h : s.step (.written i) = some c) :
    s.stage i = .writing ∧ ∀ f, s.responseFuture = some f → c = s.move i (.waiting f) := by
  cases hi : s.stage i with
  | writing =>
    refine ⟨rfl, ?_⟩
    intro f hf
    simp only [step, hi, hf] at h
    exact (Option.some.inj h).symm
  | _ => simp only [step, hi] at h; cases h

theorem written_ok {s : Client} {i f : ℕ} (hi : s.stage i = .writing) (hf : s.responseFuture = some f) :
    s.step (.written i) = some (s.move i (.waiting f)) := by
  simp only [step, hi, hf]

/-- Only a call whose future is done returns. -/
theorem resume_inv {s c : Client} {i : ℕ} (h : s.step (.resume i) = some c) :
    ∃ f r, s.stage i = .waiting f ∧ s.result f = some r ∧ c = s.leave i (.returned f r) := by
  cases hi : s.stage i with
  | waiting f =>
    simp only [step, hi] at h
    obtain ⟨r, hr, rfl⟩ := Option.map_eq_some_iff.mp h
    exact ⟨f, r, rfl, hr, rfl⟩
  | _ => simp only [step, hi] at h; cases h

theorem resume_ok {s : Client} {i f : ℕ} {r : Response} (hi : s.stage i = .waiting f) (hr : s.result f = some r) :
    s.step (.resume i) = some (s.leave i (.returned f r)) := by
  simp only [step, hi, hr, Option.map_some]

/-! ## Futures -/

section Futures

variable {s : Client} {f g i : ℕ} {r : Response} {data : Bytes}

/-- `set_result` on a future that is pending. -/
def complete (s : Client) (f : ℕ) (r : Response) : Client :=
  { s with futures := s.futures.set f (.done r), completed := s.completed ++ [f] }

/-- A future with a result has been created. -/
theorem lt_of_result (h : s.result f = some r) : f < s.futures.length := by
  unfold result at h
  by_contra hf
  rw [List.getElem?_eq_none (by omega)] at h
  cases h

/-- A future yet to be created has no result. -/
theorem result_length : s.result s.futures.length = none := by simp [result]

/-- A new future has no result yet. -/
@[simp] theorem result_enter {lock : FairLock ℕ} : (s.enter i lock).result g = s.result g := by
  unfold result enter
  by_cases hg : g < s.futures.length
  · simp [List.getElem?_append_left hg]
  · by_cases hg' : g = s.futures.length
    · simp [hg']
    · simp [List.getElem?_eq_none (show s.futures.length ≤ g by omega),
        List.getElem?_eq_none (show (s.futures ++ [Future.pending]).length ≤ g by simp; omega)]

@[simp] theorem result_move {stage : Stage} : (s.move i stage).result g = s.result g := rfl

@[simp] theorem result_leave {stage : Stage} : (s.leave i stage).result g = s.result g := rfl

@[simp] theorem result_receive : (s.receive data).result g = s.result g := rfl

/-- A completion gives its future its result. -/
theorem result_complete (hf : f < s.futures.length) :
    (s.complete f r).result g = if g = f then some r else s.result g := by
  unfold result complete
  by_cases hg : g = f
  · simp [hg, hf]
  · simp [hg, List.getElem?_set_ne (Ne.symm hg)]

/-- A future that has been created and is not done is pending. -/
theorem pending_of_not_isDone (hf : f < s.futures.length) (hd : ¬ s.isDone f) : s.futures[f]? = some .pending := by
  unfold isDone result at hd
  rw [List.getElem?_eq_getElem hf] at hd ⊢
  cases hfut : s.futures[f] with
  | pending => rfl
  | done r => simp [hfut] at hd

/-- A well-formed response completes the future that waits for it. -/
theorem responseHandler_complete (hf : s.responseFuture = some f) (hlt : f < s.futures.length)
    (hres : s.result f = none) (hwf : WellFormed data) :
    s.responseHandler data = ((s.receive data).complete f ⟨s.received.length, data⟩, .ok ()) := by
  have hd : s.isDone f = false := by simp [isDone, hres]
  have hpend : (s.receive data).futures[f]? = some .pending :=
    pending_of_not_isDone (s := s) hlt (by simp [hd])
  simp only [responseHandler, checkResponse_ok.mpr hwf, hf, hd, Bool.false_eq_true, if_false, setResult, hpend]
  rfl

/-- What `response_handler` does when the future it finds has been created. -/
theorem responseHandler_cases (data : Bytes) (hcur : ∀ f, s.responseFuture = some f → f < s.futures.length) :
    (s.responseHandler data).1 = s.receive data ∨
    ∃ f, s.responseFuture = some f ∧ s.result f = none ∧ WellFormed data ∧
      (s.responseHandler data).1 = (s.receive data).complete f ⟨s.received.length, data⟩ := by
  by_cases hwf : WellFormed data
  · cases hf : s.responseFuture with
    | none =>
      left
      simp only [responseHandler, checkResponse_ok.mpr hwf, hf]
    | some f =>
      cases hres : s.result f with
      | none =>
        exact .inr ⟨f, rfl, hres, hwf, congrArg Prod.fst (responseHandler_complete hf (hcur f hf) hres hwf)⟩
      | some r =>
        left
        simp [responseHandler, checkResponse_ok.mpr hwf, hf, isDone, hres]
  · left
    cases hc : checkResponse data with
    | error e => simp only [responseHandler, hc]
    | ok u => exact absurd (checkResponse_ok.mp hc) hwf

/-- What `response_handler` leaves as it is. -/
structure Kept (s s' : Client) : Prop where
  commandLock : s'.commandLock = s.commandLock
  responseFuture : s'.responseFuture = s.responseFuture
  stage : s'.stage = s.stage
  command : s'.command = s.command
  writes : s'.writes = s.writes
  length : s'.futures.length = s.futures.length

/-- `response_handler` touches the futures' results and the count only. -/
theorem responseHandler_kept (s : Client) (data : Bytes) : Kept s (s.responseHandler data).1 := by
  unfold responseHandler
  cases checkResponse data with
  | error e => exact ⟨rfl, rfl, rfl, rfl, rfl, rfl⟩
  | ok u =>
    cases hf : s.responseFuture with
    | none => exact ⟨rfl, rfl, rfl, rfl, rfl, rfl⟩
    | some f =>
      by_cases hd : s.isDone f
      · simp only [hd, if_true]
        exact ⟨rfl, rfl, rfl, rfl, rfl, rfl⟩
      · simp only [hd, Bool.false_eq_true, if_false, setResult]
        split
        · exact ⟨rfl, rfl, rfl, rfl, rfl, List.length_set⟩
        · exact ⟨rfl, rfl, rfl, rfl, rfl, rfl⟩

/-- Whatever it holds, a notification counts as received. -/
theorem responseHandler_received (s : Client) (data : Bytes) :
    (s.responseHandler data).1.received = s.received ++ [data] := by
  unfold responseHandler
  cases checkResponse data with
  | error e => rfl
  | ok u =>
    cases s.responseFuture with
    | none => rfl
    | some f =>
      by_cases hd : s.isDone f
      · simp only [hd, if_true]
        rfl
      · simp only [hd, Bool.false_eq_true, if_false, setResult]
        split <;> rfl

end Futures

/-! ## The lock and the calls -/

/-- The lock is held by the call inside and awaited by those queued. -/
structure Locked (lock : FairLock ℕ) (stage : ℕ → Stage) : Prop where
  proper : lock.Proper
  waiters : ∀ i, i ∈ lock.waiters ↔ stage i = .queued
  holder : ∀ i, lock.holder = some i ↔ (stage i).Inside

/-- A step of one call that changes its own place in the lock only. -/
theorem Locked.update {lock lock' : FairLock ℕ} {stage : ℕ → Stage} {i : ℕ} {st : Stage} (h : Locked lock stage)
    (hp : lock'.Proper) (hw : i ∈ lock'.waiters ↔ st = .queued) (hh : lock'.holder = some i ↔ st.Inside)
    (hw' : ∀ j, j ≠ i → (j ∈ lock'.waiters ↔ j ∈ lock.waiters))
    (hh' : ∀ j, j ≠ i → (lock'.holder = some j ↔ lock.holder = some j)) :
    Locked lock' (Function.update stage i st) := by
  refine ⟨hp, ?_, ?_⟩
  · intro j
    by_cases hj : j = i
    · subst hj; simpa using hw
    · simpa [hj, h.waiters j] using hw' j hj
  · intro j
    by_cases hj : j = i
    · subst hj; simpa using hh
    · simpa [hj, h.holder j] using hh' j hj

/-- A call neither inside nor queued is nowhere in the lock. -/
theorem Locked.outside {lock : FairLock ℕ} {stage : ℕ → Stage} {i : ℕ} (h : Locked lock stage) :
    (stage i ≠ .queued → i ∉ lock.waiters) ∧ (¬ (stage i).Inside → lock.holder ≠ some i) :=
  ⟨fun hq hmem => hq ((h.waiters i).mp hmem), fun hin hh => hin ((h.holder i).mp hh)⟩

/-- How a call that has the lock ends, it is out of the lock. -/
theorem Ends.out {s : Client} {i : ℕ} {st : Stage} (h : Ends s i st) : ¬ st.Inside ∧ st ≠ .queued := by
  cases h with
  | raised e => exact ⟨id, nofun⟩
  | returned hw hr => exact ⟨id, nofun⟩

/-- **The lock stays in step with the calls.** -/
theorem locked_step {s s' : Client} {e : Event} (h : Locked s.commandLock s.stage) (hm : Moved s e s') :
    Locked s'.commandLock s'.stage := by
  cases hm with
  | connection up => exact h
  | @rejected i _ _ hi =>
    have hout := h.outside (i := i)
    rw [hi] at hout
    apply h.update h.proper
    · simpa using hout.1
    · simpa [Stage.Inside] using hout.2
    · simp
    · simp
  | @opened i _ hi hopen =>
    have hmem : i ∉ s.commandLock.waiters := by simp [hopen.2]
    apply h.update (h.proper.take hmem)
    · simpa using hmem
    · simp [Stage.Inside]
    · simp
    · intro j hj
      simp [hopen.1, Ne.symm hj]
  | @joined i _ hi =>
    have hout := h.outside (i := i)
    rw [hi] at hout
    have hmem := hout.1 (by simp)
    have hhold := hout.2 (by simp [Stage.Inside])
    apply h.update (h.proper.enqueue hmem hhold)
    · simp
    · simpa [Stage.Inside] using hhold
    · intro j hj
      simp [hj]
    · simp
  | @granted i lock hg =>
    obtain ⟨hnone, hw, hh⟩ := FairLock.grant_eq_some hg
    have hp := h.proper.grant hg
    apply h.update hp
    · simpa using hp.apart i hh
    · simpa [Stage.Inside] using hh
    · intro j hj
      simp [hw, hj]
    · intro j hj
      simp [hnone, hh, Ne.symm hj]
  | @awaits i f hi hf =>
    have hin : s.commandLock.holder = some i := (h.holder i).mpr (inside_of_writing hi)
    apply h.update h.proper
    · simpa using h.proper.apart i hin
    · simpa [Stage.Inside] using hin
    · simp
    · simp
  | @left _ i st _ hin hends =>
    have hhold : s.commandLock.holder = some i := (h.holder i).mpr hin
    apply h.update h.proper.release
    · simpa [hends.out.2] using h.proper.apart i hhold
    · simpa using hends.out.1
    · simp
    · intro j hj
      simp [hhold, Ne.symm hj]
  | @gaveUp i hi =>
    have hhold := (h.outside (i := i)).2
    rw [hi] at hhold
    apply h.update h.proper.abandon
    · simp [h.proper.mem_abandon]
    · simpa [Stage.Inside] using hhold
    · intro j hj
      simp [h.proper.mem_abandon, hj]
    · simp
  | notified data =>
    have hk := responseHandler_kept s data
    rw [hk.commandLock, hk.stage]
    exact h

/-! ## The futures and the notifications -/

/-- Every notification is counted, and every completed future has been completed once, with a notification of its
own. -/
structure Stored (s : Client) : Prop where
  count : s.responseCount = s.received.length
  nodup : s.completed.Nodup
  completed : ∀ f ∈ s.completed, s.result f ≠ none
  results : ∀ f r, s.result f = some r → WellFormed r.data ∧ s.received[r.number]? = some r.data
  distinct : ∀ f g r r', s.result f = some r → s.result g = some r' → r.number = r'.number → f = g

/-- What keeps the futures, their results and the notifications keeps the store. -/
theorem Stored.congr {s s' : Client} (h : Stored s) (hcount : s'.responseCount = s.responseCount)
    (hrecv : s'.received = s.received) (hcomp : s'.completed = s.completed)
    (hres : ∀ f, s'.result f = s.result f) : Stored s' := by
  refine ⟨?_, ?_, ?_, ?_, ?_⟩
  · rw [hcount, hrecv]; exact h.count
  · rw [hcomp]; exact h.nodup
  · simpa only [hcomp, hres] using h.completed
  · simpa only [hrecv, hres] using h.results
  · simpa only [hres] using h.distinct

/-- A notification is received. -/
theorem Stored.receive {s : Client} (h : Stored s) (data : Bytes) : Stored (s.receive data) := by
  refine ⟨?_, h.nodup, h.completed, ?_, h.distinct⟩
  · simp [Client.receive, h.count]
  · intro f r hr
    obtain ⟨hwf, hrecv⟩ := h.results f r hr
    refine ⟨hwf, ?_⟩
    show (s.received ++ [data])[r.number]? = some r.data
    rw [List.getElem?_append_left (List.getElem?_eq_some_iff.mp hrecv).1]
    exact hrecv

/-- The newest notification completes a future that is pending. -/
theorem Stored.complete {s : Client} {data : Bytes} {f : ℕ} (h : Stored s) (hf : f < s.futures.length)
    (hpend : s.result f = none) (hwf : WellFormed data) :
    Stored ((s.receive data).complete f ⟨s.received.length, data⟩) := by
  have hr := h.receive data
  -- no future has a notification that is yet to come
  have hold : ∀ g r, s.result g = some r → r.number ≠ s.received.length := by
    intro g r hg hnum
    have := (List.getElem?_eq_some_iff.mp (h.results g r hg).2).1
    omega
  have hres : ∀ g, ((s.receive data).complete f ⟨s.received.length, data⟩).result g =
      if g = f then some ⟨s.received.length, data⟩ else s.result g := fun g => result_complete hf
  refine ⟨hr.count, ?_, ?_, ?_, ?_⟩
  · show (s.completed ++ [f]).Nodup
    have hnew : f ∉ s.completed := fun hmem => h.completed f hmem hpend
    simpa [List.nodup_append] using ⟨h.nodup, fun a ha haf => hnew (haf ▸ ha)⟩
  · intro g hg
    rw [hres]
    by_cases hgf : g = f
    · simp [hgf]
    · have hmem : g ∈ s.completed ++ [f] := hg
      simp only [hgf, if_false]
      exact h.completed g (by simpa [hgf] using hmem)
  · intro g r hg
    rw [hres] at hg
    by_cases hgf : g = f
    · rw [if_pos hgf] at hg
      cases hg
      exact ⟨hwf, by simp [Client.complete, Client.receive]⟩
    · rw [if_neg hgf] at hg
      exact hr.results g r hg
  · intro g g' r r' hg hg' hnum
    rw [hres] at hg hg'
    by_cases hgf : g = f <;> by_cases hgf' : g' = f
    · rw [hgf, hgf']
    · rw [if_pos hgf] at hg
      rw [if_neg hgf'] at hg'
      cases hg
      exact absurd hnum.symm (hold g' r' hg')
    · rw [if_neg hgf] at hg
      rw [if_pos hgf'] at hg'
      cases hg'
      exact absurd hnum (hold g r hg)
    · rw [if_neg hgf] at hg
      rw [if_neg hgf'] at hg'
      exact h.distinct g g' r r' hg hg' hnum

/-- **The store stays sound.** -/
theorem stored_step {s s' : Client} {e : Event} (hcur : ∀ f, s.responseFuture = some f → f < s.futures.length)
    (h : Stored s) (hm : Moved s e s') : Stored s' := by
  cases hm with
  | notified data =>
    rcases responseHandler_cases data hcur with hs | ⟨f, hf, hres, hwf, hs⟩
    · rw [hs]; exact h.receive data
    · rw [hs]; exact h.complete (hcur f hf) hres hwf
  | opened | granted => exact h.congr rfl rfl rfl fun f => result_enter
  | _ => exact h.congr rfl rfl rfl fun f => rfl

/-! ## The future and its holder -/

/-- `self.response_future` is the newest future and belongs to the holder of the lock; a future returned is done, no
longer there, and returned by one call. -/
structure Linked (s : Client) : Prop where
  guarded : s.responseFuture = none ↔ s.commandLock.holder = none
  current : ∀ f, s.responseFuture = some f → f + 1 = s.futures.length
  awaited : ∀ i f, s.stage i = .waiting f → s.responseFuture = some f
  returned : ∀ i f r, s.stage i = .returned f r → s.result f = some r ∧ s.responseFuture ≠ some f
  alone : ∀ i j f r r', s.stage i = .returned f r → s.stage j = .returned f r' → i = j

/-- A call that is outside or queued changes its stage and is not answered. -/
theorem Linked.move {s s' : Client} {i : ℕ} {st : Stage} (h : Linked s)
    (hstage : s'.stage = Function.update s.stage i st) (hfut : s'.responseFuture = s.responseFuture)
    (hlen : s'.futures = s.futures) (hhold : s'.commandLock.holder = s.commandLock.holder)
    (hwait : ∀ f, st = .waiting f → s.responseFuture = some f) (hret : ∀ f r, st ≠ .returned f r) : Linked s' := by
  have hres : ∀ g, s'.result g = s.result g := fun g => by unfold result; rw [hlen]
  have hst : ∀ j, s'.stage j = if j = i then st else s.stage j := fun j => by rw [hstage, Function.update_apply]
  have hkeep : ∀ j f r, s'.stage j = .returned f r → s.stage j = .returned f r := by
    intro j f r hj
    rw [hst] at hj
    by_cases hji : j = i
    · rw [if_pos hji] at hj
      exact absurd hj (hret f r)
    · rwa [if_neg hji] at hj
  refine ⟨?_, ?_, ?_, ?_, ?_⟩
  · rw [hfut, hhold]; exact h.guarded
  · rw [hfut, hlen]; exact h.current
  · intro j f hj
    rw [hst] at hj
    rw [hfut]
    by_cases hji : j = i
    · rw [if_pos hji] at hj
      exact hwait f hj
    · rw [if_neg hji] at hj
      exact h.awaited j f hj
  · intro j f r hj
    rw [hres, hfut]
    exact h.returned j f r (hkeep j f r hj)
  · intro j k f r r' hj hk
    exact h.alone j k f r r' (hkeep j f r hj) (hkeep k f r' hk)

/-- A call gets the lock and a new future. -/
theorem Linked.enter {s : Client} {i : ℕ} {lock : FairLock ℕ} (h : Linked s)
    (hfree : s.commandLock.holder = none) (hi : lock.holder = some i) : Linked (s.enter i lock) := by
  have hnone := h.guarded.mpr hfree
  have hst : ∀ j, (s.enter i lock).stage j = if j = i then .writing else s.stage j :=
    fun j => Function.update_apply _ _ _ _
  have hkeep : ∀ j f r, (s.enter i lock).stage j = .returned f r → s.stage j = .returned f r := by
    intro j f r hj
    rw [hst] at hj
    by_cases hji : j = i
    · simp [hji] at hj
    · rwa [if_neg hji] at hj
  refine ⟨?_, ?_, ?_, ?_, ?_⟩
  · simp [Client.enter, hi]
  · intro f hf
    cases hf
    simp [Client.enter]
  · intro j f hj
    rw [hst] at hj
    by_cases hji : j = i
    · simp [hji] at hj
    · rw [if_neg hji] at hj
      -- nobody waits for a future while the lock is free
      rw [h.awaited j f hj] at hnone
      cases hnone
  · intro j f r hj
    obtain ⟨hres, _⟩ := h.returned j f r (hkeep j f r hj)
    refine ⟨by simpa using hres, ?_⟩
    intro hf
    have hlt := lt_of_result hres
    have hfl : s.futures.length = f := Option.some.inj hf
    omega
  · intro j k f r r' hj hk
    exact h.alone j k f r r' (hkeep j f r hj) (hkeep k f r' hk)

/-- A call ends and clears the future. -/
theorem Linked.leave {s : Client} {i : ℕ} {st : Stage} (h : Linked s) (hl : Locked s.commandLock s.stage)
    (hin : (s.stage i).Inside) (hends : Ends s i st) : Linked (s.leave i st) := by
  have hhold := (hl.holder i).mpr hin
  have hst : ∀ j, (s.leave i st).stage j = if j = i then st else s.stage j :=
    fun j => Function.update_apply _ _ _ _
  -- a future returned now was the current one, and no call has returned it
  have hret : ∀ f r, st = .returned f r → s.responseFuture = some f ∧ s.result f = some r := by
    intro f r hst'
    cases hends with
    | raised e => cases hst'
    | returned hw hr => cases hst'; exact ⟨h.awaited i f hw, hr⟩
  refine ⟨?_, ?_, ?_, ?_, ?_⟩
  · simp [Client.leave]
  · intro f hf
    cases hf
  · intro j f hj
    rw [hst] at hj
    by_cases hji : j = i
    · rw [if_pos hji] at hj
      exact absurd (inside_of_waiting hj) hends.out.1
    · rw [if_neg hji] at hj
      have hj' := (hl.holder j).mpr (inside_of_waiting hj)
      rw [hhold] at hj'
      exact absurd (Option.some.inj hj').symm hji
  · intro j f r hj
    refine ⟨?_, nofun⟩
    rw [hst] at hj
    by_cases hji : j = i
    · rw [if_pos hji] at hj
      exact (hret f r hj).2
    · rw [if_neg hji] at hj
      exact (h.returned j f r hj).1
  · intro j k f r r' hj hk
    rw [hst] at hj hk
    by_cases hji : j = i <;> by_cases hki : k = i
    · rw [hji, hki]
    · rw [if_pos hji] at hj
      rw [if_neg hki] at hk
      exact absurd (hret f r hj).1 (h.returned k f r' hk).2
    · rw [if_neg hji] at hj
      rw [if_pos hki] at hk
      exact absurd (hret f r' hk).1 (h.returned j f r hj).2
    · rw [if_neg hji] at hj
      rw [if_neg hki] at hk
      exact h.alone j k f r r' hj hk

/-- A notification completes the current future at most. -/
theorem Linked.handle {s : Client} {data : Bytes} (h : Linked s) : Linked (s.responseHandler data).1 := by
  have hk := responseHandler_kept s data
  have hcur : ∀ f, s.responseFuture = some f → f < s.futures.length := fun f hf => by
    have := h.current f hf
    omega
  -- results are kept
  have hres : ∀ f r, s.result f = some r → (s.responseHandler data).1.result f = some r := by
    intro g r hr
    rcases responseHandler_cases data hcur with hs | ⟨f, hf, hnone, _, hs⟩
    · rw [hs]
      exact hr
    · rw [hs, result_complete (s := s.receive data) (hcur f hf)]
      by_cases hg : g = f
      · rw [hg, hnone] at hr
        cases hr
      · rw [if_neg hg]
        exact hr
  refine ⟨?_, ?_, ?_, ?_, ?_⟩
  · rw [hk.responseFuture, hk.commandLock]; exact h.guarded
  · rw [hk.responseFuture, hk.length]; exact h.current
  · rw [hk.responseFuture, hk.stage]; exact h.awaited
  · intro i f r hi
    rw [hk.stage] at hi
    obtain ⟨hr, hne⟩ := h.returned i f r hi
    exact ⟨hres f r hr, by rw [hk.responseFuture]; exact hne⟩
  · rw [hk.stage]; exact h.alone

/-- **The future stays with the holder of the lock.** -/
theorem linked_step {s s' : Client} {e : Event} (hl : Locked s.commandLock s.stage) (h : Linked s)
    (hm : Moved s e s') : Linked s' := by
  cases hm with
  | connection up => exact ⟨h.guarded, h.current, h.awaited, h.returned, h.alone⟩
  | rejected | joined | gaveUp => refine h.move (by rfl) rfl rfl rfl ?_ ?_ <;> simp
  | awaits hi hf =>
    refine h.move (by rfl) rfl rfl rfl ?_ ?_
    · intro g hg
      cases hg
      exact hf
    · simp
  | @opened i command hi hopen =>
    have hc : Linked (s.call i command) := ⟨h.guarded, h.current, h.awaited, h.returned, h.alone⟩
    exact hc.enter hopen.1 rfl
  | granted hg =>
    obtain ⟨hnone, _, hh⟩ := FairLock.grant_eq_some hg
    exact h.enter hnone hh
  | left _ hin hends => exact h.leave hl hin hends
  | notified data => exact h.handle

/-! ## Every run -/

structure Inv (s : Client) : Prop where
  locked : Locked s.commandLock s.stage
  stored : Stored s
  linked : Linked s

theorem inv_init : Inv init := by
  refine ⟨⟨FairLock.proper_free, ?_, ?_⟩, ⟨rfl, List.nodup_nil, ?_, ?_, ?_⟩, ⟨?_, ?_, ?_, ?_, ?_⟩⟩
  all_goals simp [init, FairLock.free, Stage.Inside, result]

/-- The current future has been created. -/
theorem Inv.current_lt {s : Client} (h : Inv s) (f : ℕ) (hf : s.responseFuture = some f) : f < s.futures.length := by
  have := h.linked.current f hf
  omega

/-- **Every step keeps the invariant.** -/
theorem inv_step {s s' : Client} {e : Event} (h : Inv s) (hs : s.step e = some s') : Inv s' := by
  have hm := step_moved hs
  exact ⟨locked_step h.locked hm, stored_step h.current_lt h.stored hm, linked_step h.locked h.linked hm⟩

/-- Of the calls in a state: one at a time has the lock, and the future is there for it only; no future was completed
twice; what is returned is a well-formed packet that was received, and no other call returns it. -/
structure Disciplined (s : Client) : Prop where
  exclusive : ∀ i j, (s.stage i).Inside → (s.stage j).Inside → i = j
  guarded : s.responseFuture ≠ none → ∃ i, (s.stage i).Inside
  completedOnce : s.completed.Nodup
  neverRefused : ∀ data, (s.responseHandler data).2 ≠ .error .invalidStateError
  received : ∀ i f r, s.stage i = .returned f r → s.received[r.number]? = some r.data
  returnedOnce : ∀ i j f g r r', s.stage i = .returned f r → s.stage j = .returned g r' → r.number = r'.number → i = j
  wellFormed : ∀ i f r, s.stage i = .returned f r → WellFormed r.data

/-- Of the calls in a step: one that has the lock and ends leaves no future and a free lock, one that ends without the
lock leaves both as they were, and one that gets the lock gets a future nobody has used. -/
structure Restored (s s' : Client) : Prop where
  ends : ∀ i, (s.stage i).Inside → ¬ (s'.stage i).Inside → s'.responseFuture = none ∧ s'.commandLock.holder = none
  givesUp : ∀ i e, s.stage i = .queued → s'.stage i = .raised e →
    s'.responseFuture = s.responseFuture ∧ s'.commandLock.holder = s.commandLock.holder
  begins : ∀ i, ¬ (s.stage i).Inside → (s'.stage i).Inside →
    ∃ f, s'.responseFuture = some f ∧ s.futures[f]? = none ∧ s'.futures[f]? = some .pending ∧ f ∉ s'.completed

/-- `set_result` is not refused. -/
theorem Inv.not_refused {s : Client} (h : Inv s) (data : Bytes) :
    (s.responseHandler data).2 ≠ .error .invalidStateError := by
  unfold responseHandler
  cases hc : checkResponse data with
  | error e =>
    obtain ⟨message, rfl⟩ := checkPacket_error hc
    simp
  | ok u =>
    cases hf : s.responseFuture with
    | none => simp
    | some f =>
      by_cases hd : s.isDone f
      · simp [hd]
      · have hpend := pending_of_not_isDone (h.current_lt f hf) hd
        have hpend' : (s.receive data).futures[f]? = some .pending := hpend
        simp [hd, setResult, hpend']

/-- The invariant gives the discipline. -/
theorem Inv.disciplined {s : Client} (h : Inv s) : Disciplined s where
  exclusive i j hi hj := by
    rw [← h.locked.holder] at hi hj
    rw [hi] at hj
    exact Option.some.inj hj
  guarded hne := by
    cases hh : s.commandLock.holder with
    | none => exact absurd (h.linked.guarded.mpr hh) hne
    | some i => exact ⟨i, (h.locked.holder i).mp hh⟩
  completedOnce := h.stored.nodup
  neverRefused := h.not_refused
  received i f r hi := (h.stored.results f r (h.linked.returned i f r hi).1).2
  returnedOnce i j f g r r' hi hj hnum := by
    have hr := (h.linked.returned i f r hi).1
    have hr' := (h.linked.returned j g r' hj).1
    have hfg := h.stored.distinct f g r r' hr hr' hnum
    rw [hfg] at hi
    exact h.linked.alone i j g r r' hi hj
  wellFormed i f r hi := (h.stored.results f r (h.linked.returned i f r hi).1).1

/-- A call that gets the lock gets a future of its own. -/
theorem Inv.fresh {s : Client} (h : Inv s) (i : ℕ) (lock : FairLock ℕ) :
    ∃ f, (s.enter i lock).responseFuture = some f ∧ s.futures[f]? = none ∧
      (s.enter i lock).futures[f]? = some .pending ∧ f ∉ (s.enter i lock).completed := by
  refine ⟨s.futures.length, rfl, by simp, by simp [enter], ?_⟩
  intro hmem
  have hnone := h.stored.completed _ hmem
  rw [Option.ne_none_iff_exists'] at hnone
  obtain ⟨r, hr⟩ := hnone
  have := lt_of_result hr
  omega

/-- What a step does to one call. -/
inductive Change (s s' : Client) (i : ℕ) : Prop
  | same (h : s'.stage i = s.stage i)
  | outside (h : ¬ (s.stage i).Inside) (h' : ¬ (s'.stage i).Inside) (hfut : s'.responseFuture = s.responseFuture)
    (hhold : s'.commandLock.holder = s.commandLock.holder)
  | inside (h : (s.stage i).Inside) (h' : (s'.stage i).Inside)
  | begins (h : ¬ (s.stage i).Inside) (h' : s'.stage i = .writing)
    (hfresh : ∃ f, s'.responseFuture = some f ∧ s.futures[f]? = none ∧ s'.futures[f]? = some .pending ∧
      f ∉ s'.completed)
  | ends (h : (s.stage i).Inside) (hfut : s'.responseFuture = none) (hhold : s'.commandLock.holder = none)

/-- A step changes the stage of one call. -/
theorem change_of_update {s s' : Client} {i : ℕ} {st : Stage} (hs : s'.stage = Function.update s.stage i st)
    (h : s'.stage i = st → Change s s' i) (j : ℕ) : Change s s' j := by
  by_cases hj : j = i
  · subst hj
    exact h (by simp [hs])
  · exact .same (by simp [hs, hj])

/-- Each kind of step, from the side of one call. -/
theorem Inv.change {s s' : Client} {e : Event} (h : Inv s) (hm : Moved s e s') (j : ℕ) : Change s s' j := by
  cases hm with
  | connection up => exact .same rfl
  | notified data => exact .same (congrFun (responseHandler_kept s data).stage j)
  | rejected hi | joined hi | gaveUp hi =>
    refine change_of_update (by rfl) ?_ j
    intro h'
    exact .outside (by rw [hi]; exact id) (by rw [h']; exact id) rfl rfl
  | awaits hi hf =>
    refine change_of_update (by rfl) ?_ j
    intro h'
    exact .inside (inside_of_writing hi) (inside_of_waiting h')
  | @opened i _ hi hopen =>
    refine change_of_update (by rfl) ?_ j
    intro h'
    exact .begins (by rw [hi]; exact id) h' (h.fresh i (s.commandLock.take i))
  | @granted i lock hg =>
    have hqueued : s.stage i = .queued := by
      rw [← h.locked.waiters, (FairLock.grant_eq_some hg).2.1]
      exact List.mem_cons_self
    refine change_of_update (by rfl) ?_ j
    intro h'
    exact .begins (by rw [hqueued]; exact id) h' (h.fresh i lock)
  | left _ hin hends =>
    refine change_of_update (by rfl) ?_ j
    intro h'
    exact .ends hin rfl rfl

/-- The invariant gives what a step leaves behind. -/
theorem Inv.restored {s s' : Client} {e : Event} (h : Inv s) (hm : Moved s e s') : Restored s s' := by
  refine ⟨?_, ?_, ?_⟩
  · intro i hin hout
    cases h.change hm i with
    | same hsame => rw [hsame] at hout; exact absurd hin hout
    | outside hout' => exact absurd hin hout'
    | inside _ hin' => exact absurd hin' hout
    | begins hout' => exact absurd hin hout'
    | ends _ hfut hhold => exact ⟨hfut, hhold⟩
  · intro i err hq hr
    cases h.change hm i with
    | same hsame => rw [hsame, hq] at hr; cases hr
    | outside _ _ hfut hhold => exact ⟨hfut, hhold⟩
    | inside hin => rw [hq] at hin; exact hin.elim
    | begins _ hw => rw [hw] at hr; cases hr
    | ends hin => rw [hq] at hin; exact hin.elim
  · intro i hout hin
    cases h.change hm i with
    | same hsame => rw [hsame] at hin; exact absurd hin hout
    | outside _ hout' => exact absurd hin hout'
    | inside hin' => exact absurd hin' hout
    | begins _ _ hfresh => exact hfresh
    | ends hin' => exact absurd hin' hout

/-- A lock that nobody has can be had. -/
theorem acquire_of_free {s : Client} (h : Inv s) (hfree : ∀ i, ¬ (s.stage i).Inside) :
    s.commandLock.holder = none ∧ (s.commandLock.waiters ≠ [] → ∃ s', s.step .acquire = some s') := by
  have hnone : s.commandLock.holder = none := by
    cases hh : s.commandLock.holder with
    | none => rfl
    | some i => exact absurd ((h.locked.holder i).mp hh) (hfree i)
  refine ⟨hnone, ?_⟩
  intro hw
  obtain ⟨i, lock, hg⟩ := FairLock.exists_grant hnone hw
  exact ⟨s.enter i lock, by simp [step, hg]⟩

/-- **The calls keep their discipline in every run**, whatever is received, and whenever calls time out, fail or are
cancelled; and when nobody has the lock, the next call can have it. -/
theorem future_discipline (events : List Event) (s : Client) (h : run step init events = some s) :
    Disciplined s ∧ (∀ e s', s.step e = some s' → Restored s s') ∧
      ((∀ i, ¬ (s.stage i).Inside) → s.responseFuture = none ∧ s.commandLock.holder = none ∧
        (s.commandLock.waiters ≠ [] → ∃ s', s.step .acquire = some s')) := by
  have hi : Inv s := run_inv (fun _ _ _ hi hs => inv_step hi hs) inv_init h
  refine ⟨hi.disciplined, fun e s' hs => hi.restored (step_moved hs), ?_⟩
  intro hfree
  obtain ⟨hnone, hacq⟩ := acquire_of_free hi hfree
  exact ⟨hi.linked.guarded.mpr hnone, hnone, hacq⟩

/-- Two calls: the first times out, its response comes while the second waits for the lock to be handed on. -/
def lateResponse : List Event :=
  [.connection true, .start 0 [0, 0], .start 1 [1, 0], .written 0, .timeout 0, .notify [0, 0], .acquire, .written 1,
    .notify [1, 1, 7], .notify [1, 1, 7], .resume 1]

/-- The second call returns the second notification; the third is dropped. -/
theorem future_discipline_late : ∃ s, run step init lateResponse = some s ∧
    s.stage 1 = .returned 1 ⟨1, [1, 1, 7]⟩ ∧ Disciplined s := by
  exact ⟨_, rfl, rfl, (future_discipline lateResponse _ rfl).1⟩

end Client

end BleRpc.Host
