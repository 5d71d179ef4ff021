import BleRpc.Device.Progress
import BleRpc.Device.Safety

/-!
# Every command write is an iteration

`sem_post` in the write callback against `sem_wait` in `rcpThread`, in any run of the whole profile. Commands written
too early are lost, but not their wakeups: the iterations finished, the one under way and those the semaphore still
holds are as many as the command writes (`Accounted`), and `rcpCommandExecutionCount` counts the finished ones modulo
256. The semaphore is taken to have room for the writes that wait: `sem_post` fails at `SEM_VALUE_MAX`, here never.

- `accounted_effect`: every event keeps the account;
- `left_effect`: without command writes, only the worker's own steps bring it closer to its end;
- `wakeups_served`: the worker comes to rest, with every write counted.
-/

namespace BleRpc.Device

open Transition

variable {σ : Type} {gatt : GattServer σ} {table : List (Entry (Handler σ))} {K : ℕ}

/-- An iteration is under way. -/
def Pc.busy : Pc σ → ℕ
  | .waiting => 0
  | _ => 1

/-- The iterations under way or still to be made for the wakeups there are. -/
def Worker.outstanding (w : Worker σ) : ℕ := w.pc.busy + w.dev.rpc.commandReceivedSem

theorem Worker.Blocked.outstanding {w : Worker σ} (h : w.Blocked) : w.outstanding = 0 := by
  rw [Worker.outstanding, h.1, h.2]
  rfl

namespace Profile

/-- The command writes of a run. -/
def posts (events : List Event) : ℕ := (events.map Event.posts).sum

@[simp] theorem posts_append (es fs : List Event) : posts (es ++ fs) = posts es + posts fs := by
  simp [posts]

@[simp] theorem posts_singleton (e : Event) : posts [e] = e.posts := by
  simp [posts]

/-- The worker's own steps write no commands. -/
theorem posts_work {es : List Event} (h : ∀ e ∈ es, e = .work) : posts es = 0 := by
  rw [List.eq_replicate_of_mem h, posts, List.map_replicate, List.sum_replicate_nat]
  rfl

/-! ## The account -/

/-- Of so many wakeups, each has been served, and counted, or is outstanding. -/
def Accounted (n : ℕ) (w : Worker σ) : Prop :=
  ∃ served, w.dev.rcpCommandExecutionCount = UInt8.ofNat served ∧ served + w.outstanding = n

theorem accounted_init (app : σ) : Accounted 0 (init app).worker := ⟨0, rfl, rfl⟩

/-- What leaves the counter and what is outstanding alone. -/
theorem Accounted.congr {n : ℕ} {w w' : Worker σ} (h : Accounted n w)
    (hcount : w'.dev.rcpCommandExecutionCount = w.dev.rcpCommandExecutionCount)
    (hout : w'.outstanding = w.outstanding) : Accounted n w' := by
  obtain ⟨served, hserved, hn⟩ := h
  exact ⟨served, hcount.trans hserved, by rw [hout]; exact hn⟩

theorem count_sendNotification {d d' : Dev σ} {id : UInt8} {data : Source} {length : ℕ} {status : Status}
    (h : sendNotification gatt id data length d = .ok (d', status)) :
    d'.rcpCommandExecutionCount = d.rcpCommandExecutionCount := by
  obtain ⟨m, live, _, _, _, _, _, rfl⟩ := sendNotification_inv h
  rfl

theorem count_act {p p' : Prog σ} {d d' : Dev σ} (h : p.act gatt d = .ok (p', d')) :
    d'.rcpCommandExecutionCount = d.rcpCommandExecutionCount := by
  cases Prog.act_eq_ok.mp h with
  | ret | look | load | setResponseLength | modify => rfl
  | storeResponse hstore =>
    obtain ⟨a, m, _, _, rfl⟩ := storeResponse_inv hstore
    rfl
  | notify hsend => exact count_sendNotification hsend

theorem count_writeCommand {packet : Bytes} {d d' : Dev σ} (h : writeCommand packet d = .ok d') :
    d'.rcpCommandExecutionCount = d.rcpCommandExecutionCount := by
  obtain ⟨m, _, h⟩ := Outcome.bind_eq_ok.mp h
  cases h
  rfl

/-- Taking a wakeup and starting an iteration is one; finishing it counts it. -/
theorem accounted_worked {n : ℕ} {w w' : Worker σ} (hd : w.dev.Installed) (ha : Accounted n w)
    (h : Worker.Worked gatt table w w') : Accounted n w' := by
  cases h with
  | wait hsem => exact ha.congr rfl (by simp [Worker.outstanding, Pc.busy, hsem, Nat.add_comm])
  | @finish d id rest =>
    obtain ⟨served, hserved, hn⟩ := ha
    refine ⟨served + 1, ?_, ?_⟩
    · simp only [Dev.countExecution] at hserved ⊢
      rw [hserved, UInt8.ofNat_add]
      rfl
    · simp only [Worker.outstanding, Pc.busy, Dev.countExecution] at hn ⊢
      omega
  | skip | hit | label | call => exact ha.congr rfl rfl
  | act _ hact =>
    refine ha.congr (count_act hact) ?_
    simp only [Worker.outstanding, Pc.busy, (undisturbed_act hd hact).commandReceivedSem]
  | send hsend =>
    obtain ⟨m, live, _, _, _, _, _, rfl⟩ := sendResponse_frame hsend
    exact ha.congr rfl rfl

/-- **Every event keeps the account**: a command write adds one wakeup, nothing else adds or loses any. -/
theorem accounted_effect {n : ℕ} {w w' : Worker σ} {e : Event} (hd : w.dev.Installed) (ha : Accounted n w)
    (he : Effect gatt table e w w') : Accounted (n + e.posts) w' := by
  cases he with
  | aside hposts h =>
    rw [hposts]
    exact ha.congr h.rcpCommandExecutionCount (by rw [Worker.outstanding, h.rpc]; rfl)
  | looked hposts =>
    rw [hposts]
    exact ha.congr rfl rfl
  | posted hposts hwrite =>
    obtain ⟨served, hserved, hn⟩ := ha
    rw [hposts]
    refine ⟨served, (count_writeCommand hwrite).trans hserved, ?_⟩
    simp only [Worker.outstanding, (writeCommand_inv hwrite).2.rpc] at hn ⊢
    omega
  | notified hposts hsend =>
    rw [hposts]
    refine ha.congr (count_sendNotification hsend) ?_
    simp only [Worker.outstanding, (undisturbed_sendNotification hsend).commandReceivedSem]
  | worked hposts h =>
    rw [hposts]
    exact accounted_worked hd ha h

/-! ## Coming to rest -/

/-- The worker's own step. -/
def Event.isWork : Event → Bool
  | .work => true
  | _ => false

/-- A command write adds an iteration to what is left for the worker; what others do adds nothing. -/
theorem left_effect {n : ℕ} {w w' : Worker σ} {e : Event} (hb : Brief K table) (hd : w.dev.Installed)
    (hl : w.Left K table n) (he : Effect gatt table e w w') :
    ∃ m, w'.Left K table m ∧ m ≤ n + iteration K table * e.posts := by
  cases he with
  | aside _ h =>
    obtain ⟨k, hk, rfl⟩ := hl
    refine ⟨_, ⟨k, hk, rfl⟩, ?_⟩
    simp only [h.rpc]
    omega
  | looked =>
    obtain ⟨k, hk, rfl⟩ := hl
    exact ⟨_, ⟨k, hk, rfl⟩, Nat.le_add_right _ _⟩
  | posted hposts hwrite =>
    refine ⟨_, Worker.left_write hl (writeCommand_inv hwrite).2, ?_⟩
    simp [hposts]
  | notified _ hsend =>
    obtain ⟨k, hk, rfl⟩ := hl
    refine ⟨_, ⟨k, hk, rfl⟩, ?_⟩
    simp only [(undisturbed_sendNotification hsend).commandReceivedSem]
    omega
  | worked _ h =>
    obtain ⟨m, hm, hle⟩ := Worker.left_step hb hd hl h
    exact ⟨m, hm, by omega⟩

/-- Every step of its own spends one. -/
theorem left_step {n : ℕ} {s s' : Profile σ} {e : Event} (hb : Brief K table) (hd : s.dev.Installed)
    (hl : s.worker.Left K table n) (hposts : e.posts = 0) (hs : s.step gatt table e = some s') :
    ∃ m, s'.worker.Left K table m ∧ m + (if e.isWork then 1 else 0) ≤ n := by
  cases e with
  | work =>
    obtain ⟨w, hw, rfl⟩ := Option.map_eq_some_iff.mp hs
    exact Worker.left_step hb hd hl (Worker.step_worked hw)
  | write | read | setParameter | notify =>
    obtain ⟨m, hm, hle⟩ := left_effect hb hd hl (step_effect hs)
    rw [hposts] at hle
    exact ⟨m, hm, hle⟩

/-- What every run keeps: the device is in bounds, the wakeups are accounted for, and only so much is left to do. -/
structure Tallied (gatt : GattServer σ) (table : List (Entry (Handler σ))) (K : ℕ) (events : List Event)
    (s : Profile σ) : Prop where
  safe : s.worker.Safe gatt
  accounted : Accounted (posts events) s.worker
  left : ∃ n, s.worker.Left K table n

theorem tallied_init (hmax : 2 ≤ gatt.maxLen.toNat) (app : σ) : Tallied gatt table K [] (init app) :=
  ⟨Worker.safe_init hmax app, accounted_init app, 0, 0, .waiting, rfl⟩

theorem tallied_step (ht : BoundedTable gatt table) (hb : Brief K table) {events : List Event} {s s' : Profile σ}
    {e : Event} (h : Tallied gatt table K events s) (hs : s.step gatt table e = some s') :
    Tallied gatt table K (events ++ [e]) s' := by
  have heffect := step_effect hs
  have hd := h.safe.dev.installed
  obtain ⟨n, hn⟩ := h.left
  obtain ⟨m, hm, _⟩ := left_effect hb hd hn heffect
  refine ⟨safe_effect ht h.safe heffect, ?_, m, hm⟩
  rw [posts_append, posts_singleton]
  exact accounted_effect hd h.accounted heffect

/-- **Every wakeup is served.** In every run the command writes so far are counted or outstanding. If none follow, the
worker takes boundedly many steps, whatever happens between them, and these bring it to wait with all of them counted. -/
theorem wakeups_served (gatt : GattServer σ) (ht : BoundedTable gatt table) (hb : Brief K table)
    (hmax : 2 ≤ gatt.maxLen.toNat) (app : σ) (events : List Event) (s : Profile σ)
    (h : run (step gatt table) (init app) events = some s) :
    Accounted (posts events) s.worker ∧
    (∃ n, ∀ more s', (∀ e ∈ more, e.posts = 0) → run (step gatt table) s more = some s' →
      more.countP Event.isWork ≤ n) ∧
    ∃ more s', (∀ e ∈ more, e = .work) ∧ run (step gatt table) s more = some s' ∧ s'.worker.Blocked ∧
      s'.dev.rcpCommandExecutionCount = UInt8.ofNat (posts events) := by
  have htallied : Tallied gatt table K ([] ++ events) s :=
    run_inv_history (fun _ _ _ _ hi hs => tallied_step ht hb hi hs) (tallied_init hmax app) h
  obtain ⟨n, hleft⟩ := htallied.left
  refine ⟨htallied.accounted, ⟨n, ?_⟩, ?_⟩
  · intro more s' hposts hrun
    have hrun : run (guarded (step gatt table) fun _ e => e.posts = 0) s more = some s' :=
      run_guarded.mpr ⟨meets_of_forall hposts, hrun⟩
    refine run_countP_le (I := fun s => s.worker.Safe gatt) (B := fun s n => s.worker.Left K table n) ?_ ?_ htallied.safe
      hleft hrun
    · intro s e s' hi hs
      exact safe_effect ht hi (step_effect (guarded_eq_some.mp hs).2)
    · intro s e s' n hi hn hs
      obtain ⟨hposts, hs⟩ := guarded_eq_some.mp hs
      exact left_step hb hi.dev.installed hn hposts hs
  · have hgo : ∀ s : Profile σ, s.worker.Safe gatt → ¬ s.worker.Blocked →
        ∃ e s', e = .work ∧ s.step gatt table e = some s' := by
      intro s hi hblocked
      obtain ⟨w, hw⟩ := (Worker.step_iff table hi).mpr hblocked
      exact ⟨.work, _, rfl, Option.map_eq_some_iff.mpr ⟨w, hw, rfl⟩⟩
    have hspend : ∀ (s : Profile σ) e s' n, s.worker.Safe gatt → e = .work → s.worker.Left K table n →
        s.step gatt table e = some s' → ∃ m, s'.worker.Left K table m ∧ m < n := by
      rintro s e s' n hi rfl hn hs
      exact left_step hb hi.dev.installed hn rfl hs
    obtain ⟨more, s', hwork, hrun, hblocked⟩ := run_done (I := fun s : Profile σ => s.worker.Safe gatt)
      (fun _ _ _ hi hs => safe_effect ht hi (step_effect hs)) hspend hgo htallied.safe hleft
    refine ⟨more, s', hwork, hrun, hblocked, ?_⟩
    have htallied' : Tallied gatt table K (events ++ more) s' :=
      run_inv_history (fun _ _ _ _ hi hs => tallied_step ht hb hi hs) htallied hrun
    obtain ⟨served, hcount, hsum⟩ := htallied'.accounted
    rw [hblocked.outstanding, posts_append, posts_work hwork, Nat.add_zero, Nat.add_zero] at hsum
    rw [← hsum]
    exact hcount

/-- Three commands: the third overwrites the second while the first is run. -/
def overwriting : List Event := List.flatten [
  .write ⟨commandAttr, commandAttr_mem⟩ [0, 1, 1] 0 :: List.replicate 4 .work,
  [.write ⟨commandAttr, commandAttr_mem⟩ [0, 1, 2] 0, .read ⟨responseAttr, responseAttr_mem⟩ 0 22,
    .write ⟨commandAttr, commandAttr_mem⟩ [0, 1, 3] 0]]

/-- One is under way and two are held by the semaphore; the worker comes to wait with all three counted. -/
theorem wakeups_served_overwriting : ∃ s, run (step (.plain 251) testRcpCallbacks) (init 0) overwriting = some s ∧
    s.worker.outstanding = 3 ∧ ∃ more s', run (step (.plain 251) testRcpCallbacks) s more = some s' ∧
      s'.worker.Blocked ∧ s'.dev.rcpCommandExecutionCount = 3 := by
  obtain ⟨_, _, more, s', _, hrun, hblocked, hcount⟩ := wakeups_served (.plain 251)
    (testRcpCallbacks_bounded (by decide)) testRcpCallbacks_brief (by decide) 0 overwriting _ rfl
  exact ⟨_, rfl, rfl, more, s', hrun, hblocked, hcount⟩

end Profile

end BleRpc.Device
