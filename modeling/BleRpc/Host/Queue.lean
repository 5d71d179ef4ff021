import BleRpc.Host.Client

/-!
# In what order the calls write

Calls of `send_command` write in the order in which they came to the lock, whatever they wait for and however they end.

- `Lined`: each call writes once, and writes the command it was given;
- `first_come_first_served`: those that have written and those that wait are, in order, those that came, except for the
  ones cancelled while they waited.
-/

namespace BleRpc.Host

open Transition

namespace Client

/-! ## What has been written -/

/-- The calls that have written, in order. -/
def writers (s : Client) : List ℕ := s.writes.map Prod.fst

/-- A call writes once, when it gets the lock, and it writes its command. -/
structure Lined (s : Client) : Prop where
  nodup : s.writers.Nodup
  begun : ∀ i ∈ s.writers, s.stage i ≠ .idle ∧ s.stage i ≠ .queued
  inside : ∀ i, (s.stage i).Inside → i ∈ s.writers
  recorded : ∀ w ∈ s.writes, w.2 = s.command w.1

theorem lined_init : Lined init := ⟨List.nodup_nil, nofun, nofun, nofun⟩

/-- A call changes its stage and writes nothing. -/
theorem Lined.move {s s' : Client} {i : ℕ} {st : Stage} (h : Lined s) (hstage : s'.stage = Function.update s.stage i st)
    (hw : s'.writes = s.writes) (hbegun : i ∈ s.writers → st ≠ .idle ∧ st ≠ .queued ∧ s'.command i = s.command i)
    (hin : st.Inside → i ∈ s.writers) (hcmd : ∀ j, j ≠ i → s'.command j = s.command j) : Lined s' := by
  have hws : s'.writers = s.writers := congrArg (List.map Prod.fst) hw
  refine ⟨hws ▸ h.nodup, ?_, ?_, ?_⟩
  · intro j hj
    rw [hws] at hj
    by_cases hji : j = i
    · subst hji
      rw [hstage, Function.update_self]
      exact ⟨(hbegun hj).1, (hbegun hj).2.1⟩
    · rw [hstage, Function.update_of_ne hji]
      exact h.begun j hj
  · intro j hj
    rw [hws]
    by_cases hji : j = i
    · subst hji
      rw [hstage, Function.update_self] at hj
      exact hin hj
    · rw [hstage, Function.update_of_ne hji] at hj
      exact h.inside j hj
  · intro w hmem
    rw [hw] at hmem
    have hold := h.recorded w hmem
    by_cases hwi : w.1 = i
    · have hmem' : i ∈ s.writers := hwi ▸ List.mem_map_of_mem hmem
      rw [hold, hwi, (hbegun hmem').2.2]
    · rw [hold, hcmd _ hwi]

/-- A call that has not written gets the lock and writes. -/
theorem Lined.enter {s : Client} {i : ℕ} {lock : FairLock ℕ} (h : Lined s)
    (hi : s.stage i = .idle ∨ s.stage i = .queued) : Lined (s.enter i lock) := by
  have hnew : i ∉ s.writers := by
    intro hmem
    obtain ⟨hidle, hqueued⟩ := h.begun i hmem
    exact hi.elim hidle hqueued
  have hws : (s.enter i lock).writers = s.writers ++ [i] := by simp [writers, Client.enter]
  refine ⟨?_, ?_, ?_, ?_⟩
  · rw [hws]
    simpa [List.nodup_append] using ⟨h.nodup, fun a ha hai => hnew (hai ▸ ha)⟩
  · intro j hj
    by_cases hji : j = i
    · subst hji
      simp [Client.enter]
    · rw [hws] at hj
      simp only [Client.enter, Function.update_of_ne hji]
      exact h.begun j (by simpa [hji] using hj)
  · intro j hj
    rw [hws]
    by_cases hji : j = i
    · simp [hji]
    · simp only [Client.enter, Function.update_of_ne hji] at hj
      exact List.mem_append_left _ (h.inside j hj)
  · intro w hw
    rcases List.mem_append.mp hw with hw | hw
    · exact h.recorded w hw
    · rw [List.mem_singleton.mp hw]
      rfl

/-- A new call's command is its own. -/
theorem Lined.call {s : Client} {i : ℕ} {command : Bytes} (h : Lined s) (hi : s.stage i = .idle) :
    Lined (s.call i command) := by
  refine ⟨h.nodup, h.begun, h.inside, ?_⟩
  intro w hw
  have hne : w.1 ≠ i := by
    rintro rfl
    exact (h.begun _ (List.mem_map_of_mem hw)).1 hi
  exact (h.recorded w hw).trans (Function.update_of_ne hne _ _).symm

/-- The call that is granted the lock has waited for it. -/
theorem Inv.queued_of_grant {s : Client} {i : ℕ} {lock : FairLock ℕ} (hi : Inv s)
    (hg : s.commandLock.grant = some (i, lock)) : s.stage i = .queued := by
  rw [← hi.locked.waiters, (FairLock.grant_eq_some hg).2.1]
  exact List.mem_cons_self

/-- **Each call writes once.** -/
theorem lined_step {s s' : Client} {e : Event} (hi : Inv s) (h : Lined s) (hm : Moved s e s') : Lined s' := by
  have hcall : ∀ {i : ℕ} {command : Bytes} (j : ℕ), j ≠ i → (s.call i command).command j = s.command j :=
    fun j hj => Function.update_of_ne hj _ _
  have hidle : ∀ {i : ℕ}, s.stage i = .idle → i ∉ s.writers := fun hi hmem => (h.begun _ hmem).1 hi
  cases hm with
  | connection up => exact ⟨h.nodup, h.begun, h.inside, h.recorded⟩
  | rejected hid => exact h.move (by rfl) rfl (fun hmem => absurd hmem (hidle hid)) False.elim hcall
  | joined hid => exact h.move (by rfl) rfl (fun hmem => absurd hmem (hidle hid)) False.elim hcall
  | opened hid => exact (h.call hid).enter (.inl hid)
  | @granted i lock hg =>
    have hq := hi.queued_of_grant hg
    exact h.enter (.inr hq)
  | awaits hw =>
    refine h.move (by rfl) rfl (fun _ => ⟨?_, ?_, rfl⟩) (fun _ => h.inside _ (inside_of_writing hw)) fun _ _ => rfl
    all_goals simp
  | left _ hin hends =>
    refine h.move (by rfl) rfl (fun _ => ⟨?_, hends.out.2, rfl⟩) (fun hst => absurd hst hends.out.1) fun _ _ => rfl
    cases hends <;> simp
  | gaveUp =>
    refine h.move (by rfl) rfl (fun _ => ⟨?_, ?_, rfl⟩) False.elim fun _ _ => rfl
    all_goals simp
  | notified data =>
    have hk := responseHandler_kept s data
    refine ⟨?_, ?_, ?_, ?_⟩
    · rw [writers, hk.writes]; exact h.nodup
    · rw [writers, hk.writes, hk.stage]; exact h.begun
    · rw [writers, hk.writes, hk.stage]; exact h.inside
    · rw [hk.writes, hk.command]; exact h.recorded

/-- A call that starts is a new one: it fails the checks and raises, or passes and takes the lock or joins the queue. -/
inductive Started (s : Client) (i : ℕ) (command : Bytes) : Client → Prop
  | refused {e : PyErr} (hc : s.checkSend command = .error e) : Started s i command ((s.call i command).move i (.raised e))
  | opened (hc : s.checkSend command = .ok ()) (hopen : s.commandLock.Open) :
    Started s i command ((s.call i command).enter i (s.commandLock.take i))
  | joined (hc : s.checkSend command = .ok ()) :
    Started s i command ({ s.call i command with commandLock := s.commandLock.enqueue i }.move i .queued)

theorem start_inv {s c : Client} {i : ℕ} {command : Bytes} (h : s.step (.start i command) = some c) :
    s.stage i = .idle ∧ Started s i command c := by
  cases hi : s.stage i with
  | idle =>
    refine ⟨rfl, ?_⟩
    simp only [step, hi] at h
    split at h
    · rename_i e he
      cases h
      exact .refused he
    · rename_i hok
      by_cases hopen : s.commandLock.Open
      · rw [if_pos hopen] at h
        cases h
        exact .opened hok hopen
      · rw [if_neg hopen] at h
        cases h
        exact .joined hok
  | _ => simp only [step, hi] at h; cases h

/-- A call that has started has started for good. -/
theorem started_step {s s' : Client} {e : Event} {j : ℕ} (h : s.stage j ≠ .idle) (hm : Moved s e s') :
    s'.stage j ≠ .idle := by
  have hmove : ∀ {i : ℕ} {st : Stage}, st ≠ .idle → Function.update s.stage i st j ≠ .idle := by
    intro i st hst
    by_cases hji : j = i
    · simpa [hji] using hst
    · simpa [hji] using h
  cases hm with
  | connection up => exact h
  | rejected | joined | opened | granted | awaits | gaveUp => exact hmove (by simp)
  | left _ _ hends => exact hmove (by cases hends <;> simp)
  | notified data => rwa [(responseHandler_kept s data).stage]

/-- A call's command is the one it starts with. -/
theorem Started.command_eq {s s' : Client} {i : ℕ} {command : Bytes} (h : Started s i command s') :
    s'.command i = command := by
  cases h <;> exact Function.update_self ..

/-- Only its own start begins a call, and gives it its command. -/
theorem begun_step {s s' : Client} {e : Event} {j : ℕ} (hi : Inv s) (hm : Moved s e s')
    (hnew : ∀ command, e ≠ .start j command) :
    (s'.stage j ≠ .idle → s.stage j ≠ .idle) ∧ s'.command j = s.command j := by
  have hother : ∀ {i : ℕ} {st : Stage}, s.stage i ≠ .idle →
      Function.update s.stage i st j ≠ .idle → s.stage j ≠ .idle := by
    intro i st hi hj
    by_cases hji : j = i
    · rwa [hji]
    · rwa [Function.update_of_ne hji] at hj
  have hstart : ∀ {i : ℕ} {command : Bytes} {st : Stage}, e = .start i command →
      (Function.update s.stage i st j ≠ .idle → s.stage j ≠ .idle) ∧
        Function.update s.command i command j = s.command j := by
    intro i command st he
    have hji : j ≠ i := by
      rintro rfl
      exact hnew command he
    rw [Function.update_of_ne hji, Function.update_of_ne hji]
    exact ⟨id, rfl⟩
  cases hm with
  | connection up => exact ⟨id, rfl⟩
  | rejected | joined | opened => exact hstart rfl
  | @granted i lock hg =>
    have hq := hi.queued_of_grant hg
    exact ⟨hother (by simp [hq]), rfl⟩
  | awaits hw => exact ⟨hother (by simp [hw]), rfl⟩
  | left _ hin =>
    refine ⟨hother ?_, rfl⟩
    intro hidle
    rw [hidle] at hin
    exact hin
  | gaveUp hq => exact ⟨hother (by simp [hq]), rfl⟩
  | notified data =>
    have hk := responseHandler_kept s data
    rw [hk.stage, hk.command]
    exact ⟨id, rfl⟩

/-! ## First come, first served -/

/-- The calls that have written, and those that wait to. -/
def line (s : Client) : List ℕ := s.writers ++ s.commandLock.waiters

/-- The call that an event adds to the line: one that has started and not raised. -/
def admitted (s' : Client) : Event → List ℕ
  | .start i _ =>
    match s'.stage i with
    | .raised _ => []
    | _ => [i]
  | _ => []

end Client

/-- The client, and the calls that have come to its lock. -/
structure Queue where
  client : Client
  arrivals : List ℕ

namespace Queue

open Client

def init : Queue := ⟨.init, []⟩

def step (q : Queue) (e : Event) : Option Queue :=
  (q.client.step e).map fun c => ⟨c, q.arrivals ++ admitted c e⟩

/-- The line keeps the order of arrival; who has come and is not in it was cancelled. -/
structure Fair (q : Queue) : Prop where
  once : q.arrivals.Nodup
  order : q.client.line.Sublist q.arrivals
  missing : ∀ i ∈ q.arrivals, i ∉ q.client.line → q.client.stage i = .raised .cancelledError

structure Inv (q : Queue) : Prop extends Fair q where
  client : q.client.Inv
  lined : q.client.Lined
  started : ∀ i ∈ q.arrivals, q.client.stage i ≠ .idle

theorem inv_init : Inv init := ⟨⟨List.nodup_nil, List.Sublist.refl _, nofun⟩, Client.inv_init, lined_init, nofun⟩

/-- Nobody comes, the line is as it was, and so are the calls that are not in it. -/
theorem Fair.keep {q : Queue} {c : Client} (h : Fair q) (hline : c.line = q.client.line)
    (hstage : ∀ i ∈ q.arrivals, i ∉ q.client.line → c.stage i = q.client.stage i) : Fair ⟨c, q.arrivals⟩ := by
  refine ⟨h.once, ?_, ?_⟩
  · show c.line.Sublist q.arrivals
    rw [hline]
    exact h.order
  · intro i hi hout
    have hout' : i ∉ q.client.line := hline ▸ hout
    exact (hstage i hi hout').trans (h.missing i hi hout')

/-- A new call joins the end of the line. -/
theorem Fair.join {q : Queue} {c : Client} {i : ℕ} (h : Fair q) (hnew : i ∉ q.arrivals)
    (hline : c.line = q.client.line ++ [i]) (hstage : ∀ j, j ≠ i → c.stage j = q.client.stage j) :
    Fair ⟨c, q.arrivals ++ [i]⟩ := by
  refine ⟨?_, ?_, ?_⟩
  · simpa [List.nodup_append] using ⟨h.once, fun a ha hai => hnew (hai ▸ ha)⟩
  · show c.line.Sublist (q.arrivals ++ [i])
    rw [hline]
    exact h.order.append (List.Sublist.refl [i])
  · intro j hj hout
    have hout' : j ∉ q.client.line ∧ j ≠ i := by simpa [hline] using hout
    have hj' : j ∈ q.arrivals := by simpa [hout'.2] using hj
    exact (hstage j hout'.2).trans (h.missing j hj' hout'.1)

/-- A waiter gives up. -/
theorem Fair.giveUp {q : Queue} {i : ℕ} (h : Fair q) :
    Fair ⟨{ q.client with commandLock := q.client.commandLock.abandon i }.move i (.raised .cancelledError),
      q.arrivals⟩ := by
  refine ⟨h.once, ?_, ?_⟩
  · exact ((List.Sublist.refl _).append List.erase_sublist).trans h.order
  · intro j hj hout
    by_cases hji : j = i
    · simp [hji, move]
    · have hout' : j ∉ q.client.line := by simpa [line, writers, move, FairLock.abandon, hji] using hout
      simpa [move, hji] using h.missing j hj hout'

/-- Only a call that starts can come to the lock. -/
theorem admitted_of_ne {c : Client} {e : Event} (he : ∀ i command, e ≠ .start i command) : admitted c e = [] := by
  cases e with
  | start i command => exact absurd rfl (he i command)
  | _ => rfl

/-- **Every step keeps the order.** -/
theorem fair_step {q : Queue} {c : Client} {e : Event} (h : Inv q) (hs : q.client.step e = some c) :
    Fair ⟨c, q.arrivals ++ admitted c e⟩ := by
  by_cases he : ∃ i command, e = .start i command
  · obtain ⟨i, command, rfl⟩ := he
    obtain ⟨hidle, hstart⟩ := start_inv hs
    have hnew : i ∉ q.arrivals := fun hi => h.started i hi hidle
    cases hstart with
    | @refused err =>
      have hnone : admitted ((q.client.call i command).move i (.raised err)) (.start i command) = [] := by
        simp [admitted, move]
      rw [hnone, List.append_nil]
      refine h.toFair.keep rfl ?_
      intro j hj _
      have hji : j ≠ i := fun hji => hnew (hji ▸ hj)
      exact Function.update_of_ne hji _ _
    | opened _ hopen =>
      have hone : admitted ((q.client.call i command).enter i (q.client.commandLock.take i)) (.start i command) = [i] := by
        simp [admitted, enter]
      rw [hone]
      refine h.toFair.join hnew ?_ fun j hj => Function.update_of_ne hj _ _
      simp [line, writers, enter, call, hopen.2]
    | joined =>
      have hone : admitted ({ q.client.call i command with
          commandLock := q.client.commandLock.enqueue i }.move i .queued) (.start i command) = [i] := by
        simp [admitted, move]
      rw [hone]
      refine h.toFair.join hnew ?_ fun j hj => Function.update_of_ne hj _ _
      simp [line, writers, move, call]
  · have he' : ∀ i command, e ≠ .start i command := fun i command hic => he ⟨i, command, hic⟩
    rw [admitted_of_ne he', List.append_nil]
    cases step_moved hs with
    | rejected | opened | joined => exact absurd rfl (he' _ _)
    | connection up => exact h.toFair.keep rfl fun _ _ _ => rfl
    | @granted i lock hg =>
      obtain ⟨_, hw, _⟩ := FairLock.grant_eq_some hg
      refine h.toFair.keep ?_ ?_
      · simp [line, writers, enter, hw]
      · intro j _ hout
        refine Function.update_of_ne ?_ _ _
        rintro rfl
        exact hout (by simp [line, hw])
    | @awaits i f hi _ =>
      refine h.toFair.keep rfl ?_
      intro j _ hout
      refine Function.update_of_ne ?_ _ _
      rintro rfl
      exact hout (List.mem_append_left _ (h.lined.inside _ (inside_of_writing hi)))
    | @left _ i st _ hin _ =>
      refine h.toFair.keep rfl ?_
      intro j _ hout
      refine Function.update_of_ne ?_ _ _
      rintro rfl
      exact hout (List.mem_append_left _ (h.lined.inside _ hin))
    | gaveUp => exact h.toFair.giveUp
    | notified data =>
      have hk := responseHandler_kept q.client data
      refine h.toFair.keep ?_ fun j _ _ => congrFun hk.stage j
      simp [line, writers, hk.writes, hk.commandLock]

theorem inv_step {q q' : Queue} {e : Event} (h : Inv q) (hs : q.step e = some q') : Inv q' := by
  obtain ⟨c, hc, rfl⟩ := Option.map_eq_some_iff.mp hs
  have hm := step_moved hc
  refine ⟨fair_step h hc, Client.inv_step h.client hc, lined_step h.client h.lined hm, ?_⟩
  intro i hi
  rcases List.mem_append.mp hi with hi | hi
  · exact started_step (h.started i hi) hm
  · -- a call that has just come
    cases e with
    | start j command =>
      intro hidle
      by_cases hji : i = j
      · subst hji
        cases (start_inv hc).2 <;> simp [move, enter] at hidle
      · simp only [admitted] at hi
        split at hi <;> simp_all
    | _ => cases hi

/-- **First come, first served**: in every run the commands written are those of the calls in the order in which they
came to the lock, each written once and as the call gave it; a call that came and has neither written nor waits was
cancelled while it waited. -/
theorem first_come_first_served (events : List Event) (q : Queue) (h : run step init events = some q) :
    Fair q ∧ q.client.writers.Nodup ∧ ∀ w ∈ q.client.writes, w.2 = q.client.command w.1 := by
  have hi : Inv q := run_inv (fun _ _ _ hi hs => inv_step hi hs) inv_init h
  exact ⟨hi.toFair, hi.lined.nodup, hi.lined.recorded⟩

/-- Four calls: the first times out, the second is cancelled while it waits, the third writes, the fourth comes. -/
def overtaking : List Event :=
  [.connection true, .start 0 [0, 0], .start 1 [1, 0], .start 2 [2, 0], .cancel 1, .written 0, .timeout 0, .acquire,
    .start 3 [3, 0]]

/-- The cancelled call is left out; nobody overtakes. -/
theorem first_come_first_served_overtaking : ∃ q, run step init overtaking = some q ∧
    q.client.writes = [(0, [0, 0]), (2, [2, 0])] ∧ q.client.line = [0, 2, 3] ∧ Fair q :=
  ⟨_, rfl, rfl, rfl, (first_come_first_served overtaking _ rfl).1⟩

end Queue

end BleRpc.Host
