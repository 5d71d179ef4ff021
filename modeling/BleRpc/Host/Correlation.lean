import BleRpc.Host.Client

/-!
# Whose response a call returns

The client with the device on the other side of the link: the commands written reach the device, the device answers
each with one response, and the responses are delivered as notifications in the order they were sent, however late.

`response_handler` gives a response to the future it finds, which need not be that of the call the response answers.
`response_correlation`: a call returns the response to its own command if no response is delivered while the future of
another call is pending.
-/

namespace BleRpc.Host

open Transition

namespace Client

/-! ## The writes of the calls -/

/-- The newest future belongs to the call inside, a future returned to the call that returned it: the write of the same
number is that call's. -/
structure Owned (s : Client) : Prop where
  length : s.writes.length = s.futures.length
  inside : ∀ i f, (s.stage i).Inside → s.responseFuture = some f → s.writes[f]? = some (i, s.command i)
  returned : ∀ i f r, s.stage i = .returned f r → s.writes[f]? = some (i, s.command i)

theorem owned_init : Owned init := ⟨rfl, nofun, nofun⟩

/-- A call outside changes its stage and is not answered. -/
theorem Owned.move {s s' : Client} {i : ℕ} {st : Stage} (h : Owned s)
    (hstage : s'.stage = Function.update s.stage i st) (hfut : s'.responseFuture = s.responseFuture)
    (hlen : s'.futures = s.futures) (hw : s'.writes = s.writes) (hcmd : ∀ j, j ≠ i → s'.command j = s.command j)
    (hin : ¬ st.Inside) (hret : ∀ f r, st ≠ .returned f r) : Owned s' := by
  refine ⟨by rw [hw, hlen]; exact h.length, ?_, ?_⟩
  · intro j f hj hf
    by_cases hji : j = i
    · simp [hstage, hji] at hj
      exact absurd hj hin
    · simp only [hstage, Function.update_of_ne hji] at hj
      rw [hw, hcmd j hji]
      exact h.inside j f hj (hfut ▸ hf)
  · intro j f r hj
    by_cases hji : j = i
    · simp [hstage, hji] at hj
      exact absurd hj (hret f r)
    · simp only [hstage, Function.update_of_ne hji] at hj
      rw [hw, hcmd j hji]
      exact h.returned j f r hj

/-- A call takes the free lock and writes. -/
theorem Owned.enter {s : Client} {i : ℕ} {lock : FairLock ℕ} (h : Owned s) (hfree : ∀ j, ¬ (s.stage j).Inside) :
    Owned (s.enter i lock) := by
  have hgrow : ∀ f x, s.writes[f]? = some x → (s.writes ++ [(i, s.command i)])[f]? = some x := fun f x hx => by
    rw [List.getElem?_append_left (List.getElem?_eq_some_iff.mp hx).1]
    exact hx
  refine ⟨?_, ?_, ?_⟩
  · simp [Client.enter, h.length]
  · intro j f hj hf
    by_cases hji : j = i
    · cases hf
      subst hji
      simp [Client.enter, ← h.length]
    · simp only [Client.enter, Function.update_of_ne hji] at hj
      exact absurd hj (hfree j)
  · intro j f r hj
    by_cases hji : j = i
    · simp [Client.enter, hji] at hj
    · simp only [Client.enter, Function.update_of_ne hji] at hj
      exact hgrow f _ (h.returned j f r hj)

/-- The call that has the lock ends. -/
theorem Owned.leave {s : Client} {i : ℕ} {st : Stage} (h : Owned s) (hi : Inv s) (hin : (s.stage i).Inside)
    (hends : Ends s i st) : Owned (s.leave i st) := by
  refine ⟨h.length, fun _ _ _ hf => (by cases hf), ?_⟩
  intro j f r hj
  by_cases hji : j = i
  · simp only [Client.leave, hji, Function.update_self] at hj
    subst hji
    cases hends with
    | raised e => cases hj
    | returned hw hr =>
      cases hj
      exact h.inside j f hin (hi.linked.awaited j f hw)
  · simp only [Client.leave, Function.update_of_ne hji] at hj
    exact h.returned j f r hj

/-- **Writes and futures go together.** -/
theorem owned_step {s s' : Client} {e : Event} (hi : Inv s) (h : Owned s) (hm : Moved s e s') : Owned s' := by
  have hfree : s.commandLock.holder = none → ∀ j, ¬ (s.stage j).Inside := by
    intro hnone j hj
    rw [← hi.locked.holder, hnone] at hj
    cases hj
  have hcall : ∀ {i : ℕ} {command : Bytes} (j : ℕ), j ≠ i → (s.call i command).command j = s.command j :=
    fun j hj => Function.update_of_ne hj _ _
  cases hm with
  | connection up => exact ⟨h.length, h.inside, h.returned⟩
  | rejected hidle | joined hidle => exact h.move (by rfl) rfl rfl rfl hcall id (by simp)
  | gaveUp hq => exact h.move (by rfl) rfl rfl rfl (fun _ _ => rfl) id (by simp)
  | @opened i command hidle hopen =>
    have hc : Owned (s.call i command) := by
      refine ⟨h.length, ?_, ?_⟩
      · intro j f hj
        exact absurd hj (hfree hopen.1 j)
      · intro j f r hj
        by_cases hji : j = i
        · have hj' : s.stage j = .returned f r := hj
          rw [hji, hidle] at hj'
          cases hj'
        · rw [hcall j hji]
          exact h.returned j f r hj
    exact hc.enter (hfree hopen.1)
  | granted hg => exact h.enter (hfree (FairLock.grant_eq_some hg).1)
  | @awaits i f hw hf =>
    refine ⟨h.length, ?_, ?_⟩
    · intro j g hj hg
      by_cases hji : j = i
      · subst hji
        exact h.inside j g (inside_of_writing hw) hg
      · simp only [Client.move, Function.update_of_ne hji] at hj
        exact h.inside j g hj hg
    · intro j g r hj
      by_cases hji : j = i
      · simp [Client.move, hji] at hj
      · simp only [Client.move, Function.update_of_ne hji] at hj
        exact h.returned j g r hj
  | left _ hin hends => exact h.leave hi hin hends
  | notified data =>
    have hk := responseHandler_kept s data
    refine ⟨by rw [hk.writes, hk.length]; exact h.length, ?_, ?_⟩
    · rw [hk.stage, hk.responseFuture, hk.writes, hk.command]; exact h.inside
    · rw [hk.stage, hk.writes, hk.command]; exact h.returned

/-- The future the next response would complete. -/
def expected (s : Client) : Option ℕ := s.responseFuture.filter fun f => !s.isDone f

/-- The writes so far stay. -/
theorem writes_step {s s' : Client} {e : Event} (hm : Moved s e s') : s.writes <+: s'.writes := by
  cases hm with
  | opened | granted => exact List.prefix_append _ _
  | notified data => exact (responseHandler_kept s data).writes ▸ List.prefix_refl _
  | _ => exact List.prefix_refl _

/-- Only a notification adds to the results, and only to the number of those received. -/
theorem result_step {s s' : Client} {e : Event} (he : e.packets = []) (hm : Moved s e s') :
    (∀ f, s'.result f = s.result f) ∧ s'.received = s.received := by
  cases hm with
  | opened | granted => exact ⟨fun f => result_enter, rfl⟩
  | notified data => cases he
  | _ => exact ⟨fun f => rfl, rfl⟩

end Client

/-! ## The link -/

/-- The client, the writes that have reached the device, and the responses it has sent, each to a write. -/
structure Link where
  client : Client
  reached : List ℕ
  sent : List (ℕ × Bytes)

namespace Link

inductive Event
  /-- Anything the event loop does but handling a notification. -/
  | loop (e : Client.Event)
  /-- A command reaches the device. -/
  | reach (write : ℕ)
  /-- The device sends its one response to a command. -/
  | answer (write : ℕ) (data : Bytes)
  /-- The next of the responses sent is handled. -/
  | deliver

def init : Link := ⟨.init, [], []⟩

/-- The response that is delivered next. -/
def next (s : Link) : Option (ℕ × Bytes) := s.sent[s.client.received.length]?

def step (s : Link) : Event → Option Link
  | .loop e => if e.packets = [] then (s.client.step e).map fun c => { s with client := c } else none
  | .reach k =>
    if k < s.client.writes.length ∧ k ∉ s.reached then some { s with reached := s.reached ++ [k] } else none
  | .answer k data =>
    if k ∈ s.reached ∧ k ∉ s.sent.map Prod.fst then some { s with sent := s.sent ++ [(k, data)] } else none
  | .deliver => s.next.map fun (_, data) => { s with client := (s.client.responseHandler data).1 }

/-- A response that passes the checks is delivered to the call whose command it answers, or while no call expects
one. -/
def OnTime (s : Link) : Event → Prop
  | .deliver => ∀ r ∈ s.next, WellFormed r.2 → s.client.expected = none ∨ s.client.expected = some r.1
  | _ => True

/-- The device labels its response with the command's id. -/
def Labelled (s : Link) : Event → Prop
  | .answer k data => ∀ w ∈ s.client.writes[k]?, data[0]? = w.2[0]?
  | _ => True

/-- What a call returns is the response to its own command. -/
def Correlated (s : Link) : Prop :=
  ∀ i f r, s.client.stage i = .returned f r →
    ∃ k, s.sent[r.number]? = some (k, r.data) ∧ s.client.writes[k]? = some (i, s.client.command i)

structure Inv (s : Link) : Prop where
  client : s.client.Inv
  owned : s.client.Owned
  /-- A future's result is the response to the write of the same number. -/
  matched : ∀ f r, s.client.result f = some r → s.sent[r.number]? = some (f, r.data)

theorem inv_init : Inv init := ⟨Client.inv_init, Client.owned_init, by simp [init, Client.init, Client.result]⟩

/-- The response delivered on time goes to the future of its write. -/
theorem inv_deliver {s : Link} {k : ℕ} {data : Bytes} (h : Inv s) (hnext : s.next = some (k, data))
    (ht : s.OnTime .deliver) : Inv { s with client := (s.client.responseHandler data).1 } := by
  have hstep : s.client.step (.notify data) = some (s.client.responseHandler data).1 := rfl
  refine ⟨Client.inv_step h.client hstep, Client.owned_step h.client h.owned (.notified data), ?_⟩
  intro f r hr
  have hr : (s.client.responseHandler data).1.result f = some r := hr
  rcases Client.responseHandler_cases data h.client.current_lt with hs | ⟨g, hg, hnone, hwf, hs⟩
  · rw [hs] at hr
    exact h.matched f r hr
  · rw [hs, Client.result_complete (s := s.client.receive data) (h.client.current_lt g hg)] at hr
    by_cases hf : f = g
    · rw [if_pos hf] at hr
      cases hr
      -- the future was pending, so it is the one expected
      have hexp : s.client.expected = some g := by simp [Client.expected, hg, Client.isDone, hnone]
      rcases ht (k, data) hnext hwf with he | he
      · rw [hexp] at he
        cases he
      · rw [hexp] at he
        cases he
        rw [hf]
        exact hnext
    · rw [if_neg hf] at hr
      exact h.matched f r hr

/-- **Every step on time keeps the invariant.** -/
theorem inv_step {s s' : Link} {e : Event} (h : Inv s) (ht : s.OnTime e) (hs : s.step e = some s') : Inv s' := by
  cases e with
  | loop e =>
    simp only [step] at hs
    by_cases he : e.packets = []
    · rw [if_pos he] at hs
      obtain ⟨c, hc, rfl⟩ := Option.map_eq_some_iff.mp hs
      have hm := Client.step_moved hc
      refine ⟨Client.inv_step h.client hc, Client.owned_step h.client h.owned hm, ?_⟩
      intro f r hr
      have hr : c.result f = some r := hr
      rw [(Client.result_step he hm).1] at hr
      exact h.matched f r hr
    · rw [if_neg he] at hs
      cases hs
  | reach k =>
    simp only [step] at hs
    split at hs
    · cases hs; exact ⟨h.client, h.owned, h.matched⟩
    · cases hs
  | answer k data =>
    simp only [step] at hs
    split at hs
    · cases hs
      refine ⟨h.client, h.owned, ?_⟩
      intro f r hr
      have hold := h.matched f r hr
      show (s.sent ++ [(k, data)])[r.number]? = some (f, r.data)
      rw [List.getElem?_append_left (List.getElem?_eq_some_iff.mp hold).1]
      exact hold
    · cases hs
  | deliver =>
    obtain ⟨⟨k, data⟩, hnext, rfl⟩ := Option.map_eq_some_iff.mp hs
    exact inv_deliver h hnext ht

/-- The invariant gives the correlation. -/
theorem Inv.correlated {s : Link} (h : Inv s) : Correlated s := by
  intro i f r hi
  have hres := (h.client.linked.returned i f r hi).1
  exact ⟨f, h.matched f r hres, h.owned.returned i f r hi⟩

/-! ## Labels -/

/-- The responses sent carry the first bytes of the commands they answer. -/
structure Labels (s : Link) : Prop where
  reached : ∀ k ∈ s.reached, k < s.client.writes.length
  label : ∀ k data w, (k, data) ∈ s.sent → s.client.writes[k]? = some w → data[0]? = w.2[0]?
  sent : ∀ k data, (k, data) ∈ s.sent → k ∈ s.reached

theorem labels_init : Labels init := by
  constructor <;> simp [init]

/-- More writes leave the labels right. -/
theorem Labels.grow {s : Link} {c : Client} (h : Labels s) (hw : s.client.writes <+: c.writes) :
    Labels { s with client := c } := by
  refine ⟨?_, ?_, h.sent⟩
  · intro k hk
    have := h.reached k hk
    have := hw.length_le
    show k < c.writes.length
    omega
  · intro k data w hk hkw
    have hlt := h.reached k (h.sent k data hk)
    have hold := List.prefix_iff_getElem?.mp hw k hlt
    apply h.label k data w hk
    rw [List.getElem?_eq_getElem hlt, ← hold]
    exact hkw

/-- **Labelled responses keep the labels right.** -/
theorem labels_step {s s' : Link} {e : Event} (h : Labels s) (hl : s.Labelled e) (hs : s.step e = some s') :
    Labels s' := by
  cases e with
  | loop e =>
    simp only [step] at hs
    by_cases he : e.packets = []
    · rw [if_pos he] at hs
      obtain ⟨c, hc, rfl⟩ := Option.map_eq_some_iff.mp hs
      exact h.grow (Client.writes_step (Client.step_moved hc))
    · rw [if_neg he] at hs
      cases hs
  | reach k =>
    simp only [step] at hs
    split at hs
    · rename_i hk
      cases hs
      refine ⟨?_, h.label, fun j data hj => List.mem_append_left _ (h.sent j data hj)⟩
      intro j hj
      rcases List.mem_append.mp hj with hj | hj
      · exact h.reached j hj
      · rw [List.mem_singleton.mp hj]
        exact hk.1
    · cases hs
  | answer k data =>
    simp only [step] at hs
    split at hs
    · rename_i hk
      cases hs
      refine ⟨h.reached, ?_, ?_⟩
      · intro j d w hj hw
        rcases List.mem_append.mp hj with hj | hj
        · exact h.label j d w hj hw
        · cases List.mem_singleton.mp hj
          exact hl w hw
      · intro j d hj
        rcases List.mem_append.mp hj with hj | hj
        · exact h.sent j d hj
        · cases List.mem_singleton.mp hj
          exact hk.1
    · cases hs
  | deliver =>
    obtain ⟨⟨k, data⟩, _, rfl⟩ := Option.map_eq_some_iff.mp hs
    exact h.grow (Client.writes_step (.notified data))

/-! ## Every run -/

/-- **A call returns the response to its own command**, if no response is delivered while the future of another call is
pending; and its first byte is the command's, if the device labels its responses. -/
theorem response_correlation (events : List Event) (ht : Meets step OnTime init events) (s : Link)
    (h : run step init events = some s) :
    Correlated s ∧ (Meets step Labelled init events →
      ∀ i f r, s.client.stage i = .returned f r → r.data[0]? = (s.client.command i)[0]?) := by
  have hi : Inv s := run_inv_of_meets (fun _ _ _ hi ht hs => inv_step hi ht hs) inv_init ht h
  refine ⟨hi.correlated, ?_⟩
  intro hl i f r hr
  have hlab : Labels s := run_inv_of_meets (fun _ _ _ hi hl hs => labels_step hi hl hs) labels_init hl h
  obtain ⟨k, hsent, hw⟩ := hi.correlated i f r hr
  exact hlab.label k r.data _ (List.mem_of_getElem? hsent) hw

instance (s : Link) : ∀ e, Decidable (s.OnTime e)
  | .deliver => inferInstanceAs (Decidable (∀ r ∈ s.next, _))
  | .loop _ | .reach _ | .answer _ _ => isTrue trivial

/-- A call, answered after it has timed out, and another call. -/
def firstCall : List Event :=
  [.loop (.connection true), .loop (.start 0 [0, 0]), .reach 0, .loop (.written 0), .loop (.timeout 0)]

/-- The first response comes before the second command is sent. -/
def responseBefore : List Event :=
  firstCall ++ [.answer 0 [0, 0], .deliver, .loop (.start 1 [1, 0]), .reach 1, .loop (.written 1), .answer 1 [1, 0],
    .deliver, .loop (.resume 1)]

/-- The first response comes after the second command is sent. -/
def responseAfter : List Event :=
  firstCall ++ [.loop (.start 1 [1, 0]), .reach 1, .loop (.written 1), .answer 0 [0, 0], .deliver,
    .loop (.resume 1), .answer 1 [1, 0], .deliver]

/-- The second call returns the response to its command. -/
theorem response_correlation_before : ∃ s, run step init responseBefore = some s ∧
    s.client.stage 1 = .returned 1 ⟨1, [1, 0]⟩ ∧ Correlated s := by
  exact ⟨_, rfl, rfl, (response_correlation responseBefore (by decide) _ rfl).1⟩

/-- The second call returns the response to the first command, with the first command's id. -/
theorem late_response_returned : ∃ s, run step init responseAfter = some s ∧ s.client.command 1 = [1, 0] ∧
    s.client.stage 1 = .returned 1 ⟨0, [0, 0]⟩ ∧ s.sent[0]? = some (0, [0, 0]) ∧
    s.client.writes[0]? = some (0, [0, 0]) ∧ ¬ Correlated s := by
  refine ⟨_, rfl, rfl, rfl, rfl, rfl, ?_⟩
  intro h
  obtain ⟨k, hsent, hw⟩ := h 1 1 ⟨0, [0, 0]⟩ rfl
  cases hsent
  cases hw

end Link

end BleRpc.Host
