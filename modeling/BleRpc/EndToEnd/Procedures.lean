import BleRpc.EndToEnd.Calls
import BleRpc.EndToEnd.System

/-!
# Remote procedure calls

Tasks of the host program that call commands by name, over one object with one set of parameters: each sets the request
parameters, forms the packet and calls `send_command`; when it returns, the task disassembles the response and gets the
response parameters. Calls of several tasks may be under way at once.

- `Procedures`: the device in terms of the numbers the commands carry, and `Implements`, a service that has them for its
  replies;
- `typed_calls_answered`: what a task gets are the numbers its procedure returns, after those of the calls before it.
-/

namespace BleRpc

open Device (Command Entry GattServer Handler Service TableServes testRcpCallbacks)
open Host (CommandSchema PyErr PyFloat Schema Value)
open Outcome Transition

/-- A call by name: a command, and the values its parameters are given one after the other. -/
structure Request where
  command : CommandSchema
  calls : List (String × ℤ)

namespace Request

/-- The value a parameter is given last. -/
def value (q : Request) (name : String) : ℤ := (Host.lastCall q.calls name).getD 0

/-- The numbers sent. -/
def arguments (q : Request) : List ℕ := q.command.residues q.value

def packet (q : Request) : Host.Bytes := q.command.packet q.value

/-- Every parameter of the command is given a value, and no other. -/
def Complete (q : Request) : Prop := Host.Assigns q.command q.calls q.value

end Request

variable {F σ : Type}

/-- What each command computes from the numbers sent and the variables: the new variables, and the numbers returned. -/
abbrev Procedures (σ : Type) := CommandSchema → List ℕ → σ → σ × List ℕ

namespace Procedures

/-- The variables after some calls. -/
def after (p : Procedures σ) (app : σ) (qs : List Request) : σ :=
  qs.foldl (fun app q => (p q.command q.arguments app).1) app

/-- The numbers returned by a call after others. -/
def returns (p : Procedures σ) (app : σ) (before : List Request) (q : Request) : List ℕ :=
  (p q.command q.arguments (p.after app before)).2

/-- The service has the procedures for its replies, on the commands of the schema that are offered. -/
structure Implements (p : Procedures σ) (schema : Schema) (offered : List CommandSchema) (f : Service σ) : Prop where
  mem : ∀ c ∈ offered, c ∈ schema.commands
  request : ∀ c ∈ offered, c.requestParameters ≠ [] ∧ c.totalWidth < 256
  app : ∀ c ∈ offered, ∀ v app, (f (Command.ofPacket (c.packet v)) app).app = (p c (c.residues v) app).1
  payload : ∀ c ∈ offered, ∀ v app,
    (f (Command.ofPacket (c.packet v)) app).payload = c.responsePayload (p c (c.residues v) app).2
  numbers : ∀ c ∈ offered, ∀ args app, (p c args app).2.length = c.responseParameters.length ∧
    ∀ pn ∈ c.responseParameters.zip (p c args app).2, pn.2 < 256 ^ pn.1.type.bytes

theorem Implements.after_eq {p : Procedures σ} {schema : Schema} {offered : List CommandSchema} {f : Service σ}
    (hf : p.Implements schema offered f) (app : σ) {qs : List Request} (hqs : ∀ q ∈ qs, q.command ∈ offered) :
    f.after app (qs.map fun q => Command.ofPacket q.packet) = p.after app qs := by
  induction qs generalizing app with
  | nil => rfl
  | cons q qs ih =>
    have happ := hf.app q.command (hqs q List.mem_cons_self) q.value app
    rw [List.map_cons, after, List.foldl_cons, Service.after, List.foldl_cons]
    exact (congrArg (fun app => f.after app _) happ).trans (ih _ fun q' hq' => hqs q' (List.mem_cons_of_mem _ hq'))

end Procedures

/-- The parameters, the calls of `send_command` under way, and for each what was asked and what was got. -/
structure Typed (F σ : Type) where
  rpc : Host.Rpc
  calls : Calls σ
  asked : ℕ → Option Request
  got : ℕ → Option (List (Except PyErr (Value F)))

namespace Typed

inductive Event
  /-- A task sets the parameters, forms the packet, and calls `send_command`. -/
  | ask (i : ℕ) (q : Request)
  /-- Anything else but the start and the return of a call. -/
  | call (e : Calls.Event)
  /-- The call returns; the task disassembles the packet and gets the parameters. -/
  | finish (i : ℕ)

/-- With the parameters read from the schema, and the device reset. -/
def init (fresh : Host.Rpc) (app : σ) : Typed F σ := ⟨fresh, .init app, fun _ => none, fun _ => none⟩

/-- The parameters and the packet of a request. -/
def request (F : Type) [PyFloat F] (rpc : Host.Rpc) (q : Request) : Except PyErr (Host.Rpc × Host.Bytes) := do
  let rpc ← Host.setRequests F q.command.name q.calls rpc
  let packet ← Host.formCommandPacket q.command.name rpc
  return (rpc, packet)

/-- What a task gets out of a packet. -/
def read [PyFloat F] (c : CommandSchema) (packet : Host.Bytes) (rpc : Host.Rpc) :
    Host.Rpc × List (Except PyErr (Value F)) :=
  let (rpc, outcome) := Host.disassembleResponsePacket packet rpc
  (rpc, c.responseParameters.map fun p => outcome >>= fun _ => Host.getRpcResponseParameterValue c.name p.name rpc)

/-- The events of the calls that a task does not make by itself. -/
def Background : Calls.Event → Bool
  | .loop (.start _ _) | .loop (.resume _) => false
  | _ => true

def step [PyFloat F] (gatt : GattServer σ) (table : List (Entry (Handler σ))) (s : Typed F σ) :
    Event → Option (Typed F σ)
  | .ask i q =>
    match request F s.rpc q with
    | .ok (rpc, packet) => (s.calls.step gatt table (.loop (.start i packet))).map fun c =>
        { s with rpc := rpc, calls := c, asked := Function.update s.asked i (some q) }
    | .error _ => none
  | .call e => if Background e then (s.calls.step gatt table e).map fun c => { s with calls := c } else none
  | .finish i =>
    match s.calls.step gatt table (.loop (.resume i)), s.asked i with
    | some c, some q =>
      match c.client.stage i with
      | .returned _ r =>
        let (rpc, values) := read q.command r.data s.rpc
        some { s with rpc := rpc, calls := c, got := Function.update s.got i (some values) }
      | _ => none
    | _, _ => none

/-- Requests are for the commands offered, and complete; the calls are orderly. -/
def Orderly (table : List (Entry (Handler σ))) (P : Command → Prop) (offered : List CommandSchema) (s : Typed F σ) :
    Event → Prop
  | .ask _ q => q.command ∈ offered ∧ q.Complete
  | .call e => s.calls.Orderly table P e
  | .finish _ => True

/-- What a call got is what its procedure returns, after those of the calls before it. -/
def Answered (p : Procedures σ) (app : σ) (s : Typed F σ) (i : ℕ) (values : List (Except PyErr (Value F))) : Prop :=
  ∃ before after qs q, s.calls.order = before ++ i :: after ∧ before.map s.asked = qs.map some ∧ s.asked i = some q ∧
    values = (p.returns app qs q).map fun n => .ok (.scalar (.int n))

/-! ## The parts -/

/-- A complete request makes its packet, in any state of the parameters. -/
theorem request_ok (F : Type) [PyFloat F] {schema : Schema} (hs : Host.ScalarSchema schema) {rpc : Host.Rpc}
    (hrpc : rpc.Of schema) {q : Request} (hc : q.command ∈ schema.commands) (hne : q.command.requestParameters ≠ [])
    (hwidth : q.command.totalWidth < 256) (hq : q.Complete) :
    ∃ rpc', request F rpc q = .ok (rpc', q.packet) ∧ rpc'.Of schema := by
  obtain ⟨rpc', hset, hof, _, hform⟩ := Host.form_spec F hs hc hne hwidth hrpc hq
  refine ⟨rpc', ?_, hof⟩
  rw [request, hset, ok_bind, hform, ok_bind]
  rfl

/-- The numbers of a response are got one by one, in any state of the parameters. -/
theorem read_ok [PyFloat F] {schema : Schema} (hs : Host.ScalarSchema schema) {rpc : Host.Rpc} (hrpc : rpc.Of schema)
    {c : CommandSchema} (hc : c ∈ schema.commands) {ns : List ℕ} (hlen : ns.length = c.responseParameters.length)
    (hfit : ∀ pn ∈ c.responseParameters.zip ns, pn.2 < 256 ^ pn.1.type.bytes) {b : UInt8} (hb : (b.toNat : ℤ) = c.id)
    (n : UInt8) :
    (read (F := F) c (b :: n :: c.responsePayload ns) rpc).1.Of schema ∧
      (read (F := F) c (b :: n :: c.responsePayload ns) rpc).2 = ns.map fun (k : ℕ) => .ok (.scalar (.int k)) := by
  obtain ⟨rpc', hdis, hof, hget, _⟩ := Host.disassemble_spec F hs hc hrpc hlen hb n
  simp only [read, hdis]
  refine ⟨hof, ?_⟩
  have hzip : c.responseParameters = (c.responseParameters.zip ns).map Prod.fst :=
    (List.map_fst_zip (by omega)).symm
  have hzip' : ns = (c.responseParameters.zip ns).map Prod.snd := (List.map_snd_zip (by omega)).symm
  conv_lhs => rw [hzip]
  conv_rhs => rw [hzip']
  rw [List.map_map, List.map_map]
  apply List.map_congr_left
  intro pn hpn
  have hval := hget pn hpn
  rw [Nat.mod_eq_of_lt (hfit pn hpn)] at hval
  exact hval

/-- The id of a command's packet. -/
theorem id_packet {schema : Schema} (hs : Host.ScalarSchema schema) {c : CommandSchema} (hc : c ∈ schema.commands)
    (v : String → ℤ) : ((Command.ofPacket (c.packet v)).id.toNat : ℤ) = c.id := by
  have hid : (Command.ofPacket (c.packet v)).id = UInt8.ofNat c.id.toNat := by
    simp [Command.ofPacket, CommandSchema.packet, Device.padded]
  have := hs.idRange c hc
  rw [hid, UInt8.toNat_ofNat']
  omega

/-! ## The invariant -/

section Invariant

variable {gatt : GattServer σ} {f : Service σ} {app : σ} {P : Command → Prop} {table : List (Entry (Handler σ))}
  {p : Procedures σ} {schema : Schema} {offered : List CommandSchema}

structure Inv (gatt : GattServer σ) (f : Service σ) (app : σ) (P : Command → Prop) (table : List (Entry (Handler σ)))
    (p : Procedures σ) (schema : Schema) (offered : List CommandSchema) (s : Typed F σ) : Prop where
  host : s.rpc.Of schema
  calls : s.calls.Inv gatt f app P table
  asked : ∀ i, s.calls.client.stage i ≠ .idle →
    ∃ q, s.asked i = some q ∧ q.command ∈ offered ∧ s.calls.client.command i = q.packet
  got : ∀ i values, s.got i = some values → s.Answered p app i values

theorem inv_init {rpc : Host.Rpc} (hrpc : rpc.Of schema) :
    Inv gatt f app P table p schema offered (init (F := F) rpc app) :=
  ⟨hrpc, Calls.inv_init, fun _ h => absurd rfl h, nofun⟩

/-- What was got stays right while calls are added to the order. -/
theorem Answered.mono {s s' : Typed F σ} {i : ℕ} {values : List (Except PyErr (Value F))}
    (h : s.Answered p app i values) (horder : s.calls.order <+: s'.calls.order)
    (hasked : ∀ j ∈ s.calls.order, s'.asked j = s.asked j) : s'.Answered p app i values := by
  obtain ⟨before, after, qs, q, hsplit, hqs, hq, hvalues⟩ := h
  obtain ⟨more, hmore⟩ := horder
  have hmem : ∀ j, j ∈ before ∨ j = i → j ∈ s.calls.order := by
    intro j hj
    rw [hsplit]
    rcases hj with hj | rfl <;> simp [*]
  refine ⟨before, after ++ more, qs, q, ?_, ?_, ?_, hvalues⟩
  · rw [← hmore, hsplit, List.append_assoc, List.cons_append]
  · rw [← hqs]
    exact List.map_congr_left fun j hj => hasked j (hmem j (.inl hj))
  · rw [hasked i (hmem i (.inr rfl)), hq]

theorem inv_ask [PyFloat F] (hs : Host.ScalarSchema schema) (hf : p.Implements schema offered f) {s s' : Typed F σ}
    {i : ℕ} {q : Request} (hi : Inv gatt f app P table p schema offered s) (hc : q.command ∈ offered)
    (hq : q.Complete) (h : s.step gatt table (.ask i q) = some s') :
    Inv gatt f app P table p schema offered s' := by
  obtain ⟨hne, hwidth⟩ := hf.request _ hc
  obtain ⟨rpc, hrequest, hof⟩ := request_ok F hs hi.host (hf.mem _ hc) hne hwidth hq
  simp only [step, hrequest] at h
  obtain ⟨c, hstep, rfl⟩ := Option.map_eq_some_iff.mp h
  have hcalls := Calls.inv_loop hi.calls hstep
  obtain ⟨client, hclient, rfl⟩ := Calls.step_loop_inv hstep
  obtain ⟨hidle, hstarted⟩ := Host.Client.start_inv hclient
  have hother : ∀ j, j ≠ i → (client.stage j ≠ .idle → s.calls.client.stage j ≠ .idle) ∧
      client.command j = s.calls.client.command j := by
    intro j hj
    refine Host.Client.begun_step hi.calls.link.client (Host.Client.step_moved hclient) ?_
    intro command he
    cases he
    exact hj rfl
  refine ⟨hof, hcalls, ?_, ?_⟩
  · intro j hj
    by_cases hji : j = i
    · subst hji
      exact ⟨q, Function.update_self .., hc, hstarted.command_eq⟩
    · obtain ⟨q', hq', hc', hcommand⟩ := hi.asked j ((hother j hji).1 hj)
      exact ⟨q', by rw [← hq']; exact Function.update_of_ne hji .., hc', (hother j hji).2.trans hcommand⟩
  · intro j values hgot
    refine (hi.got j values hgot).mono (Calls.order_step hi.calls hstep) ?_
    intro k hk
    refine Function.update_of_ne ?_ _ _
    rintro rfl
    exact (hi.calls.linearized.begun k hk).1 hidle

/-- Nothing else starts a call. -/
theorem Inv.call {s : Typed F σ} {c : Calls σ} {e : Calls.Event} (hi : Inv gatt f app P table p schema offered s)
    (hcalls : c.Inv gatt f app P table) (hnew : ∀ j command, e ≠ .loop (.start j command))
    (h : s.calls.step gatt table e = some c) : Inv gatt f app P table p schema offered { s with calls := c } := by
  refine ⟨hi.host, hcalls, ?_, fun j values hgot => ?_⟩
  · intro j hj
    obtain ⟨hbegun, hcommand⟩ := Calls.begun_step hi.calls (hnew j) h
    obtain ⟨q, hq, hc, hpacket⟩ := hi.asked j (hbegun hj)
    exact ⟨q, hq, hc, hcommand.trans hpacket⟩
  · exact (hi.got j values hgot).mono (Calls.order_step hi.calls h) fun _ _ => rfl

/-- The requests of calls in the order. -/
theorem Inv.requests {s : Typed F σ} (hi : Inv gatt f app P table p schema offered s) {js : List ℕ}
    (hjs : ∀ j ∈ js, j ∈ s.calls.order) : ∃ qs : List Request, js.map s.asked = qs.map some ∧
      (∀ q ∈ qs, q.command ∈ offered) ∧ js.map s.calls.commandOf = qs.map fun q => Command.ofPacket q.packet := by
  induction js with
  | nil => exact ⟨[], rfl, nofun, rfl⟩
  | cons j js ih =>
    obtain ⟨qs, hqs, hoffered, hcommands⟩ := ih fun k hk => hjs k (List.mem_cons_of_mem _ hk)
    obtain ⟨q, hq, hc, hpacket⟩ := hi.asked j (hi.calls.linearized.begun j (hjs j List.mem_cons_self)).1
    refine ⟨q :: qs, by simp [hq, hqs], ?_, ?_⟩
    · intro q' hq'
      rcases List.mem_cons.mp hq' with rfl | hq'
      · exact hc
      · exact hoffered q' hq'
    · rw [List.map_cons, List.map_cons, hcommands, Calls.commandOf, hpacket]

/-- **What a call returns** is the response of its procedure after those of the calls before it. -/
theorem Inv.returned (hf : p.Implements schema offered f) {s : Typed F σ}
    (hi : Inv gatt f app P table p schema offered s) {i future : ℕ} {r : Host.Response}
    (h : s.calls.client.stage i = .returned future r) : ∃ before after qs q,
      s.calls.order = before ++ i :: after ∧ before.map s.asked = qs.map some ∧ s.asked i = some q ∧
      q.command ∈ offered ∧ ∃ n, r.data = (Command.ofPacket q.packet).id :: n ::
        q.command.responsePayload (p.returns app qs q) := by
  obtain ⟨before, after, hsplit, hdata⟩ := hi.calls.returned h
  have hbefore : ∀ j ∈ before, j ∈ s.calls.order := fun j hj => by simp [hsplit, hj]
  obtain ⟨qs, hqs, hoffered, hcommands⟩ := hi.requests hbefore
  obtain ⟨q, hq, hc, hpacket⟩ := hi.asked i (by simp [h])
  have hcommand : s.calls.commandOf i = Command.ofPacket q.packet := congrArg Command.ofPacket hpacket
  have hpayload : (f (Command.ofPacket q.packet) (p.after app qs)).payload =
      q.command.responsePayload (p.returns app qs q) := hf.payload q.command hc q.value (p.after app qs)
  rw [hcommands, hf.after_eq app hoffered, hcommand, Device.Reply.packet, hpayload] at hdata
  exact ⟨before, after, qs, q, hsplit, hqs, hq, hc, _, hdata⟩

theorem inv_finish [PyFloat F] (hs : Host.ScalarSchema schema) (hf : p.Implements schema offered f) {s s' : Typed F σ}
    {i : ℕ} (hi : Inv gatt f app P table p schema offered s) (h : s.step gatt table (.finish i) = some s') :
    Inv gatt f app P table p schema offered s' := by
  simp only [step] at h
  split at h
  · rename_i c q hstep hasked
    split at h
    · rename_i future r hret
      cases h
      have hmid : Inv gatt f app P table p schema offered { s with calls := c } := by
        refine hi.call (Calls.inv_loop hi.calls hstep) ?_ hstep
        intro j command he
        cases he
      obtain ⟨before, after, qs, q', hsplit, hqs, hq', hc, n, hdata⟩ := hmid.returned hf hret
      have hqq : q' = q := Option.some.inj (hq'.symm.trans hasked)
      subst hqq
      have hnumbers : (p.returns app qs q').length = q'.command.responseParameters.length ∧
          ∀ pn ∈ q'.command.responseParameters.zip (p.returns app qs q'), pn.2 < 256 ^ pn.1.type.bytes :=
        hf.numbers q'.command hc q'.arguments (p.after app qs)
      have hid := id_packet hs (hf.mem _ hc) q'.value
      obtain ⟨hof, hvalues⟩ := read_ok (F := F) hs hi.host (hf.mem _ hc) hnumbers.1 hnumbers.2 hid n
      rw [Request.packet] at hdata
      rw [← hdata] at hof hvalues
      refine ⟨hof, hmid.calls, hmid.asked, ?_⟩
      intro j values hgot
      by_cases hji : j = i
      · subst hji
        simp only [Function.update_self] at hgot
        cases hgot
        exact ⟨before, after, qs, q', hsplit, hqs, hq', hvalues⟩
      · simp only [Function.update_of_ne hji] at hgot
        exact hmid.got j values hgot
    · cases h
  · cases h

/-- **Every orderly step keeps the invariant.** -/
theorem inv_step [PyFloat F] (hs : Host.ScalarSchema schema) (hf : p.Implements schema offered f)
    (ht : TableServes gatt f P table) {s s' : Typed F σ} {e : Event} (hi : Inv gatt f app P table p schema offered s)
    (ho : s.Orderly table P offered e) (h : s.step gatt table e = some s') :
    Inv gatt f app P table p schema offered s' := by
  cases e with
  | ask i q => exact inv_ask hs hf hi ho.1 ho.2 h
  | call e =>
    by_cases he : Background e = true
    · simp only [step, if_pos he] at h
      obtain ⟨c, hstep, rfl⟩ := Option.map_eq_some_iff.mp h
      refine hi.call (Calls.inv_step ht hi.calls ho hstep) ?_ hstep
      rintro j command rfl
      cases he
    · simp only [step, if_neg he] at h
      cases h
  | finish i => exact inv_finish hs hf hi h

end Invariant

/-! ## Answers -/

/-- **Remote procedure calls are answered by the procedures.** For a schema of scalar integers that keeps ids and names
apart (`ScalarSchema`) and commands of it that send at least one parameter and less than 256 bytes (`Implements`), in
every orderly run of any number of tasks that call them: what a task gets are the numbers that its procedure returns
from the numbers it sent, applied to the variables as the calls before it, in the one order of the calls, have left
them. -/
theorem typed_calls_answered (F : Type) [PyFloat F] (gatt : GattServer σ) (f : Service σ) (P : Command → Prop)
    (table : List (Entry (Handler σ))) (ht : TableServes gatt f P table) (schema : Schema)
    (hs : Host.ScalarSchema schema) (offered : List CommandSchema) (p : Procedures σ)
    (hf : p.Implements schema offered f) (rpc : Host.Rpc) (hrpc : rpc.Of schema) (app : σ) (events : List Event)
    (ho : Meets (step gatt table) (Orderly table P offered) (init (F := F) rpc app) events) (s : Typed F σ)
    (h : run (step gatt table) (init rpc app) events = some s) :
    s.calls.order.Nodup ∧ ∀ i values, s.got i = some values → s.Answered p app i values := by
  have hi : Inv gatt f app P table p schema offered s :=
    run_inv_of_meets (fun _ _ _ hi ho hs' => inv_step hs hf ht hi ho hs') (inv_init hrpc) ho h
  exact ⟨hi.calls.nodup_order, hi.got⟩

/-! ## Pinging -/

/-- `ping_device`, in terms of numbers. -/
def pingProcedures : Procedures UInt32 := fun _ args counter =>
  let counter := if args.getD 0 0 = 1 then counter + 1 else counter
  (counter, [counter.toNat])

/-- The shipped firmware implements one of the two commands of the shipped schema. -/
theorem pingProcedures_implements :
    pingProcedures.Implements Host.rpcData [Host.pingDevice1] Device.pingService := by
  have hcommand : ∀ v, Command.ofPacket (Host.pingDevice1.packet v) = commandOf (v "ping") :=
    fun v => ofPacket_packetOf (v "ping")
  have hargs : ∀ v, (Host.pingDevice1.residues v).getD 0 0 = 1 ↔ pingByte (v "ping") = 1 := by
    intro v
    have hres : (Host.pingDevice1.residues v).getD 0 0 = (v "ping" % 256).toNat := rfl
    rw [hres, pingByte_eq_one]
    omega
  have hpay : ∀ n : ℕ, Host.pingDevice1.responsePayload [n] = BigEndian.encode 4 n := fun n => List.append_nil _
  constructor
  case mem => simp [Host.rpcData]
  case request =>
    intro c hc
    rw [List.mem_singleton.mp hc]
    decide
  case app =>
    intro c hc v app
    rw [List.mem_singleton.mp hc, hcommand]
    simp only [Device.pingService, pingProcedures, hargs]
    rfl
  case payload =>
    intro c hc v app
    rw [List.mem_singleton.mp hc, hcommand]
    simp only [Device.pingService, pingProcedures, hargs, hpay]
    rfl
  case numbers =>
    intro c hc args app
    rw [List.mem_singleton.mp hc]
    refine ⟨rfl, fun pn hpn => ?_⟩
    rw [List.mem_singleton.mp hpn]
    exact UInt32.toNat_lt _

instance (q : Request) : Decidable q.Complete :=
  decidable_of_iff ((∀ call ∈ q.calls, ∃ p ∈ q.command.requestParameters, p.name = call.1) ∧
    ∀ p ∈ q.command.requestParameters, Host.lastCall q.calls p.name = some (q.value p.name))
    ⟨fun h => ⟨h.1, h.2⟩, fun h => ⟨h.names, h.values⟩⟩

instance (table : List (Entry (Handler σ))) (P : Command → Prop) [DecidablePred P] (offered : List CommandSchema)
    (s : Typed F σ) : ∀ e, Decidable (s.Orderly table P offered e)
  | .ask _ q => inferInstanceAs (Decidable (q.command ∈ offered ∧ q.Complete))
  | .call e => inferInstanceAs (Decidable (s.calls.Orderly table P e))
  | .finish _ => isTrue trivial

/-- Two tasks at once: the second sets the parameter twice while the packet of the first is on its way. -/
def twoTasks : List Event := List.flatten [
  [.call (.loop (.connection true)), .ask 0 ⟨Host.pingDevice1, [("ping", 257)]⟩,
    .ask 1 ⟨Host.pingDevice1, [("ping", 2), ("ping", 1)]⟩, .call (.reach 0), .call (.loop (.written 0))],
  List.replicate 17 (.call .work),
  [.call .deliver, .finish 0, .call .work, .call (.loop .acquire), .call (.reach 1), .call (.loop (.written 1))],
  List.replicate 17 (.call .work),
  [.call .deliver, .finish 1]]

/-- Where they end, with the parameters read from the shipped schema. -/
def twoTasksEnd : Option (Typed Empty UInt32) :=
  (Host.readRpcParameters Host.rpcData).toOption.bind fun fresh =>
    run (step (.plain 251) testRcpCallbacks) (init fresh 0) twoTasks

/-- Both pings count, in the order of the calls. -/
theorem typed_calls_answered_two : ∃ s, twoTasksEnd = some s ∧ s.calls.order = [0, 1] ∧
    s.got 0 = some [.ok (.scalar (.int 1))] ∧ s.got 1 = some [.ok (.scalar (.int 2))] ∧
    ∀ i values, s.got i = some values → s.Answered pingProcedures 0 i values := by
  have hend : twoTasksEnd.any (fun s => s.calls.order = [0, 1] ∧ s.got 0 = some [.ok (.scalar (.int 1))] ∧
      s.got 1 = some [.ok (.scalar (.int 2))]) = true := by decide +kernel
  have horderly : ∀ fresh ∈ (Host.readRpcParameters Host.rpcData).toOption,
      Meets (step (.plain 251) testRcpCallbacks) (Orderly testRcpCallbacks (fun c => c.payload ≠ []) [Host.pingDevice1])
        (init (F := Empty) fresh 0) twoTasks := by decide +kernel
  obtain ⟨s, hs, hgot⟩ := Option.any_eq_true _ _ |>.mp hend
  obtain ⟨fresh, hread, hrun⟩ := Option.bind_eq_some_iff.mp hs
  simp only [decide_eq_true_eq] at hgot
  refine ⟨s, hs, hgot.1, hgot.2.1, hgot.2.2, ?_⟩
  exact (typed_calls_answered Empty (.plain 251) Device.pingService (fun c => c.payload ≠ []) testRcpCallbacks
    (Device.testRcpCallbacks_serves (by decide)) Host.rpcData EndToEnd.scalar_rpcData [Host.pingDevice1] pingProcedures
    pingProcedures_implements fresh (Host.Rpc.of_read (toOption_eq_some.mp hread)) 0 twoTasks (horderly fresh hread) s
    hrun).2

end Typed

end BleRpc
