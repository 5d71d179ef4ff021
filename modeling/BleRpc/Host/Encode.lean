import BleRpc.Host.Isolation
import BleRpc.Host.RoundTrip
import BleRpc.Host.Signed

/-!
# The encoder on any command

`form_command_packet` for commands with scalars and lists of any type, after any calls of the setter.

- `setRequestValues_own`: the calls for a command leave, in each of its parameters, the text of the last value it was
  given, and change nothing else;
- `HoldsLast.integer`: an integer that was set can be encoded, to its residue;
- `formCommandPacket_of_silent`, `formCommandPacket_placed`: the packet, in terms of the command's own parameters.
-/

namespace BleRpc.Host

open Outcome

/-! ## Calls of the setter -/

section Calls

variable {F : Type}

/-- Calls of `set_rpc_request_parameter_value` for one command, in order. -/
def setRequestValues [PyFloat F] (command : String) (calls : List (String × Value F)) (rpc : Rpc) : Except PyErr Rpc :=
  calls.foldlM (fun rpc call => setRpcRequestParameterValue command call.1 call.2 rpc) rpc

/-- The value of the last call for a parameter. -/
def lastValue (calls : List (String × Value F)) (parameter : String) : Option (Value F) :=
  ((calls.filter (·.1 = parameter)).getLast?).map Prod.snd

/-- The calls set request parameters of the command only, and the last value each is given is `v`. -/
structure Sets (c : CommandSchema) (calls : List (String × Value F)) (v : String → Value F) : Prop where
  names : ∀ call ∈ calls, ∃ p ∈ c.requestParameters, p.name = call.1
  values : ∀ p ∈ c.requestParameters, lastValue calls p.name = some (v p.name)

theorem lastValue_concat (calls : List (String × Value F)) (call : String × Value F) (parameter : String) :
    lastValue (calls ++ [call]) parameter = if call.1 = parameter then some call.2 else lastValue calls parameter := by
  by_cases h : call.1 = parameter
  · rw [if_pos h, lastValue, List.filter_append, List.filter_cons_of_pos (by simpa using h)]
    simp
  · rw [if_neg h, lastValue, List.filter_append, List.filter_cons_of_neg (by simpa using h)]
    simp [lastValue]

end Calls

/-- The setter reaches each of the command's request parameters: no parameter that comes later in the list of the host,
of the command or of a command after it, has the same full name. -/
structure Reached (c : CommandSchema) (later : List CommandSchema) : Prop where
  own : (c.requestParameters.map ParameterSchema.name).Nodup
  later : ∀ c' ∈ later, ∀ p' ∈ c'.requestParameters, ∀ p ∈ c.requestParameters,
    requestName c'.name p'.name ≠ requestName c.name p.name

/-- The entries of commands, one after the other. -/
def requestEntries (commands : List CommandSchema) : List Parameter :=
  commands.flatMap fun c => c.requestParameters.map (requestParameterValue c)

/-- Where the command's request parameters are in the list of the host. -/
structure Placed (earlier : List CommandSchema) (c : CommandSchema) (later : List CommandSchema) (ps before own after :
    List Parameter) : Prop where
  split : ps = before ++ (own ++ after)
  before : before.map Parameter.shape = requestEntries earlier
  own : own.map Parameter.shape = c.requestParameters.map (requestParameterValue c)
  after : after.map Parameter.shape = requestEntries later

section Placed

variable {s : Schema} {earlier later : List CommandSchema} {c : CommandSchema} {rpc : Rpc}
  {ps before own after : List Parameter}

theorem exists_placed (hrpc : rpc.Of s) (hs : s.commands = earlier ++ c :: later) :
    ∃ before own after, Placed earlier c later rpc.requestParameters before own after := by
  have hreq := hrpc.requests
  rw [hs, List.flatMap_append, List.flatMap_cons] at hreq
  obtain ⟨before, tail, hsplit, hbefore, htail⟩ := List.map_eq_append_iff.mp hreq
  obtain ⟨own, after, rfl, hown, hafter⟩ := List.map_eq_append_iff.mp htail
  exact ⟨before, own, after, hsplit, hbefore, hown, hafter⟩

/-- An entry of commands, with a value in it. -/
theorem exists_requestEntry {commands : List CommandSchema} (h : ps.map Parameter.shape = requestEntries commands)
    {q : Parameter} (hq : q ∈ ps) :
    ∃ c' ∈ commands, ∃ p ∈ c'.requestParameters, q.shape = requestParameterValue c' p :=
  exists_nested_of_shapes h hq

/-- **A parameter of the command is the one its name refers to.** -/
theorem Placed.named (h : Placed earlier c later ps before own after) (hr : Reached c later) {os₁ os₂ : List Parameter}
    {o : Parameter} (hown : own = os₁ ++ o :: os₂) : Named o.name ps (before ++ os₁) o (os₂ ++ after) := by
  have hnodup : (own.map Parameter.name).Nodup := by
    rw [own_names h.own]
    exact List.Pairwise.map _ (fun _ _ hne he => hne (requestName_inj he)) hr.own
  refine ⟨by rw [h.split, hown]; simp, rfl, ?_⟩
  intro q hq he
  rcases List.mem_append.mp hq with hq | hq
  · rw [hown, List.map_append, List.map_cons] at hnodup
    have hnotin := (List.nodup_cons.mp (List.nodup_append.mp hnodup).2.1).1
    exact hnotin (he ▸ List.mem_map_of_mem hq)
  · obtain ⟨c', hc', p', hp', hshape'⟩ := exists_requestEntry h.after hq
    obtain ⟨p, hp, hshape⟩ := exists_entry h.own (show o ∈ own by rw [hown]; simp)
    have hname' : q.name = requestName c'.name p'.name :=
      Parameter.name_of_shape (q := requestParameterValue c' p') hshape'
    have hname : o.name = requestName c.name p.name := Parameter.name_of_shape (q := requestParameterValue c p) hshape
    exact hr.later c' hc' p' hp' p hp (hname'.symm.trans (he.trans hname))

end Placed

section Run

variable {F : Type} [PyFloat F] {earlier later : List CommandSchema} {c : CommandSchema} {rpc rpc' : Rpc}
  {before own after : List Parameter}

/-- A parameter of the command holds what the setter makes of the last value it was given. -/
def HoldsLast (command : String) (calls : List (String × Value F)) (o : Parameter) : Prop :=
  ∀ parameter, o.name = requestName command parameter → ∀ v, lastValue calls parameter = some v →
    ∃ q : Parameter, q.shape = o.shape ∧ q.assign v = .ok o

/-- One call. -/
theorem setRequest_own (h : Placed earlier c later rpc.requestParameters before own after) (hr : Reached c later)
    {p : ParameterSchema} (hp : p ∈ c.requestParameters) (value : Value F) :
    ∃ os₁ o os₂, own = os₁ ++ o :: os₂ ∧ o.shape = requestParameterValue c p ∧
      setRpcRequestParameterValue c.name p.name value rpc = o.assign value >>= fun o' =>
        .ok { rpc with requestParameters := before ++ ((os₁ ++ o' :: os₂) ++ after) } := by
  obtain ⟨o, ho, hshape⟩ := exists_parameter_of_shapes h.own hp
  obtain ⟨os₁, os₂, hown⟩ := List.append_of_mem ho
  have hname : o.name = requestName c.name p.name := Parameter.name_of_shape (q := requestParameterValue c p) hshape
  have hnamed : Named (Pair.request.fullName c.name p.name) (Pair.request.parameters rpc) (before ++ os₁) o
      (os₂ ++ after) := by
    have hown := h.named hr hown
    rwa [hname] at hown
  refine ⟨os₁, o, os₂, hown, hshape, (Pair.set_named hnamed value).trans ?_⟩
  simp only [List.append_assoc, List.cons_append]
  rfl

/-- Changing a value of the command's parameters leaves them in their place. -/
theorem Placed.replace {ps os₁ os₂ : List Parameter} {o o' : Parameter}
    (h : Placed earlier c later ps before (os₁ ++ o :: os₂) after) (hshape : o'.shape = o.shape) :
    Placed earlier c later (before ++ ((os₁ ++ o' :: os₂) ++ after)) before (os₁ ++ o' :: os₂) after := by
  refine ⟨rfl, h.before, ?_, h.after⟩
  rw [← h.own, List.map_append, List.map_append, List.map_cons, List.map_cons, hshape]

/-- **What the calls leave**: the command's parameters hold the last values, and nothing else has changed. -/
theorem setRequestValues_own (h : Placed earlier c later rpc.requestParameters before own after)
    (hr : Reached c later) {calls : List (String × Value F)}
    (hnames : ∀ call ∈ calls, ∃ p ∈ c.requestParameters, p.name = call.1)
    (hset : setRequestValues c.name calls rpc = .ok rpc') :
    ∃ own', rpc' = { rpc with requestParameters := before ++ (own' ++ after) } ∧
      Placed earlier c later (before ++ (own' ++ after)) before own' after ∧ ∀ o ∈ own', HoldsLast c.name calls o := by
  induction calls using List.reverseRecOn generalizing rpc' with
  | nil =>
    cases hset
    have hsplit := h.split
    refine ⟨own, by rw [← hsplit], hsplit ▸ h, ?_⟩
    intro o _ parameter _ v hv
    cases hv
  | append_singleton calls call ih =>
    rw [setRequestValues, List.foldlM_append, bind_eq_ok] at hset
    obtain ⟨rpc₁, hcalls, hcall⟩ := hset
    obtain ⟨own₁, rfl, h₁, hlast₁⟩ := ih (fun c hc => hnames c (List.mem_append_left _ hc)) hcalls
    obtain ⟨p, hp, hname⟩ := hnames call (List.mem_append_right _ (List.mem_singleton_self _))
    let rpc₁ : Rpc := { rpc with requestParameters := before ++ (own₁ ++ after) }
    have hplaced₁ : Placed earlier c later rpc₁.requestParameters before own₁ after := h₁
    obtain ⟨os₁, o, os₂, rfl, hshape, hone⟩ := setRequest_own hplaced₁ hr hp call.2
    rw [List.foldlM_cons, ← hname, hone, bind_eq_ok] at hcall
    obtain ⟨rpc₂, hone, hcall⟩ := hcall
    cases hcall
    obtain ⟨o', hassign, hone⟩ := bind_eq_ok.mp hone
    cases hone
    have hshape' := assign_shape hassign
    have hplaced := h₁.replace hshape'
    refine ⟨_, rfl, hplaced, ?_⟩
    intro q hq parameter hqname v hv
    rw [lastValue_concat, ← hname] at hv
    have honame : o'.name = requestName c.name p.name :=
      Parameter.name_of_shape (q := requestParameterValue c p) (hshape'.trans hshape)
    by_cases hq' : q = o'
    · -- the parameter of this call
      rw [hq', honame] at hqname
      rw [if_pos (requestName_inj hqname)] at hv
      cases hv
      exact ⟨o, by rw [hq', hshape'], by rw [hq']; exact hassign⟩
    · have hmem : q ∈ os₁ ++ o :: os₂ := by
        rcases List.mem_append.mp hq with hq | hq
        · exact List.mem_append_left _ hq
        · exact List.mem_append_right _ (List.mem_cons_of_mem _ ((List.mem_cons.mp hq).resolve_left hq'))
      have hne : p.name ≠ parameter := by
        rintro rfl
        have hnodup : ((os₁ ++ o' :: os₂).map Parameter.name).Nodup := by
          rw [own_names hplaced.own]
          exact List.Pairwise.map _ (fun _ _ hne he => hne (requestName_inj he)) hr.own
        have ho' : o' ∈ os₁ ++ o' :: os₂ := List.mem_append_right _ List.mem_cons_self
        exact hq' (List.inj_on_of_nodup_map hnodup hq ho' (hqname.trans honame.symm))
      rw [if_neg hne] at hv
      exact hlast₁ q hmem parameter hqname v hv

/-- Calls that the setter takes succeed one after the other. -/
theorem setRequestValues_ok {rpc : Rpc} {before own after : List Parameter}
    (h : Placed earlier c later rpc.requestParameters before own after) (hr : Reached c later)
    {calls : List (String × Value F)} (hcalls : ∀ call ∈ calls, ∃ p ∈ c.requestParameters, p.name = call.1 ∧
      ∀ q : Parameter, q.shape = requestParameterValue c p → ∃ q', q.assign call.2 = .ok q') :
    ∃ rpc', setRequestValues c.name calls rpc = .ok rpc' := by
  induction calls generalizing rpc own with
  | nil => exact ⟨rpc, rfl⟩
  | cons call calls ih =>
    obtain ⟨p, hp, hname, hassign⟩ := hcalls call List.mem_cons_self
    obtain ⟨os₁, o, os₂, rfl, hshape, hone⟩ := setRequest_own h hr hp call.2
    obtain ⟨o', ho'⟩ := hassign o hshape
    rw [ho', ok_bind, hname] at hone
    rw [setRequestValues, List.foldlM_cons, hone, ok_bind]
    exact ih (h.replace (assign_shape ho')) fun call' hcall' => hcalls call' (List.mem_cons_of_mem _ hcall')

end Run

/-! ## What the calls leave in each parameter -/

section Held

variable {F : Type} [PyFloat F] {s : Schema} {earlier later : List CommandSchema} {c : CommandSchema} {rpc : Rpc}
  {before own own' after : List Parameter} {calls : List (String × Value F)} {v : String → Value F}

/-- The host after the calls is still one of the schema. -/
theorem Placed.of (hrpc : rpc.Of s) (h : Placed earlier c later rpc.requestParameters before own after)
    (h' : Placed earlier c later (before ++ (own' ++ after)) before own' after) :
    ({ rpc with requestParameters := before ++ (own' ++ after) } : Rpc).Of s := by
  refine hrpc.congr ?_ rfl rfl
  rw [h.split]
  simp only [List.map_append, h.own, h'.own]

/-- A parameter of the command holds what the setter makes of its value. -/
theorem HoldsLast.assigned (hsets : Sets c calls v) {o : Parameter} {p : ParameterSchema}
    (hp : p ∈ c.requestParameters) (hshape : o.shape = requestParameterValue c p)
    (h : HoldsLast c.name calls o) : ∃ q : Parameter, q.shape = o.shape ∧ q.assign (v p.name) = .ok o :=
  h p.name (Parameter.name_of_shape (q := requestParameterValue c p) hshape) (v p.name) (hsets.values p hp)

/-- What is known of each entry and its parameter is known of the lists. -/
theorem forall₂_of_shapes {β : Type} {make : β → Parameter} {R : β → Parameter → Prop} {ps : List Parameter}
    {entries : List β} (h : ps.map Parameter.shape = entries.map make)
    (hR : ∀ e ∈ entries, ∀ p ∈ ps, p.shape = make e → R e p) : List.Forall₂ R entries ps := by
  induction ps generalizing entries with
  | nil =>
    rw [List.map_nil, eq_comm, List.map_eq_nil_iff] at h
    rw [h]
    exact .nil
  | cons p ps ih =>
    cases entries with
    | nil => cases h
    | cons e entries =>
      rw [List.map_cons, List.map_cons, List.cons.injEq] at h
      have hrest := ih h.2 fun e' he' q hq => hR e' (List.mem_cons_of_mem _ he') q (List.mem_cons_of_mem _ hq)
      exact .cons (hR e List.mem_cons_self p List.mem_cons_self h.1) hrest

theorem flatMap_of_forall₂ {α β γ : Type} {f : α → List γ} {g : β → List γ} {as : List α} {bs : List β}
    (h : List.Forall₂ (fun a b => f a = g b) as bs) : as.flatMap f = bs.flatMap g := by
  induction h with
  | nil => rfl
  | cons h _ ih => rw [List.flatMap_cons, List.flatMap_cons, h, ih]

/-- The setter takes an integer for a parameter of integer type. -/
theorem exists_assign_int {q : Parameter} {p : ParameterSchema} (hshape : q.shape = requestParameterValue c p)
    (hscalar : p.isAList = false) (hwidth : p.type.width ≠ none) (n : ℤ) :
    ∃ q', q.assign (.scalar (.int n) : Value F) = .ok q' := by
  obtain ⟨w, hw⟩ := Option.ne_none_iff_exists'.mp hwidth
  have htype : q.parameterType = p.type := Parameter.parameterType_of_shape (q := requestParameterValue c p) hshape
  have hlist : q.isAList = false :=
    (Parameter.isAList_of_shape (q := requestParameterValue c p) hshape).trans hscalar
  exact ⟨_, assign_int F hlist (htype.symm ▸ hw) n⟩

/-- An integer parameter after it was set. -/
theorem HoldsLast.integer (hsets : Sets c calls v) {o : Parameter} {p : ParameterSchema}
    (hp : p ∈ c.requestParameters) (hshape : o.shape = requestParameterValue c p) (h : HoldsLast c.name calls o)
    (hscalar : p.isAList = false) (hwidth : p.type.width ≠ none) {n : ℤ} (hn : v p.name = .scalar (.int n)) :
    o.Encodable ∧ o.wire = BigEndian.encode p.type.bytes (p.type.residue n) := by
  obtain ⟨q, hq, hassign⟩ := h.assigned hsets hp hshape
  have htype : o.parameterType = p.type := Parameter.parameterType_of_shape (q := requestParameterValue c p) hshape
  have hlist : o.isAList = false :=
    (Parameter.isAList_of_shape (q := requestParameterValue c p) hshape).trans hscalar
  obtain ⟨w, hw⟩ := Option.ne_none_iff_exists'.mp hwidth
  have hqtype : q.parameterType = p.type := (Parameter.parameterType_of_shape hq).trans htype
  rw [hn, assign_int F ((Parameter.isAList_of_shape hq).trans hlist) (hqtype.symm ▸ hw), hqtype] at hassign
  have hvalue : o.value = toString (p.type.residue n) := by
    injection hassign with hassign
    rw [← hassign]
    rfl
  refine ⟨⟨hlist, ?_, fun _ => ⟨_, hvalue⟩⟩, ?_⟩
  · rw [htype]
    constructor
    · intro h; rw [h] at hwidth; exact hwidth rfl
    · intro h; rw [h] at hwidth; exact hwidth rfl
  · rw [Parameter.wire_of_width (htype.symm ▸ hw) hvalue, ParameterType.bytes_of_width hw]

end Held

/-! ## The packet -/

/-- Request parameters of other commands that are selected with the command's write nothing. -/
def OthersSilent (others : List CommandSchema) (c : CommandSchema) : Prop :=
  ∀ c' ∈ others, ∀ p ∈ c'.requestParameters, c.name.toList <:+: (requestName c'.name p.name).toList →
    p.Plain ∧ p.type.bytes = 0

section Packet

variable {s : Schema} {earlier later : List CommandSchema} {c : CommandSchema} {rpc : Rpc}
  {ps before own after : List Parameter}

theorem selected_of_shape {command : String} {c' : CommandSchema} {p : ParameterSchema} {q : Parameter}
    (hshape : q.shape = requestParameterValue c' p) :
    q.Selected command ↔ command.toList <:+: (requestName c'.name p.name).toList := by
  have hname : q.name = requestName c'.name p.name := Parameter.name_of_shape (q := requestParameterValue c' p) hshape
  rw [Parameter.Selected, hname]

/-- The command's own parameters are selected, between some before and some after them. -/
theorem Placed.filter_selected (h : Placed earlier c later ps before own after) :
    ps.filter (·.Selected c.name) =
      before.filter (·.Selected c.name) ++ (own ++ after.filter (·.Selected c.name)) := by
  have hall : own.filter (·.Selected c.name) = own := by
    apply List.filter_eq_self.mpr
    intro o ho
    obtain ⟨p, _, hshape⟩ := exists_entry h.own ho
    exact decide_eq_true ((selected_of_shape hshape).mpr (isInfix_requestName _ _))
  rw [h.split, List.filter_append, List.filter_append, hall]

/-- A parameter of another command, as its entry in the schema. -/
theorem Placed.exists_other (h : Placed earlier c later ps before own after) {q : Parameter}
    (hq : q ∈ before ∨ q ∈ after) :
    ∃ c' ∈ earlier ++ later, ∃ p ∈ c'.requestParameters, q.shape = requestParameterValue c' p := by
  rcases hq with hq | hq
  · obtain ⟨c', hc', hp⟩ := exists_requestEntry h.before hq
    exact ⟨c', List.mem_append_left _ hc', hp⟩
  · obtain ⟨c', hc', hp⟩ := exists_requestEntry h.after hq
    exact ⟨c', List.mem_append_right _ hc', hp⟩

/-- Each of the command's entries, as a parameter that is selected. -/
theorem Placed.exists_own (h : Placed earlier c later ps before own after) {p : ParameterSchema}
    (hp : p ∈ c.requestParameters) : ∃ o ∈ ps, o.shape = requestParameterValue c p ∧ o.Selected c.name := by
  obtain ⟨o, ho, hshape⟩ := exists_parameter_of_shapes h.own hp
  have hmem : o ∈ ps := by
    rw [h.split]
    exact List.mem_append_right _ (List.mem_append_left _ ho)
  exact ⟨o, hmem, hshape, (selected_of_shape hshape).mpr (isInfix_requestName _ _)⟩

theorem Placed.mem_other (h : Placed earlier c later ps before own after) {q : Parameter}
    (hq : q ∈ before ∨ q ∈ after) : q ∈ ps := by
  rw [h.split]
  rcases hq with hq | hq
  · exact List.mem_append_left _ hq
  · exact List.mem_append_right _ (List.mem_append_right _ hq)

/-- And every other command's entry as a parameter. -/
theorem Placed.exists_parameter (h : Placed earlier c later ps before own after) {c' : CommandSchema}
    (hc' : c' ∈ earlier ++ later) {p : ParameterSchema} (hp : p ∈ c'.requestParameters) :
    ∃ q, (q ∈ before ∨ q ∈ after) ∧ q.shape = requestParameterValue c' p := by
  rcases List.mem_append.mp hc' with hmem | hmem
  · obtain ⟨q, hq, hshape⟩ := exists_parameter_of_nested h.before hmem hp
    exact ⟨q, Or.inl hq, hshape⟩
  · obtain ⟨q, hq, hshape⟩ := exists_parameter_of_nested h.after hmem hp
    exact ⟨q, Or.inr hq, hshape⟩

theorem width_eq_none_of_bytes {t : ParameterType} (h : t.bytes = 0) : t.width = none := by
  cases t <;> first | rfl | cases h

/-- With the condition, what else is selected can be encoded, to nothing. -/
theorem OthersSilent.encodable (hsilent : OthersSilent (earlier ++ later) c)
    (h : Placed earlier c later ps before own after) {q : Parameter} (hq : q ∈ before ∨ q ∈ after)
    (hsel : q.Selected c.name) : q.Encodable ∧ q.wire = [] := by
  obtain ⟨c', hc', p, hp, hshape⟩ := h.exists_other hq
  obtain ⟨⟨hscalar, hnot⟩, hzero⟩ := hsilent c' hc' p hp ((selected_of_shape hshape).mp hsel)
  have htype : q.parameterType = p.type := Parameter.parameterType_of_shape (q := requestParameterValue c' p) hshape
  have hlist : q.isAList = p.isAList := Parameter.isAList_of_shape (q := requestParameterValue c' p) hshape
  refine ⟨⟨hlist.trans hscalar, htype ▸ hnot, ?_⟩, ?_⟩
  · intro hwidth
    rw [htype] at hwidth
    exact absurd (width_eq_none_of_bytes hzero) hwidth
  · apply List.eq_nil_of_length_eq_zero
    rw [q.length_wire, htype, hzero]

/-- **With the condition**, the packet is made of the command's own parameters. -/
theorem formCommandPacket_of_silent (hrpc : rpc.Of s)
    (h : Placed earlier c later rpc.requestParameters before own after) (hsilent : OthersSilent (earlier ++ later) c)
    (henc : ∀ o ∈ own, o.Encodable) {entry : Parameter} (hfirst : s.requests.find? (·.Selected c.name) = some entry)
    {b : UInt8} (hid : entry.id = b.toNat) (hlen : (own.flatMap Parameter.wire).length < 256) :
    formCommandPacket c.name rpc =
      .ok (b :: UInt8.ofNat (own.flatMap Parameter.wire).length :: own.flatMap Parameter.wire) := by
  have hnil : ∀ qs : List Parameter, (∀ q ∈ qs, q ∈ before ∨ q ∈ after) →
      (qs.filter (·.Selected c.name)).flatMap Parameter.wire = [] := by
    intro qs hqs
    rw [List.flatMap_eq_nil_iff]
    intro q hq
    obtain ⟨hq, hsel⟩ := List.mem_filter.mp hq
    exact (hsilent.encodable h (hqs q hq) (of_decide_eq_true hsel)).2
  have hflat : (rpc.requestParameters.filter (·.Selected c.name)).flatMap Parameter.wire =
      own.flatMap Parameter.wire := by
    rw [h.filter_selected, List.flatMap_append, List.flatMap_append, hnil before fun q hq => Or.inl hq,
      hnil after fun q hq => Or.inr hq, List.nil_append, List.append_nil]
  have hencodable : ∀ q ∈ rpc.requestParameters.filter (·.Selected c.name), q.Encodable := by
    intro q hq
    have hsel := of_decide_eq_true (List.mem_filter.mp hq).2
    rw [h.filter_selected] at hq
    rcases List.mem_append.mp hq with hq | hq
    · exact (hsilent.encodable h (Or.inl (List.mem_filter.mp hq).1) hsel).1
    · rcases List.mem_append.mp hq with hq | hq
      · exact henc q hq
      · exact (hsilent.encodable h (Or.inr (List.mem_filter.mp hq).1) hsel).1
  have hfind := hrpc.find_selected c.name
  rw [hfirst, ← List.head?_filter] at hfind
  obtain ⟨first, hhead, hshape⟩ := Option.map_eq_some_iff.mp hfind
  obtain ⟨rest, hsel⟩ := List.head?_eq_some_iff.mp hhead
  have hfirstid : first.id = b.toNat := (congrArg Parameter.id hshape).trans hid
  rw [hsel] at hflat hencodable
  refine (formCommandPacket_of_selected hsel hencodable hfirstid ?_).trans ?_
  · rw [hflat]; exact hlen
  · rw [hflat]

/-- The bytes of integers among parameters. -/
def bytesOf (ps : List Parameter) : ℕ := (ps.map (·.parameterType.bytes)).sum

/-- **What is known of a packet that was formed**: who was selected, and how long it is. -/
theorem formCommandPacket_placed (hrpc : rpc.Of s)
    (h : Placed earlier c later rpc.requestParameters before own after) {b n : UInt8} {payload : Bytes}
    (hform : formCommandPacket c.name rpc = .ok (b :: n :: payload)) :
    (∃ entry, s.requests.find? (·.Selected c.name) = some entry ∧ entry.id = b.toNat) ∧
      (∀ q ∈ rpc.requestParameters, q.Selected c.name →
        q.isAList = false ∧ q.parameterType ≠ .bool ∧ q.parameterType ≠ .BOOL) ∧
      payload.length = bytesOf (before.filter (·.Selected c.name)) + (bytesOf own +
        bytesOf (after.filter (·.Selected c.name))) := by
  obtain ⟨first, rest, hsel, hid, hplain, _, hlen⟩ := formCommandPacket_inv hform
  refine ⟨⟨first.shape, ?_, hid⟩, ?_, ?_⟩
  · rw [← hrpc.find_selected, ← List.head?_filter, hsel]
    rfl
  · intro q hq hqsel
    refine hplain q ?_
    rw [← hsel]
    exact List.mem_filter.mpr ⟨hq, decide_eq_true hqsel⟩
  · rw [hlen, ← hsel, h.filter_selected, List.map_append, List.map_append, List.sum_append, List.sum_append]
    rfl

/-- Every parameter that was selected was encoded. -/
theorem encodeParameter_of_form {command : String} {packet : Bytes} (hform : formCommandPacket command rpc = .ok packet)
    {q : Parameter} (hq : q ∈ rpc.requestParameters) (hsel : q.Selected command) :
    ∃ chunk, encodeParameter q = .ok chunk := by
  obtain ⟨chunks, hchunks, _⟩ := bind_eq_ok.mp hform
  obtain ⟨chunk, _, hchunk⟩ := mapM_inv_mem hchunks (List.mem_filter.mpr ⟨hq, decide_eq_true hsel⟩)
  exact ⟨chunk, hchunk⟩

/-- What a packet that was formed says of the other commands, if what was selected of theirs takes no bytes. -/
theorem othersSilent_of_bytes (h : Placed earlier c later ps before own after)
    (hplain : ∀ q ∈ ps, q.Selected c.name →
      q.isAList = false ∧ q.parameterType ≠ .bool ∧ q.parameterType ≠ .BOOL)
    (hzero : ∀ q, q ∈ before ∨ q ∈ after → q.Selected c.name → q.parameterType.bytes = 0) :
    OthersSilent (earlier ++ later) c := by
  intro c' hc' p hp hinfix
  obtain ⟨q, hq, hshape⟩ := h.exists_parameter hc' hp
  have hsel : q.Selected c.name := (selected_of_shape hshape).mpr hinfix
  have htype : q.parameterType = p.type := Parameter.parameterType_of_shape (q := requestParameterValue c' p) hshape
  have hlist : q.isAList = p.isAList := Parameter.isAList_of_shape (q := requestParameterValue c' p) hshape
  obtain ⟨hscalar, hnot⟩ := hplain q (h.mem_other hq) hsel
  rw [htype] at hnot
  exact ⟨⟨hlist.symm.trans hscalar, hnot⟩, htype ▸ hzero q hq hsel⟩

end Packet

/-! ## A command beside another -/

/-- Takes integers of three widths. -/
def motor : CommandSchema where
  id := 3
  name := "motor"
  requestParameters := [⟨"speed", .uint8, false, none⟩, ⟨"angle", .int16, false, none⟩, ⟨"steps", .uint32, false, none⟩]
  responseParameters := []

/-- Takes a list, and a float that is selected with the parameters of `motor`. -/
def tune : CommandSchema where
  id := 4
  name := "tune"
  requestParameters :=
    [⟨"count", .uint8, false, none⟩, ⟨"gains", .int16, true, some "count"⟩, ⟨"motor_ratio", .float, false, none⟩]
  responseParameters := []

def motorSchema : Schema := ⟨[motor, tune], []⟩

/-- The host that has read it. -/
def motorRpc : Rpc := ⟨motorSchema.requests, [], []⟩

theorem readRpcParameters_motor : readRpcParameters motorSchema = .ok motorRpc := rfl

theorem motorSchema_commands : motorSchema.commands = [] ++ motor :: [tune] := rfl

theorem motor_reached : Reached motor [tune] := ⟨by decide, by decide⟩

theorem motor_integers : ∀ p ∈ motor.requestParameters, p.isAList = false ∧ p.type.width ≠ none := by decide

theorem motor_silent : OthersSilent ([] ++ [tune]) motor := by
  intro c' hc' p hp hinfix
  rw [List.mem_singleton.mp hc'] at hp hinfix
  simp only [tune, List.mem_cons, List.not_mem_nil, or_false] at hp
  rcases hp with rfl | rfl | rfl
  · simp only [motor, tune, requestName, String.toList_append, String.reduceToList] at hinfix
    exact absurd hinfix (by decide)
  · simp only [motor, tune, requestName, String.toList_append, String.reduceToList] at hinfix
    exact absurd hinfix (by decide)
  · exact ⟨by decide, rfl⟩

theorem motor_first : motorSchema.requests.find? (·.Selected motor.name) =
    some (requestParameterValue motor ⟨"speed", .uint8, false, none⟩) :=
  List.find?_cons_of_pos (decide_eq_true (isInfix_requestName "motor" "speed"))

end BleRpc.Host
