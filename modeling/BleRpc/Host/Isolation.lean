import BleRpc.Host.Assign
import BleRpc.Host.Codec
import Mathlib.Data.List.Nodup

/-!
# Parameters of other commands in a command packet

`form_command_packet` takes every request parameter whose full name contains the command's name, where the setters and
getters compare full names. `isolated_iff`: a command's packet is made of its own parameters, whatever the others hold,
iff what else is selected writes nothing and does not come first.
-/

namespace BleRpc.Host

open Outcome

/-- The lists of the schema, with an integer's residue in every scalar integer request parameter and anything in the
others. -/
structure Filled (s : Schema) (rpc : Rpc) : Prop where
  of : rpc.Of s
  numeral : ∀ p ∈ rpc.requestParameters, p.isAList = false → p.parameterType.width ≠ none →
    ∃ v : ℤ, p.value = toString (p.parameterType.residue v)

/-- The command's own request parameters, in schema order. -/
def ownRequests (c : CommandSchema) (rpc : Rpc) : List Parameter := rpc.requestParameters.filter (·.id = c.id)

/-- Values that agree on the command's own parameters give the same packet: the id, the length, and the encodings of
the command's own parameters. -/
def Isolated (s : Schema) (c : CommandSchema) : Prop :=
  ∀ rpc rpc', Filled s rpc → Filled s rpc' → ownRequests c rpc = ownRequests c rpc' →
    formCommandPacket c.name rpc = formCommandPacket c.name rpc' ∧
      ∃ b : UInt8, (b.toNat : ℤ) = c.id ∧ formCommandPacket c.name rpc =
        .ok (b :: UInt8.ofNat ((ownRequests c rpc).flatMap Parameter.wire).length ::
          (ownRequests c rpc).flatMap Parameter.wire)

/-- Neither a list nor a boolean, which the encoder does not get through. -/
def ParameterSchema.Plain (p : ParameterSchema) : Prop := p.isAList = false ∧ p.type ≠ .bool ∧ p.type ≠ .BOOL

instance (p : ParameterSchema) : Decidable p.Plain := inferInstanceAs (Decidable (_ ∧ _))

/-- The request parameters of the schema, in order. -/
def Schema.requests (s : Schema) : List Parameter :=
  s.commands.flatMap fun c => c.requestParameters.map (requestParameterValue c)

/-- The command's own parameters can be encoded and fit; parameters of other commands whose full name contains the
command's name are encoded to nothing, and do not come before its own. -/
structure Unmixed (s : Schema) (c : CommandSchema) : Prop where
  own : ∀ p ∈ c.requestParameters, p.Plain
  fits : 0 ≤ c.id ∧ c.id < 256 ∧ (c.requestParameters.map (·.type.bytes)).sum < 256
  others : ∀ c' ∈ s.commands, c'.id ≠ c.id → ∀ p ∈ c'.requestParameters,
    c.name.toList <:+: (requestName c'.name p.name).toList → p.Plain ∧ p.type.bytes = 0
  first : ∀ p ∈ s.requests.find? (·.Selected c.name), p.id = c.id

/-! ## Lists -/

theorem flatMap_filter_eq {α β : Type} {f : α → List β} {P Q : α → Bool} {l : List α} (hQP : ∀ a ∈ l, Q a → P a)
    (hf : ∀ a ∈ l, P a → ¬ Q a → f a = []) : (l.filter P).flatMap f = (l.filter Q).flatMap f := by
  induction l with
  | nil => rfl
  | cons a l ih =>
    have hih := ih (fun b hb => hQP b (List.mem_cons_of_mem _ hb)) fun b hb => hf b (List.mem_cons_of_mem _ hb)
    by_cases hQ : Q a
    · rw [List.filter_cons_of_pos (hQP a List.mem_cons_self hQ), List.filter_cons_of_pos hQ, List.flatMap_cons,
        List.flatMap_cons, hih]
    · by_cases hP : P a
      · rw [List.filter_cons_of_pos hP, List.filter_cons_of_neg hQ, List.flatMap_cons,
          hf a List.mem_cons_self hP hQ, hih, List.nil_append]
      · rw [List.filter_cons_of_neg hP, List.filter_cons_of_neg hQ, hih]

theorem sum_filter_le {α : Type} (f : α → ℕ) (Q : α → Bool) (l : List α) :
    ((l.filter Q).map f).sum ≤ (l.map f).sum := by
  induction l with
  | nil => exact Nat.le_refl _
  | cons a l ih =>
    by_cases hQ : Q a
    · rw [List.filter_cons_of_pos hQ, List.map_cons, List.map_cons, List.sum_cons, List.sum_cons]
      omega
    · rw [List.filter_cons_of_neg hQ, List.map_cons, List.sum_cons]
      omega

/-- What a filter leaves out without loss weighs nothing. -/
theorem eq_zero_of_sum_filter {α : Type} {f : α → ℕ} {Q : α → Bool} {l : List α}
    (h : (l.map f).sum = ((l.filter Q).map f).sum) : ∀ a ∈ l, ¬ Q a → f a = 0 := by
  induction l with
  | nil => intro a ha; cases ha
  | cons b l ih =>
    intro a ha hQa
    have hle := sum_filter_le f Q l
    by_cases hQ : Q b
    · rw [List.filter_cons_of_pos hQ, List.map_cons, List.map_cons, List.sum_cons, List.sum_cons] at h
      rcases List.mem_cons.mp ha with rfl | ha
      · exact absurd hQ hQa
      · exact ih (by omega) a ha hQa
    · rw [List.filter_cons_of_neg hQ, List.map_cons, List.sum_cons] at h
      rcases List.mem_cons.mp ha with rfl | ha
      · omega
      · exact ih (by omega) a ha hQa

/-! ## Who is selected -/

section

variable {s : Schema} {c : CommandSchema} {rpc : Rpc}

/-- A request parameter of the host is one of a command. -/
theorem Filled.exists_entry (h : Filled s rpc) {p : Parameter} (hp : p ∈ rpc.requestParameters) :
    ∃ c' ∈ s.commands, ∃ q ∈ c'.requestParameters, p.shape = requestParameterValue c' q :=
  exists_nested_of_shapes h.of.requests hp

/-- Two commands with one id are one. -/
theorem eq_of_id (hids : (s.commands.map CommandSchema.id).Nodup) {c' : CommandSchema} (hc : c ∈ s.commands)
    (hc' : c' ∈ s.commands) (h : c'.id = c.id) : c' = c :=
  List.inj_on_of_nodup_map hids hc' hc h

/-- The command's own parameters are the entries of the schema. -/
theorem Filled.own_shape (h : Filled s rpc) (hids : (s.commands.map CommandSchema.id).Nodup) (hc : c ∈ s.commands) :
    (ownRequests c rpc).map Parameter.shape = c.requestParameters.map (requestParameterValue c) := by
  refine filter_id_shape ?_ hc hids h.of.requests
  intro c' p hp
  obtain ⟨q, _, rfl⟩ := List.mem_map.mp hp
  rfl

theorem length_flatMap_wire (ps : List Parameter) :
    (ps.flatMap Parameter.wire).length = (ps.map (·.parameterType.bytes)).sum := by
  rw [List.length_flatMap]
  simp only [Parameter.length_wire]

/-- The command's own parameters take the bytes the schema says. -/
theorem Filled.own_bytes (h : Filled s rpc) (hids : (s.commands.map CommandSchema.id).Nodup) (hc : c ∈ s.commands) :
    ((ownRequests c rpc).flatMap Parameter.wire).length = (c.requestParameters.map (·.type.bytes)).sum := by
  rw [length_flatMap_wire]
  exact congrArg List.sum (map_of_shapes (fun _ => rfl) (h.own_shape hids hc))

/-- The command's own parameters are selected. -/
theorem Filled.selected_own (h : Filled s rpc) (hids : (s.commands.map CommandSchema.id).Nodup)
    (hc : c ∈ s.commands) {p : Parameter} (hp : p ∈ rpc.requestParameters) (hid : p.id = c.id) :
    p.Selected c.name := by
  obtain ⟨c', hc', q, _, hshape⟩ := h.exists_entry hp
  have hid' : p.id = c'.id := Parameter.id_of_shape (q := requestParameterValue c' q) hshape
  obtain rfl := eq_of_id hids hc hc' (hid'.symm.trans hid)
  rw [Parameter.Selected, Parameter.name_of_shape (q := requestParameterValue c' q) hshape]
  exact isInfix_requestName _ _

/-- Selection looks at names only, so the first parameter selected is the schema's. -/
theorem Rpc.Of.find_selected (h : rpc.Of s) (command : String) :
    (rpc.requestParameters.find? (·.Selected command)).map Parameter.shape =
      s.requests.find? (·.Selected command) := by
  rw [Schema.requests, ← h.requests, List.find?_map]
  rfl

/-- With the condition, whatever is selected can be encoded, and what is not the command's own adds nothing. -/
theorem Unmixed.selected (hu : Unmixed s c) (h : Filled s rpc) (hids : (s.commands.map CommandSchema.id).Nodup)
    (hc : c ∈ s.commands) {p : Parameter} (hp : p ∈ rpc.requestParameters) (hsel : p.Selected c.name) :
    p.Encodable ∧ (p.id ≠ c.id → p.wire = []) := by
  obtain ⟨c', hc', q, hq, hshape⟩ := h.exists_entry hp
  have hname : p.name = requestName c'.name q.name := Parameter.name_of_shape (q := requestParameterValue c' q) hshape
  have htype : p.parameterType = q.type := Parameter.parameterType_of_shape (q := requestParameterValue c' q) hshape
  have hlist : p.isAList = q.isAList := Parameter.isAList_of_shape (q := requestParameterValue c' q) hshape
  have hid : p.id = c'.id := Parameter.id_of_shape (q := requestParameterValue c' q) hshape
  have hnumeral : p.isAList = false → p.parameterType.width ≠ none → ∃ n : ℕ, p.value = toString n := fun h₁ h₂ => by
    obtain ⟨v, hv⟩ := h.numeral p hp h₁ h₂
    exact ⟨_, hv⟩
  by_cases hown : c'.id = c.id
  · obtain rfl := eq_of_id hids hc hc' hown
    obtain ⟨hscalar, hnot⟩ := hu.own q hq
    exact ⟨⟨hlist.trans hscalar, htype ▸ hnot, hnumeral (hlist.trans hscalar)⟩, fun hne => absurd hid hne⟩
  · rw [Parameter.Selected, hname] at hsel
    obtain ⟨⟨hscalar, hnot⟩, hzero⟩ := hu.others c' hc' hown q hq hsel
    refine ⟨⟨hlist.trans hscalar, htype ▸ hnot, hnumeral (hlist.trans hscalar)⟩, ?_⟩
    intro _
    apply List.eq_nil_of_length_eq_zero
    rw [p.length_wire, htype, hzero]

/-- **With the condition**, the packet is that of the command's own parameters. -/
theorem Unmixed.form (hu : Unmixed s c) (h : Filled s rpc) (hids : (s.commands.map CommandSchema.id).Nodup)
    (hc : c ∈ s.commands) (hne : c.requestParameters ≠ []) :
    formCommandPacket c.name rpc = .ok (UInt8.ofNat c.id.toNat ::
      UInt8.ofNat ((ownRequests c rpc).flatMap Parameter.wire).length ::
        (ownRequests c rpc).flatMap Parameter.wire) := by
  have hshape := h.own_shape hids hc
  have hflat : (rpc.requestParameters.filter (·.Selected c.name)).flatMap Parameter.wire =
      (ownRequests c rpc).flatMap Parameter.wire := by
    refine flatMap_filter_eq ?_ ?_
    · intro p hp hid
      exact decide_eq_true (h.selected_own hids hc hp (of_decide_eq_true hid))
    · intro p hp hsel hid
      exact (hu.selected h hids hc hp (of_decide_eq_true hsel)).2 fun he => hid (decide_eq_true he)
  have hlen : ((ownRequests c rpc).flatMap Parameter.wire).length < 256 := by
    rw [h.own_bytes hids hc]
    exact hu.fits.2.2
  obtain ⟨o, os, hos⟩ : ∃ o os, ownRequests c rpc = o :: os := by
    refine List.exists_cons_of_ne_nil fun hnil => hne ?_
    rw [hnil] at hshape
    exact List.map_eq_nil_iff.mp hshape.symm
  have ho : o ∈ rpc.requestParameters ∧ o.id = c.id := by
    have hmem : o ∈ ownRequests c rpc := by rw [hos]; exact List.mem_cons_self
    simpa [ownRequests] using hmem
  obtain ⟨first, rest, hsel⟩ : ∃ first rest, rpc.requestParameters.filter (·.Selected c.name) = first :: rest := by
    refine List.exists_cons_of_ne_nil (List.ne_nil_of_mem (a := o) ?_)
    exact List.mem_filter.mpr ⟨ho.1, decide_eq_true (h.selected_own hids hc ho.1 ho.2)⟩
  have hfirst : first.id = c.id := by
    have hfind : rpc.requestParameters.find? (·.Selected c.name) = some first := by
      rw [← List.head?_filter, hsel, List.head?_cons]
    have hs := h.of.find_selected c.name
    rw [hfind] at hs
    exact hu.first first.shape hs.symm
  have henc : ∀ p ∈ first :: rest, p.Encodable := by
    intro p hp
    rw [← hsel] at hp
    obtain ⟨hmem, hp⟩ := List.mem_filter.mp hp
    exact (hu.selected h hids hc hmem (of_decide_eq_true hp)).1
  have hid : first.id = (UInt8.ofNat c.id.toNat).toNat := by
    have := hu.fits
    rw [hfirst, UInt8.toNat_ofNat']
    omega
  rw [hsel] at hflat
  refine (formCommandPacket_of_selected hsel henc hid (hflat ▸ hlen)).trans ?_
  rw [hflat]

/-- There is an assignment: zero everywhere. -/
theorem exists_filled {fresh : Rpc} (hread : readRpcParameters s = .ok fresh) : ∃ rpc, Filled s rpc := by
  refine ⟨{ fresh with requestParameters := fresh.requestParameters.map (·.set 0) }, ?_, ?_⟩
  · refine (Rpc.of_read hread).congr ?_ rfl rfl
    rw [List.map_map]
    rfl
  · intro p hp _ _
    obtain ⟨q, _, rfl⟩ := List.mem_map.mp hp
    have hzero : q.parameterType.residue 0 = 0 := by rw [ParameterType.residue, Int.zero_emod]; rfl
    exact ⟨0, by rw [show (q.set 0).parameterType = q.parameterType from rfl, hzero]; rfl⟩

/-- Of the selected parameters, those with the command's id are its own. -/
theorem Filled.filter_selected (h : Filled s rpc) (hids : (s.commands.map CommandSchema.id).Nodup)
    (hc : c ∈ s.commands) :
    (rpc.requestParameters.filter (·.Selected c.name)).filter (·.id = c.id) = ownRequests c rpc := by
  rw [List.filter_filter, ownRequests]
  apply List.filter_congr
  intro r hr
  by_cases hrid : r.id = c.id
  · simp [hrid, h.selected_own hids hc hr hrid]
  · simp [hrid]

/-- **Without the condition**, no assignment gives the packet of the command's own parameters. -/
theorem Unmixed.of_form (h : Filled s rpc) (hids : (s.commands.map CommandSchema.id).Nodup) (hc : c ∈ s.commands)
    {b : UInt8} (hb : (b.toNat : ℤ) = c.id) (hform : formCommandPacket c.name rpc =
      .ok (b :: UInt8.ofNat ((ownRequests c rpc).flatMap Parameter.wire).length ::
        (ownRequests c rpc).flatMap Parameter.wire)) : Unmixed s c := by
  obtain ⟨first, rest, hsel, hfirst, hplain, hlen, hsum⟩ := formCommandPacket_inv hform
  have hshape := h.own_shape hids hc
  have hmem : ∀ p ∈ rpc.requestParameters, p.Selected c.name → p ∈ first :: rest := fun p hp hs => by
    rw [← hsel]
    exact List.mem_filter.mpr ⟨hp, decide_eq_true hs⟩
  refine ⟨?_, ?_, ?_, ?_⟩
  · intro p hp
    obtain ⟨o, ho, hos⟩ := exists_parameter_of_shapes hshape hp
    obtain ⟨hoq, hid⟩ := List.mem_filter.mp ho
    obtain ⟨hscalar, hnot⟩ := hplain o (hmem o hoq (h.selected_own hids hc hoq (of_decide_eq_true hid)))
    have htype : o.parameterType = p.type := Parameter.parameterType_of_shape (q := requestParameterValue c p) hos
    rw [htype] at hnot
    exact ⟨(Parameter.isAList_of_shape (q := requestParameterValue c p) hos).symm.trans hscalar, hnot⟩
  · have hlt := (UInt8.ofNat ((ownRequests c rpc).flatMap Parameter.wire).length).toNat_lt
    have hblt := b.toNat_lt
    rw [← h.own_bytes hids hc]
    omega
  · intro c' hc' hid q hq hinfix
    obtain ⟨p, hp, hps⟩ := exists_parameter_of_nested h.of.requests hc' hq
    have htype : p.parameterType = q.type := Parameter.parameterType_of_shape (q := requestParameterValue c' q) hps
    have hpsel : p.Selected c.name := by
      rw [Parameter.Selected, Parameter.name_of_shape (q := requestParameterValue c' q) hps]
      exact hinfix
    obtain ⟨hscalar, hnot⟩ := hplain p (hmem p hp hpsel)
    refine ⟨⟨(Parameter.isAList_of_shape (q := requestParameterValue c' q) hps).symm.trans hscalar, htype ▸ hnot⟩, ?_⟩
    -- the selected parameters weigh no more than the command's own
    have hweigh : ((first :: rest).map (·.parameterType.bytes)).sum =
        (((first :: rest).filter (·.id = c.id)).map (·.parameterType.bytes)).sum := by
      rw [← hsum, ← hsel, h.filter_selected hids hc, length_flatMap_wire]
    have hpid : p.id = c'.id := Parameter.id_of_shape (q := requestParameterValue c' q) hps
    have hzero := eq_zero_of_sum_filter hweigh p (hmem p hp hpsel) (by simpa [hpid] using hid)
    rw [htype] at hzero
    exact hzero
  · intro p hp
    have hfind := h.of.find_selected c.name
    rw [← List.head?_filter, hsel, List.head?_cons, hp] at hfind
    rw [← Option.some.inj hfind]
    exact hfirst.trans hb

end

/-- **A command's packet is its own exactly when nothing else that is selected writes, or comes first.** -/
theorem isolated_iff (s : Schema) (fresh : Rpc) (hread : readRpcParameters s = .ok fresh)
    (hids : (s.commands.map CommandSchema.id).Nodup) (c : CommandSchema) (hc : c ∈ s.commands)
    (hint : ∃ p ∈ c.requestParameters, p.isAList = false ∧ p.type.width ≠ none) : Isolated s c ↔ Unmixed s c := by
  constructor
  · intro hi
    obtain ⟨rpc, h⟩ := exists_filled hread
    obtain ⟨_, b, hb, hform⟩ := hi rpc rpc h h rfl
    exact Unmixed.of_form h hids hc hb hform
  · intro hu rpc rpc' h h' hown
    obtain ⟨p, hp, _⟩ := hint
    have hform := hu.form h hids hc (List.ne_nil_of_mem hp)
    refine ⟨?_, _, ?_, hform⟩
    · rw [hform, hu.form h' hids hc (List.ne_nil_of_mem hp), hown]
    · have := hu.fits
      rw [UInt8.toNat_ofNat']
      omega

/-- The shipped commands do not contain each other's names. -/
theorem isolated_ping_device : Isolated rpcData pingDevice1 := by
  refine (isolated_iff rpcData _ rfl (by decide) pingDevice1 List.mem_cons_self (by decide)).mpr
    ⟨by decide, by decide, ?_, ?_⟩
  · intro c' hc' hid p hp hinfix
    rcases List.mem_cons.mp hc' with rfl | hc'
    · exact absurd rfl hid
    · rw [List.mem_singleton.mp hc'] at hp hinfix
      rw [List.mem_singleton.mp hp] at hinfix
      simp only [pingDevice1, pingDevice2, requestName, String.toList_append, String.reduceToList] at hinfix
      exact absurd hinfix (by decide)
  · intro p hp
    have hsel : (requestParameterValue pingDevice1 ⟨"ping", .uint8, false, none⟩).Selected pingDevice1.name :=
      isInfix_requestName _ _
    have hfind : rpcData.requests.find? (fun q : Parameter => decide (q.Selected pingDevice1.name)) =
        some (requestParameterValue pingDevice1 ⟨"ping", .uint8, false, none⟩) :=
      List.find?_cons_of_pos (decide_eq_true hsel)
    rw [← Option.some.inj (hfind.symm.trans hp)]
    rfl

/-- A command whose name begins another command's. -/
def ping : CommandSchema where
  id := 2
  name := "ping"
  requestParameters := [⟨"level", .uint8, false, none⟩]
  responseParameters := []

/-- The host with 5 for `ping`'s parameter and `v` for `ping_device_1`'s. -/
def pingRpc (v : ℕ) : Rpc where
  requestParameters :=
    [(requestParameterValue ping ⟨"level", .uint8, false, none⟩).set 5,
      (requestParameterValue pingDevice1 ⟨"ping", .uint8, false, none⟩).set v]
  responseParameters := [responseEntry pingDevice1 ⟨"ping_count", .uint32, false, none⟩]
  notificationParameters := []

/-- The packet for `ping` carries the parameter of `ping_device_1`. -/
theorem form_ping (v : ℕ) : formCommandPacket "ping" (pingRpc v) = .ok [2, 2, 5, UInt8.ofNat v] := by
  have hsel : (pingRpc v).requestParameters.filter (·.Selected "ping") = (pingRpc v).requestParameters := by
    refine List.filter_eq_self.mpr fun p hp => decide_eq_true ?_
    rcases List.mem_cons.mp hp with rfl | hp
    · exact isInfix_requestName "ping" "level"
    · rw [List.mem_singleton.mp hp]
      show "ping".toList <:+: (requestName "ping_device_1" "ping").toList
      simp only [requestName, String.toList_append, String.reduceToList]
      decide
  have hno : ParameterType.uint8 ≠ .bool ∧ ParameterType.uint8 ≠ .BOOL := by decide
  have henc : ∀ p ∈ (pingRpc v).requestParameters, p.Encodable := by
    intro p hp
    rcases List.mem_cons.mp hp with rfl | hp
    · exact ⟨rfl, hno, fun _ => ⟨5, rfl⟩⟩
    · rw [List.mem_singleton.mp hp]
      exact ⟨rfl, hno, fun _ => ⟨v, rfl⟩⟩
  have hwire : (pingRpc v).requestParameters.flatMap Parameter.wire = [5, UInt8.ofNat v] := by
    rw [pingRpc, List.flatMap_cons, List.flatMap_singleton, Parameter.wire_of_width rfl rfl,
      Parameter.wire_of_width rfl rfl, BigEndian.encode_one, BigEndian.encode_one]
    rfl
  refine (formCommandPacket_of_selected (b := 2) hsel henc rfl ?_).trans ?_
  · show ((pingRpc v).requestParameters.flatMap Parameter.wire).length < 256
    rw [hwire, List.length_cons, List.length_singleton]
    decide
  · show Except.ok (2 :: UInt8.ofNat ((pingRpc v).requestParameters.flatMap Parameter.wire).length ::
      (pingRpc v).requestParameters.flatMap Parameter.wire) = _
    rw [hwire]
    rfl

/-- Two assignments that differ in the parameter of `ping_device_1` only give different packets for `ping`. -/
theorem ping_not_isolated : formCommandPacket "ping" (pingRpc 0) = .ok [2, 2, 5, 0] ∧
    formCommandPacket "ping" (pingRpc 1) = .ok [2, 2, 5, 1] ∧ ¬ Isolated ⟨[ping, pingDevice1], []⟩ ping := by
  have hfilled : ∀ v : ℕ, v < 256 → Filled ⟨[ping, pingDevice1], []⟩ (pingRpc v) := by
    intro v hv
    refine ⟨⟨⟨_, rfl, rfl, rfl, rfl⟩⟩, ?_⟩
    intro p hp _ _
    rcases List.mem_cons.mp hp with rfl | hp
    · exact ⟨5, rfl⟩
    · rw [List.mem_singleton.mp hp]
      refine ⟨v, congrArg toString ?_⟩
      show v = ((v : ℤ) % 2 ^ 8).toNat
      omega
  refine ⟨form_ping 0, form_ping 1, ?_⟩
  intro hi
  have h := (hi (pingRpc 0) (pingRpc 1) (hfilled 0 (by decide)) (hfilled 1 (by decide)) rfl).1
  rw [show ping.name = "ping" from rfl, form_ping, form_ping] at h
  exact absurd h (by decide)

end BleRpc.Host
