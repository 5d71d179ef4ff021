import BleRpc.Host.Assign
import BleRpc.Host.Codec

/-!
# Scalar integers over the wire

For schemas of scalar integers whose command names do not occur in each other's parameter names (`ScalarSchema`):

- `form_spec`: after any calls of the setter that give every request parameter of a command a value, the packet is the
  command's id, the width, and the residues in big-endian order;
- `disassemble_spec`: a response laid out in schema order is decoded to its numbers, and the responses of other
  commands keep their values;
- `scalar_wire_round_trip`: the two together.
-/

namespace BleRpc.Host

open Outcome

/-- Scalar integers only; distinct ids that fit in a byte; within a command distinct names; no command's name inside
another command's full parameter name. -/
structure ScalarSchema (s : Schema) : Prop where
  integer : ∀ c ∈ s.commands, ∀ p ∈ c.requestParameters ++ c.responseParameters,
    p.isAList = false ∧ p.type.width ≠ none
  ids : (s.commands.map CommandSchema.id).Nodup
  idRange : ∀ c ∈ s.commands, 0 ≤ c.id ∧ c.id < 256
  names : ∀ c ∈ s.commands, (c.requestParameters.map ParameterSchema.name).Nodup ∧
    (c.responseParameters.map ParameterSchema.name).Nodup
  apart : ∀ c ∈ s.commands, ∀ c' ∈ s.commands, c'.id ≠ c.id →
    (∀ p ∈ c'.requestParameters, ¬ c.name.toList <:+: (requestName c'.name p.name).toList) ∧
      ∀ p ∈ c'.responseParameters, ¬ c.name.toList <:+: (responseName c'.name p.name).toList

/-- The calls set request parameters of the command only, and the last value each is given is `v`. -/
structure Assigns (c : CommandSchema) (calls : List (String × ℤ)) (v : String → ℤ) : Prop where
  names : ∀ call ∈ calls, ∃ p ∈ c.requestParameters, p.name = call.1
  values : ∀ p ∈ c.requestParameters, lastCall calls p.name = some (v p.name)

namespace CommandSchema

/-- The bytes of the request. -/
def totalWidth (c : CommandSchema) : ℕ := (c.requestParameters.map fun p => p.type.bytes).sum

/-- The big-endian encodings of the residues, in schema order. -/
def payload (c : CommandSchema) (v : String → ℤ) : Bytes :=
  c.requestParameters.flatMap fun p => BigEndian.encode p.type.bytes (p.type.residue (v p.name))

/-- `[id, n]` and the payload. -/
def packet (c : CommandSchema) (v : String → ℤ) : Bytes :=
  UInt8.ofNat c.id.toNat :: UInt8.ofNat c.totalWidth :: c.payload v

theorem length_payload (c : CommandSchema) (v : String → ℤ) : (c.payload v).length = c.totalWidth := by
  rw [payload, totalWidth, List.length_flatMap]
  simp only [BigEndian.length_encode]

end CommandSchema

/-! ## Requests -/

section Requests

variable {s : Schema} {c : CommandSchema} {rpc : Rpc}

/-- The command's segment of the request parameters: no other name contains the command's. -/
theorem request_segment (hs : ScalarSchema s) (hc : c ∈ s.commands) (hrpc : rpc.Of s) :
    ∃ before own after, rpc.requestParameters = before ++ (own ++ after) ∧
      own.map Parameter.shape = c.requestParameters.map (requestParameterValue c) ∧
      ∀ p, p ∈ before ∨ p ∈ after → ¬ p.Selected c.name := by
  obtain ⟨before, own, after, hseg⟩ := exists_segment hc hs.ids hrpc.requests
  refine ⟨before, own, after, hseg.split, hseg.own, ?_⟩
  intro p hp
  obtain ⟨c', hc', hid, hmem⟩ := hseg.others p hp
  obtain ⟨q, hq, hshape⟩ := List.mem_map.mp hmem
  rw [Parameter.Selected, ← Parameter.name_of_shape (p := requestParameterValue c' q) hshape]
  exact (hs.apart c hc c' hc' hid).1 q hq

/-- A parameter of the segment, and its entry. -/
theorem exists_entry {own : List Parameter}
    (hown : own.map Parameter.shape = c.requestParameters.map (requestParameterValue c)) {o : Parameter}
    (ho : o ∈ own) : ∃ p ∈ c.requestParameters, o.shape = requestParameterValue c p := by
  exact exists_entry_of_shapes hown ho

/-- Their names. -/
theorem own_names {own : List Parameter}
    (hown : own.map Parameter.shape = c.requestParameters.map (requestParameterValue c)) :
    own.map Parameter.name = (c.requestParameters.map ParameterSchema.name).map (requestName c.name) := by
  rw [List.map_map]
  exact map_of_shapes (fun _ => rfl) hown

/-- Their bytes. -/
theorem own_bytes {own : List Parameter}
    (hown : own.map Parameter.shape = c.requestParameters.map (requestParameterValue c)) :
    (own.map (·.parameterType.bytes)).sum = c.totalWidth := congrArg List.sum (map_of_shapes (fun _ => rfl) hown)

/-- Every request parameter of the command is alone with its full name. -/
theorem single_request (hs : ScalarSchema s) (hc : c ∈ s.commands) (hrpc : rpc.Of s) {p : ParameterSchema}
    (hp : p ∈ c.requestParameters) : Single (requestName c.name p.name) rpc.requestParameters := by
  obtain ⟨before, own, after, hsplit, hown, hothers⟩ := request_segment hs hc hrpc
  obtain ⟨o, ho, hshape⟩ := exists_parameter_of_shapes hown hp
  have hname : o.name = requestName c.name p.name := Parameter.name_of_shape (q := requestParameterValue c p) hshape
  have hnodup : (own.map Parameter.name).Nodup := by
    rw [own_names hown]
    exact List.Pairwise.map _ (fun _ _ hne he => hne (requestName_inj he)) (hs.names c hc).1
  have hnone : ∀ q, q ∈ before ∨ q ∈ after → q.name ≠ requestName c.name p.name := by
    intro q hq he
    refine hothers q hq ?_
    rw [Parameter.Selected, he]
    exact isInfix_requestName _ _
  have hint := hs.integer c hc p (List.mem_append_left _ hp)
  refine ⟨o, ?_, ?_, ?_⟩
  · rw [hsplit, List.filter_append, List.filter_append, filter_name_eq_nil fun q hq => hnone q (Or.inl hq),
      filter_name_eq_nil fun q hq => hnone q (Or.inr hq), ← hname, filter_name_of_nodup hnodup ho]
    rfl
  · exact (Parameter.isAList_of_shape (q := requestParameterValue c p) hshape).trans hint.1
  · rw [Parameter.parameterType_of_shape (q := requestParameterValue c p) hshape]
    exact hint.2

/-- A request parameter after the calls: a numeral of the residue. -/
theorem assigned_entry {calls : List (String × ℤ)} {v : String → ℤ} (hcalls : Assigns c calls v)
    {p : ParameterSchema} (hp : p ∈ c.requestParameters) {o : Parameter}
    (hshape : o.shape = requestParameterValue c p) : assigned c.name calls o = o.set (p.type.residue (v p.name)) := by
  have hname : o.name = requestName c.name p.name := Parameter.name_of_shape (q := requestParameterValue c p) hshape
  have htype : o.parameterType = p.type := Parameter.parameterType_of_shape (q := requestParameterValue c p) hshape
  rw [assigned, hname, lastCallNamed_requestName, hcalls.values p hp, htype]

/-- The segment after the calls stands for the payload. -/
theorem wire_assigned (hs : ScalarSchema s) (hc : c ∈ s.commands) {calls : List (String × ℤ)} {v : String → ℤ}
    (hcalls : Assigns c calls v) {own : List Parameter}
    (hown : own.map Parameter.shape = c.requestParameters.map (requestParameterValue c)) :
    (own.map (assigned c.name calls)).flatMap Parameter.wire = c.payload v := by
  -- both sides are the same function of the entries
  let wire (q : Parameter) : Bytes := BigEndian.encode q.parameterType.bytes
    (q.parameterType.residue ((lastCallNamed c.name calls q.name).getD 0))
  have hleft : ∀ o ∈ own, (assigned c.name calls o).wire = wire o.shape := by
    intro o ho
    obtain ⟨p, hp, hshape⟩ := exists_entry hown ho
    obtain ⟨w, hw⟩ := Option.ne_none_iff_exists'.mp (hs.integer c hc p (List.mem_append_left _ hp)).2
    have htype : o.parameterType = p.type := Parameter.parameterType_of_shape (q := requestParameterValue c p) hshape
    have hname : (requestParameterValue c p).name = requestName c.name p.name := rfl
    have htype' : (requestParameterValue c p).parameterType = p.type := rfl
    rw [assigned_entry hcalls hp hshape, Parameter.wire_of_width (htype.symm ▸ hw) rfl, hshape]
    simp only [wire, hname, htype', lastCallNamed_requestName, hcalls.values p hp, Option.getD_some,
      ParameterType.bytes_of_width hw]
  have hright : ∀ p ∈ c.requestParameters,
      wire (requestParameterValue c p) = BigEndian.encode p.type.bytes (p.type.residue (v p.name)) := by
    intro p hp
    have hname : (requestParameterValue c p).name = requestName c.name p.name := rfl
    simp only [wire, hname, lastCallNamed_requestName, hcalls.values p hp, Option.getD_some]
    rfl
  rw [CommandSchema.payload, List.flatMap_map, List.flatMap_congr hleft, ← List.flatMap_map, hown, List.flatMap_map,
    List.flatMap_congr hright]

/-- The encoder selects the segment, whatever the values. -/
theorem filter_segment {before own after : List Parameter}
    (hown : own.map Parameter.shape = c.requestParameters.map (requestParameterValue c))
    (hothers : ∀ p, p ∈ before ∨ p ∈ after → ¬ p.Selected c.name) {g : Parameter → Parameter}
    (hg : ∀ p, (g p).shape = p.shape) :
    ((before ++ (own ++ after)).map g).filter (·.Selected c.name) = own.map g := by
  have hsel : ∀ p, (g p).Selected c.name ↔ p.Selected c.name := fun p => by
    rw [Parameter.Selected, Parameter.Selected, Parameter.name_of_shape (hg p)]
  have hnone : ∀ ps : List Parameter, (∀ p ∈ ps, p ∈ before ∨ p ∈ after) →
      (ps.map g).filter (·.Selected c.name) = [] := by
    intro ps hps
    apply List.filter_eq_nil_iff.mpr
    intro p hp
    obtain ⟨q, hq, rfl⟩ := List.mem_map.mp hp
    simpa [hsel] using hothers q (hps q hq)
  have hall : (own.map g).filter (·.Selected c.name) = own.map g := by
    apply List.filter_eq_self.mpr
    intro p hp
    obtain ⟨o, ho, rfl⟩ := List.mem_map.mp hp
    obtain ⟨q, _, hshape⟩ := exists_entry hown ho
    rw [decide_eq_true_eq, hsel, Parameter.Selected, Parameter.name_of_shape (q := requestParameterValue c q) hshape]
    exact isInfix_requestName _ _
  rw [List.map_append, List.map_append, List.filter_append, List.filter_append, hnone before fun p hp => Or.inl hp,
    hnone after fun p hp => Or.inr hp, hall, List.nil_append, List.append_nil]

/-- A packet that was formed has the command's id and its width, whatever the values. -/
theorem form_inv (hs : ScalarSchema s) (hc : c ∈ s.commands) (hrpc : rpc.Of s) {packet : Bytes}
    (h : formCommandPacket c.name rpc = .ok packet) :
    ∃ b n payload, packet = b :: n :: payload ∧ (b.toNat : ℤ) = c.id ∧ n.toNat = payload.length ∧
      payload.length = c.totalWidth := by
  obtain ⟨b, n, payload, rfl⟩ := exists_header h
  obtain ⟨before, own, after, hsplit, hown, hothers⟩ := request_segment hs hc hrpc
  have hfilter := filter_segment hown hothers (g := id) fun _ => rfl
  rw [List.map_id, List.map_id, ← hsplit] at hfilter
  obtain ⟨first, rest, hsel, hid, _, hn, hlen⟩ := formCommandPacket_inv h
  obtain rfl : own = first :: rest := hfilter.symm.trans hsel
  obtain ⟨p, _, hshape⟩ := exists_entry hown List.mem_cons_self
  have hfirst : first.id = c.id := Parameter.id_of_shape (q := requestParameterValue c p) hshape
  exact ⟨b, n, payload, rfl, hid.symm.trans hfirst, hn.symm, hlen.trans (own_bytes hown)⟩

/-- A request parameter after the calls can be encoded. -/
theorem encodable_assigned (hs : ScalarSchema s) (hc : c ∈ s.commands) {calls : List (String × ℤ)} {v : String → ℤ}
    (hcalls : Assigns c calls v) {p : ParameterSchema} (hp : p ∈ c.requestParameters) {o : Parameter}
    (hshape : o.shape = requestParameterValue c p) : (assigned c.name calls o).Encodable := by
  obtain ⟨hscalar, hwidth⟩ := hs.integer c hc p (List.mem_append_left _ hp)
  have htype : o.parameterType = p.type := Parameter.parameterType_of_shape (q := requestParameterValue c p) hshape
  rw [assigned_entry hcalls hp hshape]
  refine ⟨(Parameter.isAList_of_shape (q := requestParameterValue c p) hshape).trans hscalar, ?_, fun _ => ⟨_, rfl⟩⟩
  show o.parameterType ≠ .bool ∧ o.parameterType ≠ .BOOL
  rw [htype]
  constructor
  · intro h; rw [h] at hwidth; exact hwidth rfl
  · intro h; rw [h] at hwidth; exact hwidth rfl

/-- **Request packets.** Any calls that give every request parameter a value, in any state. -/
theorem form_spec (F : Type) [PyFloat F] (hs : ScalarSchema s) (hc : c ∈ s.commands) (hne : c.requestParameters ≠ [])
    (hwidth : c.totalWidth < 256) (hrpc : rpc.Of s) {calls : List (String × ℤ)} {v : String → ℤ}
    (hcalls : Assigns c calls v) :
    ∃ rpc', setRequests F c.name calls rpc = .ok rpc' ∧ rpc'.Of s ∧
      rpc'.responseParameters = rpc.responseParameters ∧ formCommandPacket c.name rpc' = .ok (c.packet v) := by
  have hsingle : ∀ call ∈ calls, Single (requestName c.name call.1) rpc.requestParameters := by
    intro call hcall
    obtain ⟨p, hp, hname⟩ := hcalls.names call hcall
    rw [← hname]
    exact single_request hs hc hrpc hp
  have hshapes : (rpc.requestParameters.map (assigned c.name calls)).map Parameter.shape =
      rpc.requestParameters.map Parameter.shape := by
    rw [List.map_map]
    exact List.map_congr_left fun p _ => assigned_shape c.name calls p
  refine ⟨_, setRequests_ok F hsingle, hrpc.congr hshapes rfl rfl, rfl, ?_⟩
  obtain ⟨before, own, after, hsplit, hown, hothers⟩ := request_segment hs hc hrpc
  have hfilter := filter_segment hown hothers (assigned_shape c.name calls)
  rw [← hsplit] at hfilter
  have hwire := wire_assigned hs hc hcalls hown
  obtain ⟨o, own, rfl⟩ : ∃ o os, own = o :: os := by
    refine List.exists_cons_of_ne_nil fun hnil => hne ?_
    rw [hnil] at hown
    exact List.map_eq_nil_iff.mp hown.symm
  have henc : ∀ p ∈ (o :: own).map (assigned c.name calls), p.Encodable := by
    intro p hp
    obtain ⟨q, hq, rfl⟩ := List.mem_map.mp hp
    obtain ⟨e, he, hshape⟩ := exists_entry hown hq
    exact encodable_assigned hs hc hcalls he hshape
  have hid : (assigned c.name calls o).id = (UInt8.ofNat c.id.toNat).toNat := by
    obtain ⟨e, _, hshape⟩ := exists_entry hown List.mem_cons_self
    have hoid : o.id = c.id := Parameter.id_of_shape (q := requestParameterValue c e) hshape
    have := hs.idRange c hc
    rw [Parameter.id_of_shape (assigned_shape c.name calls o), hoid, UInt8.toNat_ofNat']
    omega
  have hlen := c.length_payload v
  rw [List.map_cons] at hfilter henc hwire
  refine (formCommandPacket_of_selected hfilter henc hid ?_).trans ?_
  · rw [hwire, hlen]; exact hwidth
  · rw [hwire, hlen]; rfl

end Requests

/-! ## Responses -/

/-- The numbers of a response in schema order. -/
def CommandSchema.responsePayload (c : CommandSchema) (ns : List ℕ) : Bytes :=
  (c.responseParameters.zip ns).flatMap fun pn => BigEndian.encode pn.1.type.bytes pn.2

theorem isInfix_responseName (response parameter : String) :
    response.toList <:+: (responseName response parameter).toList := by
  rw [responseName, String.toList_append, String.toList_append, List.append_assoc]
  exact (List.prefix_append _ _).isInfix

theorem responseName_inj {response p q : String} (h : responseName response p = responseName response q) : p = q := by
  have h' := congrArg String.toList h
  simp only [responseName, String.toList_append, List.append_assoc] at h'
  exact String.toList_inj.mp (List.append_cancel_left (List.append_cancel_left h'))

section Responses

variable {s : Schema} {c : CommandSchema} {rpc : Rpc}

/-- A list of a command's response parameters, with any values. -/
def ResponsesOf (c : CommandSchema) (own : List Parameter) : Prop :=
  own.map Parameter.shape = c.responseParameters.map (responseEntry c)

theorem ResponsesOf.exists_entry {own : List Parameter} (hown : ResponsesOf c own) {o : Parameter} (ho : o ∈ own) :
    ∃ p ∈ c.responseParameters, o.shape = responseEntry c p :=
  exists_entry_of_shapes hown ho

theorem ResponsesOf.nodup (hs : ScalarSchema s) (hc : c ∈ s.commands) {own : List Parameter}
    (hown : ResponsesOf c own) : (own.map Parameter.name).Nodup := by
  have hnames : own.map Parameter.name = (c.responseParameters.map ParameterSchema.name).map (responseName c.name) := by
    rw [List.map_map]
    exact map_of_shapes (fun _ => rfl) hown
  rw [hnames]
  exact List.Pairwise.map _ (fun _ _ hne he => hne (responseName_inj he)) (hs.names c hc).2

/-- A command's parameters do not have the names of another's. -/
theorem ResponsesOf.name_ne (hs : ScalarSchema s) (hc : c ∈ s.commands) {c' : CommandSchema} (hc' : c' ∈ s.commands)
    (hid : c'.id ≠ c.id) {own : List Parameter} (hown : ResponsesOf c own) {o : Parameter} (ho : o ∈ own)
    (parameter : String) : o.name ≠ responseName c'.name parameter := by
  intro he
  obtain ⟨p, hp, hshape⟩ := hown.exists_entry ho
  have hname : o.name = responseName c.name p.name := Parameter.name_of_shape (q := responseEntry c p) hshape
  refine (hs.apart c' hc' c hc hid.symm).2 p hp ?_
  rw [← hname, he]
  exact isInfix_responseName _ _

/-- The command's segment of the response parameters: other ids and other names around it. -/
theorem response_segment (hs : ScalarSchema s) (hc : c ∈ s.commands) (hrpc : rpc.Of s) :
    ∃ before own after, rpc.responseParameters = before ++ (own ++ after) ∧ ResponsesOf c own ∧
      ∀ p, p ∈ before ∨ p ∈ after → c.id ≠ p.id ∧ ∀ parameter, p.name ≠ responseName c.name parameter := by
  obtain ⟨before, own, after, hseg⟩ := exists_segment hc hs.ids hrpc.responses
  refine ⟨before, own, after, hseg.split, hseg.own, ?_⟩
  intro p hp
  obtain ⟨c', hc', hid, hmem⟩ := hseg.others p hp
  obtain ⟨q, hq, hshape⟩ := List.mem_map.mp hmem
  constructor
  · rw [← Parameter.id_of_shape (p := responseEntry c' q) hshape]
    exact hid.symm
  · intro parameter he
    refine (hs.apart c hc c' hc' hid).2 q hq ?_
    have hname : responseName c'.name q.name = p.name := Parameter.name_of_shape (p := responseEntry c' q) hshape
    rw [hname, he]
    exact isInfix_responseName _ _

/-- The fields of the command's parameters make the payload. -/
theorem ResponsesOf.flatMap_encode {own : List Parameter} (hown : ResponsesOf c own) (ns : List ℕ) :
    (own.zip ns).flatMap Field.encode = c.responsePayload ns := by
  have hzip := congrArg (fun ps => (ps.zip ns).flatMap Field.encode) hown
  simp only [List.zip_map_left, List.flatMap_map] at hzip
  exact hzip

/-- The field of a parameter of the schema. -/
theorem ResponsesOf.exists_field {own : List Parameter} (hown : ResponsesOf c own) {ns : List ℕ}
    {pn : ParameterSchema × ℕ} (hpn : pn ∈ c.responseParameters.zip ns) :
    ∃ f : Field, f ∈ own.zip ns ∧ f.1.shape = responseEntry c pn.1 ∧ f.2 = pn.2 := by
  have hmem : (responseEntry c pn.1, pn.2) ∈ (own.map Parameter.shape).zip ns := by
    rw [hown, List.zip_map_left]
    exact List.mem_map.mpr ⟨pn, hpn, rfl⟩
  rw [List.zip_map_left] at hmem
  obtain ⟨f, hf, he⟩ := List.mem_map.mp hmem
  exact ⟨f, hf, congrArg Prod.fst he, congrArg Prod.snd he⟩

/-- They are numbers. -/
theorem ResponsesOf.integer (hs : ScalarSchema s) (hc : c ∈ s.commands) {own : List Parameter}
    (hown : ResponsesOf c own) {ns : List ℕ} {f : Field} (hf : f ∈ own.zip ns) : Field.Integer c.id f := by
  obtain ⟨p, hp, hshape⟩ := hown.exists_entry (List.of_mem_zip hf).1
  obtain ⟨hscalar, hwidth⟩ := hs.integer c hc p (List.mem_append_right _ hp)
  have htype : f.1.parameterType = p.type := Parameter.parameterType_of_shape (q := responseEntry c p) hshape
  exact ⟨(Parameter.isAList_of_shape (q := responseEntry c p) hshape).trans hscalar, htype.symm ▸ hwidth,
    Parameter.id_of_shape (q := responseEntry c p) hshape⟩

theorem map_fst_fields {own : List Parameter} (hown : ResponsesOf c own) {ns : List ℕ}
    (hlen : ns.length = c.responseParameters.length) : (own.zip ns).map Prod.fst = own := by
  have hownlen := congrArg List.length hown
  rw [List.length_map, List.length_map] at hownlen
  exact List.map_fst_zip (by omega)

/-- Decoding changes values only. -/
theorem ResponsesOf.decoded {own : List Parameter} (hown : ResponsesOf c own) {ns : List ℕ}
    (hlen : ns.length = c.responseParameters.length) : ResponsesOf c ((own.zip ns).map Field.decoded) := by
  have hcomp : Parameter.shape ∘ Field.decoded = Parameter.shape ∘ Prod.fst := rfl
  rw [ResponsesOf, List.map_map, hcomp, ← List.map_map, map_fst_fields hown hlen]
  exact hown

/-- The packet is read into the command's segment. -/
theorem disassemble_own (hs : ScalarSchema s) (hc : c ∈ s.commands) {before own after : List Parameter}
    (hsplit : rpc.responseParameters = before ++ (own ++ after)) (hown : ResponsesOf c own)
    (hothers : ∀ p, p ∈ before ∨ p ∈ after → c.id ≠ p.id) {ns : List ℕ}
    (hlen : ns.length = c.responseParameters.length) {b : UInt8} (hb : (b.toNat : ℤ) = c.id) (n : UInt8) :
    disassembleResponsePacket (b :: n :: c.responsePayload ns) rpc =
      ({ rpc with responseParameters := before ++ ((own.zip ns).map Field.decoded ++ after) }, .ok ()) := by
  have hfields : ∀ f ∈ own.zip ns, Field.Integer c.id f := fun f hf => hown.integer hs hc hf
  have hread := decodeParameters_fields hfields [] [] after
  simp only [hown.flatMap_encode, map_fst_fields hown hlen, List.append_nil, List.nil_append, List.length_nil,
    Nat.zero_add] at hread
  have hafter := decodeParameters_skip (fun p hp => hothers p (Or.inr hp)) (c.responsePayload ns)
    (c.responsePayload ns).length []
  rw [List.append_nil] at hafter
  have hdec : decodeParameters c.id (c.responsePayload ns) 0 rpc.responseParameters =
      (before ++ ((own.zip ns).map Field.decoded ++ after), .ok ()) := by
    rw [hsplit, decodeParameters_skip (fun p hp => hothers p (Or.inl hp)), hread, hafter]
    simp only [decodeParameters, List.append_nil]
  rw [disassembleResponsePacket, hb, hdec]

/-- **Responses.** Numbers laid out in schema order are decoded, in any state; other responses keep their values. -/
theorem disassemble_spec (F : Type) [PyFloat F] (hs : ScalarSchema s) (hc : c ∈ s.commands) (hrpc : rpc.Of s)
    {ns : List ℕ} (hlen : ns.length = c.responseParameters.length) {b : UInt8} (hb : (b.toNat : ℤ) = c.id)
    (n : UInt8) :
    ∃ rpc', disassembleResponsePacket (b :: n :: c.responsePayload ns) rpc = (rpc', .ok ()) ∧ rpc'.Of s ∧
      (∀ pn ∈ c.responseParameters.zip ns, getRpcResponseParameterValue (F := F) c.name pn.1.name rpc' =
        .ok (.scalar (.int (pn.2 % 256 ^ pn.1.type.bytes : ℕ)))) ∧
      ∀ c' ∈ s.commands, c'.id ≠ c.id → ∀ p ∈ c'.responseParameters,
        getRpcResponseParameterValue (F := F) c'.name p.name rpc' =
          getRpcResponseParameterValue c'.name p.name rpc := by
  obtain ⟨before, own, after, hsplit, hown, hothers⟩ := response_segment hs hc hrpc
  have hown' := hown.decoded hlen
  refine ⟨_, disassemble_own hs hc hsplit hown (fun p hp => (hothers p hp).1) hlen hb n, ?_, ?_, ?_⟩
  · refine hrpc.congr rfl ?_ rfl
    have hdecoded : ((own.zip ns).map Field.decoded).map Parameter.shape = own.map Parameter.shape :=
      Eq.trans hown' hown.symm
    simp only [hsplit, List.map_append, hdecoded]
  · intro pn hpn
    obtain ⟨f, hf, hshape, hn⟩ := hown.exists_field hpn
    have hname : f.decoded.name = responseName c.name pn.1.name :=
      Parameter.name_of_shape (q := responseEntry c pn.1) hshape
    have htype : f.1.parameterType = pn.1.type := Parameter.parameterType_of_shape (q := responseEntry c pn.1) hshape
    have hnone : ∀ ps : List Parameter, (∀ p ∈ ps, p ∈ before ∨ p ∈ after) →
        ps.filter (·.name = responseName c.name pn.1.name) = [] := fun ps hps =>
      filter_name_eq_nil fun p hp => (hothers p (hps p hp)).2 pn.1.name
    have hsingle : (before ++ ((own.zip ns).map Field.decoded ++ after)).filter
        (·.name = responseName c.name pn.1.name) = [f.decoded] := by
      rw [List.filter_append, List.filter_append, hnone before fun p hp => Or.inl hp,
        hnone after fun p hp => Or.inr hp, ← hname, filter_name_of_nodup (hown'.nodup hs hc) (List.mem_map_of_mem hf)]
      rfl
    rw [getRpcResponseParameterValue, literalNamed_of_filter F hsingle, ← hn, ← htype]
    exact literalEval_toString _
  · intro c' hc' hid p hp
    refine literalNamed_congr F ?_
    have hnone : ∀ os, ResponsesOf c os → os.filter (·.name = responseName c'.name p.name) = [] := fun os hos =>
      filter_name_eq_nil fun o ho => hos.name_ne hs hc hc' hid ho p.name
    simp only [hsplit, List.filter_append, hnone own hown, hnone _ hown']

end Responses

/-! ## Both ways -/

theorem eq_of_mem_zip {α β γ : Type} {f : α → γ} {g : β → γ} {as : List α} {bs : List β}
    (h : as.map f = bs.map g) {ab : α × β} (hab : ab ∈ as.zip bs) : f ab.1 = g ab.2 := by
  induction as generalizing bs with
  | nil => cases hab
  | cons a as ih =>
    cases bs with
    | nil => cases hab
    | cons b bs =>
      rw [List.map_cons, List.map_cons, List.cons.injEq] at h
      rcases List.mem_cons.mp hab with rfl | hab
      · exact h.1
      · exact ih h.2 hab

/-- The residues a request carries. -/
def CommandSchema.residues (c : CommandSchema) (v : String → ℤ) : List ℕ :=
  c.requestParameters.map fun p => p.type.residue (v p.name)

/-- With the same types, a request's payload is the payload of a response of its residues. -/
theorem responsePayload_residues {c : CommandSchema}
    (h : c.responseParameters.map ParameterSchema.type = c.requestParameters.map ParameterSchema.type)
    (v : String → ℤ) : c.responsePayload (c.residues v) = c.payload v := by
  let encode (tn : ParameterType × ℕ) : Bytes := BigEndian.encode tn.1.bytes tn.2
  calc c.responsePayload (c.residues v)
      = ((c.responseParameters.map ParameterSchema.type).zip (c.residues v)).flatMap encode := by
        rw [List.zip_map_left, List.flatMap_map]; rfl
    _ = (c.requestParameters.map fun p => (p.type, p.type.residue (v p.name))).flatMap encode := by
        rw [h, CommandSchema.residues, List.zip_map']
    _ = c.payload v := by rw [List.flatMap_map]; rfl

/-- The packet passes the checks of `send_command`. -/
theorem checkCommand_packet {c : CommandSchema} (hwidth : c.totalWidth ≤ 200) (v : String → ℤ) :
    checkCommand (c.packet v) = .ok () := by
  have hlen := c.length_payload v
  refine checkCommand_ok.mpr ⟨⟨?_, ?_⟩, ?_⟩
  · simp [CommandSchema.packet]
  · have hmod : c.totalWidth % 256 = c.totalWidth := Nat.mod_eq_of_lt (by omega)
    simp [CommandSchema.packet, hlen, hmod]
  · simp only [CommandSchema.packet, List.length_cons, hlen, maxPacketLength, maxPayloadLength]
    omega

/-- **Scalar integers survive the wire.** Whatever integers the setter is given, the packet is the id, the width and
the residues, and passes the checks; decoded as a response of the same types, it gives the residues back, and no other
command's response changes. -/
theorem scalar_wire_round_trip (F : Type) [PyFloat F] (s : Schema) (hs : ScalarSchema s) (c : CommandSchema)
    (hc : c ∈ s.commands) (hne : c.requestParameters ≠ []) (hwidth : c.totalWidth ≤ 200) (rpc : Rpc) (hrpc : rpc.Of s)
    (calls : List (String × ℤ)) (v : String → ℤ) (hcalls : Assigns c calls v) :
    ∃ rpc', setRequests F c.name calls rpc = .ok rpc' ∧ formCommandPacket c.name rpc' = .ok (c.packet v) ∧
      checkCommand (c.packet v) = .ok () ∧
      (c.responseParameters.map ParameterSchema.type = c.requestParameters.map ParameterSchema.type →
        ∃ rpc'', disassembleResponsePacket (c.packet v) rpc' = (rpc'', .ok ()) ∧
          (∀ qp ∈ c.responseParameters.zip c.requestParameters,
            getRpcResponseParameterValue (F := F) c.name qp.1.name rpc'' =
              .ok (.scalar (.int (qp.2.type.residue (v qp.2.name))))) ∧
          ∀ c' ∈ s.commands, c'.id ≠ c.id → ∀ p ∈ c'.responseParameters,
            getRpcResponseParameterValue (F := F) c'.name p.name rpc'' =
              getRpcResponseParameterValue c'.name p.name rpc') := by
  obtain ⟨rpc', hset, hof, _, hform⟩ := form_spec F hs hc hne (by omega) hrpc hcalls
  refine ⟨rpc', hset, hform, checkCommand_packet hwidth v, ?_⟩
  intro htypes
  have hlen : (c.residues v).length = c.responseParameters.length := by
    have := congrArg List.length htypes
    simpa [CommandSchema.residues] using this.symm
  have hid : ((UInt8.ofNat c.id.toNat).toNat : ℤ) = c.id := by
    have := hs.idRange c hc
    rw [UInt8.toNat_ofNat']
    omega
  obtain ⟨rpc'', hdis, _, hget, hothers⟩ := disassemble_spec F hs hc hof hlen hid (UInt8.ofNat c.totalWidth)
  rw [responsePayload_residues htypes] at hdis
  refine ⟨rpc'', hdis, ?_, hothers⟩
  intro qp hqp
  have hmem : (qp.1, qp.2.type.residue (v qp.2.name)) ∈ c.responseParameters.zip (c.residues v) := by
    rw [CommandSchema.residues, List.zip_map_right]
    exact List.mem_map.mpr ⟨qp, hqp, rfl⟩
  have hmod := Nat.mod_eq_of_lt (ParameterType.residue_lt qp.2.type (v qp.2.name))
  rw [hget _ hmem, eq_of_mem_zip htypes hqp, hmod]

/-- A command that answers with what it is sent. -/
def echo : CommandSchema where
  id := 7
  name := "echo"
  requestParameters := [⟨"a", .uint8, false, none⟩, ⟨"b", .int16, false, none⟩]
  responseParameters := [⟨"x", .uint8, false, none⟩, ⟨"y", .int16, false, none⟩]

/-- The host that has read it. -/
def echoRpc : Rpc where
  requestParameters := echo.requestParameters.map (requestParameterValue echo)
  responseParameters := echo.responseParameters.map (responseEntry echo)
  notificationParameters := []

/-- The values 257 and -2, sent as 1 and 65534. -/
theorem scalar_wire_round_trip_echo :
    ∃ rpc, setRequests Empty "echo" [("a", 3), ("b", -2), ("a", 257)] echoRpc = .ok rpc ∧
      formCommandPacket "echo" rpc = .ok [7, 3, 1, 255, 254] := by
  have hs : ScalarSchema ⟨[echo], []⟩ := ⟨by decide, by decide, by decide, by decide, by decide⟩
  have hrpc : echoRpc.Of ⟨[echo], []⟩ := ⟨⟨echoRpc, rfl, rfl, rfl, rfl⟩⟩
  let v (parameter : String) : ℤ := if parameter = "a" then 257 else -2
  have hcalls : Assigns echo [("a", 3), ("b", -2), ("a", 257)] v := ⟨by decide, by decide⟩
  obtain ⟨rpc, hset, hform, _⟩ := scalar_wire_round_trip Empty _ hs echo List.mem_cons_self (by decide) (by decide)
    echoRpc hrpc _ v hcalls
  have hpacket : echo.packet v = [7, 3, 1, 255, 254] := by decide
  exact ⟨rpc, hset, hpacket ▸ hform⟩

end BleRpc.Host
