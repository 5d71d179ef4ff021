import BleRpc.Host.Codec
import Mathlib.Data.List.Nodup

/-!
# The decoder on any bytes

What `disassemble_response_packet` does with a packet that need not be a response of the schema: too short, too long,
of another length than its header says, or of an unknown id.

- `decodeParameter_of_scalar`: a field is read if it lies within the payload, and raises otherwise;
- `decodeParameters_eq`: the loop replaces the fields before the first that does not lie within the payload
  (`readFields`), and raises iff there is one;
- `response_accepted_iff`: which packets are accepted and rejected as they should be;
- `all_or_nothing_iff`: when a packet that raises has changed nothing.
-/

namespace BleRpc.Host

open Outcome

/-! ## One field -/

/-- The bytes the decoder takes for a scalar of this type. -/
def ParameterType.responseBytes : ParameterType → ℕ
  | .bool | .BOOL => 1
  | t => t.bytes

theorem ParameterType.responseBytes_of_width {t : ParameterType} {w : ℕ} (h : t.width = some w) :
    t.responseBytes = w := by
  cases t <;> cases h <;> rfl

/-- `n` bytes of the payload. -/
def slice (payload : Bytes) (index n : ℕ) : Bytes := (payload.drop index).take n

/-- A parameter after its bytes were read; a float or an unknown type keeps its value. -/
def Parameter.read (bs : Bytes) (p : Parameter) : Parameter :=
  if p.parameterType.responseBytes = 0 then p else p.set (BigEndian.decode bs)

@[simp] theorem Parameter.read_shape (bs : Bytes) (p : Parameter) : (p.read bs).shape = p.shape := by
  unfold Parameter.read
  split <;> rfl

theorem byteAt_of_lt {payload : Bytes} {index : ℕ} (h : index < payload.length) :
    byteAt payload index = .ok payload[index].toNat := by
  rw [byteAt, List.getElem?_eq_getElem h]

theorem byteAt_of_le {payload : Bytes} {index : ℕ} (h : payload.length ≤ index) :
    byteAt payload index = .error .indexError := by
  rw [byteAt, List.getElem?_eq_none h]

theorem slice_succ {payload : Bytes} {index : ℕ} (h : index < payload.length) (n : ℕ) :
    slice payload index (n + 1) = payload[index] :: slice payload (index + 1) n := by
  rw [slice, List.drop_eq_getElem_cons h, List.take_succ_cons, slice]

theorem slice_zero (payload : Bytes) (index : ℕ) : slice payload index 0 = [] := List.take_zero

section Fields

variable {α : Type} (f : ℕ → α) (payload : Bytes) (index : ℕ)

theorem read_one : (do let b ← byteAt payload index; return f b) =
    if index + 1 ≤ payload.length then .ok (f (BigEndian.decode (slice payload index 1))) else .error .indexError := by
  by_cases h : index + 1 ≤ payload.length
  · rw [if_pos h, byteAt_of_lt (by omega), slice_succ (by omega), slice_zero, BigEndian.decode_one]
    rfl
  · rw [if_neg h, byteAt_of_le (by omega)]
    rfl

theorem read_two : (do
      let b₀ ← byteAt payload index
      let b₁ ← byteAt payload (index + 1)
      return f (b₀ <<< 8 ||| b₁)) =
    if index + 2 ≤ payload.length then .ok (f (BigEndian.decode (slice payload index 2))) else .error .indexError := by
  by_cases h : index + 2 ≤ payload.length
  · rw [if_pos h, byteAt_of_lt (by omega), byteAt_of_lt (by omega), slice_succ (by omega), slice_succ (by omega),
      slice_zero, BigEndian.decode_two]
    rfl
  · rw [if_neg h]
    by_cases h₀ : index < payload.length
    · rw [byteAt_of_lt h₀, ok_bind, byteAt_of_le (by omega)]
      rfl
    · rw [byteAt_of_le (by omega)]
      rfl

theorem read_four : (do
      let b₀ ← byteAt payload index
      let b₁ ← byteAt payload (index + 1)
      let b₂ ← byteAt payload (index + 2)
      let b₃ ← byteAt payload (index + 3)
      return f (b₀ <<< 24 ||| b₁ <<< 16 ||| b₂ <<< 8 ||| b₃)) =
    if index + 4 ≤ payload.length then .ok (f (BigEndian.decode (slice payload index 4))) else .error .indexError := by
  by_cases h : index + 4 ≤ payload.length
  · rw [if_pos h, byteAt_of_lt (by omega), byteAt_of_lt (by omega), byteAt_of_lt (by omega), byteAt_of_lt (by omega),
      slice_succ (by omega), slice_succ (by omega), slice_succ (by omega), slice_succ (by omega), slice_zero,
      BigEndian.decode_four]
    rfl
  · rw [if_neg h]
    -- the first byte that is missing raises
    by_cases h₀ : index < payload.length
    · rw [byteAt_of_lt h₀, ok_bind]
      by_cases h₁ : index + 1 < payload.length
      · rw [byteAt_of_lt h₁, ok_bind]
        by_cases h₂ : index + 2 < payload.length
        · rw [byteAt_of_lt h₂, ok_bind, byteAt_of_le (by omega)]
          rfl
        · rw [byteAt_of_le (by omega)]
          rfl
      · rw [byteAt_of_le (by omega)]
        rfl
    · rw [byteAt_of_le (by omega)]
      rfl

end Fields

/-- **A field is read iff it lies within the payload.** -/
theorem decodeParameter_of_scalar {p : Parameter} (hscalar : p.isAList = false) {payload : Bytes} {index : ℕ}
    (hindex : index ≤ payload.length) :
    decodeParameter payload index p =
      if index + p.parameterType.responseBytes ≤ payload.length then
        .ok (p.read (slice payload index p.parameterType.responseBytes), index + p.parameterType.responseBytes)
      else .error .indexError := by
  rw [decodeParameter, if_pos hscalar, Parameter.read]
  cases ht : p.parameterType with
  | float | other name => exact (if_pos hindex).symm
  | uint8 | int8 | bool | BOOL => exact read_one (fun n => (p.set n, index + 1)) payload index
  | uint16 | int16 => exact read_two (fun n => (p.set n, index + 2)) payload index
  | uint32 | int32 => exact read_four (fun n => (p.set n, index + 4)) payload index

/-! ## The loop -/

/-- The bytes the decoder takes for parameters one after another. -/
def fieldBytes (ps : List Parameter) : ℕ := (ps.map (·.parameterType.responseBytes)).sum

/-- The parameters of a response id. -/
def withId (id : ℤ) (ps : List Parameter) : List Parameter := ps.filter (·.id = id)

/-- The fields with the id are read from the payload in order, up to the first that does not lie within it. -/
def readFields (id : ℤ) (payload : Bytes) : ℕ → List Parameter → List Parameter
  | _, [] => []
  | index, p :: ps =>
    if id = p.id then
      if index + p.parameterType.responseBytes ≤ payload.length then
        p.read (slice payload index p.parameterType.responseBytes) ::
          readFields id payload (index + p.parameterType.responseBytes) ps
      else p :: ps
    else p :: readFields id payload index ps

section Loop

variable {id : ℤ} {payload : Bytes} {index : ℕ} {p : Parameter} {ps : List Parameter}

@[simp] theorem fieldBytes_cons : fieldBytes (p :: ps) = p.parameterType.responseBytes + fieldBytes ps := rfl

theorem withId_cons_of_eq (h : p.id = id) : withId id (p :: ps) = p :: withId id ps :=
  List.filter_cons_of_pos (decide_eq_true h)

theorem withId_cons_of_ne (h : p.id ≠ id) : withId id (p :: ps) = withId id ps :=
  List.filter_cons_of_neg (by simpa using h)

/-- **The loop on scalars**: it reads fields as long as they lie within the payload, and raises if one does not. -/
theorem decodeParameters_eq (hscalar : ∀ p ∈ ps, p.id = id → p.isAList = false) (hindex : index ≤ payload.length) :
    decodeParameters id payload index ps = (readFields id payload index ps,
      if index + fieldBytes (withId id ps) ≤ payload.length then .ok () else .error .indexError) := by
  induction ps generalizing index with
  | nil =>
    have hpos : index + fieldBytes (withId id []) ≤ payload.length := hindex
    rw [if_pos hpos]
    rfl
  | cons p ps ih =>
    have hrest := fun q hq => hscalar q (List.mem_cons_of_mem _ hq)
    by_cases hid : p.id = id
    · rw [decodeParameters, readFields, if_pos hid.symm, if_pos hid.symm, withId_cons_of_eq hid, fieldBytes_cons,
        decodeParameter_of_scalar (hscalar p List.mem_cons_self hid) hindex]
      by_cases hfits : index + p.parameterType.responseBytes ≤ payload.length
      · rw [if_pos hfits, if_pos hfits, ← Nat.add_assoc]
        simp only [ih hrest hfits]
      · have hno : ¬ index + (p.parameterType.responseBytes + fieldBytes (withId id ps)) ≤ payload.length := by omega
        rw [if_neg hfits, if_neg hfits, if_neg hno]
    · have hne : id ≠ p.id := fun he => hid he.symm
      rw [decodeParameters, readFields, if_neg hne, if_neg hne, withId_cons_of_ne hid]
      simp only [ih hrest hindex]

theorem readFields_shape (id : ℤ) (payload : Bytes) (index : ℕ) (ps : List Parameter) :
    (readFields id payload index ps).map Parameter.shape = ps.map Parameter.shape := by
  induction ps generalizing index with
  | nil => rfl
  | cons p ps ih =>
    unfold readFields
    split
    · split
      · rw [List.map_cons, List.map_cons, Parameter.read_shape, ih]
      · rfl
    · rw [List.map_cons, List.map_cons, ih]

end Loop

/-! ## Packets -/

/-- A packet of an id that has scalars only. -/
theorem disassemble_of_scalar {rpc : Rpc} {b : UInt8}
    (hscalar : ∀ p ∈ rpc.responseParameters, p.id = b.toNat → p.isAList = false) (n : UInt8) (payload : Bytes) :
    disassembleResponsePacket (b :: n :: payload) rpc =
      ({ rpc with responseParameters := readFields b.toNat payload 0 rpc.responseParameters },
        if fieldBytes (withId b.toNat rpc.responseParameters) ≤ payload.length then .ok ()
        else .error .indexError) := by
  have hloop : decodeParameters b.toNat payload 0 rpc.responseParameters = _ :=
    decodeParameters_eq hscalar (Nat.zero_le _)
  rw [Nat.zero_add] at hloop
  rw [disassembleResponsePacket, hloop]

/-- A packet without a header raises, and changes nothing. -/
theorem disassemble_of_short {packet : Bytes} (h : packet.length < 2) (rpc : Rpc) :
    disassembleResponsePacket packet rpc = (rpc, .error .indexError) := by
  match packet, h with
  | [], _ => rfl
  | [_], _ => rfl
  | _ :: _ :: _, h =>
    rw [List.length_cons, List.length_cons] at h
    omega

/-- Every response parameter is a scalar integer. -/
def Schema.ScalarResponses (s : Schema) : Prop :=
  ∀ c ∈ s.commands, ∀ p ∈ c.responseParameters, p.isAList = false ∧ p.type.width ≠ none

instance (s : Schema) : Decidable s.ScalarResponses := inferInstanceAs (Decidable (∀ c ∈ s.commands, _))

/-- The bytes of the response. -/
def CommandSchema.responseWidth (c : CommandSchema) : ℕ := (c.responseParameters.map (·.type.bytes)).sum

section Schema

variable {s : Schema} {rpc : Rpc}

theorem Rpc.Of.integer_of_scalarResponses (hrpc : rpc.Of s) (hs : s.ScalarResponses) {p : Parameter}
    (hp : p ∈ rpc.responseParameters) : p.isAList = false ∧ p.parameterType.width ≠ none := by
  obtain ⟨c, hc, q, hq, hshape⟩ := exists_nested_of_shapes hrpc.responses hp
  obtain ⟨hscalar, hwidth⟩ := hs c hc q hq
  have htype : p.parameterType = q.type := Parameter.parameterType_of_shape (q := responseEntry c q) hshape
  exact ⟨(Parameter.isAList_of_shape (q := responseEntry c q) hshape).trans hscalar, htype ▸ hwidth⟩

/-- The parameters with a command's id take the bytes the schema says. -/
theorem Rpc.Of.fieldBytes_withId (hrpc : rpc.Of s) (hs : s.ScalarResponses)
    (hids : (s.commands.map CommandSchema.id).Nodup) {c : CommandSchema} (hc : c ∈ s.commands) :
    fieldBytes (withId c.id rpc.responseParameters) = c.responseWidth := by
  have hentries : ∀ c' : CommandSchema, ∀ p ∈ c'.responseParameters.map (responseEntry c'), p.id = c'.id := by
    intro c' p hp
    obtain ⟨q, _, rfl⟩ := List.mem_map.mp hp
    rfl
  have hshape := filter_id_shape hentries hc hids hrpc.responses
  have hbytes := map_of_shapes (f := fun p : Parameter => p.parameterType.responseBytes) (fun _ => rfl) hshape
  have hwidth : c.responseParameters.map (fun p => p.type.responseBytes) = c.responseParameters.map (·.type.bytes) := by
    apply List.map_congr_left
    intro p hp
    obtain ⟨w, hw⟩ := Option.ne_none_iff_exists'.mp (hs c hc p hp).2
    rw [ParameterType.responseBytes_of_width hw, ParameterType.bytes_of_width hw]
  exact congrArg List.sum (hbytes.trans hwidth)

/-- No parameters have an id that no command with response parameters has. -/
theorem Rpc.Of.withId_eq_nil (hrpc : rpc.Of s) {id : ℤ}
    (h : ∀ c ∈ s.commands, c.responseParameters ≠ [] → c.id ≠ id) : withId id rpc.responseParameters = [] := by
  apply List.filter_eq_nil_iff.mpr
  intro p hp
  obtain ⟨c, hc, q, hq, hshape⟩ := exists_nested_of_shapes hrpc.responses hp
  have hid : c.id = p.id := Parameter.id_of_shape (p := responseEntry c q) hshape.symm
  rw [decide_eq_true_eq, ← hid]
  exact h c hc (List.ne_nil_of_mem hq)

end Schema

/-! ## Which packets are accepted -/

/-- A header, the id of a command with response parameters, and its width both in byte 1 and as what follows. -/
def WellFormedResponse (s : Schema) (packet : Bytes) : Prop :=
  WellFormed packet ∧ ∃ c ∈ s.commands, c.responseParameters ≠ [] ∧ ((packet.getD 0 0).toNat : ℤ) = c.id ∧
    (packet.getD 1 0).toNat = c.responseWidth

/-- No header; or the id of a command with response parameters, and either too few bytes for them, or as many as they
take with that number in byte 1. -/
def Judged (s : Schema) (packet : Bytes) : Prop :=
  packet.length < 2 ∨ ∃ c ∈ s.commands, c.responseParameters ≠ [] ∧ ((packet.getD 0 0).toNat : ℤ) = c.id ∧
    (packet.length - 2 < c.responseWidth ∨
      packet.length - 2 = c.responseWidth ∧ (packet.getD 1 0).toNat = c.responseWidth)

section Accepted

variable {s : Schema} {c : CommandSchema} {b n : UInt8} {payload : Bytes}

/-- For the id of a command, only that command counts. -/
theorem exists_declared_iff (hids : (s.commands.map CommandSchema.id).Nodup) (hc : c ∈ s.commands)
    (hne : c.responseParameters ≠ []) (hid : (b.toNat : ℤ) = c.id) (P : CommandSchema → Prop) :
    (∃ c' ∈ s.commands, c'.responseParameters ≠ [] ∧ (b.toNat : ℤ) = c'.id ∧ P c') ↔ P c := by
  constructor
  · rintro ⟨c', hc', _, hid', hP⟩
    obtain rfl : c' = c := List.inj_on_of_nodup_map hids hc' hc (hid'.symm.trans hid)
    exact hP
  · intro hP
    exact ⟨c, hc, hne, hid, hP⟩

theorem wellFormedResponse_cons (hids : (s.commands.map CommandSchema.id).Nodup) (hc : c ∈ s.commands)
    (hne : c.responseParameters ≠ []) (hid : (b.toNat : ℤ) = c.id) :
    WellFormedResponse s (b :: n :: payload) ↔ payload.length = c.responseWidth ∧ n.toNat = c.responseWidth := by
  have hdeclared := exists_declared_iff hids hc hne hid fun c' => n.toNat = c'.responseWidth
  have hwf : WellFormed (b :: n :: payload) ↔ n.toNat = payload.length := by
    simp [WellFormed]
  rw [WellFormedResponse, hwf]
  refine (and_congr_right' hdeclared).trans ?_
  omega

theorem judged_cons (hids : (s.commands.map CommandSchema.id).Nodup) (hc : c ∈ s.commands)
    (hne : c.responseParameters ≠ []) (hid : (b.toNat : ℤ) = c.id) :
    Judged s (b :: n :: payload) ↔ payload.length < c.responseWidth ∨
      payload.length = c.responseWidth ∧ n.toNat = c.responseWidth := by
  have hdeclared := exists_declared_iff hids hc hne hid fun c' => payload.length < c'.responseWidth ∨
    payload.length = c'.responseWidth ∧ n.toNat = c'.responseWidth
  have hlen : ¬ (b :: n :: payload).length < 2 := by simp
  rw [Judged, or_iff_right hlen]
  exact hdeclared

/-- **Which packets are judged right**: the decoder accepts exactly the well-formed responses among the packets that
are `Judged`; any other packet is accepted and not well formed. -/
theorem response_accepted_iff (hs : s.ScalarResponses) (hids : (s.commands.map CommandSchema.id).Nodup)
    {rpc : Rpc} (hrpc : rpc.Of s) (packet : Bytes) :
    ((disassembleResponsePacket packet rpc).2 = .ok () ↔ WellFormedResponse s packet) ↔ Judged s packet := by
  by_cases hshort : packet.length < 2
  · rw [disassemble_of_short hshort]
    refine iff_of_true (iff_of_false (by intro h; cases h) ?_) (Or.inl hshort)
    rintro ⟨⟨hlen, _⟩, _⟩
    omega
  obtain ⟨b, n, payload, rfl⟩ : ∃ b n payload, packet = b :: n :: payload := by
    match packet, hshort with
    | b :: n :: payload, _ => exact ⟨b, n, payload, rfl⟩
    | [], h | [_], h => simp at h
  rw [disassemble_of_scalar fun p hp _ => (hrpc.integer_of_scalarResponses hs hp).1]
  by_cases hdeclared : ∃ c ∈ s.commands, c.responseParameters ≠ [] ∧ (b.toNat : ℤ) = c.id
  · obtain ⟨c, hc, hne, hid⟩ := hdeclared
    rw [wellFormedResponse_cons hids hc hne hid, judged_cons hids hc hne hid, hid,
      hrpc.fieldBytes_withId hs hids hc]
    by_cases hfits : c.responseWidth ≤ payload.length
    · simp only [if_pos hfits, true_iff]
      omega
    · have hno : ¬ ((Except.error PyErr.indexError : Except PyErr Unit) = .ok ()) := by intro h; cases h
      simp only [if_neg hfits, hno, false_iff]
      omega
  · -- nothing is read, and nothing is missing
    have hnil : withId b.toNat rpc.responseParameters = [] :=
      hrpc.withId_eq_nil fun c hc hne hid => hdeclared ⟨c, hc, hne, hid.symm⟩
    have hwf : ¬ WellFormedResponse s (b :: n :: payload) := by
      rintro ⟨_, c, hc, hne, hid, _⟩
      exact hdeclared ⟨c, hc, hne, hid⟩
    have hjudged : ¬ Judged s (b :: n :: payload) := by
      rintro (h | ⟨c, hc, hne, hid, _⟩)
      · exact hshort h
      · exact hdeclared ⟨c, hc, hne, hid⟩
    rw [hnil, if_pos (show fieldBytes [] ≤ payload.length from Nat.zero_le _)]
    simp only [true_iff, hwf, hjudged]

end Accepted

/-- Sends a byte and a word. -/
def status : CommandSchema where
  id := 4
  name := "status"
  requestParameters := []
  responseParameters := [⟨"level", .uint8, false, none⟩, ⟨"uptime", .uint16, false, none⟩]

/-- The host that has read it, with values in both. -/
def statusRpc (level uptime : ℕ) : Rpc where
  requestParameters := []
  responseParameters := [(responseEntry status ⟨"level", .uint8, false, none⟩).set level,
    (responseEntry status ⟨"uptime", .uint16, false, none⟩).set uptime]
  notificationParameters := []

theorem statusRpc_of (level uptime : ℕ) : (statusRpc level uptime).Of ⟨[status], []⟩ := ⟨⟨_, rfl, rfl, rfl, rfl⟩⟩

theorem status_response_accepted :
    (disassembleResponsePacket [4, 3, 1, 0, 2] (statusRpc 9 9)).2 = .ok () ↔
      WellFormedResponse ⟨[status], []⟩ [4, 3, 1, 0, 2] :=
  (response_accepted_iff (by decide) (by decide) (statusRpc_of 9 9) [4, 3, 1, 0, 2]).mpr
    (Or.inr ⟨status, List.mem_cons_self, List.cons_ne_nil _ _, rfl, Or.inr ⟨rfl, rfl⟩⟩)

/-- A packet with a byte too many, and neither number in its header, which `response_handler` would not let through. -/
theorem mislabelled_accepted : (disassembleResponsePacket [4, 9, 1, 0, 2, 77] (statusRpc 9 9)).2 = .ok () ∧
    checkResponse [4, 9, 1, 0, 2, 77] ≠ .ok () ∧
    ¬ ((disassembleResponsePacket [4, 9, 1, 0, 2, 77] (statusRpc 9 9)).2 = .ok () ↔
      WellFormedResponse ⟨[status], []⟩ [4, 9, 1, 0, 2, 77]) := by
  have hwf : ¬ WellFormed [4, 9, 1, 0, 2, 77] := by decide
  refine ⟨rfl, fun h => hwf (checkResponse_ok.mp h), ?_⟩
  intro h
  exact hwf (h.mp rfl).1

/-! ## What a packet that raises leaves -/

/-- Every field that lies within the payload is stored as the number in it. -/
def FieldsStored (payload : Bytes) : ℕ → List Parameter → Prop
  | _, [] => True
  | index, p :: ps =>
    (index + p.parameterType.responseBytes ≤ payload.length →
      p.value = toString (BigEndian.decode (slice payload index p.parameterType.responseBytes))) ∧
    FieldsStored payload (index + p.parameterType.responseBytes) ps

/-- A packet that raises changes nothing; after one that does not, every parameter of its id is in the packet and holds
what the packet says. -/
def AllOrNothing (s : Schema) (rpc : Rpc) (packet : Bytes) : Prop :=
  (∀ e, (disassembleResponsePacket packet rpc).2 = .error e → (disassembleResponsePacket packet rpc).1 = rpc) ∧
  ((disassembleResponsePacket packet rpc).2 = .ok () → ∀ c ∈ s.commands, ((packet.getD 0 0).toNat : ℤ) = c.id →
    fieldBytes (withId c.id (disassembleResponsePacket packet rpc).1.responseParameters) ≤ packet.length - 2 ∧
    FieldsStored (packet.drop 2) 0 (withId c.id (disassembleResponsePacket packet rpc).1.responseParameters))

section Stored

variable {id : ℤ} {payload : Bytes} {index : ℕ} {ps : List Parameter}

theorem read_of_integer {p : Parameter} (h : p.parameterType.width ≠ none) (bs : Bytes) :
    p.read bs = p.set (BigEndian.decode bs) := by
  obtain ⟨w, hw⟩ := Option.ne_none_iff_exists'.mp h
  have hpos : w ≠ 0 := by
    intro h0
    rw [h0] at hw
    cases ht : p.parameterType <;> rw [ht] at hw <;> cases hw
  rw [Parameter.read, ParameterType.responseBytes_of_width hw, if_neg hpos]

theorem set_eq_self {p : Parameter} {n : ℕ} : p.set n = p ↔ p.value = toString n := by
  constructor
  · intro h
    exact (congrArg Parameter.value h).symm
  · intro h
    rw [Parameter.set, ← h]

/-- Beyond the end of the payload there is nothing to store. -/
theorem fieldsStored_of_lt (h : payload.length < index) (ps : List Parameter) : FieldsStored payload index ps := by
  induction ps generalizing index with
  | nil => trivial
  | cons p ps ih => exact ⟨fun hle => by omega, ih (by omega)⟩

/-- **The loop leaves every field that lies within the payload stored.** -/
theorem fieldsStored_readFields (hint : ∀ p ∈ ps, p.id = id → p.parameterType.width ≠ none) :
    FieldsStored payload index (withId id (readFields id payload index ps)) := by
  induction ps generalizing index with
  | nil => trivial
  | cons p ps ih =>
    have hrest := fun q hq => hint q (List.mem_cons_of_mem _ hq)
    unfold readFields
    by_cases hid : p.id = id
    · rw [if_pos hid.symm]
      by_cases hfits : index + p.parameterType.responseBytes ≤ payload.length
      · rw [if_pos hfits, read_of_integer (hint p List.mem_cons_self hid), withId_cons_of_eq (p := p.set _) hid]
        exact ⟨fun _ => rfl, ih hrest⟩
      · rw [if_neg hfits, withId_cons_of_eq hid]
        exact ⟨fun h => absurd h hfits, fieldsStored_of_lt (by omega) _⟩
    · rw [if_neg fun he => hid he.symm, withId_cons_of_ne hid]
      exact ih hrest

/-- **The loop changes nothing** iff every field that lies within the payload was stored before. -/
theorem readFields_eq_self (hint : ∀ p ∈ ps, p.id = id → p.parameterType.width ≠ none) :
    readFields id payload index ps = ps ↔ FieldsStored payload index (withId id ps) := by
  induction ps generalizing index with
  | nil => exact iff_of_true rfl trivial
  | cons p ps ih =>
    have hrest := fun q hq => hint q (List.mem_cons_of_mem _ hq)
    unfold readFields
    by_cases hid : p.id = id
    · rw [if_pos hid.symm, withId_cons_of_eq hid, FieldsStored]
      by_cases hfits : index + p.parameterType.responseBytes ≤ payload.length
      · rw [if_pos hfits, read_of_integer (hint p List.mem_cons_self hid), List.cons.injEq, set_eq_self, ih hrest]
        exact and_congr_left' ⟨fun h _ => h, fun h => h hfits⟩
      · rw [if_neg hfits]
        exact iff_of_true rfl ⟨fun h => absurd h hfits, fieldsStored_of_lt (by omega) _⟩
    · rw [if_neg fun he => hid he.symm, withId_cons_of_ne hid, List.cons.injEq, ih hrest]
      exact and_iff_right rfl

theorem fieldBytes_withId_readFields :
    fieldBytes (withId id (readFields id payload index ps)) = fieldBytes (withId id ps) := by
  induction ps generalizing index with
  | nil => rfl
  | cons p ps ih =>
    unfold readFields
    by_cases hid : p.id = id
    · rw [if_pos hid.symm, withId_cons_of_eq hid]
      split
      · have hid' : (p.read (slice payload index p.parameterType.responseBytes)).id = id :=
          (Parameter.id_of_shape (p.read_shape _)).trans hid
        rw [withId_cons_of_eq hid', fieldBytes_cons, fieldBytes_cons, ih,
          Parameter.parameterType_of_shape (p.read_shape _)]
      · rw [withId_cons_of_eq hid]
    · rw [if_neg fun he => hid he.symm, withId_cons_of_ne hid, withId_cons_of_ne hid, ih]

end Stored

/-- **When decoding is all or nothing**: there is no header, or the payload has bytes for every parameter of the id, or
the fields it does have bytes for already hold what it says. -/
theorem all_or_nothing_iff {s : Schema} (hs : s.ScalarResponses) {rpc : Rpc} (hrpc : rpc.Of s) (packet : Bytes) :
    AllOrNothing s rpc packet ↔ packet.length < 2 ∨
      fieldBytes (withId (packet.getD 0 0).toNat rpc.responseParameters) ≤ packet.length - 2 ∨
      FieldsStored (packet.drop 2) 0 (withId (packet.getD 0 0).toNat rpc.responseParameters) := by
  by_cases hshort : packet.length < 2
  · refine iff_of_true ?_ (Or.inl hshort)
    rw [AllOrNothing, disassemble_of_short hshort]
    exact ⟨fun _ _ => rfl, by intro h; cases h⟩
  obtain ⟨b, n, payload, rfl⟩ : ∃ b n payload, packet = b :: n :: payload := by
    match packet, hshort with
    | b :: n :: payload, _ => exact ⟨b, n, payload, rfl⟩
    | [], h | [_], h => simp at h
  have hint : ∀ p ∈ rpc.responseParameters, p.id = (b.toNat : ℤ) → p.parameterType.width ≠ none :=
    fun p hp _ => (hrpc.integer_of_scalarResponses hs hp).2
  have hdis := disassemble_of_scalar (b := b) (fun p hp _ => (hrpc.integer_of_scalarResponses hs hp).1) n payload
  rw [or_iff_right hshort]
  show AllOrNothing s rpc (b :: n :: payload) ↔ fieldBytes (withId b.toNat rpc.responseParameters) ≤ payload.length ∨
    FieldsStored payload 0 (withId b.toNat rpc.responseParameters)
  by_cases hfits : fieldBytes (withId b.toNat rpc.responseParameters) ≤ payload.length
  · refine iff_of_true ?_ (Or.inl hfits)
    rw [AllOrNothing, hdis, if_pos hfits]
    refine ⟨fun e he => absurd he (by intro h; cases h), ?_⟩
    intro _ c _ hid
    have hcid : c.id = (b.toNat : ℤ) := hid.symm
    rw [hcid]
    exact ⟨fieldBytes_withId_readFields.trans_le hfits, fieldsStored_readFields hint⟩
  · rw [or_iff_right hfits, ← readFields_eq_self hint, AllOrNothing, hdis, if_neg hfits]
    constructor
    · rintro ⟨h, _⟩
      exact congrArg Rpc.responseParameters (h _ rfl)
    · intro h
      rw [h]
      exact ⟨fun _ _ => rfl, fun hok => absurd hok (by intro h; cases h)⟩

theorem status_all_or_nothing : AllOrNothing ⟨[status], []⟩ (statusRpc 1 2) [4, 3, 5, 0, 6] :=
  (all_or_nothing_iff (by decide) (statusRpc_of 1 2) [4, 3, 5, 0, 6]).mpr (Or.inr (Or.inl (by decide)))

/-- A response cut after its first field, with the length of what is left in its header: the first value is new, the
second old. -/
theorem torn_response : disassembleResponsePacket [4, 1, 5] (statusRpc 1 2) = (statusRpc 5 2, .error .indexError) ∧
    ¬ AllOrNothing ⟨[status], []⟩ (statusRpc 1 2) [4, 1, 5] := by
  have hdis : disassembleResponsePacket [4, 1, 5] (statusRpc 1 2) = (statusRpc 5 2, .error .indexError) := rfl
  refine ⟨hdis, ?_⟩
  intro h
  have heq : statusRpc 5 2 = statusRpc 1 2 := by
    have h' := h.1 .indexError (congrArg Prod.snd hdis)
    rwa [hdis] at h'
  have hvalue := congrArg (fun rpc : Rpc => rpc.responseParameters.map Parameter.value) heq
  exact absurd hvalue (by decide)

end BleRpc.Host
