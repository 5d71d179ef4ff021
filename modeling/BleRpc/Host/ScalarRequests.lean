import BleRpc.Host.Encode

/-!
# Scalar parameters in a request

After any calls of the setter for a command with integers, booleans and floats, `form_command_packet` gives a packet
with the command's id to which every parameter has contributed iff all of them are integers, and something is selected
(`scalar_request_encoded_iff`): booleans are read from an attribute that no parameter has, floats are left out, and the
id comes from the first parameter selected.
-/

namespace BleRpc.Host

open Outcome

section Scalars

variable {F : Type} [PyFloat F] {s : Schema} {earlier later : List CommandSchema} {c : CommandSchema}

/-- What a parameter is to add to the payload: an integer its residue, a boolean one byte, a float at least one. -/
def Contributes (t : ParameterType) (value : Value F) (chunk : Bytes) : Prop :=
  match t with
  | .bool | .BOOL => ∃ b, value = .scalar (.bool b) ∧ chunk = [if b then 1 else 0]
  | .float => 1 ≤ chunk.length
  | .other _ => True
  | _ => ∃ n, value.toInt = .ok n ∧ chunk = BigEndian.encode t.bytes (t.residue n)

/-- A value for a parameter of the type: an integer, a boolean, or any scalar for a float. -/
def ParameterType.Admits (t : ParameterType) (value : Value F) : Prop :=
  match t with
  | .bool | .BOOL => ∃ b, value = .scalar (.bool b)
  | .float | .other _ => ∃ x, value = .scalar x
  | _ => ∃ n, value = .scalar (.int n)

/-- After any calls that give every request parameter a value, there is a packet, its first byte is the command's id,
and every parameter contributes at its place. -/
def EncodesAll (F : Type) [PyFloat F] (s : Schema) (c : CommandSchema) : Prop :=
  ∀ (rpc rpc' : Rpc) (calls : List (String × Value F)) (v : String → Value F), rpc.Of s → Sets c calls v →
    (∀ p ∈ c.requestParameters, p.type.Admits (v p.name)) → setRequestValues c.name calls rpc = .ok rpc' →
    ∃ b n chunks, formCommandPacket c.name rpc' = .ok (b :: n :: chunks.flatten) ∧ (b.toNat : ℤ) = c.id ∧
      List.Forall₂ (fun p chunk => Contributes p.type (v p.name) chunk) c.requestParameters chunks

/-- Integers only; what else is selected writes nothing; what is selected first has the command's id, which fits in a
byte. -/
structure Encodes (s : Schema) (others : List CommandSchema) (c : CommandSchema) : Prop where
  integers : ∀ p ∈ c.requestParameters, p.type.width ≠ none
  silent : OthersSilent others c
  first : ∃ entry, s.requests.find? (·.Selected c.name) = some entry ∧ entry.id = c.id
  idRange : 0 ≤ c.id ∧ c.id < 256

/-! ## An assignment -/

/-- A value for any scalar. -/
def ParameterType.default (F : Type) : ParameterType → Scalar F
  | .bool | .BOOL => .bool false
  | _ => .int 0

omit [PyFloat F] in
theorem ParameterType.admits_default (t : ParameterType) : t.Admits (.scalar (t.default F)) := by
  cases t <;> exact ⟨_, rfl⟩

/-- The setter takes it, whatever the type of the parameter. -/
theorem assign_default (t : ParameterType) {q : Parameter} (hscalar : q.isAList = false) :
    ∃ q', q.assign (.scalar (t.default F)) = .ok q' := by
  have htoInt : ∃ n, (t.default F).toInt = .ok n := by cases t <;> exact ⟨_, rfl⟩
  obtain ⟨n, hn⟩ := htoInt
  rw [Parameter.assign, if_pos hscalar]
  have htext : ∃ text, scalarText q.parameterType (.scalar (t.default F)) q.value = .ok text := by
    unfold scalarText
    cases q.parameterType with
    | bool | BOOL | float | other name => exact ⟨_, rfl⟩
    | _ =>
      rw [Value.toInt, hn]
      exact ⟨_, rfl⟩
  obtain ⟨text, htext⟩ := htext
  rw [htext]
  exact ⟨_, rfl⟩

/-- The calls that give every request parameter of the command its default. -/
def defaultCalls (F : Type) (c : CommandSchema) : List (String × Value F) :=
  c.requestParameters.map fun p => (p.name, .scalar (p.type.default F))

omit [PyFloat F] in
theorem lastValue_defaultCalls (hn : (c.requestParameters.map ParameterSchema.name).Nodup) {p : ParameterSchema}
    (hp : p ∈ c.requestParameters) : lastValue (defaultCalls F c) p.name = some (.scalar (p.type.default F)) := by
  have hcomp : (fun call : String × Value F => decide (call.1 = p.name)) ∘
      (fun q : ParameterSchema => (q.name, Value.scalar (q.type.default F))) = fun q => decide (q.name = p.name) := rfl
  rw [lastValue, defaultCalls, List.filter_map, hcomp, filter_key_of_nodup hn hp]
  rfl

/-- There is an assignment from any host of the schema. -/
theorem exists_assignment {rpc : Rpc} {before own after : List Parameter}
    (h : Placed earlier c later rpc.requestParameters before own after) (hr : Reached c later)
    (hscalar : ∀ p ∈ c.requestParameters, p.isAList = false) :
    ∃ calls : List (String × Value F), ∃ v rpc', Sets c calls v ∧
      (∀ p ∈ c.requestParameters, p.type.Admits (v p.name)) ∧ setRequestValues c.name calls rpc = .ok rpc' := by
  let v (name : String) : Value F := (lastValue (defaultCalls F c) name).getD (.scalar (.int 0))
  have hlast : ∀ p ∈ c.requestParameters, v p.name = .scalar (p.type.default F) := by
    intro p hp
    simp only [v, lastValue_defaultCalls hr.own hp, Option.getD_some]
  have hcalls : ∀ call ∈ defaultCalls F c, ∃ p ∈ c.requestParameters, p.name = call.1 ∧
      ∀ q : Parameter, q.shape = requestParameterValue c p → ∃ q', q.assign call.2 = .ok q' := by
    intro call hcall
    obtain ⟨p, hp, rfl⟩ := List.mem_map.mp hcall
    refine ⟨p, hp, rfl, ?_⟩
    intro q hshape
    exact assign_default p.type
      ((Parameter.isAList_of_shape (q := requestParameterValue c p) hshape).trans (hscalar p hp))
  obtain ⟨rpc', hset⟩ := setRequestValues_ok h hr hcalls
  refine ⟨defaultCalls F c, v, rpc', ⟨?_, ?_⟩, ?_, hset⟩
  · intro call hcall
    obtain ⟨p, hp, hname, _⟩ := hcalls call hcall
    exact ⟨p, hp, hname⟩
  · intro p hp
    rw [hlast p hp, lastValue_defaultCalls hr.own hp]
  · intro p hp
    rw [hlast p hp]
    exact p.type.admits_default

/-! ## When every parameter contributes -/

/-- A scalar that takes bytes cannot be encoded before it is set. -/
theorem encodeParameter_of_empty {q : Parameter} (hvalue : q.value = "") {chunk : List ℤ}
    (h : encodeParameter q = .ok chunk) : q.parameterType.bytes = 0 := by
  have hscalar := (encodeParameter_inv h).1.1
  have hempty : pyInt "" = .error (.valueError "invalid literal for int() with base 10: ''") := rfl
  rw [encodeParameter, if_pos hscalar, hvalue, hempty] at h
  cases ht : q.parameterType with
  | bool | BOOL | float | other name => rfl
  | _ =>
    rw [ht] at h
    cases h

theorem length_flatten_eq {α β : Type} {f : α → ℕ} {as : List α} {chunks : List (List β)}
    (h : List.Forall₂ (fun a chunk => f a ≤ chunk.length) as chunks) (hlen : chunks.flatten.length = (as.map f).sum) :
    List.Forall₂ (fun a chunk => f a = chunk.length) as chunks := by
  have hle : ∀ {as : List α} {chunks : List (List β)}, List.Forall₂ (fun a chunk => f a ≤ chunk.length) as chunks →
      (as.map f).sum ≤ chunks.flatten.length := by
    intro as chunks h
    induction h with
    | nil => exact Nat.le_refl _
    | cons h _ ih =>
      rw [List.map_cons, List.sum_cons, List.flatten_cons, List.length_append]
      omega
  induction h with
  | nil => exact .nil
  | cons h hrest ih =>
    have := hle hrest
    rw [List.map_cons, List.sum_cons, List.flatten_cons, List.length_append] at hlen
    exact .cons (by omega) (ih (by omega))

/-- A parameter of a type that is not unknown adds at least the bytes of an integer, a float more. -/
theorem Contributes.length {t : ParameterType} {value : Value F} {chunk : Bytes} (h : Contributes t value chunk) :
    t.bytes ≤ chunk.length ∧ (t = .float → t.bytes < chunk.length) := by
  cases t with
  | float => exact ⟨Nat.zero_le _, fun _ => h⟩
  | bool | BOOL | other name => exact ⟨Nat.zero_le _, by intro h; cases h⟩
  | _ =>
    obtain ⟨n, _, rfl⟩ := h
    exact ⟨(BigEndian.length_encode ..).ge, by intro h; cases h⟩

variable {fresh : Rpc}

/-- The host that has just read the schema holds no values. -/
theorem value_of_read (hread : readRpcParameters s = .ok fresh) {q : Parameter} (hq : q ∈ fresh.requestParameters) :
    q.value = "" := by
  obtain ⟨fresh', hread', hreq, _⟩ := (Rpc.of_read hread).reads
  rw [hread] at hread'
  cases hread'
  have hid : fresh.requestParameters.map Parameter.shape = fresh.requestParameters.map id :=
    hreq.trans (List.map_id _).symm
  exact (congrArg Parameter.value (List.map_inj_left.mp hid q hq)).symm

/-- **If every parameter contributes**, from the host that has just read the schema, the condition holds. -/
theorem Encodes.of_encodesAll (hs : s.commands = earlier ++ c :: later) (hr : Reached c later)
    (hread : readRpcParameters s = .ok fresh)
    (hdom : ∀ p ∈ c.requestParameters, p.isAList = false ∧ ∀ name, p.type ≠ .other name) (h : EncodesAll F s c) :
    Encodes s (earlier ++ later) c := by
  have hrpc := Rpc.of_read hread
  obtain ⟨before, own, after, hplaced⟩ := exists_placed hrpc hs
  obtain ⟨calls, v, rpc', hsets, hv, hset⟩ := exists_assignment (F := F) hplaced hr fun p hp => (hdom p hp).1
  obtain ⟨b, n, chunks, hform, hb, hchunks⟩ := h fresh rpc' calls v hrpc hsets hv hset
  obtain ⟨own', rfl, hplaced', _⟩ := setRequestValues_own hplaced hr hsets.names hset
  have hrpc' := Placed.of hrpc hplaced hplaced'
  obtain ⟨⟨entry, hfirst, hid⟩, hplain, hlen⟩ := formCommandPacket_placed hrpc' hplaced' hform
  -- what is selected of other commands was never set
  have hzero : ∀ q, q ∈ before ∨ q ∈ after → q.Selected c.name → q.parameterType.bytes = 0 := by
    intro q hq hsel
    obtain ⟨chunk, hchunk⟩ := encodeParameter_of_form hform (hplaced'.mem_other hq) hsel
    exact encodeParameter_of_empty (value_of_read hread (hplaced.mem_other hq)) hchunk
  have hnone : ∀ qs : List Parameter, (∀ q ∈ qs, q ∈ before ∨ q ∈ after) →
      bytesOf (qs.filter (·.Selected c.name)) = 0 := by
    intro qs hqs
    apply List.sum_eq_zero_iff_forall_eq_nat.mpr
    intro k hk
    obtain ⟨q, hq, rfl⟩ := List.mem_map.mp hk
    obtain ⟨hq, hsel⟩ := List.mem_filter.mp hq
    exact hzero q (hqs q hq) (of_decide_eq_true hsel)
  have hown : bytesOf own' = (c.requestParameters.map (·.type.bytes)).sum := own_bytes hplaced'.own
  rw [hnone before fun q hq => Or.inl hq, hnone after fun q hq => Or.inr hq, hown, Nat.zero_add, Nat.add_zero] at hlen
  have hexact := length_flatten_eq (hchunks.imp fun p chunk h => h.length.1) hlen
  refine ⟨?_, othersSilent_of_bytes hplaced' hplain hzero, ⟨entry, hfirst, hid.trans hb⟩, ?_⟩
  · intro p hp
    obtain ⟨o, hmem, hshape, hsel⟩ := hplaced'.exists_own hp
    have htype : o.parameterType = p.type := Parameter.parameterType_of_shape (q := requestParameterValue c p) hshape
    obtain ⟨_, hnot⟩ := hplain o hmem hsel
    have hboth := hexact.mp (fun _ _ heq hchunk => And.intro hchunk heq) hchunks
    obtain ⟨chunk, _, hchunk, heq⟩ := exists_of_forall₂ hboth hp
    rw [htype] at hnot
    intro hwidth
    cases ht : p.type with
    | bool => exact hnot.1 ht
    | BOOL => exact hnot.2 ht
    | other name => exact (hdom p hp).2 name ht
    | float =>
      have := hchunk.length.2 ht
      omega
    | _ => rw [ht] at hwidth; cases hwidth
  · have := b.toNat_lt
    omega

/-- **With the condition**, every parameter contributes. -/
theorem Encodes.encodesAll (hs : s.commands = earlier ++ c :: later) (hr : Reached c later)
    (hscalar : ∀ p ∈ c.requestParameters, p.isAList = false) (hwidth : c.totalWidth ≤ 200)
    (h : Encodes s (earlier ++ later) c) : EncodesAll F s c := by
  intro rpc rpc' calls v hrpc hsets hv hset
  obtain ⟨before, own, after, hplaced⟩ := exists_placed hrpc hs
  obtain ⟨own', rfl, hplaced', hlast⟩ := setRequestValues_own hplaced hr hsets.names hset
  have hrpc' := Placed.of hrpc hplaced hplaced'
  have hinteger : ∀ o ∈ own', ∀ p ∈ c.requestParameters, o.shape = requestParameterValue c p →
      o.Encodable ∧ Contributes p.type (v p.name) o.wire := by
    intro o ho p hp hshape
    have hp' := h.integers p hp
    obtain ⟨n, hn⟩ : ∃ n, v p.name = .scalar (.int n) := by
      have hadmits := hv p hp
      cases ht : p.type with
      | bool | BOOL | float | other name => rw [ht] at hp'; exact absurd rfl hp'
      | _ => rw [ht] at hadmits; exact hadmits
    obtain ⟨henc, hwire⟩ := (hlast o ho).integer hsets hp hshape (hscalar p hp) hp' hn
    refine ⟨henc, ?_⟩
    rw [hn, hwire]
    cases ht : p.type with
    | bool | BOOL | float | other name => rw [ht] at hp'; exact absurd rfl hp'
    | _ => exact ⟨n, rfl, rfl⟩
  have henc : ∀ o ∈ own', o.Encodable := by
    intro o ho
    obtain ⟨p, hp, hshape⟩ := exists_entry hplaced'.own ho
    exact (hinteger o ho p hp hshape).1
  have hlen : (own'.flatMap Parameter.wire).length = c.totalWidth := by
    rw [length_flatMap_wire]
    exact own_bytes hplaced'.own
  obtain ⟨entry, hfirst, hid⟩ := h.first
  have hbyte : ((UInt8.ofNat c.id.toNat).toNat : ℤ) = c.id := by
    have := h.idRange
    rw [UInt8.toNat_ofNat']
    omega
  have hform := formCommandPacket_of_silent hrpc' hplaced' h.silent henc hfirst (hid.trans hbyte.symm) (by omega)
  rw [List.flatMap_def] at hform
  refine ⟨_, _, own'.map Parameter.wire, hform, hbyte, ?_⟩
  rw [List.forall₂_map_right_iff]
  exact forall₂_of_shapes hplaced'.own fun p hp o ho hshape => (hinteger o ho p hp hshape).2

/-- **Commands with scalars**: every parameter of a command contributes to its packet, whatever values they are given
and whatever the host holds for others, iff all of them are integers, what else is selected writes nothing, and what is
selected first has the command's id. -/
theorem scalar_request_encoded_iff (hs : s.commands = earlier ++ c :: later) (hr : Reached c later)
    (hread : readRpcParameters s = .ok fresh)
    (hdom : ∀ p ∈ c.requestParameters, p.isAList = false ∧ ∀ name, p.type ≠ .other name)
    (hwidth : c.totalWidth ≤ 200) : EncodesAll F s c ↔ Encodes s (earlier ++ later) c := by
  constructor
  · exact Encodes.of_encodesAll hs hr hread hdom
  · exact Encodes.encodesAll hs hr (fun p hp => (hdom p hp).1) hwidth

end Scalars

/-- Three integers of different widths are encoded, beside a command that has a list and a float of its own. -/
theorem motor_encodes_all : EncodesAll Empty motorSchema motor := by
  have hdom : ∀ p ∈ motor.requestParameters, p.isAList = false ∧ ∀ name, p.type ≠ .other name := by
    intro p hp
    refine ⟨(motor_integers p hp).1, ?_⟩
    rintro name h
    exact (motor_integers p hp).2 (h ▸ rfl)
  exact (scalar_request_encoded_iff motorSchema_commands motor_reached readRpcParameters_motor hdom (by decide)).mpr
    ⟨fun p hp => (motor_integers p hp).2, motor_silent, ⟨_, motor_first, rfl⟩, by decide⟩

/-- Takes a boolean. -/
def lamp : CommandSchema where
  id := 8
  name := "lamp"
  requestParameters := [⟨"on", .bool, false, none⟩]
  responseParameters := []

/-- The host that has read it. -/
def lampRpc : Rpc := ⟨lamp.requestParameters.map (requestParameterValue lamp), [], []⟩

/-- A boolean is set, and encoding it raises. -/
theorem lamp_not_encoded :
    ∃ rpc', setRequestValues (F := Empty) "lamp" [("on", .scalar (.bool true))] lampRpc = .ok rpc' ∧
      formCommandPacket "lamp" rpc' = .error .attributeError ∧ ¬ EncodesAll Empty ⟨[lamp], []⟩ lamp := by
  let p : Parameter := { requestParameterValue lamp ⟨"on", .bool, false, none⟩ with value := "True" }
  have hset : setRequestValues (F := Empty) "lamp" [("on", .scalar (.bool true))] lampRpc = .ok ⟨[p], [], []⟩ := rfl
  have hsel : [p].filter (·.Selected "lamp") = [p] :=
    List.filter_cons_of_pos (decide_eq_true (isInfix_requestName "lamp" "on"))
  have hform : formCommandPacket "lamp" ⟨[p], [], []⟩ = .error .attributeError := by
    rw [formCommandPacket, hsel]
    rfl
  refine ⟨_, hset, hform, ?_⟩
  intro h
  have hrpc : lampRpc.Of ⟨[lamp], []⟩ := ⟨⟨_, rfl, rfl, rfl, rfl⟩⟩
  have hsets : Sets (F := Empty) lamp [("on", .scalar (.bool true))] fun _ => .scalar (.bool true) :=
    ⟨by simp [lamp], by simp [lamp, lastValue]⟩
  have hv : ∀ p ∈ lamp.requestParameters, p.type.Admits (.scalar (.bool true) : Value Empty) := by
    intro p hp
    rw [List.mem_singleton.mp hp]
    exact ⟨true, rfl⟩
  obtain ⟨b, n, chunks, hok, _⟩ := h lampRpc _ _ _ hrpc hsets hv hset
  rw [show lamp.name = "lamp" from rfl, hform] at hok
  cases hok

end BleRpc.Host
