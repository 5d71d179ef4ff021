import BleRpc.Host.Parameters

/-!
# The host's encoder and decoder

`form_command_packet` and `disassemble_response_packet`. The encoder selects parameters by text: those whose full name
contains the command's name. The decoder selects them by id and overwrites them one by one, so that what it returns is
the state it leaves, and whether it raised.

- `encodeParameter_of_width`, `decodeParameter_of_width`: integers are written and read big-endian, whatever the width;
- `formCommandPacket_of_selected`, `decodeParameters_fields`: what the two loops do.
-/

namespace BleRpc.Host

open Outcome

/-! ## `form_command_packet` -/

/-- `command_name in parameter.name` -/
def Parameter.Selected (command : String) (p : Parameter) : Prop := command.toList <:+: p.name.toList

instance (command : String) (p : Parameter) : Decidable (p.Selected command) :=
  inferInstanceAs (Decidable (_ <:+: _))

/-- A command's own parameters are selected. -/
theorem isInfix_requestName (command parameter : String) :
    command.toList <:+: (requestName command parameter).toList := by
  rw [requestName, String.toList_append, String.toList_append, List.append_assoc]
  exact (List.prefix_append _ _).isInfix

/-- What a parameter appends to the packet. The boolean and the list branches read `parameter.parameter_value`, which
no parameter has. -/
def encodeParameter (p : Parameter) : Except PyErr (List ℤ) :=
  if p.isAList = false then
    match p.parameterType with
    | .uint8 | .int8 => do
      let v ← pyInt p.value
      return [v % 256]
    | .uint16 | .int16 => do
      let v ← pyInt p.value
      return [(v >>> (8 : ℕ)) % 256, v % 256]
    | .uint32 | .int32 => do
      let v ← pyInt p.value
      return [(v >>> (24 : ℕ)) % 256, (v >>> (16 : ℕ)) % 256, (v >>> (8 : ℕ)) % 256, v % 256]
    | .bool | .BOOL => .error .attributeError
    | .float | .other _ => .ok []
  else .error .attributeError

/-- `bytes` of a list of integers. -/
def pyBytes (xs : List ℤ) : Except PyErr Bytes :=
  xs.mapM fun x =>
    if 0 ≤ x ∧ x < 256 then .ok (UInt8.ofNat x.toNat) else .error (.valueError "bytes must be in range(0, 256)")

def formCommandPacket (command : String) (rpc : Rpc) : Except PyErr Bytes := do
  let commandParameters := rpc.requestParameters.filter (·.Selected command)
  let chunks ← commandParameters.mapM encodeParameter
  let packet := chunks.flatten
  match commandParameters.head? with
  | none => .error .indexError
  | some first => pyBytes (first.id :: (packet.length : ℤ) :: packet)

/-! ## `disassemble_response_packet` -/

/-- `packet[index]` -/
def byteAt (packet : Bytes) (index : ℕ) : Except PyErr ℕ :=
  match packet[index]? with
  | some b => .ok b.toNat
  | none => .error .indexError

/-- The body of the second loop: the parameter afterwards, and the index. The list branch calls a function of two
arguments with one. -/
def decodeParameter (payload : Bytes) (index : ℕ) (p : Parameter) : Except PyErr (Parameter × ℕ) :=
  if p.isAList = false then
    match p.parameterType with
    | .uint8 | .int8 | .bool | .BOOL => do
      let b ← byteAt payload index
      return (p.set b, index + 1)
    | .uint16 | .int16 => do
      let b₀ ← byteAt payload index
      let b₁ ← byteAt payload (index + 1)
      return (p.set (b₀ <<< 8 ||| b₁), index + 2)
    | .uint32 | .int32 => do
      let b₀ ← byteAt payload index
      let b₁ ← byteAt payload (index + 1)
      let b₂ ← byteAt payload (index + 2)
      let b₃ ← byteAt payload (index + 3)
      return (p.set (b₀ <<< 24 ||| b₁ <<< 16 ||| b₂ <<< 8 ||| b₃), index + 4)
    | .float | .other _ => .ok (p, index)
  else .error .typeError

/-- The second loop over the parameters with the packet's id, in place. -/
def decodeParameters (id : ℤ) (payload : Bytes) : ℕ → List Parameter → List Parameter × Except PyErr Unit
  | _, [] => ([], .ok ())
  | index, p :: ps =>
    if id = p.id then
      match decodeParameter payload index p with
      | .error e => (p :: ps, .error e)
      | .ok (p', index') =>
        let (ps', result) := decodeParameters id payload index' ps
        (p' :: ps', result)
    else
      let (ps', result) := decodeParameters id payload index ps
      (p :: ps', result)

/-- The state afterwards, and whether an exception was raised. -/
def disassembleResponsePacket (packet : Bytes) (rpc : Rpc) : Rpc × Except PyErr Unit :=
  match packet with
  | id :: _ :: payload =>
    let (ps, result) := decodeParameters id.toNat payload 0 rpc.responseParameters
    ({ rpc with responseParameters := ps }, result)
  | _ => (rpc, .error .indexError)

/-! ## What the encoder writes -/

/-- `bytes` of bytes. -/
theorem pyBytes_toNat (bs : Bytes) : pyBytes (bs.map fun b => (b.toNat : ℤ)) = .ok bs := by
  induction bs with
  | nil => rfl
  | cons b bs ih =>
    have hb : (0 : ℤ) ≤ (b.toNat : ℤ) ∧ (b.toNat : ℤ) < 256 := by
      have := b.toNat_lt
      omega
    rw [pyBytes] at ih ⊢
    rw [List.map_cons, List.mapM_cons, if_pos hb, ok_bind, ih, ok_bind, Int.toNat_natCast, UInt8.ofNat_toNat]
    rfl

/-- A byte of the packet, as the encoder computes it. -/
theorem natCast_mod (n k : ℕ) : ((n : ℤ) >>> k) % 256 = ((UInt8.ofNat (n >>> k)).toNat : ℤ) := by
  rw [← Int.natCast_shiftRight, UInt8.toNat_ofNat']
  omega

/-- **Integers are written big-endian.** -/
theorem encodeParameter_of_width {p : Parameter} {w n : ℕ} (hscalar : p.isAList = false)
    (hw : p.parameterType.width = some w) (hv : p.value = toString n) :
    encodeParameter p = .ok ((BigEndian.encode w n).map fun b => (b.toNat : ℤ)) := by
  have h₀ := natCast_mod n 0
  rw [Nat.shiftRight_zero, Int.shiftRight_zero] at h₀
  rw [encodeParameter, if_pos hscalar, hv]
  cases ht : p.parameterType <;> rw [ht] at hw <;> cases hw
  all_goals simp only [pyInt_toString, ok_bind, natCast_mod, h₀, BigEndian.encode_one, BigEndian.encode_two,
    BigEndian.encode_four]
  all_goals rfl

/-- The bytes a scalar stands for: an integer in big-endian order, of the number its text says; nothing for a float or
an unknown type. -/
def Parameter.wire (p : Parameter) : Bytes :=
  BigEndian.encode p.parameterType.bytes ((Decimal.read p.value.toList).getD 0)

/-- The encoder gets by with the parameter: a scalar, no boolean, and a numeral for an integer. -/
structure Parameter.Encodable (p : Parameter) : Prop where
  scalar : p.isAList = false
  not_bool : p.parameterType ≠ .bool ∧ p.parameterType ≠ .BOOL
  numeral : p.parameterType.width ≠ none → ∃ n : ℕ, p.value = toString n

theorem Parameter.wire_of_width {p : Parameter} {w n : ℕ} (hw : p.parameterType.width = some w)
    (hv : p.value = toString n) : p.wire = BigEndian.encode w n := by
  rw [wire, ParameterType.bytes_of_width hw, hv, Decimal.read_toString, Option.getD_some]

theorem Parameter.length_wire (p : Parameter) : p.wire.length = p.parameterType.bytes := BigEndian.length_encode ..

theorem encodeParameter_ok {p : Parameter} (h : p.Encodable) :
    encodeParameter p = .ok (p.wire.map fun b => (b.toNat : ℤ)) := by
  cases hw : p.parameterType.width with
  | some w =>
    obtain ⟨n, hn⟩ := h.numeral (by rw [hw]; exact Option.some_ne_none w)
    rw [encodeParameter_of_width h.scalar hw hn, Parameter.wire_of_width hw hn]
  | none =>
    have hnil : p.wire = [] := by rw [Parameter.wire, ParameterType.bytes, hw]; rfl
    rw [encodeParameter, if_pos h.scalar, hnil]
    cases ht : p.parameterType with
    | bool => exact absurd ht h.not_bool.1
    | BOOL => exact absurd ht h.not_bool.2
    | float | other name => rfl
    | _ => rw [ht] at hw; cases hw

/-- **The packet**: the first selected parameter's id, the length, and what the selected parameters stand for. -/
theorem formCommandPacket_of_selected {command : String} {rpc : Rpc} {first : Parameter} {rest : List Parameter}
    {b : UInt8} (hsel : rpc.requestParameters.filter (·.Selected command) = first :: rest)
    (henc : ∀ p ∈ first :: rest, p.Encodable) (hid : first.id = b.toNat)
    (hlen : ((first :: rest).flatMap Parameter.wire).length < 256) :
    formCommandPacket command rpc = .ok (b :: UInt8.ofNat ((first :: rest).flatMap Parameter.wire).length ::
      (first :: rest).flatMap Parameter.wire) := by
  have hchunks := mapM_ok fun p hp => encodeParameter_ok (henc p hp)
  have hflat : ((first :: rest).map fun p => p.wire.map fun b => (b.toNat : ℤ)).flatten =
      ((first :: rest).flatMap Parameter.wire).map fun b => (b.toNat : ℤ) := by
    rw [List.map_flatMap, List.flatMap_def]
  simp only [formCommandPacket, hsel, hchunks, ok_bind, hflat, List.head?_cons, List.length_map, hid]
  generalize (first :: rest).flatMap Parameter.wire = payload at hlen
  have hn : (payload.length : ℤ) = ((UInt8.ofNat payload.length).toNat : ℤ) := by
    rw [UInt8.toNat_ofNat']
    omega
  rw [hn]
  exact pyBytes_toNat (b :: UInt8.ofNat payload.length :: payload)

theorem pyBytes_inv {xs : List ℤ} {bs : Bytes} (h : pyBytes xs = .ok bs) : xs = bs.map fun b => (b.toNat : ℤ) := by
  induction xs generalizing bs with
  | nil => cases h; rfl
  | cons x xs ih =>
    rw [pyBytes, List.mapM_cons, bind_eq_ok] at h
    obtain ⟨b, hb, h⟩ := h
    obtain ⟨cs, hcs, h⟩ := bind_eq_ok.mp h
    cases h
    by_cases hx : 0 ≤ x ∧ x < 256
    · rw [if_pos hx] at hb
      cases hb
      rw [List.map_cons, ← ih hcs, UInt8.toNat_ofNat']
      congr 1
      omega
    · rw [if_neg hx] at hb
      cases hb

/-- A parameter that was encoded is a scalar and no boolean, and takes its width. -/
theorem encodeParameter_inv {p : Parameter} {chunk : List ℤ} (h : encodeParameter p = .ok chunk) :
    (p.isAList = false ∧ p.parameterType ≠ .bool ∧ p.parameterType ≠ .BOOL) ∧
      chunk.length = p.parameterType.bytes := by
  by_cases hscalar : p.isAList = false
  · rw [encodeParameter, if_pos hscalar] at h
    cases ht : p.parameterType with
    | bool | BOOL => rw [ht] at h; cases h
    | float | other name => rw [ht] at h; cases h; exact ⟨⟨hscalar, nofun, nofun⟩, rfl⟩
    | _ =>
      rw [ht] at h
      obtain ⟨v, _, h⟩ := bind_eq_ok.mp h
      cases h
      exact ⟨⟨hscalar, nofun, nofun⟩, rfl⟩
  · rw [encodeParameter, if_neg hscalar] at h
    cases h

/-- A packet that was formed has its header. -/
theorem exists_header {command : String} {rpc : Rpc} {packet : Bytes} (h : formCommandPacket command rpc = .ok packet) :
    ∃ b n payload, packet = b :: n :: payload := by
  obtain ⟨chunks, _, h⟩ := bind_eq_ok.mp h
  cases hfirst : (rpc.requestParameters.filter (·.Selected command)).head? with
  | none =>
    rw [hfirst] at h
    cases h
  | some first =>
    rw [hfirst] at h
    have hbytes := congrArg List.length (pyBytes_inv h)
    rw [List.length_cons, List.length_cons, List.length_map] at hbytes
    match packet, hbytes with
    | b :: n :: payload, _ => exact ⟨b, n, payload, rfl⟩

/-- What is known of a packet that was formed. -/
theorem formCommandPacket_inv {command : String} {rpc : Rpc} {b n : UInt8} {payload : Bytes}
    (h : formCommandPacket command rpc = .ok (b :: n :: payload)) :
    ∃ first rest, rpc.requestParameters.filter (·.Selected command) = first :: rest ∧ first.id = b.toNat ∧
      (∀ p ∈ first :: rest, p.isAList = false ∧ p.parameterType ≠ .bool ∧ p.parameterType ≠ .BOOL) ∧
      payload.length = n.toNat ∧ payload.length = ((first :: rest).map (·.parameterType.bytes)).sum := by
  unfold formCommandPacket at h
  obtain ⟨chunks, hchunks, h⟩ := bind_eq_ok.mp h
  generalize hsel : rpc.requestParameters.filter (·.Selected command) = selected at h hchunks
  cases selected with
  | nil => cases h
  | cons first rest =>
    have hbytes := pyBytes_inv h
    simp only [List.map_cons, List.cons.injEq] at hbytes
    obtain ⟨hid, hn, hpayload⟩ := hbytes
    have hlen := congrArg List.length hpayload
    rw [List.length_map] at hlen
    refine ⟨first, rest, rfl, hid, ?_, by omega, ?_⟩
    · intro p hp
      obtain ⟨chunk, _, hchunk⟩ := mapM_inv_mem hchunks hp
      exact (encodeParameter_inv hchunk).1
    · rw [← hlen, List.length_flatten]
      exact congrArg List.sum (mapM_inv_map hchunks fun p chunk hchunk => (encodeParameter_inv hchunk).2)

/-! ## What the decoder reads -/

theorem byteAt_append (pre bs : Bytes) (i : ℕ) : byteAt (pre ++ bs) (pre.length + i) = byteAt bs i := by
  rw [byteAt, byteAt, List.getElem?_append_right (Nat.le_add_right _ _), Nat.add_sub_cancel_left]

/-- **Integers are read big-endian.** -/
theorem decodeParameter_of_width {p : Parameter} {w : ℕ} (n : ℕ) (pre post : Bytes) (hscalar : p.isAList = false)
    (hw : p.parameterType.width = some w) :
    decodeParameter (pre ++ (BigEndian.encode w n ++ post)) pre.length p =
      .ok (p.set (n % 256 ^ w), pre.length + w) := by
  have h₀ := fun bs : Bytes => byteAt_append pre bs 0
  rw [Nat.add_zero] at h₀
  rw [decodeParameter, if_pos hscalar, ← BigEndian.decode_encode]
  cases ht : p.parameterType <;> rw [ht] at hw <;> cases hw
  all_goals simp only [h₀, byteAt_append, BigEndian.encode_one, BigEndian.encode_two, BigEndian.encode_four,
    BigEndian.decode_one, BigEndian.decode_two, BigEndian.decode_four]
  all_goals rfl

/-- Parameters of other responses are passed over. -/
theorem decodeParameters_skip {id : ℤ} {ps : List Parameter} (h : ∀ p ∈ ps, id ≠ p.id) (payload : Bytes) (index : ℕ)
    (qs : List Parameter) : decodeParameters id payload index (ps ++ qs) =
      (ps ++ (decodeParameters id payload index qs).1, (decodeParameters id payload index qs).2) := by
  induction ps with
  | nil => rfl
  | cons p ps ih =>
    rw [List.cons_append, decodeParameters, if_neg (h p List.mem_cons_self),
      ih fun q hq => h q (List.mem_cons_of_mem _ hq)]
    rfl

/-- A field of a response: the parameter and the number sent for it. -/
abbrev Field := Parameter × ℕ

/-- The field's bytes. -/
def Field.encode (f : Field) : Bytes := BigEndian.encode f.1.parameterType.bytes f.2

/-- The parameter after the field was read. -/
def Field.decoded (f : Field) : Parameter := f.1.set (f.2 % 256 ^ f.1.parameterType.bytes)

/-- The parameter is an integer of the response with this id. -/
structure Field.Integer (id : ℤ) (f : Field) : Prop where
  scalar : f.1.isAList = false
  width : f.1.parameterType.width ≠ none
  id : f.1.id = id

/-- **Fields laid out in order are read in order.** -/
theorem decodeParameters_fields {id : ℤ} {fields : List Field} (h : ∀ f ∈ fields, f.Integer id) (pre post : Bytes)
    (qs : List Parameter) :
    decodeParameters id (pre ++ (fields.flatMap Field.encode ++ post)) pre.length (fields.map Prod.fst ++ qs) =
      (fields.map Field.decoded ++
        (decodeParameters id (pre ++ (fields.flatMap Field.encode ++ post))
          (pre.length + (fields.flatMap Field.encode).length) qs).1,
        (decodeParameters id (pre ++ (fields.flatMap Field.encode ++ post))
          (pre.length + (fields.flatMap Field.encode).length) qs).2) := by
  induction fields generalizing pre with
  | nil => rfl
  | cons f fields ih =>
    obtain ⟨hscalar, hwidth, hid⟩ := h f List.mem_cons_self
    obtain ⟨w, hw⟩ := Option.ne_none_iff_exists'.mp hwidth
    have hbytes := ParameterType.bytes_of_width hw
    have hlen : f.encode.length = w := by rw [Field.encode, BigEndian.length_encode, hbytes]
    have hdec : decodeParameter (pre ++ ((f :: fields).flatMap Field.encode ++ post)) pre.length f.1 =
        .ok (f.decoded, (pre ++ f.encode).length) := by
      rw [List.flatMap_cons, List.append_assoc, List.length_append, hlen, Field.decoded, Field.encode, hbytes]
      exact decodeParameter_of_width f.2 pre _ hscalar hw
    have hih := ih (fun g hg => h g (List.mem_cons_of_mem _ hg)) (pre ++ f.encode)
    have hsplit : pre ++ ((f :: fields).flatMap Field.encode ++ post) =
        pre ++ f.encode ++ (fields.flatMap Field.encode ++ post) := by
      simp only [List.flatMap_cons, List.append_assoc]
    have hindex : pre.length + ((f :: fields).flatMap Field.encode).length =
        (pre ++ f.encode).length + (fields.flatMap Field.encode).length := by
      simp only [List.flatMap_cons, List.length_append, Nat.add_assoc]
    rw [List.map_cons, List.cons_append, decodeParameters, if_pos hid.symm, hdec, hindex]
    simp only [hsplit, hih]
    rfl

end BleRpc.Host
