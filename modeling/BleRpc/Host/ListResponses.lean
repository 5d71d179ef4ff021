import BleRpc.Host.Decode
import BleRpc.Host.Storage

/-!
# List parameters in a response

The decoder looks up a list's size with a call that lacks an argument, so no response with a list parameter gets
through (`list_response_raises`), however it is laid out.
-/

namespace BleRpc.Host

/-- **A list among the parameters of the id raises**, if nothing before it does. -/
theorem decodeParameters_of_list {id : ℤ} {ps : List Parameter} (h : ∃ p ∈ ps, p.id = id ∧ p.isAList = true)
    (payload : Bytes) (index : ℕ) : (decodeParameters id payload index ps).2 ≠ .ok () := by
  induction ps generalizing index with
  | nil =>
    obtain ⟨p, hp, _⟩ := h
    cases hp
  | cons p ps ih =>
    obtain ⟨q, hq, hid, hlist⟩ := h
    unfold decodeParameters
    rcases List.mem_cons.mp hq with rfl | hq
    · rw [if_pos hid.symm, decodeParameter, if_neg (by rw [hlist]; exact Bool.true_eq_false.mp)]
      intro hok
      cases hok
    · have hrest := fun index => ih ⟨q, hq, hid, hlist⟩ index
      split
      · cases hdec : decodeParameter payload index p with
        | error e => intro hok; cases hok
        | ok result => exact hrest result.2
      · exact hrest index

theorem disassemble_of_list {rpc : Rpc} {b : UInt8}
    (h : ∃ p ∈ rpc.responseParameters, p.id = b.toNat ∧ p.isAList = true) (n : UInt8) (payload : Bytes) :
    (disassembleResponsePacket (b :: n :: payload) rpc).2 ≠ .ok () :=
  decodeParameters_of_list h payload 0

/-! ## Responses with lists -/

/-- What a response carries for a parameter. -/
inductive FieldValue
  | number (n : ℕ)
  | numbers (ns : List ℕ)
  deriving DecidableEq

namespace FieldValue

/-- A list for a list, a number for anything else. -/
def Fits (p : ParameterSchema) : FieldValue → Prop
  | number _ => p.isAList = false
  | numbers _ => p.isAList = true

/-- The bytes, most significant first, one element after the other. -/
def encode (t : ParameterType) : FieldValue → Bytes
  | number n => BigEndian.encode t.responseBytes n
  | numbers ns => ns.flatMap (BigEndian.encode t.responseBytes)

/-- The value a getter is to return. -/
def value (F : Type) (t : ParameterType) : FieldValue → Value F
  | number n => .scalar (.int (n % 256 ^ t.responseBytes : ℕ))
  | numbers ns => .list (ns.map fun n => .int (n % 256 ^ t.responseBytes : ℕ))

end FieldValue

/-- A response with a size parameter and, somewhere after it, a list of that size; the other parameters are what they
are. -/
structure ListResponse (c : CommandSchema) (before : List (ParameterSchema × FieldValue)) (size : ParameterSchema)
    (between : List (ParameterSchema × FieldValue)) (list : ParameterSchema) (ns : List ℕ)
    (after : List (ParameterSchema × FieldValue)) : Prop where
  parameters : c.responseParameters =
    (before ++ (size, .number ns.length) :: (between ++ (list, .numbers ns) :: after)).map Prod.fst
  fits : ∀ f ∈ before ++ between ++ after, f.2.Fits f.1
  size_scalar : size.isAList = false
  size_integer : size.type.width ≠ none
  size_range : ns.length < 256 ^ size.type.bytes
  list_list : list.isAList = true
  list_type : list.type.width ≠ none ∨ list.type = .bool
  list_size : list.sizeParameter = some size.name

/-- The bytes of fields in order. -/
def layout (fields : List (ParameterSchema × FieldValue)) : Bytes := fields.flatMap fun f => f.2.encode f.1.type

/-- The response is decoded, and the getters return the size, the elements in order, and what comes after the list. -/
def ListDecoded (F : Type) [PyFloat F] (c : CommandSchema) (size list : ParameterSchema) (ns : List ℕ)
    (after : List (ParameterSchema × FieldValue)) (packet : Bytes) (rpc : Rpc) : Prop :=
  ∃ rpc', disassembleResponsePacket packet rpc = (rpc', .ok ()) ∧
    getRpcResponseParameterValue c.name size.name rpc' = .ok (.scalar (.int ns.length) : Value F) ∧
    getRpcResponseParameterValue c.name list.name rpc' = .ok ((FieldValue.numbers ns).value F list.type) ∧
    ∀ f ∈ after, getRpcResponseParameterValue c.name f.1.name rpc' = .ok (f.2.value F f.1.type)

section

variable {s : Schema} {c : CommandSchema} {rpc : Rpc}

/-- Every response parameter of a command is in the host's list. -/
theorem Rpc.Of.exists_response (hrpc : rpc.Of s) (hc : c ∈ s.commands) {p : ParameterSchema}
    (hp : p ∈ c.responseParameters) : ∃ q ∈ rpc.responseParameters, q.shape = responseEntry c p :=
  exists_parameter_of_nested hrpc.responses hc hp

variable {before between after : List (ParameterSchema × FieldValue)} {size list : ParameterSchema} {ns : List ℕ}

/-- **No response with a list is decoded**, whatever the schema, the other parameters, the list and the bytes. -/
theorem list_response_raises (F : Type) [PyFloat F] (hrpc : rpc.Of s) (hc : c ∈ s.commands)
    (h : ListResponse c before size between list ns after) {b : UInt8} (hb : (b.toNat : ℤ) = c.id) (n : UInt8) :
    ¬ ListDecoded F c size list ns after
      (b :: n :: layout (before ++ (size, .number ns.length) :: (between ++ (list, .numbers ns) :: after))) rpc := by
  rintro ⟨rpc', hdis, _⟩
  have hmem : list ∈ c.responseParameters := by
    rw [h.parameters]
    simp
  obtain ⟨q, hq, hshape⟩ := hrpc.exists_response hc hmem
  have hid : q.id = b.toNat := (Parameter.id_of_shape (q := responseEntry c list) hshape).trans hb.symm
  have hlist : q.isAList = true := (Parameter.isAList_of_shape (q := responseEntry c list) hshape).trans h.list_list
  exact disassemble_of_list ⟨q, hq, hid, hlist⟩ n _ (congrArg Prod.snd hdis)

end

theorem logRpc_of : logRpc.Of ⟨[log], []⟩ := ⟨⟨_, rfl, rfl, rfl, rfl⟩⟩

theorem log_response : ListResponse log [] ⟨"size", .uint8, false, none⟩ []
    ⟨"samples", .uint16, true, some "size"⟩ [1, 515] [] where
  parameters := rfl
  fits := fun f hf => by cases hf
  size_scalar := rfl
  size_integer := by decide
  size_range := by decide
  list_list := rfl
  list_type := Or.inl (by decide)
  list_size := rfl

theorem log_response_not_decoded : ¬ ListDecoded Empty log ⟨"size", .uint8, false, none⟩
    ⟨"samples", .uint16, true, some "size"⟩ [1, 515] [] [3, 5, 2, 0, 1, 2, 3] logRpc :=
  list_response_raises Empty logRpc_of List.mem_cons_self log_response rfl 5

/-- Two elements: the size is stored, and the list raises a `TypeError`. -/
theorem log_response_raises : (disassembleResponsePacket [3, 5, 2, 0, 1, 2, 3] logRpc).2 = .error .typeError ∧
    ¬ ListDecoded Empty log ⟨"size", .uint8, false, none⟩ ⟨"samples", .uint16, true, some "size"⟩ [1, 515] []
      [3, 5, 2, 0, 1, 2, 3] logRpc := by
  have hdis : (disassembleResponsePacket [3, 5, 2, 0, 1, 2, 3] logRpc).2 = .error .typeError := rfl
  refine ⟨hdis, ?_⟩
  rintro ⟨rpc', hok, _⟩
  rw [hok] at hdis
  cases hdis

end BleRpc.Host
