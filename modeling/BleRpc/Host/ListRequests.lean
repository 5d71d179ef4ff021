import BleRpc.Host.Encode

/-!
# List parameters in a request

After any calls of the setter for a command with integers and lists, `form_command_packet` gives the values in schema
order, from which the lists are read back, iff there are no lists (`list_request_encoded_iff`): the list branch reads
an attribute that no parameter has.
-/

namespace BleRpc.Host

open Outcome

/-! ## Values and their bytes -/

section Values

variable {F : Type}

/-- The bytes of an element: an integer's residue in big-endian order, a boolean as one byte. -/
def Scalar.wire (t : ParameterType) : Scalar F → Bytes
  | .int v => BigEndian.encode t.bytes (t.residue v)
  | .bool b => [if b then 1 else 0]
  | .float _ => []

def Value.wire (t : ParameterType) : Value F → Bytes
  | .scalar x => x.wire t
  | .list xs => xs.flatMap (Scalar.wire t)

/-- The number an element is sent as. -/
def Scalar.number (t : ParameterType) : Scalar F → ℕ
  | .int v => t.residue v
  | .bool b => if b then 1 else 0
  | .float _ => 0

/-- `n` numbers of `w` bytes each, as the decoder lays out the elements of a list. -/
def numbers (w : ℕ) : ℕ → Bytes → List ℕ
  | 0, _ => []
  | n + 1, bs => BigEndian.decode (bs.take w) :: numbers w n (bs.drop w)

/-- An element is read back from its bytes. -/
theorem ParameterType.Takes.read_wire {t : ParameterType} {x : Scalar F} (h : t.Takes x) :
    (x.wire t).length = t.responseBytes ∧ BigEndian.decode (x.wire t) = x.number t := by
  cases h with
  | bool b h => rcases h with rfl | rfl <;> cases b <;> exact ⟨rfl, rfl⟩
  | int v h =>
    obtain ⟨w, hw⟩ := Option.ne_none_iff_exists'.mp h
    have hmod := Nat.mod_eq_of_lt (t.residue_lt v)
    constructor
    · rw [Scalar.wire, BigEndian.length_encode, ParameterType.bytes_of_width hw,
        ParameterType.responseBytes_of_width hw]
    · rw [Scalar.wire, BigEndian.decode_encode, hmod, Scalar.number]

/-- **A list is read back from its bytes**, whatever follows them. -/
theorem numbers_wire {t : ParameterType} {xs : List (Scalar F)} (h : ∀ x ∈ xs, t.Takes x) (rest : Bytes) :
    numbers t.responseBytes xs.length (xs.flatMap (Scalar.wire t) ++ rest) = xs.map (Scalar.number t) := by
  induction xs with
  | nil => rfl
  | cons x xs ih =>
    obtain ⟨hlen, hread⟩ := (h x List.mem_cons_self).read_wire
    rw [List.length_cons, numbers, List.flatMap_cons, List.append_assoc, List.take_left' hlen, List.drop_left' hlen,
      hread, ih fun y hy => h y (List.mem_cons_of_mem _ hy), List.map_cons]

/-- Integers for scalars, and lists of what their type takes for lists. -/
def ListRequest (c : CommandSchema) (v : String → Value F) : Prop :=
  ∀ p ∈ c.requestParameters,
    (p.isAList = false ∧ p.type.width ≠ none ∧ ∃ n, v p.name = .scalar (.int n)) ∨
      p.isAList = true ∧ (p.type.width ≠ none ∨ p.type = .bool ∨ p.type = .BOOL) ∧
        ∃ xs, v p.name = .list xs ∧ ∀ x ∈ xs, p.type.Takes x

/-- The values of parameters, one after the other. -/
def valuesWire (ps : List ParameterSchema) (v : String → Value F) : Bytes := ps.flatMap fun p => (v p.name).wire p.type

/-- The packet carries the values in schema order, and every list is read back from its place. -/
def ListsEncoded (c : CommandSchema) (v : String → Value F) (rpc : Rpc) : Prop :=
  ∃ b n, formCommandPacket c.name rpc = .ok (b :: n :: valuesWire c.requestParameters v) ∧
    ∀ before p after xs, c.requestParameters = before ++ p :: after → v p.name = .list xs →
      numbers p.type.responseBytes xs.length
        ((valuesWire c.requestParameters v).drop (valuesWire before v).length) = xs.map (Scalar.number p.type)

theorem numbers_valuesWire {c : CommandSchema} {v : String → Value F} (hdom : ListRequest c v)
    {before after : List ParameterSchema} {p : ParameterSchema} {xs : List (Scalar F)}
    (hsplit : c.requestParameters = before ++ p :: after) (hxs : v p.name = .list xs) :
    numbers p.type.responseBytes xs.length ((valuesWire c.requestParameters v).drop (valuesWire before v).length) =
      xs.map (Scalar.number p.type) := by
  have htakes : ∀ x ∈ xs, p.type.Takes x := by
    have hp : p ∈ c.requestParameters := by
      rw [hsplit]
      exact List.mem_append_right _ List.mem_cons_self
    rcases hdom p hp with ⟨_, _, n, hn⟩ | ⟨_, _, ys, hys, htakes⟩
    · rw [hn] at hxs
      cases hxs
    · rw [hys] at hxs
      cases hxs
      exact htakes
  have hwire : valuesWire c.requestParameters v =
      valuesWire before v ++ (xs.flatMap (Scalar.wire p.type) ++ valuesWire after v) := by
    rw [hsplit, valuesWire, List.flatMap_append, List.flatMap_cons, hxs]
    rfl
  rw [hwire, List.drop_left, numbers_wire htakes]

end Values

/-! ## The packet -/

section Lists

variable {F : Type} [PyFloat F] {s : Schema} {earlier later : List CommandSchema} {c : CommandSchema} {rpc : Rpc}
  {own : List Parameter} {calls : List (String × Value F)} {v : String → Value F}

/-- Without lists, the command's parameters hold the values. -/
theorem own_of_scalars (hsets : Sets c calls v) (hdom : ListRequest c v)
    (hno : ∀ p ∈ c.requestParameters, p.isAList = false)
    (h : own.map Parameter.shape = c.requestParameters.map (requestParameterValue c))
    (hlast : ∀ o ∈ own, HoldsLast c.name calls o) :
    (∀ o ∈ own, o.Encodable) ∧ own.flatMap Parameter.wire = valuesWire c.requestParameters v := by
  have hinteger : ∀ o ∈ own, ∀ p ∈ c.requestParameters, o.shape = requestParameterValue c p →
      o.Encodable ∧ o.wire = (v p.name).wire p.type := by
    intro o ho p hp hshape
    rcases hdom p hp with ⟨hscalar, hwidth, n, hn⟩ | ⟨hlist, _⟩
    · rw [hn]
      exact (hlast o ho).integer hsets hp hshape hscalar hwidth hn
    · rw [hno p hp] at hlist
      cases hlist
  have hwire : List.Forall₂ (fun p o => (v p.name).wire p.type = o.wire) c.requestParameters own :=
    forall₂_of_shapes h fun p hp o ho hshape => (hinteger o ho p hp hshape).2.symm
  refine ⟨?_, (flatMap_of_forall₂ hwire).symm⟩
  intro o ho
  obtain ⟨p, hp, hshape⟩ := exists_entry h ho
  exact (hinteger o ho p hp hshape).1

theorem bytes_eq_zero_of_bytesOf {ps : List Parameter} (h : bytesOf ps = 0) : ∀ p ∈ ps, p.parameterType.bytes = 0 := by
  intro p hp
  exact List.sum_eq_zero_iff_forall_eq_nat.mp h _ (List.mem_map_of_mem hp)

/-- **Commands with lists**: after any calls that give every request parameter of a command a value, the packet carries
the values iff none of them is a list, what else is selected writes nothing, and what is selected first has an id that
fits in a byte. -/
theorem list_request_encoded_iff (hs : s.commands = earlier ++ c :: later) (hr : Reached c later) (hrpc : rpc.Of s)
    (hsets : Sets c calls v) {rpc' : Rpc} (hset : setRequestValues c.name calls rpc = .ok rpc') (hdom : ListRequest c v)
    (hlen : (valuesWire c.requestParameters v).length ≤ 200) :
    ListsEncoded c v rpc' ↔ (∀ p ∈ c.requestParameters, p.isAList = false) ∧ OthersSilent (earlier ++ later) c ∧
      ∃ entry, s.requests.find? (·.Selected c.name) = some entry ∧ 0 ≤ entry.id ∧ entry.id < 256 := by
  obtain ⟨before, own, after, hplaced⟩ := exists_placed hrpc hs
  obtain ⟨own', rfl, hplaced', hlast⟩ := setRequestValues_own hplaced hr hsets.names hset
  have hrpc' := Placed.of hrpc hplaced hplaced'
  constructor
  · rintro ⟨b, n, hform, _⟩
    obtain ⟨⟨entry, hfirst, hid⟩, hplain, hbytes⟩ := formCommandPacket_placed hrpc' hplaced' hform
    have hno : ∀ p ∈ c.requestParameters, p.isAList = false := by
      intro p hp
      obtain ⟨o, hmem, hshape, hsel⟩ := hplaced'.exists_own hp
      exact (Parameter.isAList_of_shape (q := requestParameterValue c p) hshape).symm.trans (hplain o hmem hsel).1
    have hwire := (own_of_scalars hsets hdom hno hplaced'.own hlast).2
    rw [← hwire, length_flatMap_wire] at hbytes
    have hzero : bytesOf (before.filter (·.Selected c.name)) = 0 ∧ bytesOf (after.filter (·.Selected c.name)) = 0 := by
      unfold bytesOf at hbytes ⊢
      omega
    refine ⟨hno, othersSilent_of_bytes hplaced' hplain ?_, entry, hfirst, ?_⟩
    · intro q hq hsel
      rcases hq with hq | hq
      · exact bytes_eq_zero_of_bytesOf hzero.1 q (List.mem_filter.mpr ⟨hq, decide_eq_true hsel⟩)
      · exact bytes_eq_zero_of_bytesOf hzero.2 q (List.mem_filter.mpr ⟨hq, decide_eq_true hsel⟩)
    · have := b.toNat_lt
      omega
  · rintro ⟨hno, hsilent, entry, hfirst, hlow, hhigh⟩
    obtain ⟨henc, hwire⟩ := own_of_scalars hsets hdom hno hplaced'.own hlast
    have hid : entry.id = (UInt8.ofNat entry.id.toNat).toNat := by
      rw [UInt8.toNat_ofNat']
      omega
    have hform := formCommandPacket_of_silent hrpc' hplaced' hsilent henc hfirst hid (by rw [hwire]; omega)
    rw [hwire] at hform
    exact ⟨_, _, hform, fun before p after xs hsplit hxs => numbers_valuesWire hdom hsplit hxs⟩

end Lists

/-- Takes bytes only. -/
def dump : CommandSchema where
  id := 6
  name := "dump"
  requestParameters := [⟨"data", .uint8, true, some "size"⟩]
  responseParameters := []

/-- The host that has read it. -/
def dumpRpc : Rpc := ⟨dump.requestParameters.map (requestParameterValue dump), [], []⟩

/-- One byte is set, and encoding it raises. -/
theorem dump_not_encoded :
    ∃ rpc', setRequestValues (F := Empty) "dump" [("data", .list [.int 9])] dumpRpc = .ok rpc' ∧
      formCommandPacket "dump" rpc' = .error .attributeError ∧
      ¬ ListsEncoded (F := Empty) dump (fun _ => .list [.int 9]) rpc' := by
  let p : Parameter := { requestParameterValue dump ⟨"data", .uint8, true, some "size"⟩ with value := "[9]" }
  have hset : setRequestValues (F := Empty) "dump" [("data", .list [.int 9])] dumpRpc = .ok ⟨[p], [], []⟩ := rfl
  have hsel : [p].filter (·.Selected "dump") = [p] :=
    List.filter_cons_of_pos (decide_eq_true (isInfix_requestName "dump" "data"))
  have hform : formCommandPacket "dump" ⟨[p], [], []⟩ = .error .attributeError := by
    rw [formCommandPacket, hsel]
    rfl
  refine ⟨_, hset, hform, ?_⟩
  rintro ⟨b, n, hok, _⟩
  rw [show dump.name = "dump" from rfl, hform] at hok
  cases hok

/-- Calls for `motor`, one parameter twice. -/
def motorValues : List (String × ℤ) := [("speed", 300), ("steps", 70000), ("angle", -2), ("speed", 7)]

def motorCalls : List (String × Value Empty) := motorValues.map fun call => (call.1, .scalar (.int call.2))

/-- What they leave. -/
def motorValue (name : String) : Value Empty :=
  .scalar (.int (if name = "speed" then 7 else if name = "angle" then -2 else 70000))

/-- Three integers of different widths are encoded in schema order, one set twice, beside a command with a list. -/
theorem motor_lists_encoded : ∃ rpc', setRequestValues "motor" motorCalls motorRpc = .ok rpc' ∧
    ListsEncoded motor motorValue rpc' ∧
    valuesWire motor.requestParameters motorValue = [7, 255, 254, 0, 1, 17, 112] := by
  have hrpc := Rpc.of_read readRpcParameters_motor
  have hnames : ∀ call ∈ motorCalls, ∃ p ∈ motor.requestParameters, p.name = call.1 := by
    intro call hcall
    obtain ⟨call, hcall, rfl⟩ := List.mem_map.mp hcall
    revert call
    decide
  have hassign : ∀ call ∈ motorCalls, ∃ p ∈ motor.requestParameters, p.name = call.1 ∧
      ∀ q : Parameter, q.shape = requestParameterValue motor p → ∃ q', q.assign call.2 = .ok q' := by
    intro call hcall
    obtain ⟨p, hp, hname⟩ := hnames call hcall
    obtain ⟨⟨_, n⟩, _, rfl⟩ := List.mem_map.mp hcall
    obtain ⟨hscalar, hwidth⟩ := motor_integers p hp
    exact ⟨p, hp, hname, fun q hshape => exists_assign_int hshape hscalar hwidth n⟩
  obtain ⟨before, own, after, hplaced⟩ := exists_placed hrpc motorSchema_commands
  obtain ⟨rpc', hset⟩ := setRequestValues_ok hplaced motor_reached hassign
  have hsets : Sets motor motorCalls motorValue := by
    refine ⟨hnames, ?_⟩
    intro p hp
    simp only [motor, List.mem_cons, List.not_mem_nil, or_false] at hp
    rcases hp with rfl | rfl | rfl <;> rfl
  have hdom : ListRequest motor motorValue := by
    intro p hp
    obtain ⟨hscalar, hwidth⟩ := motor_integers p hp
    exact .inl ⟨hscalar, hwidth, _, rfl⟩
  have hwire : valuesWire motor.requestParameters motorValue = [7, 255, 254, 0, 1, 17, 112] := by decide
  exact ⟨rpc', hset, (list_request_encoded_iff motorSchema_commands motor_reached hrpc hsets hset hdom
    (by rw [hwire]; decide)).mpr ⟨fun p hp => (motor_integers p hp).1, motor_silent, _, motor_first, by decide,
    by decide⟩, hwire⟩

end BleRpc.Host
