import BleRpc.Host.ListResponses

/-!
# Signed parameters

The setters store a number modulo `2 ^ w` and the decoder reads one without a sign, for signed types as for unsigned
ones. So a value of a signed type comes back iff it is not negative (`signed_survives_iff`): through each setter and
its getter, alone or in a list, and from a response.
-/

namespace BleRpc.Host

open Outcome

/-- The bytes of a signed integer type. -/
def ParameterType.signedWidth : ParameterType → Option ℕ
  | .int8 => some 1
  | .int16 => some 2
  | .int32 => some 4
  | _ => none

/-- The values of a signed type of `w` bytes. -/
def InSignedRange (w : ℕ) (v : ℤ) : Prop := -2 ^ (8 * w - 1) ≤ v ∧ v < 2 ^ (8 * w - 1)

instance (w : ℕ) (v : ℤ) : Decidable (InSignedRange w v) := inferInstanceAs (Decidable (_ ∧ _))

theorem ParameterType.width_of_signedWidth {t : ParameterType} {w : ℕ} (h : t.signedWidth = some w) :
    t.width = some w := by
  cases t <;> cases h <;> rfl

/-- **The residue is the value iff the value is not negative.** -/
theorem residue_eq_self {t : ParameterType} {w : ℕ} (ht : t.signedWidth = some w) {v : ℤ} (hv : InSignedRange w v) :
    (t.residue v : ℤ) = v ↔ 0 ≤ v := by
  have hbytes := ParameterType.bytes_of_width (ParameterType.width_of_signedWidth ht)
  obtain ⟨hlow, hhigh⟩ := hv
  rw [ParameterType.residue, hbytes]
  cases t <;> cases ht
  all_goals
    simp only [Nat.reduceMul, Nat.reduceSub, Int.reducePow, Int.reduceNeg] at hlow hhigh ⊢
    omega

/-! ## The paths -/

section Paths

variable (F : Type) [PyFloat F]

/-- The getter returns the value that was set. -/
def SetAndGot (pair : Pair) (name parameter : String) (v : ℤ) (rpc : Rpc) : Prop :=
  ∃ rpc', pair.set name parameter (.scalar (.int v) : Value F) rpc = .ok rpc' ∧
    pair.get name parameter rpc' = .ok (.scalar (.int v) : Value F)

/-- The getter returns a list with the value where the list that was set has it. -/
def SetAndGotAt (pair : Pair) (name parameter : String) (vs : List ℤ) (k : ℕ) (v : ℤ) (rpc : Rpc) : Prop :=
  ∃ rpc' ys, pair.set name parameter (.list (vs.map .int) : Value F) rpc = .ok rpc' ∧
    pair.get name parameter rpc' = .ok (.list ys : Value F) ∧ ys[k]? = some (.int v)

/-- The packet is decoded, and the getter returns the value. -/
def Received (name parameter : String) (packet : Bytes) (v : ℤ) (rpc : Rpc) : Prop :=
  ∃ rpc', disassembleResponsePacket packet rpc = (rpc', .ok ()) ∧
    getRpcResponseParameterValue name parameter rpc' = .ok (.scalar (.int v) : Value F)

end Paths

/-- A response for the id of `q` with bytes for every parameter of the id, and the two's complement of `v` in the place
of `q`, the parameter after `pre`. With a list among the parameters the places are not fixed, and any bytes do. -/
structure Carries (v : ℤ) (pre : List Parameter) (q : Parameter) (rpc : Rpc) (b : UInt8) (payload : Bytes) : Prop where
  id : (b.toNat : ℤ) = q.id
  complete : (∀ p ∈ withId q.id rpc.responseParameters, p.isAList = false) →
    fieldBytes (withId q.id rpc.responseParameters) ≤ payload.length
  field : (∀ p ∈ withId q.id rpc.responseParameters, p.isAList = false) →
    slice payload (fieldBytes (withId q.id pre)) q.parameterType.bytes =
      BigEndian.encode q.parameterType.bytes (q.parameterType.residue v)

section Loop

variable {id : ℤ} {payload : Bytes} {index : ℕ}

theorem withId_append (pre ps : List Parameter) : withId id (pre ++ ps) = withId id pre ++ withId id ps :=
  List.filter_append ..

theorem fieldBytes_append (ps qs : List Parameter) : fieldBytes (ps ++ qs) = fieldBytes ps + fieldBytes qs := by
  rw [fieldBytes, List.map_append, List.sum_append, fieldBytes, fieldBytes]

/-- Parameters that lie within the payload are read before the rest. -/
theorem readFields_append {pre : List Parameter} (h : index + fieldBytes (withId id pre) ≤ payload.length)
    (ps : List Parameter) : readFields id payload index (pre ++ ps) =
      readFields id payload index pre ++ readFields id payload (index + fieldBytes (withId id pre)) ps := by
  induction pre generalizing index with
  | nil => rfl
  | cons p pre ih =>
    rw [List.cons_append, readFields, readFields]
    by_cases hid : p.id = id
    · rw [withId_cons_of_eq hid, fieldBytes_cons, ← Nat.add_assoc] at h
      rw [if_pos hid.symm, if_pos hid.symm, withId_cons_of_eq hid, fieldBytes_cons, if_pos (by omega),
        if_pos (by omega), ih h, Nat.add_assoc]
      rfl
    · rw [withId_cons_of_ne hid] at h
      rw [if_neg fun he => hid he.symm, if_neg fun he => hid he.symm, withId_cons_of_ne hid, ih h]
      rfl

/-- The names stay. -/
theorem name_ne_of_readFields {name : String} {ps : List Parameter} (h : ∀ p ∈ ps, p.name ≠ name) :
    ∀ p ∈ readFields id payload index ps, p.name ≠ name := by
  intro p hp
  obtain ⟨q, hq, hshape⟩ := exists_entry_of_shapes (readFields_shape ..) hp
  rw [Parameter.name_of_shape hshape]
  exact h q hq

end Loop

section Survive

variable {F : Type} [PyFloat F] {v : ℤ} {rpc : Rpc} {pre post : List Parameter} {q : Parameter} {w : ℕ}

theorem literalEval_residue_iff {t : ParameterType} (ht : t.signedWidth = some w) (hv : InSignedRange w v) :
    literalEval (F := F) (toString (t.residue v)) = .ok (.scalar (.int v)) ↔ 0 ≤ v := by
  rw [literalEval_toString, ← residue_eq_self ht hv]
  constructor
  · intro h
    injection h with h
    injection h with h
    injection h
  · intro h
    rw [h]

/-- **Scalars.** -/
theorem setAndGot_iff {pair : Pair} {name parameter : String}
    (h : Named (pair.fullName name parameter) (pair.parameters rpc) pre q post)
    (ht : q.parameterType.signedWidth = some w) (hv : InSignedRange w v) (hscalar : q.isAList = false) :
    SetAndGot F pair name parameter v rpc ↔ 0 ≤ v := by
  have hset := Pair.set_named (F := F) h (.scalar (.int v))
  rw [assign_int F hscalar (ParameterType.width_of_signedWidth ht), ok_bind] at hset
  have hname : (q.set (q.parameterType.residue v)).name = q.name := rfl
  have hget := Pair.get_named (F := F) (Pair.named_put h hname)
  rw [SetAndGot, hset, ← literalEval_residue_iff (F := F) ht hv]
  constructor
  · rintro ⟨rpc', he, hgot⟩
    cases he
    exact hget.symm.trans hgot
  · intro hgot
    exact ⟨_, rfl, hget.trans hgot⟩

/-- **Lists.** -/
theorem setAndGotAt_iff {pair : Pair} {name parameter : String}
    (h : Named (pair.fullName name parameter) (pair.parameters rpc) pre q post)
    (ht : q.parameterType.signedWidth = some w) (hv : InSignedRange w v) (hlist : q.isAList = true) {vs : List ℤ}
    {k : ℕ} (hk : vs[k]? = some v) : SetAndGotAt F pair name parameter vs k v rpc ↔ 0 ≤ v := by
  have hne : vs.map (Scalar.int (F := F)) ≠ [] := by
    intro he
    rw [List.map_eq_nil_iff] at he
    rw [he] at hk
    cases hk
  have htakes : ∀ x ∈ vs.map (Scalar.int (F := F)), q.parameterType.Takes x := by
    intro x hx
    obtain ⟨u, _, rfl⟩ := List.mem_map.mp hx
    refine .int u ?_
    rw [ParameterType.width_of_signedWidth ht]
    exact Option.some_ne_none w
  obtain ⟨rpc', hset, hget, _⟩ := listSurvives_of_ne_nil h hlist hne htakes
  have helement : ((vs.map (Scalar.int (F := F))).map q.parameterType.kept)[k]? =
      some (.int (q.parameterType.residue v)) := by
    rw [List.getElem?_map, List.getElem?_map, hk]
    rfl
  rw [SetAndGotAt, hset, ← residue_eq_self ht hv]
  constructor
  · rintro ⟨_, ys, he, hgot, hys⟩
    cases he
    rw [hget] at hgot
    cases hgot
    rw [helement] at hys
    injection hys with hys
    injection hys
  · intro he
    refine ⟨rpc', _, rfl, hget, ?_⟩
    rw [helement, he]

/-- What the decoder leaves for `q`. -/
theorem named_after_response {name : String} (h : Named name rpc.responseParameters pre q post)
    (hscalar : ∀ p ∈ withId q.id rpc.responseParameters, p.isAList = false)
    (ht : q.parameterType.signedWidth = some w) {b : UInt8} {payload : Bytes}
    (hc : Carries v pre q rpc b payload) (n : UInt8) :
    ∃ rpc' pre' post', disassembleResponsePacket (b :: n :: payload) rpc = (rpc', .ok ()) ∧
      Named name rpc'.responseParameters pre' (q.set (q.parameterType.residue v)) post' := by
  have hw := ParameterType.width_of_signedWidth ht
  have hbytes := ParameterType.bytes_of_width hw
  have hresponse := ParameterType.responseBytes_of_width hw
  -- the parameters of the id are those before `q`, `q` and those after it
  have hwith : withId q.id rpc.responseParameters = withId q.id pre ++ q :: withId q.id post := by
    rw [h.split, withId_append, withId_cons_of_eq rfl]
  have hcomplete := hc.complete hscalar
  have hlen := hcomplete
  rw [hwith, fieldBytes_append, fieldBytes_cons, hresponse] at hlen
  have hread : readFields q.id payload 0 rpc.responseParameters = readFields q.id payload 0 pre ++
      q.set (q.parameterType.residue v) :: readFields q.id payload (fieldBytes (withId q.id pre) + w) post := by
    have hdecode : BigEndian.decode (slice payload (fieldBytes (withId q.id pre)) w) = q.parameterType.residue v := by
      have hfield := hc.field hscalar
      have hmod := Nat.mod_eq_of_lt (q.parameterType.residue_lt v)
      rw [hbytes] at hfield hmod
      rw [hfield, BigEndian.decode_encode, hmod]
    have hint : q.parameterType.width ≠ none := by
      rw [hw]
      exact Option.some_ne_none w
    rw [h.split, readFields_append (by omega), readFields, if_pos rfl, Nat.zero_add, hresponse, if_pos (by omega),
      read_of_integer hint, hdecode]
  have hall : ∀ p ∈ rpc.responseParameters, p.id = b.toNat → p.isAList = false := fun p hp hid =>
    hscalar p (List.mem_filter.mpr ⟨hp, decide_eq_true (hid.trans hc.id)⟩)
  have hdis := disassemble_of_scalar hall n payload
  rw [hc.id, if_pos hcomplete, hread] at hdis
  exact ⟨_, _, _, hdis, rfl, h.name_eq, name_ne_of_readFields h.last⟩

/-- **Responses.** -/
theorem received_iff {name parameter : String}
    (h : Named (responseName name parameter) rpc.responseParameters pre q post)
    (ht : q.parameterType.signedWidth = some w) (hv : InSignedRange w v) {b : UInt8} {payload : Bytes}
    (hc : Carries v pre q rpc b payload) (n : UInt8) :
    Received F name parameter (b :: n :: payload) v rpc ↔
      0 ≤ v ∧ ∀ p ∈ withId q.id rpc.responseParameters, p.isAList = false := by
  by_cases hscalar : ∀ p ∈ withId q.id rpc.responseParameters, p.isAList = false
  · obtain ⟨rpc', pre', post', hdis, hnamed⟩ := named_after_response h hscalar ht hc n
    have hnamed' : Named (Pair.response.fullName name parameter) (Pair.response.parameters rpc') pre' _ post' := hnamed
    have hget := Pair.get_named (F := F) hnamed'
    rw [Received, hdis, and_iff_left hscalar, ← literalEval_residue_iff (F := F) ht hv]
    constructor
    · rintro ⟨_, he, hgot⟩
      cases he
      exact hget.symm.trans hgot
    · intro hgot
      exact ⟨_, rfl, hget.trans hgot⟩
  · refine iff_of_false ?_ fun hall => hscalar hall.2
    rintro ⟨rpc', hdis, _⟩
    obtain ⟨p, hp, hlist⟩ : ∃ p ∈ withId q.id rpc.responseParameters, p.isAList = true := by
      simpa using hscalar
    obtain ⟨hp, hid⟩ := List.mem_filter.mp hp
    exact disassemble_of_list ⟨p, hp, (of_decide_eq_true hid).trans hc.id.symm, hlist⟩ n payload
      (congrArg Prod.snd hdis)

end Survive

/-- **Signed values survive iff they are not negative**: through each setter and its getter, as a scalar or as an
element of a list, and from a response, if it has no list. -/
theorem signed_survives_iff (F : Type) [PyFloat F] {t : ParameterType} {w : ℕ} (ht : t.signedWidth = some w) {v : ℤ}
    (hv : InSignedRange w v) :
    (∀ pair name parameter rpc pre q post,
      Named (Pair.fullName pair name parameter) (pair.parameters rpc) pre q post → q.parameterType = t →
        (q.isAList = false → (SetAndGot F pair name parameter v rpc ↔ 0 ≤ v)) ∧
        (q.isAList = true → ∀ vs k, vs[k]? = some v → (SetAndGotAt F pair name parameter vs k v rpc ↔ 0 ≤ v))) ∧
    ∀ name parameter rpc pre q post b n payload,
      Named (responseName name parameter) rpc.responseParameters pre q post → q.parameterType = t →
        Carries v pre q rpc b payload → (Received F name parameter (b :: n :: payload) v rpc ↔
          0 ≤ v ∧ ∀ p ∈ withId q.id rpc.responseParameters, p.isAList = false) := by
  constructor
  · rintro pair name parameter rpc pre q post h rfl
    exact ⟨fun hscalar => setAndGot_iff h ht hv hscalar, fun hlist vs k hk => setAndGotAt_iff h ht hv hlist hk⟩
  · rintro name parameter rpc pre q post b n payload h rfl hc
    exact received_iff h ht hv hc n

/-- Sets an offset and answers with it. -/
def meter : CommandSchema where
  id := 5
  name := "meter"
  requestParameters := [⟨"offset", .int16, false, none⟩]
  responseParameters := [⟨"offset", .int16, false, none⟩]

/-- The host that has read it. -/
def meterRpc : Rpc where
  requestParameters := meter.requestParameters.map (requestParameterValue meter)
  responseParameters := meter.responseParameters.map (responseEntry meter)
  notificationParameters := []

theorem meter_request : Named (Pair.request.fullName "meter" "offset") (Pair.request.parameters meterRpc) []
    (requestParameterValue meter ⟨"offset", .int16, false, none⟩) [] := ⟨rfl, rfl, fun p hp => by cases hp⟩

theorem meter_response : Named (responseName "meter" "offset") meterRpc.responseParameters []
    (responseEntry meter ⟨"offset", .int16, false, none⟩) [] := ⟨rfl, rfl, fun p hp => by cases hp⟩

theorem meter_survives : SetAndGot Empty .request "meter" "offset" 300 meterRpc :=
  (((signed_survives_iff Empty (t := .int16) (w := 2) (v := 300) rfl (by decide)).1 .request "meter" "offset" meterRpc
    [] _ [] meter_request rfl).1 rfl).mpr (by decide)

/-- -2 is set and comes back as 65534, and so it does from a response. -/
theorem negative_lost : InSignedRange 2 (-2) ∧ ¬ SetAndGot Empty .request "meter" "offset" (-2) meterRpc ∧
    ¬ Received Empty "meter" "offset" [5, 2, 255, 254] (-2) meterRpc := by
  have hrange : InSignedRange 2 (-2) := by decide
  refine ⟨hrange, ?_, ?_⟩
  · intro h
    exact absurd ((setAndGot_iff meter_request rfl hrange rfl).mp h) (by decide)
  · intro h
    have hc : Carries (-2) [] (responseEntry meter ⟨"offset", .int16, false, none⟩) meterRpc 5 [255, 254] :=
      ⟨rfl, fun _ => by decide, fun _ => by decide⟩
    exact absurd ((received_iff meter_response rfl hrange hc 2).mp h).1 (by decide)

end BleRpc.Host
