import BleRpc.Host.Values
import BleRpc.Lib.BigEndian
import BleRpc.Lib.Outcome

/-!
# The parameters of the schema

The schema file, the three flat parameter lists `read_rpc_parameters` makes of it, and their setters and getters. The
three setters are one function (`Parameter.assign`) at three lists, and so are the getters.

Not modelled: the YAML syntax, and the `print` methods. The three parameter classes are one record; a request has no
`response_name` and no `size_parameter`. Fields nothing reads (`response_parameter_name`) are left out.
-/

namespace BleRpc.Host

open Outcome

/-- `parameter_type`; any other text is accepted and never matched. -/
inductive ParameterType
  | uint8
  | int8
  | uint16
  | int16
  | uint32
  | int32
  | bool
  | BOOL
  | float
  | other (name : String)
  deriving DecidableEq

/-- The bytes of an integer type. -/
def ParameterType.width : ParameterType → Option ℕ
  | .uint8 | .int8 => some 1
  | .uint16 | .int16 => some 2
  | .uint32 | .int32 => some 4
  | _ => none

/-- The bytes a parameter of this type takes on the wire. -/
def ParameterType.bytes (t : ParameterType) : ℕ := t.width.getD 0

theorem ParameterType.bytes_of_width {t : ParameterType} {w : ℕ} (h : t.width = some w) : t.bytes = w := by
  rw [bytes, h, Option.getD_some]

/-! ## Schema -/

/-- An entry under `request_parameters`, `response_parameters` or `notification_parameters`. -/
structure ParameterSchema where
  name : String
  type : ParameterType
  isAList : Bool
  sizeParameter : Option String
  deriving DecidableEq

structure CommandSchema where
  id : ℤ
  name : String
  requestParameters : List ParameterSchema
  responseParameters : List ParameterSchema
  deriving DecidableEq

structure NotificationSchema where
  id : ℤ
  name : String
  notificationParameters : List ParameterSchema
  deriving DecidableEq

structure Schema where
  commands : List CommandSchema
  notifications : List NotificationSchema
  deriving DecidableEq

/-- `RPC_request_parameter_value`, `RPC_response_parameter_value` or `RPC_notification_parameter_value`; `id` is
`command_id`, `response_id` or `notification_id`. -/
structure Parameter where
  name : String
  value : String
  parameterType : ParameterType
  isAList : Bool
  id : ℤ
  responseName : String
  sizeParameter : String
  deriving DecidableEq

/-- `set`, of a number that is not negative. -/
def Parameter.set (p : Parameter) (n : ℕ) : Parameter := { p with value := toString n }

/-- The three lists. -/
structure Rpc where
  requestParameters : List Parameter
  responseParameters : List Parameter
  notificationParameters : List Parameter
  deriving DecidableEq

/-! ## `read_rpc_parameters` -/

def requestName (command parameter : String) : String := command ++ ":request:" ++ parameter

def responseName (response parameter : String) : String := response ++ ":response:" ++ parameter

def notificationName (notification parameter : String) : String := notification ++ ":notification:" ++ parameter

/-- The `size_parameter` of a list; the default of anything else. -/
def ParameterSchema.size (p : ParameterSchema) : Except PyErr String :=
  if p.isAList then
    match p.sizeParameter with
    | some name => .ok name
    | none => .error .keyError
  else .ok ""

def requestParameterValue (c : CommandSchema) (p : ParameterSchema) : Parameter :=
  ⟨requestName c.name p.name, "", p.type, p.isAList, c.id, "", ""⟩

def responseParameterValue (c : CommandSchema) (p : ParameterSchema) : Except PyErr Parameter := do
  let size ← p.size
  return ⟨responseName c.name p.name, "", p.type, p.isAList, c.id, c.name, size⟩

def notificationParameterValue (n : NotificationSchema) (p : ParameterSchema) : Except PyErr Parameter := do
  let size ← p.size
  return ⟨notificationName n.name p.name, "", p.type, p.isAList, n.id, "", size⟩

def readRpcParameters (s : Schema) : Except PyErr Rpc := do
  let responses ← s.commands.mapM fun c => c.responseParameters.mapM (responseParameterValue c)
  let notifications ← s.notifications.mapM fun n => n.notificationParameters.mapM (notificationParameterValue n)
  return {
    requestParameters := s.commands.flatMap fun c => c.requestParameters.map (requestParameterValue c)
    responseParameters := responses.flatten
    notificationParameters := notifications.flatten }

/-! ## Setters -/

section Setters

variable {F : Type} [PyFloat F]

/-- The text a scalar parameter gets; an unknown type keeps the old one. -/
def scalarText (type : ParameterType) (value : Value F) (old : String) : Except PyErr String :=
  match type with
  | .uint8 | .int8 => do
    let n ← value.toInt
    return toString (n % 2 ^ 8)
  | .uint16 | .int16 => do
    let n ← value.toInt
    return toString (n % 2 ^ 16)
  | .uint32 | .int32 => do
    let n ← value.toInt
    return toString (n % 2 ^ 32)
  | .bool | .BOOL | .float => .ok value.str
  | .other _ => .ok old

/-- What an element adds to the text of a list. -/
def elementText (type : ParameterType) (x : Scalar F) : Except PyErr String :=
  match type with
  | .uint8 | .int8 => do
    let n ← x.toInt
    return toString (n % 2 ^ 8) ++ ","
  | .uint16 | .int16 => do
    let n ← x.toInt
    return toString (n % 2 ^ 16) ++ ","
  | .uint32 | .int32 => do
    let n ← x.toInt
    return toString (n % 2 ^ 32) ++ ","
  | .bool | .BOOL | .float => .ok (x.str ++ ",")
  | .other _ => .ok ""

/-- The text of a list: the last character, whatever it is, gives way to the closing bracket. -/
def listText (type : ParameterType) (xs : List (Scalar F)) : Except PyErr String := do
  let texts ← xs.mapM (elementText type)
  return String.ofList (("[" ++ String.join texts).toList.dropLast ++ [']'])

/-- The lines the three setters share. -/
def Parameter.assign (p : Parameter) (value : Value F) : Except PyErr Parameter :=
  if p.isAList = false then do
    let text ← scalarText p.parameterType value p.value
    return { p with value := text }
  else
    match value with
    | .scalar _ => .error .typeError
    | .list xs => do
      let text ← listText p.parameterType xs
      return { p with value := text }

/-- Change the last parameter of a name. -/
def updateLast (name : String) (f : Parameter → Except PyErr Parameter) : List Parameter → Except PyErr (List Parameter)
  | [] => .error .attributeError
  | p :: ps =>
    if ps.any (·.name = name) then do
      let ps ← updateLast name f ps
      return p :: ps
    else if p.name = name then do
      let p ← f p
      return p :: ps
    else .error .attributeError

def setRpcRequestParameterValue (command parameter : String) (value : Value F) (rpc : Rpc) : Except PyErr Rpc := do
  let ps ← updateLast (requestName command parameter) (·.assign value) rpc.requestParameters
  return { rpc with requestParameters := ps }

def setRpcResponseParameterValue (command parameter : String) (value : Value F) (rpc : Rpc) : Except PyErr Rpc := do
  let ps ← updateLast (responseName command parameter) (·.assign value) rpc.responseParameters
  return { rpc with responseParameters := ps }

def setRpcNotificationParameterValue (notification parameter : String) (value : Value F) (rpc : Rpc) :
    Except PyErr Rpc := do
  let ps ← updateLast (notificationName notification parameter) (·.assign value) rpc.notificationParameters
  return { rpc with notificationParameters := ps }

/-! ## Getters -/

/-- The last parameter of a name. -/
def lastNamed (name : String) (ps : List Parameter) : Option Parameter := (ps.filter (·.name = name)).getLast?

/-- The lines the three getters share. -/
def literalNamed (name : String) (ps : List Parameter) : Except PyErr (Value F) :=
  match lastNamed name ps with
  | none => .error .attributeError
  | some p => literalEval p.value

def getRpcRequestParameterValue (command parameter : String) (rpc : Rpc) : Except PyErr (Value F) :=
  literalNamed (requestName command parameter) rpc.requestParameters

def getRpcResponseParameterValue (command parameter : String) (rpc : Rpc) : Except PyErr (Value F) :=
  literalNamed (responseName command parameter) rpc.responseParameters

def getRpcNotificationParameterValue (notification parameter : String) (rpc : Rpc) : Except PyErr (Value F) :=
  literalNamed (notificationName notification parameter) rpc.notificationParameters

end Setters

/-! ## Shapes -/

/-- A parameter without its value. -/
def Parameter.shape (p : Parameter) : Parameter := { p with value := "" }

section Shape

variable {p q : Parameter} (h : p.shape = q.shape)

include h

theorem Parameter.name_of_shape : p.name = q.name :=
  have h' : p.shape.name = q.shape.name := congrArg Parameter.name h
  h'

theorem Parameter.parameterType_of_shape : p.parameterType = q.parameterType :=
  have h' : p.shape.parameterType = q.shape.parameterType := congrArg Parameter.parameterType h
  h'

theorem Parameter.isAList_of_shape : p.isAList = q.isAList :=
  have h' : p.shape.isAList = q.shape.isAList := congrArg Parameter.isAList h
  h'

theorem Parameter.id_of_shape : p.id = q.id :=
  have h' : p.shape.id = q.shape.id := congrArg Parameter.id h
  h'

end Shape

section Shapes

variable {α β γ : Type} {ps : List Parameter} {p : Parameter}

/-- What parameters have in common with their shapes, they have in common with the entries they are made from. -/
theorem map_of_shapes {make : β → Parameter} {entries : List β} {f : Parameter → γ} (hf : ∀ p, f p.shape = f p)
    (h : ps.map Parameter.shape = entries.map make) : ps.map f = entries.map fun e => f (make e) := by
  have hmap := congrArg (List.map f) h
  rw [List.map_map, List.map_map] at hmap
  exact (List.map_congr_left fun p _ => (hf p).symm).trans hmap

/-- A parameter, and its entry. -/
theorem exists_entry_of_shapes {make : β → Parameter} {entries : List β}
    (h : ps.map Parameter.shape = entries.map make) (hp : p ∈ ps) : ∃ e ∈ entries, p.shape = make e := by
  have hmem : p.shape ∈ ps.map Parameter.shape := List.mem_map_of_mem hp
  rw [h] at hmem
  obtain ⟨e, he, hshape⟩ := List.mem_map.mp hmem
  exact ⟨e, he, hshape.symm⟩

/-- An entry, and its parameter. -/
theorem exists_parameter_of_shapes {make : β → Parameter} {entries : List β}
    (h : ps.map Parameter.shape = entries.map make) {e : β} (he : e ∈ entries) : ∃ p ∈ ps, p.shape = make e := by
  have hmem : make e ∈ ps.map Parameter.shape := by
    rw [h]
    exact List.mem_map_of_mem he
  exact List.mem_map.mp hmem

/-- A parameter, and its entry in a list of lists. -/
theorem exists_nested_of_shapes {elements : α → List β} {make : α → β → Parameter} {as : List α}
    (h : ps.map Parameter.shape = as.flatMap fun a => (elements a).map (make a)) (hp : p ∈ ps) :
    ∃ a ∈ as, ∃ e ∈ elements a, p.shape = make a e := by
  have hmem : p.shape ∈ ps.map Parameter.shape := List.mem_map_of_mem hp
  rw [h] at hmem
  obtain ⟨a, ha, hmem⟩ := List.mem_flatMap.mp hmem
  obtain ⟨e, he, hshape⟩ := List.mem_map.mp hmem
  exact ⟨a, ha, e, he, hshape.symm⟩

/-- An entry in a list of lists, and its parameter. -/
theorem exists_parameter_of_nested {elements : α → List β} {make : α → β → Parameter} {as : List α}
    (h : ps.map Parameter.shape = as.flatMap fun a => (elements a).map (make a)) {a : α} (ha : a ∈ as) {e : β}
    (he : e ∈ elements a) : ∃ p ∈ ps, p.shape = make a e := by
  have hmem : make a e ∈ ps.map Parameter.shape := by
    rw [h]
    exact List.mem_flatMap.mpr ⟨a, ha, List.mem_map_of_mem he⟩
  exact List.mem_map.mp hmem

end Shapes

/-- The parameter lists of a schema, with any values. -/
structure Rpc.Of (s : Schema) (rpc : Rpc) : Prop where
  reads : ∃ fresh, readRpcParameters s = .ok fresh ∧
    rpc.requestParameters.map Parameter.shape = fresh.requestParameters ∧
    rpc.responseParameters.map Parameter.shape = fresh.responseParameters ∧
    rpc.notificationParameters.map Parameter.shape = fresh.notificationParameters

theorem map_shape_of_forall {ps : List Parameter} (h : ∀ p ∈ ps, p.shape = p) : ps.map Parameter.shape = ps :=
  (List.map_congr_left h).trans (List.map_id ps)

/-- Parameters of a list of lists that were made without a value. -/
theorem map_shape_flatten {α β : Type} {make : α → β → Except PyErr Parameter} {elements : α → List β}
    (hmake : ∀ a b p, make a b = .ok p → p.shape = p) {as : List α} {pss : List (List Parameter)}
    (h : as.mapM (fun a => (elements a).mapM (make a)) = .ok pss) : pss.flatten.map Parameter.shape = pss.flatten := by
  apply map_shape_of_forall
  intro p hp
  obtain ⟨ps, hps, hp⟩ := List.mem_flatten.mp hp
  obtain ⟨a, _, ha⟩ := mapM_inv_mem_right h hps
  obtain ⟨b, _, hb⟩ := mapM_inv_mem_right ha hp
  exact hmake a b p hb

/-- The host that has just read a schema is one of that schema. -/
theorem Rpc.of_read {s : Schema} {rpc : Rpc} (h : readRpcParameters s = .ok rpc) : rpc.Of s := by
  have hread := h
  obtain ⟨responses, hresponses, h⟩ := bind_eq_ok.mp h
  obtain ⟨notifications, hnotifications, h⟩ := bind_eq_ok.mp h
  cases h
  refine ⟨_, hread, ?_, map_shape_flatten ?_ hresponses, map_shape_flatten ?_ hnotifications⟩
  · apply map_shape_of_forall
    intro p hp
    obtain ⟨c, _, hp⟩ := List.mem_flatMap.mp hp
    obtain ⟨q, _, rfl⟩ := List.mem_map.mp hp
    rfl
  · intro c p q hq
    obtain ⟨size, _, hq⟩ := bind_eq_ok.mp hq
    cases hq
    rfl
  · intro n p q hq
    obtain ⟨size, _, hq⟩ := bind_eq_ok.mp hq
    cases hq
    rfl

/-- Changing values does not change the schema. -/
theorem Rpc.Of.congr {s : Schema} {rpc rpc' : Rpc} (h : rpc.Of s)
    (hreq : rpc'.requestParameters.map Parameter.shape = rpc.requestParameters.map Parameter.shape)
    (hresp : rpc'.responseParameters.map Parameter.shape = rpc.responseParameters.map Parameter.shape)
    (hnot : rpc'.notificationParameters.map Parameter.shape = rpc.notificationParameters.map Parameter.shape) :
    rpc'.Of s := by
  obtain ⟨fresh, hread, h₁, h₂, h₃⟩ := h.reads
  exact ⟨fresh, hread, hreq.trans h₁, hresp.trans h₂, hnot.trans h₃⟩

/-- The entry of a response parameter in a schema that is read without error. -/
def responseEntry (c : CommandSchema) (p : ParameterSchema) : Parameter :=
  ⟨responseName c.name p.name, "", p.type, p.isAList, c.id, c.name, if p.isAList then p.sizeParameter.getD "" else ""⟩

theorem responseParameterValue_inv {c : CommandSchema} {p : ParameterSchema} {q : Parameter}
    (h : responseParameterValue c p = .ok q) : q = responseEntry c p := by
  obtain ⟨size, hsize, h⟩ := bind_eq_ok.mp h
  cases h
  unfold ParameterSchema.size at hsize
  unfold responseEntry
  by_cases hlist : p.isAList
  · rw [if_pos hlist] at hsize
    cases hname : p.sizeParameter with
    | none => rw [hname] at hsize; cases hsize
    | some name =>
      rw [hname] at hsize
      cases hsize
      rw [if_pos hlist, Option.getD_some]
  · rw [if_neg hlist] at hsize
    cases hsize
    rw [if_neg hlist]

theorem Rpc.Of.requests {s : Schema} {rpc : Rpc} (h : rpc.Of s) : rpc.requestParameters.map Parameter.shape =
    s.commands.flatMap fun c => c.requestParameters.map (requestParameterValue c) := by
  obtain ⟨fresh, hread, hreq, _⟩ := h.reads
  obtain ⟨responses, _, hread⟩ := bind_eq_ok.mp hread
  obtain ⟨notifications, _, hread⟩ := bind_eq_ok.mp hread
  cases hread
  exact hreq

theorem Rpc.Of.responses {s : Schema} {rpc : Rpc} (h : rpc.Of s) : rpc.responseParameters.map Parameter.shape =
    s.commands.flatMap fun c => c.responseParameters.map (responseEntry c) := by
  obtain ⟨fresh, hread, _, hresp, _⟩ := h.reads
  obtain ⟨responses, hresponses, hread⟩ := bind_eq_ok.mp hread
  obtain ⟨notifications, _, hread⟩ := bind_eq_ok.mp hread
  cases hread
  have hentries : responses = s.commands.map fun c => c.responseParameters.map (responseEntry c) := by
    rw [← List.map_id responses]
    refine mapM_inv_map hresponses ?_
    intro c ps hps
    exact (List.map_id ps).symm.trans (mapM_inv_map hps fun p q hq => responseParameterValue_inv hq)
  exact hresp.trans (by rw [hentries, ← List.flatMap_def])

/-! ## One command's parameters -/

/-- A command's parameters lie together in the flat list; the others belong to commands with other ids. -/
structure Segment (s : Schema) (c : CommandSchema) (entries : CommandSchema → List Parameter)
    (ps before own after : List Parameter) : Prop where
  split : ps = before ++ (own ++ after)
  own : own.map Parameter.shape = entries c
  others : ∀ p, p ∈ before ∨ p ∈ after → ∃ c' ∈ s.commands, c'.id ≠ c.id ∧ p.shape ∈ entries c'

theorem exists_segment {s : Schema} {c : CommandSchema} {entries : CommandSchema → List Parameter}
    {ps : List Parameter} (hc : c ∈ s.commands) (hids : (s.commands.map CommandSchema.id).Nodup)
    (h : ps.map Parameter.shape = s.commands.flatMap entries) :
    ∃ before own after, Segment s c entries ps before own after := by
  obtain ⟨cs, ds, hsplit⟩ := List.append_of_mem hc
  rw [hsplit, List.flatMap_append, List.flatMap_cons] at h
  obtain ⟨before, tail, rfl, hbefore, htail⟩ := List.map_eq_append_iff.mp h
  obtain ⟨own, after, rfl, hown, hafter⟩ := List.map_eq_append_iff.mp htail
  refine ⟨before, own, after, rfl, hown, ?_⟩
  intro p hp
  -- the id of `c` occurs once
  rw [hsplit, List.map_append, List.map_cons, List.nodup_append] at hids
  obtain ⟨_, hds, hdisj⟩ := hids
  rcases hp with hp | hp
  · have hmem : p.shape ∈ cs.flatMap entries := hbefore ▸ List.mem_map_of_mem hp
    obtain ⟨c', hc', hp'⟩ := List.mem_flatMap.mp hmem
    refine ⟨c', by rw [hsplit]; exact List.mem_append_left _ hc', ?_, hp'⟩
    exact hdisj _ (List.mem_map_of_mem hc') _ List.mem_cons_self
  · have hmem : p.shape ∈ ds.flatMap entries := hafter ▸ List.mem_map_of_mem hp
    obtain ⟨c', hc', hp'⟩ := List.mem_flatMap.mp hmem
    refine ⟨c', by rw [hsplit]; exact List.mem_append_right _ (List.mem_cons_of_mem _ hc'), ?_, hp'⟩
    intro heq
    exact (List.nodup_cons.mp hds).1 (heq ▸ List.mem_map_of_mem hc')

/-- With distinct ids, the parameters with a command's id are its entries. -/
theorem filter_id_shape {s : Schema} {c : CommandSchema} {entries : CommandSchema → List Parameter}
    {ps : List Parameter} (hentries : ∀ c', ∀ p ∈ entries c', p.id = c'.id) (hc : c ∈ s.commands)
    (hids : (s.commands.map CommandSchema.id).Nodup) (h : ps.map Parameter.shape = s.commands.flatMap entries) :
    (ps.filter (·.id = c.id)).map Parameter.shape = entries c := by
  obtain ⟨before, own, after, hseg⟩ := exists_segment hc hids h
  have hnone : ∀ ps : List Parameter, (∀ p ∈ ps, p ∈ before ∨ p ∈ after) → ps.filter (·.id = c.id) = [] := by
    intro ps hps
    apply List.filter_eq_nil_iff.mpr
    intro p hp
    obtain ⟨c', _, hid, hmem⟩ := hseg.others p (hps p hp)
    rw [decide_eq_true_eq]
    intro he
    exact hid ((hentries c' _ hmem).symm.trans he)
  have hall : own.filter (·.id = c.id) = own := by
    apply List.filter_eq_self.mpr
    intro p hp
    have hmem : p.shape ∈ own.map Parameter.shape := List.mem_map_of_mem hp
    rw [hseg.own] at hmem
    exact decide_eq_true (show p.id = c.id from hentries c p.shape hmem)
  rw [hseg.split, List.filter_append, List.filter_append, hnone before fun p hp => Or.inl hp,
    hnone after fun p hp => Or.inr hp, hall, List.nil_append, List.append_nil, hseg.own]

/-! ## `rpc_data.yaml` -/

def pingDevice1 : CommandSchema where
  id := 0x00
  name := "ping_device_1"
  requestParameters := [⟨"ping", .uint8, false, none⟩]
  responseParameters := [⟨"ping_count", .uint32, false, none⟩]

def pingDevice2 : CommandSchema where
  id := 0x01
  name := "ping_device_2"
  requestParameters := [⟨"ping", .uint8, false, none⟩]
  responseParameters := [⟨"ping_count", .uint32, false, none⟩]

def rpcData : Schema where
  commands := [pingDevice1, pingDevice2]
  notifications := [⟨0x00, "ping_notification", [⟨"ping_count", .uint32, false, none⟩]⟩]

end BleRpc.Host
