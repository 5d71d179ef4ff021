import BleRpc.Host.Assign
import BleRpc.Lib.Separated

/-!
# Lists stored as text

What a setter stores for a list and what the getter makes of it, for the three setter and getter pairs at once (`Pair`).

- `Named`: the parameter that a full name refers to is the last one that has it; a setter replaces it (`Pair.set_named`,
  `Pair.named_put`) and a getter reads it (`Pair.get_named`);
- `listText_of_takes`, `literalEval_bracketed`: the text of a list is read back as the list of what each element keeps;
- `list_survives_iff`: so a list survives iff it is not empty.
-/

namespace BleRpc.Host

open Outcome

/-! ## The parameter a name refers to -/

/-- The setters and getters of a full name work on `q`, the last parameter that has it. -/
structure Named (name : String) (ps pre : List Parameter) (q : Parameter) (post : List Parameter) : Prop where
  split : ps = pre ++ q :: post
  name_eq : q.name = name
  last : ∀ p ∈ post, p.name ≠ name

section Named

variable {name : String} {ps pre post : List Parameter} {q q' : Parameter}

theorem Named.filter_post (h : Named name ps pre q post) : post.filter (·.name = name) = [] :=
  filter_name_eq_nil h.last

theorem Named.lastNamed (h : Named name ps pre q post) : lastNamed name ps = some q := by
  rw [Host.lastNamed, h.split, List.filter_append, List.filter_cons_of_pos (by simpa using h.name_eq), h.filter_post,
    List.getLast?_concat]

/-- The parameter stays the one of its name when only its value changes. -/
theorem Named.replace (h : Named name ps pre q post) (hname : q'.name = q.name) :
    Named name (pre ++ q' :: post) pre q' post :=
  ⟨rfl, hname.trans h.name_eq, h.last⟩

theorem updateLast_of_name_eq {f : Parameter → Except PyErr Parameter} (hname : q.name = name)
    (hlast : ∀ p ∈ post, p.name ≠ name) (pre : List Parameter) :
    updateLast name f (pre ++ q :: post) = f q >>= fun q' => .ok (pre ++ q' :: post) := by
  induction pre with
  | nil =>
    have hany : post.any (·.name = name) = false := List.any_eq_false.mpr fun p hp => by simpa using hlast p hp
    rw [List.nil_append, updateLast, hany, if_neg Bool.false_ne_true, if_pos hname]
    rfl
  | cons p pre ih =>
    have hany : (pre ++ q :: post).any (·.name = name) = true :=
      List.any_eq_true.mpr ⟨q, List.mem_append_right _ List.mem_cons_self, by simpa using hname⟩
    rw [List.cons_append, updateLast, if_pos hany, ih]
    cases f q <;> rfl

/-- **A setter works on the parameter of the name.** -/
theorem Named.updateLast (h : Named name ps pre q post) (f : Parameter → Except PyErr Parameter) :
    updateLast name f ps = f q >>= fun q' => .ok (pre ++ q' :: post) := by
  rw [h.split]
  exact updateLast_of_name_eq h.name_eq h.last pre

end Named

theorem assign_shape {F : Type} [PyFloat F] {p p' : Parameter} {value : Value F} (h : p.assign value = .ok p') :
    p'.shape = p.shape := by
  unfold Parameter.assign at h
  split at h
  · obtain ⟨text, _, h⟩ := bind_eq_ok.mp h
    cases h
    rfl
  · cases value with
    | scalar x => cases h
    | list xs =>
      obtain ⟨text, _, h⟩ := bind_eq_ok.mp h
      cases h
      rfl

/-! ## The three pairs -/

/-- A setter and the getter that goes with it. -/
inductive Pair
  | request
  | response
  | notification
  deriving DecidableEq

namespace Pair

def fullName : Pair → String → String → String
  | request => requestName
  | response => responseName
  | notification => notificationName

def parameters : Pair → Rpc → List Parameter
  | request => Rpc.requestParameters
  | response => Rpc.responseParameters
  | notification => Rpc.notificationParameters

def put : Pair → List Parameter → Rpc → Rpc
  | request, ps, rpc => { rpc with requestParameters := ps }
  | response, ps, rpc => { rpc with responseParameters := ps }
  | notification, ps, rpc => { rpc with notificationParameters := ps }

variable {F : Type} [PyFloat F]

def set : Pair → String → String → Value F → Rpc → Except PyErr Rpc
  | request => setRpcRequestParameterValue
  | response => setRpcResponseParameterValue
  | notification => setRpcNotificationParameterValue

def get : Pair → String → String → Rpc → Except PyErr (Value F)
  | request => getRpcRequestParameterValue
  | response => getRpcResponseParameterValue
  | notification => getRpcNotificationParameterValue

@[simp] theorem parameters_put (pair : Pair) (ps : List Parameter) (rpc : Rpc) :
    pair.parameters (pair.put ps rpc) = ps := by
  cases pair <;> rfl

@[simp] theorem put_put (pair : Pair) (ps qs : List Parameter) (rpc : Rpc) :
    pair.put ps (pair.put qs rpc) = pair.put ps rpc := by
  cases pair <;> rfl

variable {pair : Pair} {name parameter : String} {rpc : Rpc} {pre post : List Parameter} {q : Parameter}

theorem set_eq (value : Value F) : pair.set name parameter value rpc =
    updateLast (pair.fullName name parameter) (·.assign value) (pair.parameters rpc) >>= fun ps =>
      .ok (pair.put ps rpc) := by
  cases pair <;> rfl

theorem get_eq : pair.get (F := F) name parameter rpc =
    literalNamed (pair.fullName name parameter) (pair.parameters rpc) := by
  cases pair <;> rfl

/-- **A setter assigns to the parameter of the name**, and changes nothing else. -/
theorem set_named (h : Named (pair.fullName name parameter) (pair.parameters rpc) pre q post) (value : Value F) :
    pair.set name parameter value rpc = q.assign value >>= fun q' => .ok (pair.put (pre ++ q' :: post) rpc) := by
  rw [set_eq, h.updateLast]
  cases q.assign value <;> rfl

/-- **A getter reads the parameter of the name.** -/
theorem get_named (h : Named (pair.fullName name parameter) (pair.parameters rpc) pre q post) :
    pair.get (F := F) name parameter rpc = literalEval q.value := by
  rw [get_eq, literalNamed, h.lastNamed]

/-- After a setter the name refers to what was assigned. -/
theorem named_put (h : Named (pair.fullName name parameter) (pair.parameters rpc) pre q post) {q' : Parameter}
    (hname : q'.name = q.name) : Named (pair.fullName name parameter)
      (pair.parameters (pair.put (pre ++ q' :: post) rpc)) pre q' post := by
  rw [parameters_put]
  exact h.replace hname

end Pair

/-! ## Texts of lists -/

section Texts

variable {F : Type}

/-- Integers for an integer type, booleans for a boolean type. -/
inductive ParameterType.Takes (t : ParameterType) : Scalar F → Prop
  | int (v : ℤ) (h : t.width ≠ none) : t.Takes (.int v)
  | bool (b : Bool) (h : t = .bool ∨ t = .BOOL) : t.Takes (.bool b)

/-- What is kept of an element: an integer modulo `2 ^ w`, anything else as it is. -/
def ParameterType.kept (t : ParameterType) : Scalar F → Scalar F
  | .int v => .int (t.residue v)
  | x => x

theorem ParameterType.residue_residue (t : ParameterType) (v : ℤ) : t.residue (t.residue v : ℕ) = t.residue v := by
  have hpos : (0 : ℤ) < 2 ^ (8 * t.bytes) := Int.pow_pos (by decide)
  have hnonneg := Int.emod_nonneg v (Int.ne_of_gt hpos)
  rw [residue, residue, Int.toNat_of_nonneg hnonneg, Int.emod_emod]

theorem ParameterType.kept_kept (t : ParameterType) (x : Scalar F) : t.kept (t.kept x) = t.kept x := by
  cases x with
  | int v => exact congrArg (fun n : ℕ => Scalar.int (n : ℤ)) (t.residue_residue v)
  | bool b => rfl
  | float x => rfl

theorem ParameterType.Takes.kept {t : ParameterType} {x : Scalar F} (h : t.Takes x) : t.Takes (t.kept x) := by
  cases h with
  | int v h => exact .int _ h
  | bool b h => exact .bool b h

variable [PyFloat F]

/-- What is kept, and a comma. -/
theorem ParameterType.Takes.elementText {t : ParameterType} {x : Scalar F} (h : t.Takes x) :
    elementText t x = .ok ((t.kept x).str ++ ",") := by
  cases h with
  | bool b h => rcases h with rfl | rfl <;> rfl
  | int v h =>
    obtain ⟨w, hw⟩ := Option.ne_none_iff_exists'.mp h
    have htext : ∀ k, toString (v % 2 ^ (8 * k)) = toString (v % 2 ^ (8 * k)).toNat := fun k =>
      toString_toNat (Int.emod_nonneg v (Int.ne_of_gt (Int.pow_pos (by decide))))
    have hkept : (t.kept (.int v : Scalar F)).str = toString (v % 2 ^ (8 * w)) := by
      rw [htext, ← ParameterType.bytes_of_width hw]
      rfl
    rw [hkept]
    cases t <;> cases hw <;> rfl

/-- A text without commas from which the element is read, as it stands in a list. -/
structure Scalar.Written (x : Scalar F) : Prop where
  ne_nil : x.str.toList ≠ []
  comma : ',' ∉ x.str.toList
  read : readScalar (x.str.toList.dropWhile (· = ' ')) = .ok x

theorem written_natCast (n : ℕ) : (Scalar.int n : Scalar F).Written := by
  obtain ⟨c, cs, h, hc⟩ := Decimal.exists_digit_cons n
  have hblank : c ≠ ' ' := by rintro rfl; exact absurd hc (by decide)
  have hstr : (Scalar.int n : Scalar F).str = toString n := rfl
  constructor
  · rw [hstr, h]
    exact List.cons_ne_nil _ _
  · rw [hstr, Decimal.toString_toList]
    intro hmem
    exact absurd (Nat.isDigit_of_mem_toDigits (by decide) (by decide) hmem) (by decide)
  · have hdrop : (toString n).toList.dropWhile (· = ' ') = (toString n).toList := by
      rw [h, List.dropWhile_cons_of_neg (by simpa using hblank)]
    rw [hstr, hdrop, readScalar_toString]

theorem written_bool (b : Bool) : (Scalar.bool b : Scalar F).Written := by
  cases b with
  | false =>
    have hstr : (Scalar.bool false : Scalar F).str = "False" := rfl
    have hdrop : "False".toList.dropWhile (· = ' ') = "False".toList := by decide
    refine ⟨by rw [hstr]; decide, by rw [hstr]; decide, ?_⟩
    rw [hstr, hdrop, readScalar, if_neg (by decide), if_pos rfl]
  | true =>
    have hstr : (Scalar.bool true : Scalar F).str = "True" := rfl
    have hdrop : "True".toList.dropWhile (· = ' ') = "True".toList := by decide
    refine ⟨by rw [hstr]; decide, by rw [hstr]; decide, ?_⟩
    rw [hstr, hdrop, readScalar, if_pos rfl]

theorem ParameterType.Takes.written {t : ParameterType} {x : Scalar F} (h : t.Takes x) : (t.kept x).Written := by
  cases h with
  | int v h => exact written_natCast _
  | bool b h => exact written_bool b

/-- The elements' texts between brackets, with commas between them. -/
def bracketed (ys : List (Scalar F)) : String :=
  String.ofList ('[' :: ([','].intercalate (ys.map (·.str.toList)) ++ [']']))

/-- **`ast.literal_eval` of a list.** -/
theorem literalEval_bracketed {ys : List (Scalar F)} (hne : ys ≠ []) (h : ∀ y ∈ ys, y.Written) :
    literalEval (bracketed ys) = .ok (.list ys) := by
  have hmap : ys.map (·.str.toList) ≠ [] := fun he => hne (List.map_eq_nil_iff.mp he)
  have hitem : ∀ item ∈ ys.map (·.str.toList), item ≠ [] ∧ ',' ∉ item := by
    intro item hitem
    obtain ⟨y, hy, rfl⟩ := List.mem_map.mp hitem
    exact ⟨(h y hy).ne_nil, (h y hy).comma⟩
  have hbody := Separated.intercalate_ne_nil ',' hmap fun item hi => (hitem item hi).1
  have hsplit := List.splitOn_intercalate ',' (fun item hi => (hitem item hi).2) hmap
  have hread : readElements (F := F) ([','].intercalate (ys.map (·.str.toList))) = .ok ys := by
    rw [readElements, if_neg hbody, hsplit, List.mapM_map]
    refine (mapM_ok (g := id) fun y hy => ?_).trans (congrArg Except.ok (List.map_id ys))
    exact (h y hy).read
  unfold literalEval bracketed
  rw [String.toList_ofList]
  simp only [List.getLast?_concat, List.dropLast_concat, hread, if_true]
  rfl

/-- **The text of a list** is that of what is kept of its elements. -/
theorem listText_of_takes {t : ParameterType} {xs : List (Scalar F)} (hne : xs ≠ []) (h : ∀ x ∈ xs, t.Takes x) :
    listText t xs = .ok (bracketed (xs.map t.kept)) := by
  have hmap : xs.map (fun x => (t.kept x).str.toList) ≠ [] := fun he => hne (List.map_eq_nil_iff.mp he)
  have hjoin : ("[" ++ String.join (xs.map fun x => (t.kept x).str ++ ",")).toList =
      '[' :: Separated.terminated ',' (xs.map fun x => (t.kept x).str.toList) := by
    rw [String.toList_append, String.toList_join, List.flatMap_map, Separated.terminated, List.flatMap_map]
    simp only [String.toList_append]
    rfl
  have hterm : Separated.terminated ',' (xs.map fun x => (t.kept x).str.toList) ≠ [] := by
    rw [Separated.terminated_eq ',' hmap]
    exact List.append_ne_nil_of_right_ne_nil _ (List.cons_ne_nil _ _)
  rw [listText, mapM_ok fun x hx => (h x hx).elementText, ok_bind, hjoin, List.dropLast_cons_of_ne_nil hterm,
    Separated.dropLast_terminated ',' hmap, bracketed, List.map_map]
  rfl

end Texts

/-! ## Round trip -/

section RoundTrip

variable {F : Type} [PyFloat F]

/-- The setter succeeds, the getter returns the list of what is kept of the elements, and setting that list changes
nothing. -/
def ListSurvives (pair : Pair) (name parameter : String) (t : ParameterType) (xs : List (Scalar F)) (rpc : Rpc) :
    Prop :=
  ∃ rpc', pair.set name parameter (.list xs) rpc = .ok rpc' ∧
    pair.get name parameter rpc' = .ok (.list (xs.map t.kept)) ∧
    pair.set name parameter (.list (xs.map t.kept) : Value F) rpc' = .ok rpc'

theorem assign_list {q : Parameter} (hlist : q.isAList = true) (xs : List (Scalar F)) :
    q.assign (.list xs) = listText q.parameterType xs >>= fun text => .ok { q with value := text } := by
  rw [Parameter.assign, hlist, if_neg Bool.true_eq_false.mp]
  cases listText q.parameterType xs <;> rfl

variable {pair : Pair} {name parameter : String} {rpc : Rpc} {pre post : List Parameter} {q : Parameter}

/-- The empty list is stored as a closing bracket. -/
theorem set_nil (h : Named (pair.fullName name parameter) (pair.parameters rpc) pre q post) (hlist : q.isAList = true) :
    pair.set name parameter (.list [] : Value F) rpc =
      .ok (pair.put (pre ++ { q with value := "]" } :: post) rpc) := by
  rw [Pair.set_named h, assign_list hlist]
  rfl

/-- No list is read from a closing bracket. -/
theorem literalEval_bracket (ys : List (Scalar F)) : literalEval (F := F) "]" ≠ .ok (.list ys) := by
  intro h
  have hscalar : literalEval (F := F) "]" = Value.scalar <$> readScalar [']'] := rfl
  rw [hscalar] at h
  cases hread : readScalar (F := F) [']'] with
  | error e => rw [hread] at h; cases h
  | ok x => rw [hread] at h; cases h

theorem listSurvives_of_ne_nil (h : Named (pair.fullName name parameter) (pair.parameters rpc) pre q post)
    (hlist : q.isAList = true) {xs : List (Scalar F)} (hne : xs ≠ []) (hxs : ∀ x ∈ xs, q.parameterType.Takes x) :
    ListSurvives pair name parameter q.parameterType xs rpc := by
  have hne' : xs.map q.parameterType.kept ≠ [] := fun he => hne (List.map_eq_nil_iff.mp he)
  have hkept : ∀ y ∈ xs.map q.parameterType.kept, q.parameterType.Takes y ∧ y.Written := by
    intro y hy
    obtain ⟨x, hx, rfl⟩ := List.mem_map.mp hy
    exact ⟨(hxs x hx).kept, (hxs x hx).written⟩
  have htext := listText_of_takes hne hxs
  have htext' := listText_of_takes hne' fun y hy => (hkept y hy).1
  have hmap : (xs.map q.parameterType.kept).map q.parameterType.kept = xs.map q.parameterType.kept := by
    rw [List.map_map]
    exact List.map_congr_left fun x _ => q.parameterType.kept_kept x
  let q' : Parameter := { q with value := bracketed (xs.map q.parameterType.kept) }
  have hput := Pair.named_put h (show q'.name = q.name from rfl)
  refine ⟨pair.put (pre ++ q' :: post) rpc, ?_, ?_, ?_⟩
  · rw [Pair.set_named h, assign_list hlist, htext]
    rfl
  · rw [Pair.get_named hput]
    exact literalEval_bracketed hne' fun y hy => (hkept y hy).2
  · have htype : q'.parameterType = q.parameterType := rfl
    have hlist' : q'.isAList = true := hlist
    rw [Pair.set_named hput, assign_list hlist', htype, htext', hmap, ok_bind, ok_bind, Pair.put_put]

/-- **A list survives iff it is not empty**, in each of the three pairs, whatever its type and length. -/
theorem list_survives_iff (h : Named (pair.fullName name parameter) (pair.parameters rpc) pre q post)
    (hlist : q.isAList = true) (xs : List (Scalar F)) (hxs : ∀ x ∈ xs, q.parameterType.Takes x) :
    ListSurvives pair name parameter q.parameterType xs rpc ↔ xs ≠ [] := by
  constructor
  · rintro ⟨rpc', hset, hget, _⟩ rfl
    rw [set_nil h hlist] at hset
    cases hset
    let q' : Parameter := { q with value := "]" }
    have hput := Pair.named_put h (show q'.name = q.name from rfl)
    exact literalEval_bracket _ ((Pair.get_named hput).symm.trans hget)
  · intro hne
    exact listSurvives_of_ne_nil h hlist hne hxs

end RoundTrip

/-- A command that takes a list, and sends one back. -/
def log : CommandSchema where
  id := 3
  name := "log"
  requestParameters := [⟨"size", .uint8, false, none⟩, ⟨"samples", .uint16, true, some "size"⟩]
  responseParameters := [⟨"size", .uint8, false, none⟩, ⟨"samples", .uint16, true, some "size"⟩]

/-- The host that has read it. -/
def logRpc : Rpc where
  requestParameters := log.requestParameters.map (requestParameterValue log)
  responseParameters := log.responseParameters.map (responseEntry log)
  notificationParameters := []

theorem list_survives_log :
    ListSurvives (F := Empty) .request "log" "samples" .uint16 [.int 70000, .int 5] logRpc := by
  have h : Named (Pair.request.fullName "log" "samples") (Pair.request.parameters logRpc)
      [requestParameterValue log ⟨"size", .uint8, false, none⟩]
      (requestParameterValue log ⟨"samples", .uint16, true, some "size"⟩) [] :=
    ⟨rfl, rfl, fun p hp => by cases hp⟩
  refine (list_survives_iff h rfl [.int 70000, .int 5] ?_).mpr (List.cons_ne_nil _ _)
  intro x hx
  rcases List.mem_cons.mp hx with rfl | hx
  · exact .int _ (by decide)
  · rw [List.mem_singleton.mp hx]
    exact .int _ (by decide)

/-- The empty list is stored as a text that the getter raises on. -/
theorem empty_list_lost : ∃ rpc', Pair.request.set "log" "samples" (.list [] : Value Empty) logRpc = .ok rpc' ∧
    Pair.request.get (F := Empty) "log" "samples" rpc' = .error .syntaxError ∧
    ¬ ListSurvives (F := Empty) .request "log" "samples" .uint16 [] logRpc := by
  have h : Named (Pair.request.fullName "log" "samples") (Pair.request.parameters logRpc)
      [requestParameterValue log ⟨"size", .uint8, false, none⟩]
      (requestParameterValue log ⟨"samples", .uint16, true, some "size"⟩) [] :=
    ⟨rfl, rfl, fun p hp => by cases hp⟩
  have hset := set_nil (F := Empty) h rfl
  refine ⟨_, hset, rfl, ?_⟩
  rintro ⟨rpc', hset', hget, _⟩
  rw [hset] at hset'
  cases hset'
  cases hget

end BleRpc.Host
