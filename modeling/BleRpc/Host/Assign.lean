import BleRpc.Host.Parameters
import Mathlib.Data.List.Induction

/-!
# What the setters and getters do

For a parameter whose full name occurs once (`Single`), a setter changes that parameter and nothing else, and a getter
reads it. `setRequests_ok` says what a whole sequence of calls leaves: each named parameter has the residue of the last
value it was given.
-/

namespace BleRpc.Host

open Outcome

/-- `v` modulo `2 ^ w`, for a type of `w` bits. -/
def ParameterType.residue (t : ParameterType) (v : ℤ) : ℕ := (v % 2 ^ (8 * t.bytes)).toNat

theorem ParameterType.residue_lt (t : ParameterType) (v : ℤ) : t.residue v < 256 ^ t.bytes := by
  have hpow : (256 : ℕ) ^ t.bytes = 2 ^ (8 * t.bytes) := by rw [pow_mul, show (2 : ℕ) ^ 8 = 256 from rfl]
  have hpos : (0 : ℤ) < 2 ^ (8 * t.bytes) := Int.pow_pos (by decide)
  have hlt := Int.emod_lt_of_pos v hpos
  have hnonneg := Int.emod_nonneg v (Int.ne_of_gt hpos)
  have hcast : ((2 ^ (8 * t.bytes) : ℕ) : ℤ) = 2 ^ (8 * t.bytes) := by norm_cast
  rw [hpow, residue]
  omega

/-- The text of an integer that is not negative is a numeral. -/
theorem toString_toNat {z : ℤ} (h : 0 ≤ z) : toString z = toString z.toNat := by
  obtain ⟨n, rfl⟩ := Int.eq_ofNat_of_zero_le h
  rfl

section Setters

variable (F : Type) [PyFloat F]

/-- **An integer parameter is set to the residue.** -/
theorem assign_int {p : Parameter} {w : ℕ} (hscalar : p.isAList = false) (hw : p.parameterType.width = some w)
    (v : ℤ) : p.assign (.scalar (.int v) : Value F) = .ok (p.set (p.parameterType.residue v)) := by
  have hbytes := ParameterType.bytes_of_width hw
  have htext : ∀ k, toString (v % 2 ^ (8 * k)) = toString (v % 2 ^ (8 * k)).toNat := fun k =>
    toString_toNat (Int.emod_nonneg v (Int.ne_of_gt (Int.pow_pos (by decide))))
  rw [Parameter.assign, if_pos hscalar, Parameter.set, ParameterType.residue, hbytes, ← htext]
  cases ht : p.parameterType <;> rw [ht] at hw <;> cases hw
  all_goals rfl

/-! ## Parameters named once -/

/-- One parameter has the name, and it is a scalar integer. -/
def Single (name : String) (ps : List Parameter) : Prop :=
  ∃ p, ps.filter (·.name = name) = [p] ∧ p.isAList = false ∧ p.parameterType.width ≠ none

theorem filter_name_eq_nil {name : String} {ps : List Parameter} (h : ∀ p ∈ ps, p.name ≠ name) :
    ps.filter (·.name = name) = [] :=
  List.filter_eq_nil_iff.mpr fun p hp => by simpa using h p hp

/-- With distinct keys, an element is alone with its key. -/
theorem filter_key_of_nodup {α : Type} {key : α → String} {as : List α} (hn : (as.map key).Nodup) {a : α}
    (ha : a ∈ as) : as.filter (key · = key a) = [a] := by
  induction as with
  | nil => cases ha
  | cons b as ih =>
    rw [List.map_cons, List.nodup_cons] at hn
    rcases List.mem_cons.mp ha with rfl | ha
    · have hrest : as.filter (key · = key a) = [] :=
        List.filter_eq_nil_iff.mpr fun b hb => by
          simpa using fun he : key b = key a => hn.1 (he ▸ List.mem_map_of_mem hb)
      rw [List.filter_cons_of_pos (by simp), hrest]
    · have hne : key b ≠ key a := fun he => hn.1 (he ▸ List.mem_map_of_mem ha)
      rw [List.filter_cons_of_neg (by simpa using hne), ih hn.2 ha]

/-- With distinct names, a parameter is alone with its name. -/
theorem filter_name_of_nodup {ps : List Parameter} (hn : (ps.map Parameter.name).Nodup) {p : Parameter}
    (hp : p ∈ ps) : ps.filter (·.name = p.name) = [p] := filter_key_of_nodup hn hp

/-- Changing values does not change who has a name. -/
theorem filter_name_map {g : Parameter → Parameter} (hg : ∀ p, (g p).name = p.name) (name : String)
    (ps : List Parameter) : (ps.map g).filter (·.name = name) = (ps.filter (·.name = name)).map g := by
  rw [List.filter_map]
  congr 2
  funext p
  simp [hg p]

theorem Single.map {g : Parameter → Parameter} (hg : ∀ p, (g p).shape = p.shape) {name : String}
    {ps : List Parameter} (h : Single name ps) : Single name (ps.map g) := by
  obtain ⟨p, hp, hscalar, hwidth⟩ := h
  refine ⟨g p, ?_, ?_, ?_⟩
  · rw [filter_name_map (fun q => Parameter.name_of_shape (hg q)), hp]
    rfl
  · exact (Parameter.isAList_of_shape (hg p)).trans hscalar
  · rw [Parameter.parameterType_of_shape (hg p)]
    exact hwidth

/-- **A setter changes the one parameter of the name.** -/
theorem updateLast_of_single {name : String} {f : Parameter → Except PyErr Parameter} {g : Parameter → Parameter}
    {ps : List Parameter} {p : Parameter} (hp : ps.filter (·.name = name) = [p]) (hf : f p = .ok (g p)) :
    updateLast name f ps = .ok (ps.map fun q => if q.name = name then g q else q) := by
  induction ps with
  | nil => cases hp
  | cons q ps ih =>
    by_cases hq : q.name = name
    · rw [List.filter_cons_of_pos (by simpa using hq), List.cons.injEq] at hp
      obtain ⟨rfl, hrest⟩ := hp
      have hnone : ∀ r ∈ ps, r.name ≠ name := fun r hr => by simpa using List.filter_eq_nil_iff.mp hrest r hr
      have hany : ps.any (·.name = name) = false := List.any_eq_false.mpr fun r hr => by simpa using hnone r hr
      have hmap : (ps.map fun r => if r.name = name then g r else r) = ps := by
        rw [List.map_congr_left fun r hr => if_neg (hnone r hr), List.map_id']
      rw [updateLast, hany, if_neg Bool.false_ne_true, if_pos hq, hf, ok_bind, List.map_cons, if_pos hq, hmap]
      rfl
    · rw [List.filter_cons_of_neg (by simpa using hq)] at hp
      have hmem : p ∈ ps.filter (·.name = name) := by rw [hp]; exact List.mem_singleton_self p
      have hany : ps.any (·.name = name) = true :=
        List.any_eq_true.mpr ⟨p, (List.mem_filter.mp hmem).1, (List.mem_filter.mp hmem).2⟩
      rw [updateLast, if_pos hany, ih hp, ok_bind, List.map_cons, if_neg hq]
      rfl

/-- **A getter reads the one parameter of the name.** -/
theorem literalNamed_of_filter {name : String} {ps : List Parameter} {p : Parameter}
    (h : ps.filter (·.name = name) = [p]) : literalNamed (F := F) name ps = literalEval p.value := by
  rw [literalNamed, lastNamed, h]
  rfl

/-- A getter reads the parameters of the name only. -/
theorem literalNamed_congr {name : String} {ps qs : List Parameter}
    (h : ps.filter (·.name = name) = qs.filter (·.name = name)) :
    literalNamed (F := F) name ps = literalNamed name qs := by
  rw [literalNamed, literalNamed, lastNamed, lastNamed, h]

/-! ## Sequences of calls -/

/-- Calls of `set_rpc_request_parameter_value` with integers, in order. -/
def setRequests (command : String) (calls : List (String × ℤ)) (rpc : Rpc) : Except PyErr Rpc :=
  calls.foldlM (fun rpc call => setRpcRequestParameterValue command call.1 (.scalar (.int call.2) : Value F) rpc) rpc

/-- The value of the last call for a parameter. -/
def lastCall (calls : List (String × ℤ)) (parameter : String) : Option ℤ :=
  ((calls.filter (·.1 = parameter)).getLast?).map Prod.snd

variable {F}

/-- The value of the last call for a parameter of this full name. -/
def lastCallNamed (command : String) (calls : List (String × ℤ)) (name : String) : Option ℤ :=
  ((calls.filter (requestName command ·.1 = name)).getLast?).map Prod.snd

/-- The parameter after the calls. -/
def assigned (command : String) (calls : List (String × ℤ)) (p : Parameter) : Parameter :=
  match lastCallNamed command calls p.name with
  | some v => p.set (p.parameterType.residue v)
  | none => p

@[simp] theorem set_shape (p : Parameter) (n : ℕ) : (p.set n).shape = p.shape := rfl

@[simp] theorem assigned_shape (command : String) (calls : List (String × ℤ)) (p : Parameter) :
    (assigned command calls p).shape = p.shape := by
  unfold assigned
  cases lastCallNamed command calls p.name <;> rfl

theorem requestName_inj {command p q : String} (h : requestName command p = requestName command q) : p = q := by
  have h' := congrArg String.toList h
  simp only [requestName, String.toList_append, List.append_assoc] at h'
  exact String.toList_inj.mp (List.append_cancel_left (List.append_cancel_left h'))

theorem lastCallNamed_requestName (command : String) (calls : List (String × ℤ)) (parameter : String) :
    lastCallNamed command calls (requestName command parameter) = lastCall calls parameter := by
  have hfilter : calls.filter (requestName command ·.1 = requestName command parameter) =
      calls.filter (·.1 = parameter) := by
    apply List.filter_congr
    intro call _
    exact decide_eq_decide.mpr ⟨requestName_inj, congrArg (requestName command)⟩
  rw [lastCallNamed, lastCall, hfilter]

/-- One more call. -/
theorem assigned_concat (command : String) (calls : List (String × ℤ)) (call : String × ℤ) (p : Parameter) :
    assigned command (calls ++ [call]) p =
      if p.name = requestName command call.1 then (assigned command calls p).set (p.parameterType.residue call.2)
      else assigned command calls p := by
  by_cases h : p.name = requestName command call.1
  · rw [if_pos h]
    have hlast : lastCallNamed command (calls ++ [call]) p.name = some call.2 := by
      rw [lastCallNamed, List.filter_append, List.filter_cons_of_pos (by simpa using h.symm)]
      simp
    rw [assigned, hlast]
    unfold assigned
    cases lastCallNamed command calls p.name <;> rfl
  · rw [if_neg h]
    have hlast : lastCallNamed command (calls ++ [call]) p.name = lastCallNamed command calls p.name := by
      rw [lastCallNamed, List.filter_append, List.filter_cons_of_neg (by simpa using fun he => h he.symm)]
      simp [lastCallNamed]
    rw [assigned, hlast, assigned]

/-- **What a sequence of calls leaves.** -/
theorem setRequests_ok (F : Type) [PyFloat F] {command : String} {calls : List (String × ℤ)} {rpc : Rpc}
    (h : ∀ call ∈ calls, Single (requestName command call.1) rpc.requestParameters) :
    setRequests F command calls rpc =
      .ok { rpc with requestParameters := rpc.requestParameters.map (assigned command calls) } := by
  induction calls using List.reverseRecOn with
  | nil =>
    have hid : assigned command [] = id := rfl
    rw [hid, List.map_id]
    rfl
  | append_singleton calls call ih =>
    have hih := ih fun c hc => h c (List.mem_append_left _ hc)
    have hsingle := (h call (List.mem_append_right _ (List.mem_singleton_self _))).map (assigned_shape command calls)
    obtain ⟨p, hp, hscalar, hwidth⟩ := hsingle
    obtain ⟨w, hw⟩ := Option.ne_none_iff_exists'.mp hwidth
    have hset := updateLast_of_single (f := (·.assign (.scalar (.int call.2) : Value F)))
      (g := fun q => q.set (q.parameterType.residue call.2)) hp (assign_int F hscalar hw call.2)
    unfold setRequests at hih ⊢
    rw [List.foldlM_append, hih, ok_bind, List.foldlM_cons, setRpcRequestParameterValue, hset, List.map_map]
    have hfun : (fun q => if q.name = requestName command call.1 then q.set (q.parameterType.residue call.2) else q) ∘
        assigned command calls = assigned command (calls ++ [call]) := by
      funext q
      have hname := Parameter.name_of_shape (assigned_shape command calls q)
      have htype := Parameter.parameterType_of_shape (assigned_shape command calls q)
      rw [assigned_concat, Function.comp_apply, hname, htype]
    rw [hfun]
    rfl

end Setters

end BleRpc.Host
