import BleRpc.Host.Storage
import BleRpc.Host.Decode
import BleRpc.Lib.Transition
import Mathlib.Data.List.Forall2
import Mathlib.Data.List.Infix

/-!
# What a parameter owes to which call

One object of `ble_rpc.py`, used by any number of callers one after another: setters of all three kinds, and responses
of any bytes, each of which may raise. `independent`: a command's packet is what the setters make of it that name a
parameter with the command's name in it, a value what the setters of its name and the responses with its id make of it,
and whether a call raises is the same at all times.

- `Agree`: two lists with the same parameters, and the same values where it matters;
- `Agree.updateLast`, `Agree.updateLast_left`: what setters keep of it;
- `Agree.decodeParameters`, `Agree.decodeParameters_left`: what responses keep of it.
-/

namespace BleRpc.Host

open Outcome Transition

/-! ## Calls -/

section Calls

variable {F : Type} [PyFloat F]

/-- A call that may store something: a setter, or `disassemble_response_packet`. -/
inductive Call (F : Type)
  | set (pair : Pair) (name parameter : String) (value : Value F)
  | receive (packet : Bytes)

/-- The object afterwards, and whether an exception was raised. A setter that raises has stored nothing. -/
def Call.run (rpc : Rpc) : Call F → Rpc × Except PyErr Unit
  | .set pair name parameter value =>
    match pair.set name parameter value rpc with
    | .ok rpc' => (rpc', .ok ())
    | .error e => (rpc, .error e)
  | .receive packet => disassembleResponsePacket packet rpc

/-- The object after some calls. -/
def session (rpc : Rpc) (calls : List (Call F)) : Rpc := calls.foldl (fun rpc call => (call.run rpc).1) rpc

/-- The call is about parameters of the kind whose names have the property: a setter of such a name, or a response with
the id of such a parameter. -/
def Call.Concerns (rpc : Rpc) (pair : Pair) (P : String → Prop) : Call F → Prop
  | .set pair' name parameter _ => pair' = pair ∧ P (pair.fullName name parameter)
  | .receive packet => pair = .response ∧ ∃ p ∈ rpc.responseParameters, P p.name ∧ ∃ b ∈ packet.head?, p.id = b.toNat

instance (rpc : Rpc) (pair : Pair) (P : String → Prop) [DecidablePred P] (call : Call F) :
    Decidable (call.Concerns rpc pair P) :=
  match call with
  | .set .. => inferInstanceAs (Decidable (_ ∧ _))
  | .receive _ => inferInstanceAs (Decidable (_ ∧ ∃ p ∈ rpc.responseParameters, _ ∧ ∃ b ∈ _, _))

end Calls

/-! ## Lists that agree -/

/-- The same parameters in the same order, with the same values where the name has the property. -/
def Agree (P : String → Prop) (ps qs : List Parameter) : Prop :=
  List.Forall₂ (fun p q => p.shape = q.shape ∧ (P p.name → p = q)) ps qs

section Agree

variable {P : String → Prop} {ps qs : List Parameter}

theorem Agree.refl (P : String → Prop) (ps : List Parameter) : Agree P ps ps :=
  List.forall₂_same.mpr fun _ _ => ⟨rfl, fun _ => rfl⟩

theorem Agree.shapes (h : Agree P ps qs) : ps.map Parameter.shape = qs.map Parameter.shape := by
  induction h with
  | nil => rfl
  | cons hpq _ ih => rw [List.map_cons, List.map_cons, hpq.1, ih]

/-- Where it matters they are one list. -/
theorem Agree.filter (h : Agree P ps qs) {f : Parameter → Bool} (hf : ∀ p, f p ↔ P p.name) :
    ps.filter f = qs.filter f := by
  induction h with
  | nil => rfl
  | @cons p q ps qs hpq _ ih =>
    have hq : f q ↔ P p.name := by rw [hf, Parameter.name_of_shape hpq.1]
    by_cases hP : P p.name
    · rw [List.filter_cons_of_pos ((hf p).mpr hP), List.filter_cons_of_pos (hq.mpr hP), hpq.2 hP, ih]
    · rw [List.filter_cons_of_neg fun hp => hP ((hf p).mp hp), List.filter_cons_of_neg fun h => hP (hq.mp h), ih]

theorem Agree.any_name (h : Agree P ps qs) (name : String) : ps.any (·.name = name) = qs.any (·.name = name) := by
  induction h with
  | nil => rfl
  | cons hpq _ ih => rw [List.any_cons, List.any_cons, Parameter.name_of_shape hpq.1, ih]

/-! ## Setters -/

variable {name : String} {f : Parameter → Except PyErr Parameter}

/-- A setter of a name that matters finds the same parameter in both lists, with the same value. -/
theorem Agree.updateLast (h : Agree P ps qs) (hP : P name) :
    (∃ ps' qs', updateLast name f ps = .ok ps' ∧ updateLast name f qs = .ok qs' ∧ Agree P ps' qs') ∨
      ∃ e, updateLast name f ps = .error e ∧ updateLast name f qs = .error e := by
  induction h with
  | nil => exact .inr ⟨_, rfl, rfl⟩
  | @cons p q ps qs hpq hrest ih =>
    have hname := Parameter.name_of_shape hpq.1
    have hany := Agree.any_name hrest name
    unfold Host.updateLast
    rw [← hany, ← hname]
    split
    · rcases ih with ⟨ps', qs', hps, hqs, hagree⟩ | ⟨e, hps, hqs⟩
      · exact .inl ⟨p :: ps', q :: qs', by rw [hps]; rfl, by rw [hqs]; rfl, .cons hpq hagree⟩
      · exact .inr ⟨e, by rw [hps]; rfl, by rw [hqs]; rfl⟩
    · split
      · rename_i hpname
        obtain rfl := hpq.2 (hpname ▸ hP)
        cases hfp : f p with
        | ok p' => exact .inl ⟨p' :: ps, p' :: qs, rfl, rfl, .cons ⟨rfl, fun _ => rfl⟩ hrest⟩
        | error e => exact .inr ⟨e, rfl, rfl⟩
      · exact .inr ⟨_, rfl, rfl⟩

/-- A setter of a name that does not matter. -/
theorem Agree.updateLast_left (h : Agree P ps qs) (hP : ¬ P name) (hf : ∀ p p', f p = .ok p' → p'.shape = p.shape)
    {ps' : List Parameter} (hps : Host.updateLast name f ps = .ok ps') : Agree P ps' qs := by
  induction h generalizing ps' with
  | nil => cases hps
  | @cons p q ps qs hpq hrest ih =>
    unfold Host.updateLast at hps
    split at hps
    · obtain ⟨ps'', hps'', hps⟩ := bind_eq_ok.mp hps
      cases hps
      exact .cons hpq (ih hps'')
    · split at hps
      · rename_i hpname
        obtain ⟨p', hp', hps⟩ := bind_eq_ok.mp hps
        cases hps
        have hshape := hf p p' hp'
        refine .cons ⟨hshape.trans hpq.1, fun hPp => absurd ?_ hP⟩ hrest
        rwa [← hpname, ← Parameter.name_of_shape hshape]
      · cases hps

/-- Whether a setter raises is a matter of the parameters alone, if it is for what it does to one. -/
theorem Agree.updateLast_result (h : Agree P ps qs)
    (hf : ∀ p q, p.shape = q.shape → (f p).map (fun _ => ()) = (f q).map (fun _ => ())) :
    (Host.updateLast name f ps).map (fun _ => ()) = (Host.updateLast name f qs).map (fun _ => ()) := by
  induction h with
  | nil => rfl
  | @cons p q ps qs hpq hrest ih =>
    have hname := Parameter.name_of_shape hpq.1
    have hany := Agree.any_name hrest name
    have hfpq := hf p q hpq.1
    unfold Host.updateLast
    rw [← hany, ← hname]
    split
    · cases hps : Host.updateLast name f ps <;> cases hqs : Host.updateLast name f qs <;> rw [hps, hqs] at ih <;>
        exact ih
    · split
      · cases hp : f p <;> cases hq : f q <;> rw [hp, hq] at hfpq <;> exact hfpq
      · rfl

/-! ## Responses -/

section Decode

variable {id : ℤ} {payload : Bytes} {index : ℕ}

/-- The decoder at a parameter with the id of the packet. -/
theorem decodeParameters_hit {p : Parameter} (hid : id = p.id) (hindex : index ≤ payload.length) (ps : List Parameter) :
    Host.decodeParameters id payload index (p :: ps) =
      if p.isAList = true then (p :: ps, .error .typeError)
      else if index + p.parameterType.responseBytes ≤ payload.length then
        (p.read (slice payload index p.parameterType.responseBytes) ::
            (Host.decodeParameters id payload (index + p.parameterType.responseBytes) ps).1,
          (Host.decodeParameters id payload (index + p.parameterType.responseBytes) ps).2)
      else (p :: ps, .error .indexError) := by
  rw [Host.decodeParameters, if_pos hid]
  cases hlist : p.isAList with
  | true =>
    have hraise : decodeParameter payload index p = .error .typeError := by simp [decodeParameter, hlist]
    rw [hraise]
    rfl
  | false =>
    rw [decodeParameter_of_scalar hlist hindex, if_neg Bool.false_ne_true]
    by_cases hfits : index + p.parameterType.responseBytes ≤ payload.length
    · rw [if_pos hfits, if_pos hfits]
    · rw [if_neg hfits, if_neg hfits]

theorem read_of_shape {p q : Parameter} (h : p.shape = q.shape) (bs : Bytes) :
    (p.read bs).shape = (q.read bs).shape ∧ (P (p.read bs).name → (P p.name → p = q) → p.read bs = q.read bs) := by
  have hp := p.read_shape bs
  refine ⟨by rw [hp, h, q.read_shape bs], fun hP heq => ?_⟩
  rw [heq (Parameter.name_of_shape hp ▸ hP)]

/-- What a response leaves does not depend on what there was, nor does whether it raises. -/
theorem Agree.decodeParameters (h : Agree P ps qs) (hindex : index ≤ payload.length) :
    Agree P (decodeParameters id payload index ps).1 (decodeParameters id payload index qs).1 ∧
      (Host.decodeParameters id payload index ps).2 = (Host.decodeParameters id payload index qs).2 := by
  induction h generalizing index with
  | nil => exact ⟨.nil, rfl⟩
  | @cons p q ps qs hpq hrest ih =>
    have hqid : p.id = q.id := Parameter.id_of_shape hpq.1
    by_cases hid : id = p.id
    · rw [decodeParameters_hit hid hindex, decodeParameters_hit (hid.trans hqid) hindex,
        ← Parameter.isAList_of_shape hpq.1, ← Parameter.parameterType_of_shape hpq.1]
      split
      · exact ⟨.cons hpq hrest, rfl⟩
      · split
        · rename_i hfits
          obtain ⟨hagree, hresult⟩ := ih hfits
          have hread := read_of_shape (P := P) hpq.1 (slice payload index p.parameterType.responseBytes)
          exact ⟨.cons ⟨hread.1, fun hP => hread.2 hP hpq.2⟩ hagree, hresult⟩
        · exact ⟨.cons hpq hrest, rfl⟩
    · obtain ⟨hagree, hresult⟩ := ih hindex
      rw [Host.decodeParameters, Host.decodeParameters, if_neg hid, if_neg (hqid ▸ hid)]
      exact ⟨.cons hpq hagree, hresult⟩

/-- A response with an id that no parameter has that matters. -/
theorem Agree.decodeParameters_left (h : Agree P ps qs) (hnot : ∀ p ∈ ps, P p.name → p.id ≠ id)
    (hindex : index ≤ payload.length) : Agree P (Host.decodeParameters id payload index ps).1 qs := by
  induction h generalizing index with
  | nil => exact .nil
  | @cons p q ps qs hpq hrest ih =>
    have hnot' := fun r hr => hnot r (List.mem_cons_of_mem _ hr)
    by_cases hid : id = p.id
    · rw [decodeParameters_hit hid hindex]
      split
      · exact .cons hpq hrest
      · split
        · rename_i hfits
          have hshape := p.read_shape (slice payload index p.parameterType.responseBytes)
          refine .cons ⟨hshape.trans hpq.1, fun hP => ?_⟩ (ih hnot' hfits)
          rw [Parameter.name_of_shape hshape] at hP
          exact absurd hid.symm (hnot p List.mem_cons_self hP)
        · exact .cons hpq hrest
    · rw [Host.decodeParameters, if_neg hid]
      exact .cons hpq (ih hnot' hindex)

end Decode

end Agree

/-! ## Calls keep agreement -/

section Keep

variable {F : Type} [PyFloat F] {P : String → Prop} {pair : Pair} {rpc s t : Rpc}

/-- Whether `assign` raises is not a matter of the value there was. -/
theorem assign_result {p q : Parameter} (h : p.shape = q.shape) (value : Value F) :
    (p.assign value).map (fun _ => ()) = (q.assign value).map (fun _ => ()) := by
  have hlist := Parameter.isAList_of_shape h
  have htype := Parameter.parameterType_of_shape h
  unfold Parameter.assign
  rw [hlist, htype]
  split
  · cases q.parameterType with
    | bool | BOOL | float | other => rfl
    | _ =>
      simp only [scalarText]
      cases value.toInt <;> rfl
  · cases value with
    | scalar x => rfl
    | list xs => cases htext : listText q.parameterType xs <;> simp only [htext] <;> rfl

/-- A setter leaves the other two lists alone. -/
theorem Pair.parameters_put_of_ne {pair' : Pair} (h : pair ≠ pair') (ps : List Parameter) (rpc : Rpc) :
    pair.parameters (pair'.put ps rpc) = pair.parameters rpc := by
  cases pair <;> cases pair' <;> first | rfl | exact absurd rfl h

/-- What a response leaves. -/
theorem parameters_disassemble (packet : Bytes) (rpc : Rpc) (h : pair ≠ .response) :
    pair.parameters (disassembleResponsePacket packet rpc).1 = pair.parameters rpc := by
  cases pair with
  | response => exact absurd rfl h
  | request | notification =>
    match packet with
    | [] | [_] => rfl
    | _ :: _ :: _ => rfl

/-- A call that matters keeps agreement on both sides. -/
theorem Call.keeps (call : Call F) (h : Agree P (pair.parameters s) (pair.parameters t))
    (hconcerns : call.Concerns rpc pair P) :
    Agree P (pair.parameters (call.run s).1) (pair.parameters (call.run t).1) := by
  cases call with
  | set pair' name parameter value =>
    obtain ⟨rfl, hP⟩ := hconcerns
    simp only [Call.run, Pair.set_eq]
    rcases h.updateLast hP with ⟨ps', qs', hps, hqs, hagree⟩ | ⟨e, hps, hqs⟩
    · rw [hps, hqs]
      simpa using hagree
    · rw [hps, hqs]
      exact h
  | receive packet =>
    obtain ⟨rfl, -⟩ := hconcerns
    match packet with
    | [] | [_] => exact h
    | id :: _ :: payload => exact (h.decodeParameters (Nat.zero_le _)).1

/-- A call that does not matter keeps agreement on the left. -/
theorem Call.keeps_left (call : Call F) (h : Agree P (pair.parameters s) (pair.parameters t))
    (hconcerns : ¬ call.Concerns s pair P) : Agree P (pair.parameters (call.run s).1) (pair.parameters t) := by
  cases call with
  | set pair' name parameter value =>
    simp only [Call.run, Pair.set_eq]
    cases hps : updateLast (pair'.fullName name parameter) (·.assign value) (pair'.parameters s) with
    | error e => exact h
    | ok ps' =>
      simp only [ok_bind]
      by_cases hpair : pair = pair'
      · subst hpair
        rw [Pair.parameters_put]
        exact h.updateLast_left (fun hP => hconcerns ⟨rfl, hP⟩) (fun _ _ => assign_shape) hps
      · rw [Pair.parameters_put_of_ne hpair]
        exact h
  | receive packet =>
    by_cases hpair : pair = .response
    · subst hpair
      match packet with
      | [] | [_] => exact h
      | id :: _ :: payload =>
        refine h.decodeParameters_left ?_ (Nat.zero_le _)
        intro p hp hP hid
        exact hconcerns ⟨rfl, p, hp, hP, id, rfl, hid⟩
    · rw [Call.run, parameters_disassemble packet s hpair]
      exact h

/-- The parameters stay, whatever becomes of their values. -/
theorem Call.shapes (call : Call F) (s : Rpc) (pair : Pair) :
    (pair.parameters (call.run s).1).map Parameter.shape = (pair.parameters s).map Parameter.shape := by
  refine (call.keeps_left (P := fun _ => False) (Agree.refl _ _) ?_).shapes
  cases call with
  | set => exact fun h => h.2
  | receive => rintro ⟨-, -, -, h, -⟩; exact h

theorem session_shapes (rpc : Rpc) (calls : List (Call F)) (pair : Pair) :
    (pair.parameters (session rpc calls)).map Parameter.shape = (pair.parameters rpc).map Parameter.shape := by
  induction calls generalizing rpc with
  | nil => rfl
  | cons call calls ih => exact (ih (call.run rpc).1).trans (call.shapes rpc pair)

omit [PyFloat F] in
/-- Which calls matter is a matter of the parameters, not of their values. -/
theorem Call.Concerns.of_shapes {call : Call F} (h : call.Concerns s pair P)
    (hshapes : s.responseParameters.map Parameter.shape = t.responseParameters.map Parameter.shape) :
    call.Concerns t pair P := by
  cases call with
  | set => exact h
  | receive packet =>
    obtain ⟨hpair, p, hp, hP, b, hb, hid⟩ := h
    have hmem : p.shape ∈ t.responseParameters.map Parameter.shape := hshapes ▸ List.mem_map_of_mem hp
    obtain ⟨q, hq, hshape⟩ := List.mem_map.mp hmem
    refine ⟨hpair, q, hq, ?_, b, hb, ?_⟩
    · rwa [Parameter.name_of_shape hshape]
    · rw [Parameter.id_of_shape hshape, hid]

/-- **What matters is the same without the calls that do not.** -/
theorem agree_session [DecidablePred P] (rpc : Rpc) (pair : Pair) (calls : List (Call F)) :
    Agree P (pair.parameters (session rpc calls))
      (pair.parameters (session rpc (calls.filter (·.Concerns rpc pair P)))) := by
  have hrun := foldl_filter (R := fun s t : Rpc => Agree P (pair.parameters s) (pair.parameters t) ∧
      s.responseParameters.map Parameter.shape = rpc.responseParameters.map Parameter.shape)
    (f := fun s (call : Call F) => (call.run s).1) (q := fun call => decide (call.Concerns rpc pair P)) ?_ ?_
    ⟨Agree.refl P _, rfl⟩ calls
  · exact hrun.1
  · rintro s t call ⟨h, hshapes⟩ hconcerns
    exact ⟨call.keeps h (of_decide_eq_true hconcerns), (call.shapes s .response).trans hshapes⟩
  · rintro s t call ⟨h, hshapes⟩ hconcerns
    refine ⟨call.keeps_left h fun hs => hconcerns ?_, (call.shapes s .response).trans hshapes⟩
    exact decide_eq_true (hs.of_shapes hshapes)

/-- Whether a call raises, and what, is a matter of the parameters alone. -/
theorem Call.result_of_shapes (call : Call F)
    (h : ∀ pair : Pair, Agree (fun _ => False) (pair.parameters s) (pair.parameters t)) :
    (call.run s).2 = (call.run t).2 := by
  cases call with
  | set pair name parameter value =>
    have hresult : (updateLast (pair.fullName name parameter) (·.assign value) (pair.parameters s)).map (fun _ => ()) =
        (updateLast (pair.fullName name parameter) (·.assign value) (pair.parameters t)).map (fun _ => ()) :=
      (h pair).updateLast_result fun p q hpq => assign_result hpq value
    simp only [Call.run, Pair.set_eq]
    cases hs : updateLast (pair.fullName name parameter) (·.assign value) (pair.parameters s) <;>
      cases ht : updateLast (pair.fullName name parameter) (·.assign value) (pair.parameters t) <;>
        rw [hs, ht] at hresult <;> exact hresult
  | receive packet =>
    match packet with
    | [] | [_] => rfl
    | id :: _ :: payload => exact ((h .response).decodeParameters (Nat.zero_le _)).2

theorem agree_of_shapes {ps qs : List Parameter} (h : ps.map Parameter.shape = qs.map Parameter.shape) :
    Agree (fun _ => False) ps qs := by
  have heq : List.Forall₂ (· = ·) (ps.map Parameter.shape) (qs.map Parameter.shape) := by
    rw [h]
    exact List.forall₂_same.mpr fun _ _ => rfl
  have hshapes := List.forall₂_map_left_iff.mp (List.forall₂_map_right_iff.mp heq)
  exact hshapes.imp fun _ _ hshape => ⟨hshape, False.elim⟩

theorem formCommandPacket_congr {command : String}
    (h : s.requestParameters.filter (·.Selected command) = t.requestParameters.filter (·.Selected command)) :
    formCommandPacket command s = formCommandPacket command t := by
  rw [formCommandPacket, formCommandPacket, h]

/-- **Everything depends on its own calls alone.** After any calls on an object, from whatever lists it was made: the
packet of a command is as if only those calls had been made that set a request parameter with the command's name in its
full name; a value is as if only its own setter had been called, and responses with the id of a parameter of its name
received; and a call raises exactly what it would have raised before them. -/
theorem independent (rpc : Rpc) (calls : List (Call F)) :
    (∀ command : String, formCommandPacket command (session rpc calls) = formCommandPacket command (session rpc
      (calls.filter (·.Concerns rpc .request fun name => command.toList <:+: name.toList)))) ∧
    (∀ pair name parameter, Pair.get (F := F) pair name parameter (session rpc calls) = pair.get name parameter
      (session rpc (calls.filter (·.Concerns rpc pair fun full => full = pair.fullName name parameter)))) ∧
    ∀ call : Call F, (call.run (session rpc calls)).2 = (call.run rpc).2 := by
  refine ⟨?_, ?_, ?_⟩
  · intro command
    have hagree := agree_session (P := fun name => command.toList <:+: name.toList) rpc .request calls
    exact formCommandPacket_congr (hagree.filter fun _ => decide_eq_true_iff)
  · intro pair name parameter
    have hagree := agree_session (P := fun full => full = pair.fullName name parameter) rpc pair calls
    rw [Pair.get_eq, Pair.get_eq, literalNamed, literalNamed, lastNamed, lastNamed,
      hagree.filter fun _ => decide_eq_true_iff]
  · intro call
    exact call.result_of_shapes fun pair => agree_of_shapes (session_shapes rpc calls pair)

end Keep

end BleRpc.Host
