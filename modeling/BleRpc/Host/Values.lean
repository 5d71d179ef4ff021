import BleRpc.Host.Packet
import BleRpc.Lib.Decimal
import Mathlib.Data.Int.Notation

/-!
# Python values and their texts

The host stores every parameter value as text: `str` writes it, `int` and `ast.literal_eval` read it back. Modelled are
integers, booleans, floats, and flat lists of these, with the texts the program stores: numerals without underscores
or blanks around them, the names `str` gives to infinities and NaNs, and lists separated by commas.
-/

namespace BleRpc.Host

/-- Python's `float`, as far as the program looks at one. -/
class PyFloat (F : Type) where
  /-- `str` -/
  str : F → String
  /-- `int`: an `OverflowError` for an infinity, a `ValueError` for a NaN. -/
  int : F → Except PyErr ℤ
  /-- The float a literal denotes. -/
  literal : List Char → Option F

/-- No floats at all. -/
instance : PyFloat Empty where
  str := nofun
  int := nofun
  literal _ := none

inductive Scalar (F : Type)
  | int (n : ℤ)
  | bool (b : Bool)
  | float (x : F)
  deriving DecidableEq

inductive Value (F : Type)
  | scalar (x : Scalar F)
  | list (xs : List (Scalar F))
  deriving DecidableEq

variable {F : Type} [PyFloat F]

/-! ## `str` -/

def Scalar.str : Scalar F → String
  | .int n => toString n
  | .bool true => "True"
  | .bool false => "False"
  | .float x => PyFloat.str x

def Value.str : Value F → String
  | .scalar x => x.str
  | .list xs => "[" ++ ", ".intercalate (xs.map Scalar.str) ++ "]"

/-! ## `int` -/

def Scalar.toInt : Scalar F → Except PyErr ℤ
  | .int n => .ok n
  | .bool b => .ok (if b then 1 else 0)
  | .float x => PyFloat.int x

def Value.toInt : Value F → Except PyErr ℤ
  | .scalar x => x.toInt
  | .list _ => .error .typeError

/-- A numeral with an optional sign. -/
def readInt : List Char → Option ℤ
  | '-' :: digits => (Decimal.read digits).map fun n => -(n : ℤ)
  | '+' :: digits => (Decimal.read digits).map fun n => (n : ℤ)
  | digits => (Decimal.read digits).map fun n => (n : ℤ)

/-- `int` of a text. -/
def pyInt (text : String) : Except PyErr ℤ :=
  match readInt text.toList with
  | some n => .ok n
  | none => .error (.valueError ("invalid literal for int() with base 10: '" ++ text ++ "'"))

/-! ## `ast.literal_eval` -/

/-- The floats that `str` writes as names, which are no literals. -/
def nonFinite : List (List Char) := ["inf".toList, "-inf".toList, "nan".toList]

/-- An integer, a boolean or a float. The message for a name goes on with the address of its node. -/
def readScalar (text : List Char) : Except PyErr (Scalar F) :=
  if text = "True".toList then .ok (.bool true)
  else if text = "False".toList then .ok (.bool false)
  else if text ∈ nonFinite then .error (.valueError "malformed node or string")
  else match readInt text with
    | some n => .ok (.int n)
    | none =>
      match PyFloat.literal text with
      | some x => .ok (.float x)
      | none => .error .syntaxError

/-- The elements of a list, with a blank allowed after each comma. -/
def readElements (text : List Char) : Except PyErr (List (Scalar F)) :=
  if text = [] then .ok []
  else (text.splitOn ',').mapM fun element => readScalar (element.dropWhile (· = ' '))

def literalEval (text : String) : Except PyErr (Value F) :=
  match text.toList with
  | '[' :: body =>
    if body.getLast? = some ']' then Value.list <$> readElements body.dropLast else .error .syntaxError
  | cs => Value.scalar <$> readScalar cs

/-! ## Texts of natural numbers -/

/-- The text of a natural number begins with a digit. -/
theorem toString_ne_cons (n : ℕ) {c : Char} (cs : List Char) (hc : c.isDigit = false) :
    (toString n).toList ≠ c :: cs := by
  obtain ⟨d, ds, h, hd⟩ := Decimal.exists_digit_cons n
  rw [h]
  intro he
  rw [(List.cons.inj he).1, hc] at hd
  cases hd

theorem readInt_toString (n : ℕ) : readInt (toString n).toList = some (n : ℤ) := by
  unfold readInt
  split
  · rename_i heq; exact absurd heq (toString_ne_cons n _ rfl)
  · rename_i heq; exact absurd heq (toString_ne_cons n _ rfl)
  · rw [Decimal.read_toString]; rfl

/-- **`int(str(n))`** -/
@[simp] theorem pyInt_toString (n : ℕ) : pyInt (toString n) = .ok (n : ℤ) := by
  rw [pyInt, readInt_toString]

theorem readScalar_toString (n : ℕ) : readScalar (F := F) (toString n).toList = .ok (.int n) := by
  have htrue : (toString n).toList ≠ "True".toList := toString_ne_cons n ['r', 'u', 'e'] rfl
  have hfalse : (toString n).toList ≠ "False".toList := toString_ne_cons n ['a', 'l', 's', 'e'] rfl
  have hname : (toString n).toList ∉ nonFinite := by
    simp only [nonFinite, List.mem_cons, List.not_mem_nil, or_false, not_or]
    exact ⟨toString_ne_cons n ['n', 'f'] rfl, toString_ne_cons n ['i', 'n', 'f'] rfl, toString_ne_cons n ['a', 'n'] rfl⟩
  rw [readScalar, if_neg htrue, if_neg hfalse, if_neg hname, readInt_toString]

/-- **`ast.literal_eval(str(n))`** -/
@[simp] theorem literalEval_toString (n : ℕ) : literalEval (F := F) (toString n) = .ok (.scalar (.int n)) := by
  unfold literalEval
  split
  · rename_i heq; exact absurd heq (toString_ne_cons n _ rfl)
  · rw [readScalar_toString]; rfl

end BleRpc.Host
