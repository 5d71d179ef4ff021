import Mathlib.Data.Nat.Bitwise
import Mathlib.Tactic.Ring

/-!
# Big-endian encodings of fixed width

`encode w n` is the lowest `w` bytes of `n`, most significant first; `decode` reads bytes as a number. Decoding an
encoding gives the number modulo `256 ^ w` (`decode_encode`). The last part has the forms with shifts and bitwise or
that programs write for one, two and four bytes.
-/

namespace BigEndian

/-- The lowest `w` bytes of `n`, most significant first. -/
def encode : ℕ → ℕ → List UInt8
  | 0, _ => []
  | w + 1, n => UInt8.ofNat (n / 256 ^ w) :: encode w n

/-- The number with the given bytes, most significant first. -/
def decode : List UInt8 → ℕ
  | [] => 0
  | b :: bs => b.toNat * 256 ^ bs.length + decode bs

@[simp] theorem length_encode (w n : ℕ) : (encode w n).length = w := by
  induction w with
  | zero => rfl
  | succ w ih => simp [encode, ih]

/-- Decoding an encoding. -/
theorem decode_encode (w n : ℕ) : decode (encode w n) = n % 256 ^ w := by
  induction w with
  | zero => simp [decode, encode, Nat.mod_one]
  | succ w ih =>
    have hb : (UInt8.ofNat (n / 256 ^ w)).toNat = n / 256 ^ w % 256 := by simp
    rw [encode, decode, ih, length_encode, hb, pow_succ, Nat.mod_mul]
    ring

/-! ## One, two and four bytes -/

theorem encode_one (n : ℕ) : encode 1 n = [UInt8.ofNat n] := by simp [encode]

theorem encode_two (n : ℕ) : encode 2 n = [UInt8.ofNat (n >>> 8), UInt8.ofNat n] := by
  simp [encode, Nat.shiftRight_eq_div_pow]

theorem encode_four (n : ℕ) :
    encode 4 n = [UInt8.ofNat (n >>> 24), UInt8.ofNat (n >>> 16), UInt8.ofNat (n >>> 8), UInt8.ofNat n] := by
  simp [encode, Nat.shiftRight_eq_div_pow]

theorem decode_one (a : UInt8) : decode [a] = a.toNat := by simp [decode]

/-- Shifting and or-ing bytes that do not overlap is adding them. -/
theorem decode_two (a b : UInt8) : decode [a, b] = a.toNat <<< 8 ||| b.toNat := by
  rw [← Nat.shiftLeft_add_eq_or_of_lt b.toNat_lt]
  simp [decode, Nat.shiftLeft_eq]

theorem decode_four (a b c d : UInt8) :
    decode [a, b, c, d] = a.toNat <<< 24 ||| b.toNat <<< 16 ||| c.toNat <<< 8 ||| d.toNat := by
  have ha := a.toNat_lt
  have hb := b.toNat_lt
  have hc := c.toNat_lt
  have h₁ : a.toNat <<< 24 ||| b.toNat <<< 16 = (a.toNat <<< 8 + b.toNat) <<< 16 := by
    rw [← Nat.shiftLeft_add_eq_or_of_lt (by simp [Nat.shiftLeft_eq]; omega)]
    simp [Nat.shiftLeft_eq]; ring
  have h₂ : (a.toNat <<< 8 + b.toNat) <<< 16 ||| c.toNat <<< 8 = ((a.toNat <<< 8 + b.toNat) <<< 8 + c.toNat) <<< 8 := by
    rw [← Nat.shiftLeft_add_eq_or_of_lt (by simp [Nat.shiftLeft_eq]; omega)]
    simp [Nat.shiftLeft_eq]; ring
  rw [h₁, h₂, ← Nat.shiftLeft_add_eq_or_of_lt d.toNat_lt]
  simp [decode, Nat.shiftLeft_eq]
  ring

end BigEndian
