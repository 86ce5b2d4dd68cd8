import Mathlib.Algebra.Ring.Nat
import Mathlib.Data.List.Induction
import Mathlib.Tactic.Common

/-!
# Numbers in network byte order

`encode w n` are the last `w` bytes of `n`, most significant first, so that a number that
does not fit is truncated; `decode` reads bytes back (`decode_encode`).
-/

namespace BigEndian

/-- The last `w` bytes of a number. -/
def encode : ℕ → ℕ → List UInt8
  | 0, _ => []
  | w + 1, n => encode w (n / 256) ++ [UInt8.ofNat n]

/-- The number that the bytes stand for. -/
def decode (bs : List UInt8) : ℕ := bs.foldl (fun n b => 256 * n + b.toNat) 0

/-- A number has as many bytes as are asked for. -/
@[simp] theorem length_encode (w n : ℕ) : (encode w n).length = w := by
  induction w generalizing n with
  | zero => rfl
  | succ w ih => rw [encode, List.length_append, ih, List.length_singleton]

/-- The last byte has the lowest value. -/
theorem decode_concat (bs : List UInt8) (b : UInt8) :
    decode (bs ++ [b]) = 256 * decode bs + b.toNat := by
  rw [decode, List.foldl_append]
  rfl

/-- The bytes hold the number modulo their range. -/
theorem decode_encode (w n : ℕ) : decode (encode w n) = n % 256 ^ w := by
  induction w generalizing n with
  | zero => exact (Nat.mod_one n).symm
  | succ w ih =>
    -- the remainder by 256 is in the last byte, the quotient in those before
    have hlast : (UInt8.ofNat n).toNat = n % 256 := UInt8.toNat_ofNat'
    rw [encode, decode_concat, ih, hlast, pow_succ, Nat.mul_comm (256 ^ w), Nat.mod_mul]
    omega

/-- A number that fits is read back. -/
theorem decode_encode_of_lt {w n : ℕ} (h : n < 256 ^ w) : decode (encode w n) = n := by
  rw [decode_encode, Nat.mod_eq_of_lt h]

theorem decode_lt (bs : List UInt8) : decode bs < 256 ^ bs.length := by
  induction bs using List.reverseRecOn with
  | nil => exact Nat.one_pos
  | append_singleton bs b ih =>
    have hb : b.toNat < 256 := b.toNat_lt
    rw [decode_concat, List.length_append, List.length_singleton, pow_succ]
    omega

end BigEndian
