import Mathlib.Data.List.Basic
import Mathlib.Algebra.Order.Group.Nat

/-!
Little-endian numbers as byte lists: `write k n` is the `k` low bytes of `n`, least significant
first, and `read` is the number a byte list stands for. Reading back a written number gives it
modulo `256 ^ k`, and writing a read list as many bytes as it has gives the list back, so on
numbers below `256 ^ k` and lists of `k` bytes the two are inverse.
-/

namespace LittleEndian

/-- The `k` low bytes of `n`, least significant first. -/
def write : Nat → Nat → List UInt8
  | 0, _ => []
  | k + 1, n => UInt8.ofNat n :: write k (n / 256)

/-- The number whose bytes, least significant first, are `bytes`. -/
def read : List UInt8 → Nat
  | [] => 0
  | byte :: bytes => byte.toNat + 256 * read bytes

@[simp] theorem length_write (k n : Nat) : (write k n).length = k := by
  induction k generalizing n with
  | zero => rfl
  | succ k ih => rw [write, List.length_cons, ih]

theorem read_write (k n : Nat) : read (write k n) = n % 256 ^ k := by
  induction k generalizing n with
  | zero => simp [write, read, Nat.mod_one]
  | succ k ih =>
    rw [write, read, ih, Nat.pow_succ', Nat.mod_mul, UInt8.toNat_ofNat']

theorem read_write_of_lt {k n : Nat} (small : n < 256 ^ k) : read (write k n) = n := by
  rw [read_write, Nat.mod_eq_of_lt small]

theorem read_lt (bytes : List UInt8) : read bytes < 256 ^ bytes.length := by
  induction bytes with
  | nil => simp [read]
  | cons byte bytes ih =>
    have low := byte.toNat_lt
    rw [read, List.length_cons, Nat.pow_succ']
    omega

theorem write_read (bytes : List UInt8) : write bytes.length (read bytes) = bytes := by
  induction bytes with
  | nil => rfl
  | cons byte bytes ih =>
    have low := byte.toNat_lt
    have high : (byte.toNat + 256 * read bytes) / 256 = read bytes := by omega
    rw [List.length_cons, write, read, high, ih, List.cons.injEq]
    refine ⟨?_, rfl⟩
    apply UInt8.toNat_inj.mp
    rw [UInt8.toNat_ofNat']
    omega

theorem write_read_of_length {bytes : List UInt8} {k : Nat} (length : bytes.length = k) :
    write k (read bytes) = bytes := by
  rw [← length, write_read]

end LittleEndian
