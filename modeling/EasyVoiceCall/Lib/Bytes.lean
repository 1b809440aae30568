/-
# Byte buffers and little-endian words

A buffer is a list of bytes. `memcpy` overwrites a part of one, `resize` cuts
or zero-extends one, as `std::vector` does, and `toLE` / `ofLE` are the
little-endian bytes of a number and the number they stand for.

Key theorems: `memcpy_append`, `slice_take`, `take_append_slice`, `ofLE_toLE`.
-/
import Mathlib.Data.List.Basic
import Mathlib.Data.List.TakeDrop
import Mathlib.Tactic.Ring
import Mathlib.Tactic.Linarith

namespace Buffer

/-- A string of bytes. -/
abbrev Bytes := List UInt8

/-- `memcpy(dst + off, src.data(), src.size())`. -/
def memcpy (dst : Bytes) (off : ℕ) (src : Bytes) : Bytes :=
  dst.take off ++ src ++ dst.drop (off + src.length)

/-- `vector::resize`: cut to `n` bytes, or extended to `n` bytes with zeros. -/
def resize (b : Bytes) (n : ℕ) : Bytes := b.take n ++ List.replicate (n - b.length) 0

/-- The `n` bytes from offset `off` on. -/
def slice (b : Bytes) (off n : ℕ) : Bytes := (b.drop off).take n

/-- The `n` low bytes of `x`, lowest first. -/
def toLE : ℕ → ℕ → Bytes
  | 0, _ => []
  | n + 1, x => UInt8.ofNat x :: toLE n (x / 256)

/-- The number whose bytes these are, lowest first. -/
def ofLE : Bytes → ℕ
  | [] => 0
  | b :: bs => b.toNat + 256 * ofLE bs

/-! ### Buffers -/

@[simp] theorem length_resize (b : Bytes) (n : ℕ) : (resize b n).length = n := by
  simp only [resize, List.length_append, List.length_take, List.length_replicate]
  omega

theorem resize_nil (n : ℕ) : resize [] n = List.replicate n 0 := by
  simp [resize]

theorem resize_append_of_le (b : Bytes) (n : ℕ) (h : b.length ≤ n) :
    resize b n = b ++ List.replicate (n - b.length) 0 := by
  rw [resize, List.take_of_length_le h]

theorem length_memcpy (dst : Bytes) (off : ℕ) (src : Bytes) (h : off + src.length ≤ dst.length) :
    (memcpy dst off src).length = dst.length := by
  simp only [memcpy, List.length_append, List.length_take, List.length_drop]
  omega

theorem le_length_memcpy (dst : Bytes) (off : ℕ) (src : Bytes) (h : off ≤ dst.length) :
    dst.length ≤ (memcpy dst off src).length := by
  simp only [memcpy, List.length_append, List.length_take, List.length_drop]
  omega

/-- A part overwritten by as many bytes. -/
theorem memcpy_append (pre old post src : Bytes) (h : old.length = src.length) :
    memcpy (pre ++ (old ++ post)) pre.length src = pre ++ (src ++ post) := by
  simp [memcpy, ← h, List.drop_append]

/-- A buffer overwritten from offset 0 to its end. -/
theorem memcpy_zero_of_length (dst src : Bytes) (h : dst.length = src.length) :
    memcpy dst 0 src = src := by
  simp [memcpy, ← h]

@[simp] theorem length_slice (b : Bytes) (off n : ℕ) :
    (slice b off n).length = min n (b.length - off) := by
  simp [slice]

theorem slice_take (b : Bytes) (off n k : ℕ) (h : off + n ≤ k) :
    slice (b.take k) off n = slice b off n := by
  simp only [slice, List.drop_take, List.take_take]
  congr 1
  omega

theorem take_append_slice (b : Bytes) (k n : ℕ) : b.take k ++ slice b k n = b.take (k + n) := by
  simp [slice, List.take_add]

/-! ### Little-endian words -/

@[simp] theorem length_toLE : ∀ n x : ℕ, (toLE n x).length = n
  | 0, _ => rfl
  | n + 1, x => by simp [toLE, length_toLE n]

theorem ofLE_lt : ∀ b : Bytes, ofLE b < 256 ^ b.length
  | [] => by simp [ofLE]
  | b :: bs => by
    have ih := ofLE_lt bs
    have hb : b.toNat < 256 := b.toNat_lt
    simp only [ofLE, List.length_cons, pow_succ]
    omega

/-- Reading back what was written. -/
theorem ofLE_toLE : ∀ n x : ℕ, x < 256 ^ n → ofLE (toLE n x) = x
  | 0, x, h => by simp [toLE, ofLE] at h ⊢; omega
  | n + 1, x, h => by
    have h' : x / 256 < 256 ^ n := Nat.div_lt_of_lt_mul (by rw [pow_succ] at h; omega)
    simp only [toLE, ofLE, ofLE_toLE n (x / 256) h']
    have hb : (UInt8.ofNat x).toNat = x % 256 := by simp
    omega

end Buffer
