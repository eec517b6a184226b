import Mathlib.Algebra.Order.Ring.Nat
import Mathlib.Tactic.Ring

/-!
# Little-endian words

`toLE n x` is the `n` low bytes of `x`, least significant first; `ofLE` reads them back.
-/
namespace LittleEndian

def toLE : Nat → Nat → List UInt8
  | 0, _ => []
  | n + 1, x => UInt8.ofNat (x % 256) :: toLE n (x / 256)

def ofLE : List UInt8 → Nat
  | [] => 0
  | b :: bs => b.toNat + 256 * ofLE bs

@[simp] theorem length_toLE (n x : Nat) : (toLE n x).length = n := by
  induction n generalizing x with
  | zero => rfl
  | succ n ih => simp [toLE, ih]

/-- Reading `n` bytes back gives the value modulo `256 ^ n`. -/
theorem ofLE_toLE (n x : Nat) : ofLE (toLE n x) = x % 256 ^ n := by
  induction n generalizing x with
  | zero => simp [toLE, ofLE, Nat.mod_one]
  | succ n ih =>
    have hb : (UInt8.ofNat (x % 256)).toNat = x % 256 := by simp
    rw [toLE, ofLE, ih, hb, Nat.pow_succ, Nat.mul_comm (256 ^ n) 256, Nat.mod_mul]

theorem ofLE_toLE_of_lt {n x : Nat} (h : x < 256 ^ n) : ofLE (toLE n x) = x := by
  rw [ofLE_toLE, Nat.mod_eq_of_lt h]

/-- Bytes that are read and written again are the same bytes. -/
theorem toLE_ofLE : ∀ (bs : List UInt8), toLE bs.length (ofLE bs) = bs
  | [] => rfl
  | b :: bs => by
    have hlt : b.toNat < 256 := b.toNat_lt
    have hmod : (b.toNat + 256 * ofLE bs) % 256 = b.toNat := by omega
    have hdiv : (b.toNat + 256 * ofLE bs) / 256 = ofLE bs := by omega
    rw [List.length_cons, toLE, ofLE, hmod, hdiv, toLE_ofLE bs, UInt8.ofNat_toNat]

theorem toLE_zero (n : Nat) : toLE n 0 = List.replicate n 0 := by
  induction n with
  | zero => rfl
  | succ n ih => rw [toLE, Nat.zero_mod, Nat.zero_div, ih, List.replicate_succ]; rfl

theorem toLE_eq_zeros {n x : Nat} (h : x < 256 ^ n) : toLE n x = List.replicate n 0 ↔ x = 0 := by
  constructor
  · intro hzeros
    rw [← ofLE_toLE_of_lt h, hzeros, ← toLE_zero, ofLE_toLE, Nat.zero_mod]
  · rintro rfl
    exact toLE_zero n

theorem ofLE_lt : ∀ bs : List UInt8, ofLE bs < 256 ^ bs.length
  | [] => by simp [ofLE]
  | b :: bs => by
    have ih := ofLE_lt bs
    have hlt : b.toNat < 256 := b.toNat_lt
    rw [ofLE, List.length_cons, Nat.pow_succ]
    omega

end LittleEndian
