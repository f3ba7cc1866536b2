import Mathlib.Algebra.Order.Ring.Nat
import Mathlib.Tactic.Common

/-!
# Memory as bytes

Bytes at addresses, and the ranges that have been written. Numbers are stored
with their lowest byte first.
-/

namespace MyLibs
namespace Foundation

structure ByteMemory where
  byteAt : Nat -> UInt8
  /-- The start and the length of every range written, newest first. -/
  written : List (Nat × Nat)

namespace ByteMemory

def store (memory : ByteMemory) (a n : Nat) (bytes : Nat -> UInt8) : ByteMemory where
  byteAt := fun b => if a <= b ∧ b < a + n then bytes (b - a) else memory.byteAt b
  written := (a, n) :: memory.written

def copy (memory : ByteMemory) (dest src n : Nat) : ByteMemory :=
  memory.store dest n fun i => memory.byteAt (src + i)

def digit (value i : Nat) : UInt8 :=
  UInt8.ofNat (value / 256 ^ i)

def storeNumber (memory : ByteMemory) (a n value : Nat) : ByteMemory :=
  memory.store a n (digit value)

def loadNumber (memory : ByteMemory) : Nat -> Nat -> Nat
  | _, 0 => 0
  | a, n + 1 => (memory.byteAt a).toNat + 256 * loadNumber memory (a + 1) n

/-- Everything written since is in `n` bytes from address `a` on. -/
def WroteWithin (memory memory' : ByteMemory) (a n : Nat) : Prop :=
  exists ranges, memory'.written = ranges ++ memory.written ∧
    forall r, r ∈ ranges -> a <= r.1 ∧ r.1 + r.2 <= a + n

variable {memory memory' memory'' : ByteMemory} {a b n i : Nat} {bytes : Nat -> UInt8}

theorem store_inside (hi : i < n) : (memory.store a n bytes).byteAt (a + i) = bytes i := by
  have hrange : a <= a + i ∧ a + i < a + n := by omega
  refine (if_pos hrange).trans ?_
  rw [Nat.add_sub_cancel_left]

theorem store_outside (hb : b < a ∨ a + n <= b) :
    (memory.store a n bytes).byteAt b = memory.byteAt b := by
  have hrange : ¬(a <= b ∧ b < a + n) := by omega
  exact if_neg hrange

theorem loadNumber_congr (h : forall i, i < n -> memory'.byteAt (a + i) = memory.byteAt (a + i)) :
    memory'.loadNumber a n = memory.loadNumber a n := by
  induction n generalizing a with
  | zero => rfl
  | succ n ih =>
      have hfirst : memory'.byteAt a = memory.byteAt a := h 0 (Nat.succ_pos n)
      rw [loadNumber, loadNumber, hfirst, ih]
      intro i hi
      have hnext := h (i + 1) (Nat.succ_lt_succ hi)
      rw [Nat.add_comm i 1, ← Nat.add_assoc] at hnext
      exact hnext

theorem loadNumber_of_digits {value : Nat}
    (h : forall i, i < n -> memory.byteAt (a + i) = digit value i) :
    memory.loadNumber a n = value % 256 ^ n := by
  induction n generalizing a value with
  | zero => rw [loadNumber, Nat.pow_zero, Nat.mod_one]
  | succ n ih =>
      have hfirst : (memory.byteAt a).toNat = value % 256 := by
        have hzero := h 0 (Nat.succ_pos n)
        rw [Nat.add_zero, digit, Nat.pow_zero, Nat.div_one] at hzero
        rw [hzero, UInt8.toNat_ofNat']
      have hrest : memory.loadNumber (a + 1) n = value / 256 % 256 ^ n := by
        refine ih fun i hi => ?_
        have hnext := h (i + 1) (Nat.succ_lt_succ hi)
        rw [Nat.add_comm i 1, ← Nat.add_assoc] at hnext
        rw [hnext, digit, digit, Nat.div_div_eq_div_mul, Nat.add_comm 1 i, Nat.pow_succ,
          Nat.mul_comm]
      rw [loadNumber, hfirst, hrest, Nat.pow_succ, Nat.mul_comm (256 ^ n), Nat.mod_mul]

theorem loadNumber_storeNumber {value : Nat} (hvalue : value < 256 ^ n) :
    (memory.storeNumber a n value).loadNumber a n = value := by
  rw [storeNumber, loadNumber_of_digits fun i hi => store_inside hi, Nat.mod_eq_of_lt hvalue]

/-- What is written elsewhere leaves a number alone. -/
theorem loadNumber_store {m : Nat} (hapart : b + m <= a ∨ a + n <= b) :
    (memory.store a n bytes).loadNumber b m = memory.loadNumber b m :=
  loadNumber_congr fun i hi => store_outside (by omega)

theorem WroteWithin.refl (memory : ByteMemory) (a n : Nat) : WroteWithin memory memory a n :=
  ⟨[], rfl, fun _ hr => absurd hr List.not_mem_nil⟩

theorem WroteWithin.store {a' n' : Nat} (h : WroteWithin memory memory' a n) (hstart : a <= a')
    (hend : a' + n' <= a + n) : WroteWithin memory (memory'.store a' n' bytes) a n := by
  rcases h with ⟨ranges, hwritten, hranges⟩
  refine ⟨(a', n') :: ranges, ?_, ?_⟩
  · show (a', n') :: memory'.written = _
    rw [hwritten, List.cons_append]
  · intro r hr
    cases hr with
    | head => exact ⟨hstart, hend⟩
    | tail _ hr => exact hranges r hr

end ByteMemory

end Foundation
end MyLibs
