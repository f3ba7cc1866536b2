import Mathlib.Tactic.Common
import MyLibs.Foundation.Order
import MyLibs.Queue.Model

/-!
# The order of a queue

`max_at_top` turns the comparison function around by multiplying its result
with -1. As long as the function never returns `INT_MIN`, the product has the
sign that is wanted and orders the elements strictly and weakly.
-/

namespace MyLibs
namespace Queue

open Foundation

variable {ctx : Type _}

def MyQueue.compareElements (queue : MyQueue ctx) (x y : Ptr) : Int32 :=
  queue.compare queue.firstCmpArg (x + queue.offsetToKey)
    (y + queue.offsetToKey)

structure MyQueue.ValidCompare (queue : MyQueue ctx) : Prop where
  preorder : TotalPreorder (fun x y => (queue.compareElements x y).toInt)
  notMin : forall x y, queue.compareElements x y ≠ Int32.minValue
  sign : queue.maxAtTop = 1 ∨ queue.maxAtTop = -1

def MyQueue.before (queue : MyQueue ctx) (x y : Ptr) : Prop :=
  queue.compareKeys x y < 0

instance (queue : MyQueue ctx) : DecidableRel queue.before :=
  fun x y => inferInstanceAs (Decidable (queue.compareKeys x y < 0))

theorem int32_toInt_neg {c : Int32} (h : c ≠ Int32.minValue) :
    (-c).toInt = -c.toInt := by
  have hlower := Int32.minValue_le_toInt c
  have hupper := c.toInt_lt
  have hne : c.toInt ≠ Int32.minValue.toInt := by
    intro hc
    exact h (Int32.toInt_inj.mp hc)
  rw [Int32.toInt_minValue] at hlower hne
  rw [Int32.toInt_neg]
  exact Int.bmod_eq_of_le (by omega) (by omega)

theorem before_iff_toInt (queue : MyQueue ctx) (x y : Ptr) :
    queue.before x y <-> (queue.compareKeys x y).toInt < 0 :=
  Int32.lt_iff_toInt_lt

/-- `max_at_top` either keeps every sign or turns every sign around. -/
theorem compareKeys_toInt {queue : MyQueue ctx} (h : queue.ValidCompare) :
    (forall x y, (queue.compareKeys x y).toInt =
      (queue.compareElements x y).toInt) ∨
    (forall x y, (queue.compareKeys x y).toInt =
      -(queue.compareElements x y).toInt) := by
  cases h.sign with
  | inl hone =>
      left
      intro x y
      simp [MyQueue.compareKeys, MyQueue.compareElements, hone]
  | inr hminus =>
      right
      intro x y
      have hmul : queue.compareKeys x y = -queue.compareElements x y := by
        simp [MyQueue.compareKeys, MyQueue.compareElements, hminus,
          Int32.mul_neg]
      rw [hmul]
      exact int32_toInt_neg (h.notMin x y)

theorem before_strictWeakOrder {queue : MyQueue ctx}
    (h : queue.ValidCompare) : StrictWeakOrder queue.before := by
  have hstrict := h.preorder.strictWeakOrder
  cases compareKeys_toInt h with
  | inl hkeep =>
      have hbefore : queue.before =
          fun x y => (queue.compareElements x y).toInt < 0 := by
        funext x y
        simp [before_iff_toInt, hkeep]
      rw [hbefore]
      exact hstrict
  | inr hturn =>
      have hbefore : queue.before =
          fun x y => (queue.compareElements y x).toInt < 0 := by
        funext x y
        simp [before_iff_toInt, hturn, h.preorder.swap]
      rw [hbefore]
      exact hstrict.flip

theorem compareKeys_pos_iff {queue : MyQueue ctx} (h : queue.ValidCompare)
    (x y : Ptr) : queue.compareKeys x y > 0 <-> queue.before y x := by
  have hpos : queue.compareKeys x y > 0 <->
      0 < (queue.compareKeys x y).toInt := Int32.lt_iff_toInt_lt
  have hswap := h.preorder.swap x y
  have hswap' := h.preorder.swap y x
  rw [hpos, before_iff_toInt]
  cases compareKeys_toInt h with
  | inl hkeep =>
      rw [hkeep, hkeep]
      exact hswap
  | inr hturn =>
      rw [hturn, hturn]
      omega

theorem compareKeys_nonneg_iff (queue : MyQueue ctx) (x y : Ptr) :
    queue.compareKeys x y >= 0 <-> ¬ queue.before x y :=
  Int32.not_lt.symm

end Queue
end MyLibs
