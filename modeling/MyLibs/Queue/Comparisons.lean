import Mathlib.Algebra.BigOperators.Ring.Finset
import MyLibs.Foundation.Costs
import MyLibs.Queue.Rebuilding

/-!
# How often the queue compares

The loops of the queue again, with every call of `compare` counted. `_downheap`
makes at most two for each level, whatever `compare` answers, so that `queue_fix`
needs a number linear in the elements; and together with removals it sorts.
-/

namespace MyLibs
namespace Queue

open Foundation
open Foundation.BinaryHeap

variable {ctx : Type _}

/-!
## The loops with their comparisons
-/

def queueInsertLoopCosted (queue : MyQueue ctx) (element : Ptr) :
    Nat -> Nat -> (Nat -> Ptr) -> Costed (Nat × (Nat -> Ptr))
  | 0, _, _ => .fails
  | fuel + 1, idx, root =>
      let next := idx / 2
      (Costed.ends 1 (queue.compareKeys element (root next))).andThen fun compared =>
        if compared < 0 then
          queueInsertLoopCosted queue element fuel next
            (Function.update root idx (root next))
        else
          .ends 0 (idx, root)

def queueInsertCosted (queue : MyQueue ctx) (element : Ptr) : Costed (MyQueue ctx) :=
  if queue.elements < queue.maxElements then
    let idx := queue.elements + 1
    (queueInsertLoopCosted queue element (idx + 1) idx
        (Function.update queue.root 0 element)).andThen fun (idx, root) =>
      .ends 0
        { queue with
          elements := queue.elements + 1
          root := Function.update root idx element }
  else
    .fails

def nextIndexCosted (queue : MyQueue ctx) (idx : Nat) (root : Nat -> Ptr) : Costed Nat :=
  let nextIndex := idx + idx
  if nextIndex < queue.elements then
    (Costed.ends 1 (queue.compareKeys (root nextIndex) (root (nextIndex + 1)))).andThen
      fun compared => .ends 0 (if compared > 0 then nextIndex + 1 else nextIndex)
  else
    .ends 0 nextIndex

/-- The test of the first round, which `first &&` skips in the others. -/
def firstTestCosted (queue : MyQueue ctx) (element child : Ptr) (first : Bool) :
    Costed Bool :=
  if first then
    (Costed.ends 1 (queue.compareKeys child element)).andThen
      fun compared => .ends 0 (decide (compared >= 0))
  else
    .ends 0 false

def downheapSinkCosted (queue : MyQueue ctx) (element : Ptr) :
    Nat -> Bool -> Nat -> (Nat -> Ptr) -> Costed Sunk
  | 0, _, _, _ => .fails
  | fuel + 1, first, idx, root =>
      if idx <= queue.elements / 2 then
        (nextIndexCosted queue idx root).andThen fun nextIndex =>
          (firstTestCosted queue element (root nextIndex) first).andThen fun stops =>
            if stops then
              .ends 0 (.returned (Function.update root idx element))
            else
              downheapSinkCosted queue element fuel false nextIndex
                (Function.update root idx (root nextIndex))
      else
        .ends 0 (.leaf idx root)

def downheapClimbCosted (queue : MyQueue ctx) (element : Ptr) (startIdx : Nat) :
    Nat -> Nat -> (Nat -> Ptr) -> Costed (Nat × (Nat -> Ptr))
  | 0, _, _ => .fails
  | fuel + 1, idx, root =>
      let nextIndex := idx / 2
      if nextIndex > startIdx then
        (Costed.ends 1 (queue.compareKeys (root nextIndex) element)).andThen fun compared =>
          if compared < 0 then
            .ends 0 (idx, root)
          else
            downheapClimbCosted queue element startIdx fuel nextIndex
              (Function.update root idx (root nextIndex))
      else
        .ends 0 (idx, root)

def downheapCosted (queue : MyQueue ctx) (idx : Nat) : Costed (MyQueue ctx) :=
  let element := queue.root idx
  (downheapSinkCosted queue element (queue.elements + 1) true idx queue.root).andThen
    fun sunk =>
      match sunk with
      | .returned root => .ends 0 { queue with root := root }
      | .leaf leaf root =>
          (downheapClimbCosted queue element idx (leaf + 1) leaf root).andThen
            fun (hole, root) =>
              .ends 0 { queue with root := Function.update root hole element }

def queueRemoveCosted (queue : MyQueue ctx) (idx : Nat) : Costed (Ptr × MyQueue ctx) :=
  if idx < queue.maxElements then
    let idx := idx + 1
    let element := queue.root idx
    (downheapCosted
        { queue with
          root := Function.update queue.root idx (queue.root queue.elements)
          elements := uint (queue.elements + (2 ^ 32 - 1)) } idx).andThen
      fun queue => .ends 0 (element, queue)
  else
    .fails

def queueFixLoopCosted : Nat -> MyQueue ctx -> Costed (MyQueue ctx)
  | 0, queue => .ends 0 queue
  | i + 1, queue => (downheapCosted queue (i + 1)).andThen (queueFixLoopCosted i)

def queueFixCosted (queue : MyQueue ctx) : Costed (MyQueue ctx) :=
  queueFixLoopCosted (queue.elements / 2) queue

section Results

variable (queue : MyQueue ctx) (element : Ptr)

theorem queueInsertLoopCosted_result (fuel idx : Nat) (root : Nat -> Ptr) :
    (queueInsertLoopCosted queue element fuel idx root).result =
      queueInsertLoop queue element fuel idx root := by
  induction fuel generalizing idx root with
  | zero => rfl
  | succ fuel ih =>
      simp only [queueInsertLoopCosted, queueInsertLoop, Costed.result_andThen,
        Costed.result_ends, Option.bind_some]
      split
      · exact ih _ _
      · rfl

theorem queueInsertCosted_result :
    (queueInsertCosted queue element).result = queueInsert queue element := by
  simp only [queueInsertCosted, queueInsert]
  split
  · rw [Costed.result_andThen, queueInsertLoopCosted_result]
    cases queueInsertLoop queue element (queue.elements + 1 + 1) (queue.elements + 1)
      (Function.update queue.root 0 element) <;> rfl
  · rfl

theorem nextIndexCosted_result (idx : Nat) (root : Nat -> Ptr) :
    (nextIndexCosted queue idx root).result =
      some (if idx + idx < queue.elements ∧
          queue.compareKeys (root (idx + idx)) (root (idx + idx + 1)) > 0 then
        idx + idx + 1
      else
        idx + idx) := by
  by_cases hsecond : idx + idx < queue.elements
  · simp [nextIndexCosted, hsecond]
  · simp [nextIndexCosted, hsecond]

theorem firstTestCosted_result (child : Ptr) (first : Bool) :
    (firstTestCosted queue element child first).result =
      some (decide (first = true ∧ queue.compareKeys child element >= 0)) := by
  cases first with
  | false => simp [firstTestCosted]
  | true => simp [firstTestCosted]

theorem downheapSinkCosted_result (fuel : Nat) (first : Bool) (idx : Nat)
    (root : Nat -> Ptr) :
    (downheapSinkCosted queue element fuel first idx root).result =
      downheapSink queue element fuel first idx root := by
  induction fuel generalizing first idx root with
  | zero => rfl
  | succ fuel ih =>
      rw [downheapSinkCosted, downheapSink]
      split
      · simp only [Costed.result_andThen, nextIndexCosted_result, Option.bind_some,
          firstTestCosted_result, decide_eq_true_eq]
        generalize (if idx + idx < queue.elements ∧
            queue.compareKeys (root (idx + idx)) (root (idx + idx + 1)) > 0 then
          idx + idx + 1 else idx + idx) = nextIndex
        split
        · rfl
        · exact ih _ _ _
      · rfl

theorem downheapClimbCosted_result (startIdx fuel idx : Nat) (root : Nat -> Ptr) :
    (downheapClimbCosted queue element startIdx fuel idx root).result =
      downheapClimb queue element startIdx fuel idx root := by
  induction fuel generalizing idx root with
  | zero => rfl
  | succ fuel ih =>
      simp only [downheapClimbCosted, downheapClimb]
      split
      · simp only [Costed.result_andThen, Costed.result_ends, Option.bind_some]
        split
        · rfl
        · exact ih _ _
      · rfl

theorem downheapCosted_result (idx : Nat) :
    (downheapCosted queue idx).result = downheap queue idx := by
  simp only [downheapCosted, downheap, Costed.result_andThen, downheapSinkCosted_result]
  cases downheapSink queue (queue.root idx) (queue.elements + 1) true idx queue.root with
  | none => rfl
  | some sunk =>
      cases sunk with
      | returned root => rfl
      | leaf leaf root =>
          simp only [Option.bind_some, Costed.result_andThen, downheapClimbCosted_result]
          cases downheapClimb queue (queue.root idx) idx (leaf + 1) leaf root <;> rfl

theorem queueRemoveCosted_result (idx : Nat) :
    (queueRemoveCosted queue idx).result = queueRemove queue idx := by
  simp only [queueRemoveCosted, queueRemove]
  split
  · rw [Costed.result_andThen, downheapCosted_result]
    cases downheap _ (idx + 1) <;> rfl
  · rfl

theorem queueFixLoopCosted_result (k : Nat) (queue : MyQueue ctx) :
    (queueFixLoopCosted k queue).result = queueFixLoop k queue := by
  induction k generalizing queue with
  | zero => rfl
  | succ k ih =>
      rw [queueFixLoopCosted, queueFixLoop, Costed.result_andThen, downheapCosted_result]
      cases downheap queue (k + 1) with
      | none => rfl
      | some next => exact ih next

end Results

/-!
## Costs
-/

section Sinking

variable (queue : MyQueue ctx) (element : Ptr)

theorem nextIndexCosted_cost {idx : Nat} (root : Nat -> Ptr)
    (hin : idx <= queue.elements / 2) :
    (nextIndexCosted queue idx root).Satisfies fun cost nextIndex =>
      cost <= 1 ∧ nextIndex / 2 = idx ∧ nextIndex <= queue.elements := by
  unfold nextIndexCosted
  by_cases hsecond : idx + idx < queue.elements
  · simp only [if_pos hsecond]
    refine (Costed.satisfies_ends (p := fun cost _ => cost <= 1) (Nat.le_refl 1)).andThen ?_
    intro cost compared hcost
    apply Costed.satisfies_ends
    by_cases hpos : compared > 0
    · rw [if_pos hpos]
      omega
    · rw [if_neg hpos]
      omega
  · simp only [if_neg hsecond]
    apply Costed.satisfies_ends
    omega

def firstCost (first : Bool) : Nat :=
  if first then 1 else 0

theorem firstTestCosted_cost (child : Ptr) (first : Bool) :
    (firstTestCosted queue element child first).Satisfies fun cost stops =>
      cost <= firstCost first ∧ (stops = true -> first = true) := by
  cases first with
  | false => exact Costed.satisfies_ends ⟨Nat.le_refl 0, id⟩
  | true =>
      rw [firstTestCosted, if_pos rfl]
      refine (Costed.satisfies_ends (p := fun cost _ => cost <= 1) (Nat.le_refl 1)).andThen ?_
      intro cost compared hcost
      exact Costed.satisfies_ends ⟨hcost, fun _ => rfl⟩

/-- What the first loop has cost by its end: one comparison for each level, and one more
in the first round. -/
def SinkCost (first : Bool) (idx cost : Nat) : Sunk -> Prop
  | .returned _ => first = true ∧ cost <= 2 ∧ 2 * idx <= queue.elements
  | .leaf leaf _ =>
      exists levels, leaf / 2 ^ levels = idx ∧
        cost <= levels + min levels (firstCost first) ∧
        (0 < levels -> leaf <= queue.elements)

theorem SinkCost.level {first : Bool} {idx nextIndex cost more : Nat} {sunk : Sunk}
    (h : SinkCost queue false nextIndex more sunk) (hnext : nextIndex / 2 = idx)
    (hle : nextIndex <= queue.elements) (hcost : cost <= 1 + firstCost first) :
    SinkCost queue first idx (cost + more) sunk := by
  cases sunk with
  | returned root => cases h.left
  | leaf leaf root =>
      rcases h with ⟨levels, hleaf, hmore, hbound⟩
      have hone : firstCost first <= 1 := by
        cases first <;> decide
      have hzero : firstCost false = 0 := rfl
      refine ⟨levels + 1, ?_, ?_, ?_⟩
      · rw [Nat.pow_succ, ← Nat.div_div_eq_div_mul, hleaf, hnext]
      · rw [Nat.min_eq_right (by omega : firstCost first <= levels + 1)]
        rw [hzero] at hmore
        omega
      · intro _
        by_cases hlevels : 0 < levels
        · exact hbound hlevels
        · have hnone : levels = 0 := by omega
          rw [hnone, Nat.pow_zero, Nat.div_one] at hleaf
          omega

theorem downheapSinkCosted_cost (fuel : Nat) (first : Bool) (idx : Nat) (root : Nat -> Ptr)
    (hidx : 1 <= idx) (hpos : 0 < fuel) (hfuel : queue.elements < fuel + idx) :
    (downheapSinkCosted queue element fuel first idx root).Satisfies
      (SinkCost queue first idx) := by
  induction fuel generalizing first idx root with
  | zero => omega
  | succ fuel ih =>
      rw [downheapSinkCosted]
      by_cases hin : idx <= queue.elements / 2
      · rw [if_pos hin]
        refine (nextIndexCosted_cost queue root hin).andThen ?_
        intro cost nextIndex hnext
        rcases hnext with ⟨hcost, hparent, hle⟩
        refine (firstTestCosted_cost queue element (root nextIndex) first).andThen ?_
        intro test stops hstops
        rcases hstops with ⟨htest, hfirst⟩
        have hone : firstCost first <= 1 := by
          cases first <;> decide
        cases stops with
        | true =>
            apply Costed.satisfies_ends
            exact ⟨hfirst rfl, by omega, by omega⟩
        | false =>
            have hrest := ih false nextIndex (Function.update root idx (root nextIndex))
              (by omega) (by omega) (by omega)
            apply hrest.mono
            intro more sunk hsunk
            have hlevel := SinkCost.level queue hsunk hparent hle
              (by omega : cost + test <= 1 + firstCost first)
            rwa [Nat.add_assoc] at hlevel
      · rw [if_neg hin]
        apply Costed.satisfies_ends
        exact ⟨0, by simp, by simp, fun h => absurd h (Nat.lt_irrefl 0)⟩

theorem downheapClimbCosted_cost (startIdx : Nat) (fuel levels idx : Nat)
    (root : Nat -> Ptr) (hstart : 1 <= startIdx) (hidx : idx / 2 ^ levels = startIdx)
    (hfuel : idx < fuel) :
    (downheapClimbCosted queue element startIdx fuel idx root).Satisfies fun cost _ =>
      cost <= levels - 1 := by
  induction fuel generalizing levels idx root with
  | zero => omega
  | succ fuel ih =>
      rw [downheapClimbCosted]
      by_cases hover : idx / 2 > startIdx
      · rw [if_pos hover]
        match levels with
        | 0 =>
            rw [Nat.pow_zero, Nat.div_one] at hidx
            omega
        | 1 =>
            rw [Nat.pow_one] at hidx
            omega
        | levels + 2 =>
            have hparent : idx / 2 / 2 ^ (levels + 1) = startIdx := by
              rw [Nat.div_div_eq_div_mul, Nat.mul_comm, ← Nat.pow_succ]
              exact hidx
            refine (Costed.satisfies_ends (p := fun cost _ => cost = 1) rfl).andThen ?_
            intro cost compared hcost
            by_cases hbefore : compared < 0
            · rw [if_pos hbefore]
              apply Costed.satisfies_ends
              omega
            · rw [if_neg hbefore]
              apply (ih (levels + 1) (idx / 2) _ hparent (by omega)).mono
              intro more _ hmore
              omega
      · rw [if_neg hover]
        exact Costed.satisfies_ends (Nat.zero_le _)

/-- `_downheap` ends after two comparisons for each level below the start, whatever the
comparisons say. -/
theorem downheapCosted_cost {idx : Nat} (hidx : 1 <= idx) :
    (downheapCosted queue idx).Satisfies fun cost next =>
      cost <= 2 * Nat.log 2 (queue.elements / idx) ∧
        next = { queue with root := next.root } := by
  unfold downheapCosted
  refine (downheapSinkCosted_cost queue (queue.root idx) _ true idx queue.root hidx
    (Nat.succ_pos _) (by omega)).andThen ?_
  intro cost sunk hsunk
  cases sunk with
  | returned root =>
      rcases hsunk with ⟨_, hcost, hle⟩
      apply Costed.satisfies_ends
      have hlevel : 1 <= Nat.log 2 (queue.elements / idx) :=
        le_log_of_div_pow hidx (by rw [Nat.pow_one]; omega) hle
      exact ⟨by omega, rfl⟩
  | leaf leaf root =>
      rcases hsunk with ⟨levels, hleaf, hcost, hle⟩
      have hlevels : levels <= Nat.log 2 (queue.elements / idx) := by
        by_cases hpos : 0 < levels
        · exact le_log_of_div_pow hidx hleaf (hle hpos)
        · omega
      refine (downheapClimbCosted_cost queue (queue.root idx) idx _ levels leaf root hidx hleaf
        (Nat.lt_succ_self _)).andThen ?_
      intro more placed hmore
      have hfirst : firstCost true = 1 := rfl
      apply Costed.satisfies_ends
      exact ⟨by omega, rfl⟩

end Sinking

/-!
## `queue_fix` is linear
-/

section Rebuilding

open Finset

theorem queueFixLoopCosted_cost (k : Nat) (queue : MyQueue ctx) :
    (queueFixLoopCosted k queue).Satisfies fun cost next =>
      cost <= ∑ i ∈ range k, 2 * Nat.log 2 (queue.elements / (i + 1)) ∧
        next = { queue with root := next.root } := by
  induction k generalizing queue with
  | zero => exact Costed.satisfies_ends ⟨Nat.zero_le _, rfl⟩
  | succ k ih =>
      rw [queueFixLoopCosted]
      refine (downheapCosted_cost queue (by omega : 1 <= k + 1)).andThen ?_
      intro cost next hnext
      rcases hnext with ⟨hcost, hsame⟩
      apply (ih next).mono
      intro more last hlast
      rcases hlast with ⟨hmore, hsameLast⟩
      have helements : next.elements = queue.elements := by
        rw [hsame]
      rw [helements] at hmore
      constructor
      · rw [sum_range_succ]
        omega
      · rw [hsameLast, hsame]

theorem queueFixCosted_cost (queue : MyQueue ctx) :
    (queueFixCosted queue).Satisfies fun cost next =>
      cost <= 2 * queue.elements ∧ next = { queue with root := next.root } := by
  apply (queueFixLoopCosted_cost (queue.elements / 2) queue).mono
  intro cost next h
  rw [← mul_sum] at h
  have hlevels := sum_log_div_le queue.elements
  exact ⟨by omega, h.right⟩

/-- `queue_fix` ends for every queue and every `compare`, consistent or not, after at
most two comparisons for each element. -/
theorem queueFix_linear (queue : MyQueue ctx) :
    exists cost queue', queueFixCosted queue = .ends cost queue' ∧
      queueFix queue = some queue' ∧ cost <= 2 * queue.elements := by
  rcases queueFixCosted_cost queue with ⟨cost, queue', hfix, hcost, _⟩
  refine ⟨cost, queue', hfix, ?_, hcost⟩
  have hresult := queueFixLoopCosted_result (queue.elements / 2) queue
  rw [show queueFixLoopCosted (queue.elements / 2) queue = .ends cost queue' from hfix] at hresult
  exact hresult.symm

end Rebuilding

/-!
## Insertion

An element that is before all others climbs to the top, and is there compared with
itself, in the sentinel.
-/

section Inserting

variable {queue : MyQueue ctx}

theorem queueInsertLoopCosted_cost (hvalid : queue.ValidCompare) (element : Ptr)
    (fuel idx : Nat) (root : Nat -> Ptr) (hidx : 1 <= idx) (hfuel : idx < fuel)
    (hsentinel : root 0 = element) :
    (queueInsertLoopCosted queue element fuel idx root).Satisfies fun cost _ =>
      cost <= Nat.log 2 idx + 1 := by
  induction fuel generalizing idx root with
  | zero => omega
  | succ fuel ih =>
      rw [queueInsertLoopCosted]
      refine (Costed.satisfies_ends
        (p := fun cost compared => cost = 1 ∧ compared = queue.compareKeys element (root (idx / 2)))
        ⟨rfl, rfl⟩).andThen ?_
      intro cost compared hcompared
      rcases hcompared with ⟨hcost, hcompared⟩
      by_cases hbefore : compared < 0
      · have htwo : 2 <= idx := by
          by_contra hone
          have hzero : idx / 2 = 0 := by omega
          rw [hcompared, hzero, hsentinel] at hbefore
          exact (before_strictWeakOrder hvalid).irrefl element hbefore
        rw [if_pos hbefore]
        apply (ih (idx / 2) _ (by omega) (by omega) ?_).mono
        · intro more _ hmore
          rw [Nat.log_of_one_lt_of_le (by decide) htwo]
          omega
        · rw [Function.update_of_ne (by omega : 0 ≠ idx)]
          exact hsentinel
      · rw [if_neg hbefore]
        apply Costed.satisfies_ends
        omega

theorem queueInsertCosted_cost (hvalid : queue.ValidCompare) (element : Ptr)
    (hroom : queue.elements < queue.maxElements) :
    (queueInsertCosted queue element).Satisfies fun cost next =>
      cost <= Nat.log 2 (queue.elements + 1) + 1 ∧
        next = { queue with elements := queue.elements + 1, root := next.root } := by
  rw [queueInsertCosted, if_pos hroom]
  refine (queueInsertLoopCosted_cost hvalid element (queue.elements + 1 + 1) (queue.elements + 1)
    _ (by omega) (by omega) (Function.update_self _ _ _)).andThen ?_
  intro cost placed hcost
  exact Costed.satisfies_ends ⟨hcost, rfl⟩

end Inserting

/-!
## Sorting
-/

section Sorting

variable {queue : MyQueue ctx}

theorem queueRemoveCosted_cost {idx : Nat} (hpos : 0 < queue.elements)
    (hroom : idx < queue.maxElements) (hwidth : queue.elements < 2 ^ 32) :
    (queueRemoveCosted queue idx).Satisfies fun cost removed =>
      cost <= 2 * Nat.log 2 ((queue.elements - 1) / (idx + 1)) ∧
        removed.2 = { queue with elements := queue.elements - 1, root := removed.2.root } := by
  rw [queueRemoveCosted, if_pos hroom, uint_pred hpos hwidth]
  refine (downheapCosted_cost _ (by omega : 1 <= idx + 1)).andThen ?_
  intro cost next hnext
  rcases hnext with ⟨hcost, hsame⟩
  apply Costed.satisfies_ends
  exact ⟨hcost, hsame⟩

/-- Insertion compares once for each level and once with the sentinel, and removal at any
index twice for each level below it; with room for them, neither fails. -/
theorem queue_logarithmic (hvalid : queue.ValidCompare) (element : Ptr) {idx : Nat}
    (hroom : queue.elements < queue.maxElements) (hidx : idx < queue.elements)
    (hwidth : queue.maxElements < 2 ^ 32) :
    (exists cost inserted, queueInsertCosted queue element = .ends cost inserted ∧
      queueInsert queue element = some inserted ∧
      cost <= Nat.log 2 (queue.elements + 1) + 1) ∧
    exists cost removed, queueRemoveCosted queue idx = .ends cost removed ∧
      queueRemove queue idx = some removed ∧
      cost <= 2 * Nat.log 2 ((queue.elements - 1) / (idx + 1)) := by
  constructor
  · rcases queueInsertCosted_cost hvalid element hroom with
      ⟨cost, inserted, hinsert, hcost, _⟩
    have hresult := queueInsertCosted_result queue element
    rw [hinsert] at hresult
    exact ⟨cost, inserted, hinsert, hresult.symm, hcost⟩
  · have hidxRoom : idx < queue.maxElements := by omega
    rcases queueRemoveCosted_cost (by omega) hidxRoom (by omega) with
      ⟨cost, removed, hremove, hcost, _⟩
    have hresult := queueRemoveCosted_result queue idx
    rw [hremove] at hresult
    exact ⟨cost, removed, hremove, hresult.symm, hcost⟩

theorem queue_logarithmic_unordered :
    exists cost removed, queueRemoveCosted unordered 0 = .ends cost removed ∧ cost <= 4 := by
  rcases (queue_logarithmic unordered_validCompare 7 (by decide : unordered.elements < 10)
    (by decide : 0 < unordered.elements) (by decide)).right with ⟨cost, removed, hremove, _, hcost⟩
  exact ⟨cost, removed, hremove, hcost⟩

end Sorting

end Queue
end MyLibs
