import Mathlib.Logic.Function.Basic

/-!
# Shared and exclusive holders

A lock known by its holders: at most one thread that excludes all others, or
threads that share it, each any number of times. Releasing takes the word of the
caller for the mode it holds.
-/

namespace MyLibs
namespace Foundation

structure SharedExclusive (thread : Type _) where
  exclusive : Option thread
  shared : thread -> Nat

namespace SharedExclusive

variable {thread : Type _}

def free : SharedExclusive thread where
  exclusive := none
  shared := fun _ => 0

def AllowsShared (lock : SharedExclusive thread) : Prop :=
  lock.exclusive = none

def AllowsExclusive (lock : SharedExclusive thread) : Prop :=
  lock.exclusive = none ∧ forall t, lock.shared t = 0

def acquireExclusive (t : thread) (lock : SharedExclusive thread) :
    SharedExclusive thread :=
  { lock with exclusive := some t }

def releaseExclusive (lock : SharedExclusive thread) : SharedExclusive thread :=
  { lock with exclusive := none }

def Excludes (lock : SharedExclusive thread) : Prop :=
  forall t u, lock.exclusive = some t -> lock.shared u = 0

def Without (lock : SharedExclusive thread) (t : thread) : Prop :=
  lock.exclusive ≠ some t ∧ lock.shared t = 0

variable {lock : SharedExclusive thread} {t u : thread}

theorem AllowsExclusive.without (h : lock.AllowsExclusive) (t : thread) :
    lock.Without t := by
  constructor
  · rw [h.left]
    intro hholds
    cases hholds
  · exact h.right t

theorem Excludes.without (h : lock.Excludes) (hholds : lock.exclusive = some t)
    (hother : u ≠ t) : lock.Without u := by
  constructor
  · rw [hholds]
    intro hsame
    exact hother (Option.some.inj hsame).symm
  · exact h t u hholds

theorem Excludes.of_allowed (h : lock.AllowsShared) : lock.Excludes := by
  intro t u hholds
  rw [h] at hholds
  cases hholds

/-!
## What acquiring and releasing keep
-/

theorem excludes_free : (free : SharedExclusive thread).Excludes :=
  Excludes.of_allowed rfl

theorem AllowsExclusive.excludes (h : lock.AllowsExclusive) (t : thread) :
    (lock.acquireExclusive t).Excludes :=
  fun _ u _ => h.right u

theorem excludes_releaseExclusive (lock : SharedExclusive thread) :
    lock.releaseExclusive.Excludes :=
  Excludes.of_allowed rfl

section Shared

variable [DecidableEq thread]

def acquireShared (t : thread) (lock : SharedExclusive thread) : SharedExclusive thread :=
  { lock with shared := Function.update lock.shared t (lock.shared t + 1) }

def releaseShared (t : thread) (lock : SharedExclusive thread) : SharedExclusive thread :=
  { lock with shared := Function.update lock.shared t (lock.shared t - 1) }

theorem acquireShared_other (h : u ≠ t) :
    (lock.acquireShared t).shared u = lock.shared u :=
  Function.update_of_ne h _ _

theorem releaseShared_other (h : u ≠ t) :
    (lock.releaseShared t).shared u = lock.shared u :=
  Function.update_of_ne h _ _

theorem AllowsShared.excludes (h : lock.AllowsShared) (t : thread) :
    (lock.acquireShared t).Excludes :=
  Excludes.of_allowed h

theorem Excludes.releaseShared (h : lock.Excludes) (t : thread) :
    (lock.releaseShared t).Excludes := by
  intro holder u hholds
  by_cases hsame : u = t
  · have hnone := h holder t hholds
    rw [hsame]
    show Function.update lock.shared t (lock.shared t - 1) t = 0
    rw [Function.update_self, hnone]
  · rw [releaseShared_other hsame]
    exact h holder u hholds

end Shared

end SharedExclusive
end Foundation
end MyLibs
