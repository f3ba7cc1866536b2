import MyLibs.Foundation.LockSteps
import MyLibs.SrwLock.Modes

/-!
# The native lock is used as a read/write lock

The wrapper calls the native releases on the word of `have_exclusive_srwlock`.
They are calls that a holder in that mode makes, so that the native lock goes
through the states of a read/write lock and no others.
-/

namespace MyLibs
namespace SrwLock

open Foundation

variable {thread : Type _} [DecidableEq thread] {s s' : System thread} {t : thread}

/-- Every step calls the native lock as its users may, or leaves it alone. -/
theorem Consistent.lockStep (h : Consistent s) (hstep : Step t s s') :
    s'.srwlock = s.srwlock ∨ LockStep t s.srwlock s'.srwlock := by
  have hfits := h.fits t
  cases hstep with
  | rdlock _ hallows => exact Or.inr (LockStep.acquireShared hallows)
  | tryrdlock _ hallows => exact Or.inr (LockStep.acquireShared hallows)
  | wrlock _ hallows => exact Or.inr (LockStep.acquireExclusive hallows)
  | trywrlock _ hallows => exact Or.inr (LockStep.acquireExclusive hallows)
  | releaseExclusive hpc =>
      rw [hpc] at hfits
      exact Or.inr (LockStep.releaseExclusive hfits.left)
  | releaseShared hpc =>
      rw [hpc] at hfits
      exact Or.inr (LockStep.releaseShared hfits)
  | call _ _ => exact Or.inl rfl
  | tryrdlockBusy _ => exact Or.inl rfl
  | trywrlockBusy _ => exact Or.inl rfl
  | setFlag _ => exact Or.inl rfl
  | callUnlock _ _ => exact Or.inl rfl
  | readFlag _ => exact Or.inl rfl
  | clearFlag _ => exact Or.inl rfl

theorem simulates_lock :
    Simulates (fun s s' : System thread => exists t, Step t s s')
      (fun lock lock' => exists t, LockStep t lock lock') Consistent
      (fun s lock => s.srwlock = lock) where
  keeps := by
    intro s s' h hstep
    rcases hstep with ⟨t, hstep⟩
    exact h.step hstep
  step := by
    intro s s' lock h hstep hshows
    rcases hstep with ⟨t, hstep⟩
    subst hshows
    rcases h.lockStep hstep with hsame | hlock
    · exact ⟨s'.srwlock, rfl, Or.inl hsame⟩
    · exact ⟨s'.srwlock, rfl, Or.inr ⟨t, hlock⟩⟩

/-- In every run of the wrapper the native lock runs as a read/write lock, and each
step of a thread is at most one acquisition or release of its own. -/
theorem srwlock_refines_lock (hreach : Reachable s) :
    LockReachable s.srwlock ∧ s.srwlock.Excludes ∧
      forall t s', Step t s s' ->
        s'.srwlock = s.srwlock ∨ LockStep t s.srwlock s'.srwlock := by
  rcases simulates_lock.run consistent_srwInit rfl hreach with ⟨hcons, lock, hshows, hlock⟩
  subst hshows
  refine ⟨hlock, hcons.excludes, ?_⟩
  intro t s' hstep
  exact hcons.lockStep hstep

theorem srwlock_refines_lock_writerLeaving : LockReachable writerLeaving.srwlock :=
  (srwlock_refines_lock writerLeaving_reachable).left

end SrwLock
end MyLibs
