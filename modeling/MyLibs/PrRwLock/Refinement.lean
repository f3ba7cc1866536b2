import MyLibs.Foundation.LockSteps
import MyLibs.PrRwLock.Exclusion

/-!
# A read/write lock over a mutex

A reader holds the lock from its increment to its decrement, a writer from the
grant to the write of `active_writer` in `rw_pr_unlock`. Between these points the
holders change as those of a read/write lock.
-/

namespace MyLibs
namespace PrRwLock

open Foundation

section Changes

variable {thread : Type _}

def Changes (t : thread) (before after : thread -> Pc) : Prop :=
  PointChange t Pc.isReader Pc.isWriter before after

theorem Changes.wake {t : thread} {before pc after : thread -> Pc} {signals : Bool}
    (h : Changes t before pc) (hwakes : Wakes signals pc after) : Changes t before after :=
  PointChange.congr h (fun u => (wakes_classes hwakes u).left)
    fun u => (wakes_classes hwakes u).right.left

end Changes

section Steps

variable {thread : Type _} [Fintype thread] {s : System thread}

theorem isWriter_false (h : s.writers = 0) (t : thread) : (s.pc t).isWriter = false := by
  cases hwriter : (s.pc t).isWriter with
  | false => rfl
  | true =>
      have hpos : 0 < s.writers := countWhere_pos hwriter
      omega

theorem isReader_false (h : s.readers = 0) (t : thread) : (s.pc t).isReader = false := by
  cases hreader : (s.pc t).isReader with
  | false => rfl
  | true =>
      have hpos : 0 < s.readers := countWhere_pos hreader
      omega

variable [DecidableEq thread]

theorem System.Consistent.changes_wrlock (h : s.Consistent)
    (hcard : Fintype.card thread <= 2 ^ 32) {t : thread}
    (hreader : (s.pc t).isReader = false) (hwriter : (s.pc t).isWriter = false)
    (hfree : s.mutex = none) {granted : Bool}
    (hgranted : granted = true -> s.rwlock.activeReaders = 0) :
    Changes t s.pc
      (Function.update s.pc t (if granted then .holdsWrite else .wrlockWaits)) := by
  cases granted with
  | true =>
      exact PointChange.getExclusive rfl (by rw [hreader]; rfl)
        (isWriter_false (h.no_writers hfree))
        (isReader_false (h.no_readers hcard hreader (hgranted rfl)))
  | false => exact PointChange.move (by rw [hreader]; rfl) (by rw [hwriter]; rfl)

/-- Every step changes what the threads hold as a read/write lock lets it
change. -/
theorem System.Consistent.changes {s' : System thread} {t : thread} (h : s.Consistent)
    (hcard : Fintype.card thread <= 2 ^ 32) (hstep : Step t s s') :
    Changes t s.pc s'.pc := by
  cases hstep with
  | callRdlock hpc => exact PointChange.move (by rw [hpc]; rfl) (by rw [hpc]; rfl)
  | callWrlock hpc => exact PointChange.move (by rw [hpc]; rfl) (by rw [hpc]; rfl)
  | rdlock hpc hfree =>
      exact PointChange.getShared (by rw [hpc]; rfl) rfl (by rw [hpc]; rfl)
        (isWriter_false (h.no_writers hfree))
  | rdlockRelease hpc => exact PointChange.move (by rw [hpc]; rfl) (by rw [hpc]; rfl)
  | wrlock hpc hfree =>
      apply h.changes_wrlock hcard (by rw [hpc]; rfl) (by rw [hpc]; rfl) hfree
      by_cases hzero : s.rwlock.activeReaders = 0
      · exact fun _ => hzero
      · simp [wrlockSection, hzero]
  | wait hpc => exact PointChange.move (by rw [hpc]; rfl) (by rw [hpc]; rfl)
  | spurious hpc => exact PointChange.move (by rw [hpc]; rfl) (by rw [hpc]; rfl)
  | wrlockAgain hpc hfree =>
      apply h.changes_wrlock hcard (by rw [hpc]; rfl) (by rw [hpc]; rfl) hfree
      by_cases hzero : s.rwlock.activeReaders = 0
      · exact fun _ => hzero
      · simp [wrlockAgainSection, hzero]
  | unlock held hpc =>
      apply PointChange.move
      · rw [hpc]
        cases held <;> rfl
      · rw [hpc]
        cases held <;> rfl
  | unlockWriter held hpc =>
      cases held with
      | read => cases h.branch t .read true hpc
      | write => exact PointChange.giveExclusive (by rw [hpc]; rfl) rfl (by rw [hpc]; rfl)
  | unlockReader held hpc hfree =>
      cases held with
      | read => exact PointChange.giveShared (by rw [hpc]; rfl) rfl (by rw [hpc]; rfl)
      | write => cases h.branch t .write false hpc
  | signal activeWriter pc hpc hwakes =>
      have hmove : Changes t s.pc (Function.update s.pc t .unlockRelease) :=
        PointChange.move (by rw [hpc]; rfl) (by rw [hpc]; rfl)
      exact hmove.wake hwakes
  | unlockRelease hpc => exact PointChange.move (by rw [hpc]; rfl) (by rw [hpc]; rfl)

def System.Shows (s : System thread) (lock : SharedExclusive thread) : Prop :=
  Foundation.Shows (fun t => (s.pc t).isReader) (fun t => (s.pc t).isWriter) lock

theorem simulates_lock (hcard : Fintype.card thread <= 2 ^ 32) :
    Simulates (fun s s' : System thread => exists t, Step t s s')
      (fun lock lock' => exists t, LockStep t lock lock') System.Consistent System.Shows where
  keeps := by
    intro s s' h hstep
    rcases hstep with ⟨t, hstep⟩
    exact h.step hcard hstep
  step := by
    intro s s' lock h hstep hshows
    rcases hstep with ⟨t, hstep⟩
    rcases (h.changes hcard hstep).shows hshows with ⟨lock', hshows', hsame | hstep⟩
    · exact ⟨lock', hshows', Or.inl hsame⟩
    · exact ⟨lock', hshows', Or.inr ⟨t, hstep⟩⟩

/-- Behind every run of `my_pr_rwlock.c` there is a run of a read/write lock: the one
its holders make up, which excludes, and which every step changes by one acquisition
or release of its thread or not at all. -/
theorem prRwlock_refines_lock (hcard : Fintype.card thread <= 2 ^ 32)
    (hreach : Reachable s) :
    exists lock, s.Shows lock ∧ LockReachable lock ∧ lock.Excludes ∧
      forall t s', Step t s s' -> exists lock', s'.Shows lock' ∧
        (lock' = lock ∨ LockStep t lock lock') := by
  have hfree : System.Shows (System.init : System thread) SharedExclusive.free :=
    Foundation.Shows.free (fun _ => rfl) (fun _ => rfl)
  rcases (simulates_lock hcard).run init_consistent hfree hreach with
    ⟨hcons, lock, hshows, hlock⟩
  refine ⟨lock, hshows, hlock, LockReachable.excludes hlock, ?_⟩
  intro t s' hstep
  exact (hcons.changes hcard hstep).shows hshows

theorem prRwlock_refines_lock_readerBehindWriter :
    exists lock, readerBehindWriter.Shows lock ∧ LockReachable lock := by
  rcases prRwlock_refines_lock (by decide) readerBehindWriter_reachable with
    ⟨lock, hshows, hlock, _⟩
  exact ⟨lock, hshows, hlock⟩

end Steps

end PrRwLock
end MyLibs
