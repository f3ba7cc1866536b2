import MyLibs.Foundation.LockSteps
import MyLibs.RwLock.Exclusion

/-!
# A read/write lock

Whatever the threads do with the counters and the conditions, what they hold
changes as in a read/write lock: one thread at a time, and only as the other
holders allow.
-/

namespace MyLibs
namespace RwLock

open Foundation

theorem wrlockSection_granted (rwlock : MyRwLock)
    (h : (wrlockSection rwlock).1 = true) :
    rwlock.state = 0 := by
  by_cases hfree : rwlock.state = 0
  · exact hfree
  · simp [wrlockSection, hfree] at h

theorem trywrlockSection_granted {rwlock : MyRwLock}
    (h : (trywrlockSection rwlock).1 = true) : rwlock.state = 0 := by
  by_cases hfree : rwlock.state = 0
  · exact hfree
  · simp [trywrlockSection, hfree] at h

section Changes

variable {thread : Type _}

def Changes (t : thread) (before after : thread -> Pc) : Prop :=
  PointChange t Pc.isReader Pc.isWriter before after

theorem Changes.wake {t : thread} {before pc after : thread -> Pc} {wake : Wake}
    (h : Changes t before pc) (hwakes : Wakes wake pc after) : Changes t before after :=
  PointChange.congr h (fun u => (wakes_classes hwakes u).left)
    fun u => (wakes_classes hwakes u).right.left

theorem changes_release [DecidableEq thread] {pc : thread -> Pc} {t : thread}
    (hholds : pc t = .holdsRead ∨ pc t = .holdsWrite) :
    Changes t pc (Function.update pc t .outside) := by
  rcases hholds with hread | hwrite
  · exact PointChange.giveShared (by rw [hread]; rfl) rfl (by rw [hread]; rfl)
  · exact PointChange.giveExclusive (by rw [hwrite]; rfl) rfl (by rw [hwrite]; rfl)

end Changes

section Steps

variable {thread : Type _} [Fintype thread] {s : System thread}

theorem isWriter_false (h : s.writers = 0) (t : thread) : (s.pc t).isWriter = false := by
  cases hwriter : (s.pc t).isWriter with
  | false => rfl
  | true =>
      have hpos : 0 < s.writers := countWhere_pos hwriter
      omega

theorem isReader_false (h : s.readers = 0) (t : thread) : (s.pc t).isReader = false := by
  cases hreader : (s.pc t).isReader with
  | false => rfl
  | true =>
      have hpos : 0 < s.readers := countWhere_pos hreader
      omega

variable [DecidableEq thread]

theorem System.Tallied.changes_grantRead (h : s.Tallied) {t : thread}
    (hreader : (s.pc t).isReader = false) (hwriter : (s.pc t).isWriter = false)
    (hfree : readersHeldOff s.rwlock = false) :
    Changes t s.pc (Function.update s.pc t .holdsRead) := by
  have hstate := (readersHeldOff_eq_false.mp hfree).left
  have honly := h.onlyReaders (fun hminus => hstate (by rw [hminus]; decide))
  exact PointChange.getShared hreader rfl (by rw [hwriter]; rfl)
    (isWriter_false honly.right)

theorem System.Tallied.changes_grantWrite (h : s.Tallied)
    (hcard : Fintype.card thread < 2 ^ 32) {t : thread}
    (hreader : (s.pc t).isReader = false) (hfree : s.rwlock.state = 0) :
    Changes t s.pc (Function.update s.pc t .holdsWrite) := by
  have hnobody := h.nobody hcard hfree
  exact PointChange.getExclusive rfl (by rw [hreader]; rfl)
    (isWriter_false hnobody.right) (isReader_false hnobody.left)

theorem System.Tallied.changes_wrlock (h : s.Tallied)
    (hcard : Fintype.card thread < 2 ^ 32) {t : thread} {p : Pc}
    (hreader : (s.pc t).isReader = false) (hwriter : (s.pc t).isWriter = false)
    (hp : p.isReader = false ∧ p.isWriter = false) {granted : Bool}
    (hgranted : granted = true -> s.rwlock.state = 0) :
    Changes t s.pc (Function.update s.pc t (if granted then .holdsWrite else p)) := by
  cases granted with
  | true => exact h.changes_grantWrite hcard hreader (hgranted rfl)
  | false =>
      exact PointChange.move (by rw [hreader]; exact hp.left) (by rw [hwriter]; exact hp.right)

/-- Every step changes what the threads hold as a read/write lock lets it
change. -/
theorem System.Tallied.changes {s' : System thread} (h : s.Tallied)
    (hcard : Fintype.card thread < 2 ^ 32) (hstep : Step s s') :
    exists t, Changes t s.pc s'.pc := by
  cases hstep with
  | rdlock t hpc =>
      have hclass : (s.pc t).isReader = false ∧ (s.pc t).isWriter = false := by
        rcases hpc with hpc | hpc <;> rw [hpc] <;> exact ⟨rfl, rfl⟩
      unfold rdlockSection
      cases hoff : readersHeldOff s.rwlock with
      | false => exact ⟨t, h.changes_grantRead hclass.left hclass.right hoff⟩
      | true =>
          exact ⟨t, PointChange.move (by rw [hclass.left]; rfl) (by rw [hclass.right]; rfl)⟩
  | tryrdlock t hpc =>
      unfold rdlockSection
      cases hoff : readersHeldOff s.rwlock with
      | false => exact ⟨t, h.changes_grantRead (by rw [hpc]; rfl) (by rw [hpc]; rfl) hoff⟩
      | true => exact ⟨t, PointChange.move (by rw [hpc]; rfl) (by rw [hpc]; rfl)⟩
  | wrlock t hpc =>
      exact ⟨t, h.changes_wrlock hcard (by rw [hpc]; rfl) (by rw [hpc]; rfl) ⟨rfl, rfl⟩
        (wrlockSection_granted (wrlockArrive s.rwlock))⟩
  | wrlockAgain t hpc =>
      exact ⟨t, h.changes_wrlock hcard (by rw [hpc]; rfl) (by rw [hpc]; rfl) ⟨rfl, rfl⟩
        (wrlockSection_granted s.rwlock)⟩
  | trywrlock t hpc =>
      exact ⟨t, h.changes_wrlock hcard (by rw [hpc]; rfl) (by rw [hpc]; rfl) ⟨rfl, rfl⟩
        trywrlockSection_granted⟩
  | unlock t pc hholds hwakes => exact ⟨t, (changes_release hholds).wake hwakes⟩
  | spuriousReader t hpc => exact ⟨t, PointChange.move (by rw [hpc]; rfl) (by rw [hpc]; rfl)⟩
  | spuriousWriter t hpc => exact ⟨t, PointChange.move (by rw [hpc]; rfl) (by rw [hpc]; rfl)⟩

def System.Shows (s : System thread) (lock : SharedExclusive thread) : Prop :=
  Foundation.Shows (fun t => (s.pc t).isReader) (fun t => (s.pc t).isWriter) lock

theorem simulates_lock (hcard : Fintype.card thread + 1 < 2 ^ 32) :
    Simulates (fun s s' : System thread => Step s s')
      (fun lock lock' => exists t, LockStep t lock lock') System.Tallied System.Shows where
  keeps h hstep := h.step hcard hstep
  step := by
    intro s s' lock h hstep hshows
    rcases h.changes (by omega) hstep with ⟨t, hchange⟩
    rcases hchange.shows hshows with ⟨lock', hshows', hsame | hstep⟩
    · exact ⟨lock', hshows', Or.inl hsame⟩
    · exact ⟨lock', hshows', Or.inr ⟨t, hstep⟩⟩

/-- Behind every run of `my_rwlock.c` there is a run of a read/write lock: the one its
holders make up, which excludes, and which every step changes by one acquisition or
release or not at all. -/
theorem rwlock_refines_lock (hcard : Fintype.card thread + 1 < 2 ^ 32)
    (hreach : Reachable s) :
    exists lock, s.Shows lock ∧ LockReachable lock ∧ lock.Excludes ∧
      forall s', Step s s' -> exists lock', s'.Shows lock' ∧
        (lock' = lock ∨ exists t, LockStep t lock lock') := by
  have hfree : System.Shows (System.init : System thread) SharedExclusive.free :=
    Foundation.Shows.free (fun _ => rfl) (fun _ => rfl)
  rcases (simulates_lock hcard).run init_tallied hfree hreach with
    ⟨htally, lock, hshows, hlock⟩
  refine ⟨lock, hshows, hlock, LockReachable.excludes hlock, ?_⟩
  intro s' hstep
  exact (simulates_lock hcard).step htally hstep hshows

theorem rwlock_refines_lock_oneReader :
    exists lock, oneReader.Shows lock ∧ LockReachable lock := by
  rcases rwlock_refines_lock (s := oneReader) (by decide)
    (Relation.ReflTransGen.single (Step.rdlock (s := System.init) 0 (Or.inl rfl))) with
    ⟨lock, hshows, hlock, _⟩
  exact ⟨lock, hshows, hlock⟩

end Steps

end RwLock
end MyLibs
