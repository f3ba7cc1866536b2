import MyLibs.RwLock.Exclusion

/-!
# No lost wakeup

A release wakes one side only: a writer if any is queued, the readers
otherwise. A free lock with queued writers therefore always has one of them on
its way, and a reader sleeps only while something holds it off.
-/

namespace MyLibs
namespace RwLock

open Foundation

variable {thread : Type _}

def Pc.isAsleep : Pc -> Bool
  | .readerAsleep => true
  | .writerAsleep => true
  | _ => false

structure System.Awake (s : System thread) : Prop where
  writers : s.rwlock.state = 0 -> s.rwlock.waiters ≠ 0 ->
    exists t, s.pc t = .writerWoken
  readers : forall t, s.pc t = .readerAsleep -> readersHeldOff s.rwlock = true

theorem init_awake : (System.init : System thread).Awake where
  writers := by
    intro _hfree hwaiters
    exact absurd rfl hwaiters
  readers := by
    intro t hasleep
    cases hasleep

/-- Granting the write lock leaves nobody free to complain. -/
theorem awake_of_writer {rwlock : MyRwLock} {pc : thread -> Pc}
    (hstate : rwlock.state = -1) : System.Awake { rwlock := rwlock, pc := pc } where
  writers := by
    intro hfree _hwaiters
    rw [hstate] at hfree
    exact absurd hfree (by decide)
  readers := by
    intro t _hasleep
    show (rwlock.state < 0 || rwlock.waiters != 0) = true
    rw [hstate]
    rfl

section Counts

variable [Fintype thread] {s : System thread}

theorem System.Tallied.exists_queued (h : s.Tallied) (hwaiters : s.rwlock.waiters ≠ 0) :
    exists t, (s.pc t).isQueuedWriter = true := by
  apply exists_of_countWhere_pos
  apply Nat.pos_of_ne_zero
  intro hnone
  apply hwaiters
  rw [h.waiters, show s.queuedWriters = 0 from hnone]
  rfl

theorem System.Tallied.waiters_ne_zero (h : s.Tallied)
    (hcard : Fintype.card thread < 2 ^ 32) {t : thread}
    (hqueued : (s.pc t).isQueuedWriter = true) : s.rwlock.waiters ≠ 0 := by
  intro hzero
  have hbound : s.queuedWriters <= Fintype.card thread := countWhere_le_card _ _
  have hpos : 0 < s.queuedWriters := countWhere_pos hqueued
  have hnone := int32_ofNat_eq_zero (by omega) (h.waiters.symm.trans hzero)
  omega

theorem System.Tallied.state_nonneg (h : s.Tallied)
    (hcard : Fintype.card thread <= 2 ^ 31) (hstate : s.rwlock.state ≠ -1)
    {t : thread} (hout : (s.pc t).isReader = false) : ¬ s.rwlock.state < 0 := by
  have hbound : s.readers < Fintype.card thread := countWhere_lt_card hout
  have hvalue := Int32.toInt_ofNat_of_lt (show s.readers < 2 ^ 31 by omega)
  rw [Int32.lt_iff_toInt_lt, (h.onlyReaders hstate).left, hvalue]
  show ¬ (s.readers : Int) < 0
  omega

end Counts

/-!
## One step
-/

section Steps

variable [DecidableEq thread] {s : System thread}

theorem writerWoken_update {t : thread} {pc : Pc} (hpc : s.pc t ≠ .writerWoken)
    (h : exists t', s.pc t' = .writerWoken) :
    exists t', Function.update s.pc t pc t' = .writerWoken := by
  rcases h with ⟨t', ht'⟩
  have hne : t' ≠ t := by
    intro htt
    rw [htt] at ht'
    exact hpc ht'
  exact ⟨t', (Function.update_of_ne hne _ _).trans ht'⟩

theorem readerAsleep_of_update {t t' : thread} {pc : Pc} (hpc : pc ≠ .readerAsleep)
    (h : Function.update s.pc t pc t' = .readerAsleep) :
    s.pc t' = .readerAsleep := by
  by_cases htt : t' = t
  · rw [htt, Function.update_self] at h
    exact absurd h hpc
  · rw [Function.update_of_ne htt] at h
    exact h

theorem System.Awake.move (h : s.Awake) (t : thread) {pc : Pc}
    (hwoken : s.pc t ≠ .writerWoken)
    (hreader : pc = .readerAsleep -> readersHeldOff s.rwlock = true) :
    System.Awake { s with pc := Function.update s.pc t pc } where
  writers := by
    intro hfree hwaiters
    exact writerWoken_update hwoken (h.writers hfree hwaiters)
  readers := by
    intro t' hasleep
    by_cases htt : t' = t
    · rw [htt] at hasleep
      exact hreader (by simpa using hasleep)
    · exact h.readers t' (by simpa [Function.update_of_ne htt] using hasleep)

theorem System.Awake.grantRead (h : s.Awake) {t : thread}
    (hfree : readersHeldOff s.rwlock = false) :
    System.Awake
      { rwlock := { s.rwlock with state := s.rwlock.state + 1 }
        pc := Function.update s.pc t .holdsRead } where
  writers := by
    intro _hfree hwaiters
    exact absurd (readersHeldOff_eq_false.mp hfree).right hwaiters
  readers := by
    intro t' hasleep
    have hbefore := h.readers t' (readerAsleep_of_update (by decide) hasleep)
    rw [hfree] at hbefore
    cases hbefore

end Steps

/-!
## Release
-/

theorem wakes_writer {before after : thread -> Pc}
    (hsignal : Signals .writerAsleep .writerWoken before after)
    (hqueued : exists t, (before t).isQueuedWriter = true) :
    exists t, after t = .writerWoken := by
  rcases hqueued with ⟨t, ht⟩
  have hpoint : before t = .writerAsleep ∨ before t = .writerWoken := by
    generalize before t = p at ht
    cases p <;> first | exact Or.inl rfl | exact Or.inr rfl | cases ht
  rcases hpoint with hasleep | hwoken
  · rcases hsignal.someone ⟨t, hasleep⟩ with ⟨t', _, hafter⟩
    exact ⟨t', hafter⟩
  · rcases hsignal.others t with hsame | ⟨hold, _⟩
    · exact ⟨t, hsame.trans hwoken⟩
    · rw [hwoken] at hold
      cases hold

/-- What a release that leaves the lock free with queued writers signals. -/
theorem unlock_signals_writer {rwlock : MyRwLock}
    (hfree : (unlockSection rwlock).2.state = 0) (hwaiters : rwlock.waiters ≠ 0) :
    (unlockSection rwlock).1 = .oneWriter := by
  unfold unlockSection at hfree ⊢
  by_cases hwriter : rwlock.state = -1
  · simp [hwriter, hwaiters]
  · rw [if_neg hwriter] at hfree ⊢
    simp [show rwlock.state - 1 = 0 from hfree, hwaiters]

theorem broadcast_readers {before : thread -> Pc} (t : thread) :
    broadcast .readerAsleep .readerWoken before t ≠ .readerAsleep := by
  intro hasleep
  unfold broadcast at hasleep
  split at hasleep
  · cases hasleep
  · rename_i hnot
    exact hnot hasleep

theorem unlockSection_waiters (rwlock : MyRwLock) :
    (unlockSection rwlock).2.waiters = rwlock.waiters := by
  unfold unlockSection
  split <;> rfl

section Release

variable [Fintype thread] [DecidableEq thread] {s : System thread}

/-- A release that wakes no reader leaves them asleep with a cause. -/
theorem System.Awake.release (h : s.Awake) (htally : s.Tallied)
    (hcard : Fintype.card thread <= 2 ^ 31) {t : thread} {pc : thread -> Pc}
    (hholds : s.pc t = .holdsRead ∨ s.pc t = .holdsWrite)
    (hwakes : Wakes (unlockSection s.rwlock).1 (Function.update s.pc t .outside) pc) :
    System.Awake { rwlock := (unlockSection s.rwlock).2, pc := pc } where
  writers := by
    intro hfree hwaiters
    rw [unlockSection_waiters] at hwaiters
    rw [unlock_signals_writer hfree hwaiters] at hwakes
    apply wakes_writer hwakes
    rcases htally.exists_queued hwaiters with ⟨t', ht'⟩
    refine ⟨t', ?_⟩
    rw [Function.update_of_ne]
    · exact ht'
    · intro htt
      rw [htt] at ht'
      rcases hholds with hread | hwrite
      · rw [hread] at ht'
        cases ht'
      · rw [hwrite] at ht'
        cases ht'
  readers := by
    intro t' hasleep
    by_cases hwaiters : s.rwlock.waiters = 0
    · exfalso
      by_cases hwriter : s.rwlock.state = -1
      · -- the broadcast left no reader asleep
        have hwake : (unlockSection s.rwlock).1 = .allReaders := by
          simp [unlockSection, hwriter, hwaiters]
        rw [hwake] at hwakes
        rw [show pc = broadcast _ _ _ from hwakes] at hasleep
        exact broadcast_readers t' hasleep
      · -- nothing held this reader off before the release
        have hwake : (unlockSection s.rwlock).1 = .nobody := by
          simp [unlockSection, hwriter, hwaiters]
        rw [hwake] at hwakes
        rw [show pc = _ from hwakes] at hasleep
        have hbefore := readerAsleep_of_update (by decide) hasleep
        have hnonneg := htally.state_nonneg hcard hwriter (t := t')
          (by rw [hbefore]; rfl)
        have hoff := readersHeldOff_eq_false.mpr ⟨hnonneg, hwaiters⟩
        rw [h.readers t' hbefore] at hoff
        cases hoff
    · have hkept := unlockSection_waiters s.rwlock
      simp [readersHeldOff, hkept, hwaiters]

end Release

/-!
## Every schedule
-/

section Schedules

variable [Fintype thread] [DecidableEq thread] {s : System thread}

theorem System.Awake.step {s' : System thread} (h : s.Awake) (htally : s.Tallied)
    (htally' : s'.Tallied) (hcard : Fintype.card thread <= 2 ^ 31)
    (hstep : Step s s') : s'.Awake := by
  cases hstep with
  | rdlock t hpc =>
      have hwoken : s.pc t ≠ .writerWoken := by
        rcases hpc with hpc | hpc <;> rw [hpc] <;> decide
      unfold rdlockSection
      cases hoff : readersHeldOff s.rwlock with
      | false => exact h.grantRead hoff
      | true => exact h.move t hwoken (fun _ => hoff)
  | tryrdlock t hpc =>
      unfold rdlockSection
      cases hoff : readersHeldOff s.rwlock with
      | false => exact h.grantRead hoff
      | true =>
          exact h.move t (by rw [hpc]; decide) (fun hreader => by cases hreader)
  | wrlock t hpc =>
      by_cases hfree : s.rwlock.state = 0
      · exact awake_of_writer (by simp [wrlockSection, wrlockArrive, hfree])
      · have hsection : wrlockSection (wrlockArrive s.rwlock) =
            (false, wrlockArrive s.rwlock) := by
          simp [wrlockSection, wrlockArrive, hfree]
        rw [hsection] at htally' ⊢
        have hwaiters := htally'.waiters_ne_zero (by omega) (t := t) (by simp [Pc.isQueuedWriter])
        constructor
        · intro hstate _
          exact absurd hstate hfree
        · intro t' _hasleep
          simpa [readersHeldOff] using Or.inr hwaiters
  | wrlockAgain t hpc =>
      by_cases hfree : s.rwlock.state = 0
      · exact awake_of_writer (by simp [wrlockSection, hfree])
      · have hsection : wrlockSection s.rwlock = (false, s.rwlock) := by
          simp [wrlockSection, hfree]
        rw [hsection]
        constructor
        · intro hstate _
          exact absurd hstate hfree
        · intro t' hasleep
          have hpoint : Function.update s.pc t .writerAsleep t' = .readerAsleep :=
            hasleep
          exact h.readers t' (readerAsleep_of_update (by decide) hpoint)
  | trywrlock t hpc =>
      by_cases hfree : s.rwlock.state = 0
      · exact awake_of_writer (by simp [trywrlockSection, hfree])
      · have hsection : trywrlockSection s.rwlock = (false, s.rwlock) := by
          simp [trywrlockSection, hfree]
        rw [hsection]
        exact h.move t (by rw [hpc]; decide) (fun hreader => by cases hreader)
  | unlock t pc hholds hwakes => exact h.release htally hcard hholds hwakes
  | spuriousReader t hpc =>
      exact h.move t (by rw [hpc]; decide) (fun hreader => by cases hreader)
  | spuriousWriter t hpc =>
      constructor
      · intro _ _
        exact ⟨t, Function.update_self _ _ _⟩
      · intro t' hasleep
        exact h.readers t' (readerAsleep_of_update (by decide) hasleep)

theorem reachable_awake (hcard : Fintype.card thread <= 2 ^ 31)
    (hreach : Reachable s) : s.Awake := by
  induction hreach with
  | refl => exact init_awake
  | tail hbefore hstep ih =>
      have htally := reachable_tallied (by omega) hbefore
      exact ih.step htally (htally.step (by omega) hstep) hcard hstep

/-- A free lock with queued writers has a woken one, no reader sleeps without a
writer active or queued, and threads never all sleep on a lock nobody holds. -/
theorem rwlock_no_lost_wakeup (hcard : Fintype.card thread <= 2 ^ 31)
    (hreach : Reachable s) :
    ¬ (s.rwlock.state = 0 ∧ 0 < s.rwlock.waiters ∧
        forall t, (s.pc t).isQueuedWriter = true -> s.pc t = .writerAsleep) ∧
      ¬ (0 <= s.rwlock.state ∧ s.rwlock.waiters = 0 ∧
        exists t, s.pc t = .readerAsleep) ∧
      ((forall t, s.pc t ≠ .holdsRead ∧ s.pc t ≠ .holdsWrite) ->
        (exists t, (s.pc t).isAsleep = true) ->
        exists t, s.pc t = .writerWoken) := by
  have hawake := reachable_awake hcard hreach
  have htally := reachable_tallied (by omega) hreach
  refine ⟨?_, ?_, ?_⟩
  · rintro ⟨hfree, hwaiters, hall⟩
    rcases hawake.writers hfree (by intro hzero; simp [hzero] at hwaiters) with ⟨t, ht⟩
    have hasleep := hall t (by rw [ht]; rfl)
    rw [ht] at hasleep
    cases hasleep
  · rintro ⟨hstate, hwaiters, t, hasleep⟩
    have hoff := readersHeldOff_eq_false.mpr
      ⟨Int32.not_lt.mpr hstate, hwaiters⟩
    rw [hawake.readers t hasleep] at hoff
    cases hoff
  · rintro hnone ⟨t, hasleep⟩
    have hreaders : s.readers = 0 := by
      apply Nat.eq_zero_of_not_pos
      intro hpos
      rcases exists_of_countWhere_pos hpos with ⟨t', ht'⟩
      have hnot := (hnone t').left
      generalize s.pc t' = p at ht' hnot
      cases p <;> first | exact hnot rfl | cases ht'
    have hfree : s.rwlock.state = 0 := by
      rcases htally.state with ⟨_, hwriters, _⟩ | ⟨hstate, _⟩
      · rcases exists_of_countWhere_pos (p := Pc.isWriter) (f := s.pc)
          (by show 0 < s.writers; omega) with ⟨t', ht'⟩
        have hnot := (hnone t').right
        generalize s.pc t' = p at ht' hnot
        cases p <;> first | exact absurd rfl hnot | cases ht'
      · rw [hstate, hreaders]
        rfl
    apply hawake.writers hfree
    have hpoint : s.pc t = .readerAsleep ∨ s.pc t = .writerAsleep := by
      generalize s.pc t = p at hasleep
      cases p <;> first | exact Or.inl rfl | exact Or.inr rfl | cases hasleep
    rcases hpoint with hreader | hwriter
    · intro hwaiters
      have hoff := readersHeldOff_eq_false.mpr ⟨by rw [hfree]; decide, hwaiters⟩
      rw [hawake.readers t hreader] at hoff
      cases hoff
    · exact htally.waiters_ne_zero (by omega) (by rw [hwriter]; rfl)

end Schedules

/-- The lock after thread 0 took it for reading, 1 and 2 queued for writing, and
0 gave it back, signalling 1. -/
def queueSignalled : System (Fin 3) where
  rwlock := { state := 0, waiters := 2 }
  pc := fun t =>
    match t with
    | 0 => .outside
    | 1 => .writerWoken
    | 2 => .writerAsleep

theorem queueSignalled_reachable : Reachable queueSignalled := by
  have hread := Step.rdlock (s := (System.init : System (Fin 3))) 0 (Or.inl rfl)
  have hqueue := Relation.ReflTransGen.tail
    (Relation.ReflTransGen.tail (Relation.ReflTransGen.single hread)
      (Step.wrlock 1 (by decide)))
    (Step.wrlock 2 (by decide))
  have hunlock := Relation.ReflTransGen.tail hqueue
    (Step.unlock 0 queueSignalled.pc (Or.inl (by decide))
      { others := by decide, someone := by decide })
  exact hunlock

theorem rwlock_no_lost_wakeup_queueSignalled :
    exists t, queueSignalled.pc t = .writerWoken :=
  (rwlock_no_lost_wakeup (s := queueSignalled) (by decide)
    queueSignalled_reachable).right.right (by decide) (by decide)

/-!
## More readers than `int` values

`2 ^ 31` read locks turn `state` negative. A reader that comes then goes to
sleep, and giving one read lock back makes `state` positive again without
waking anybody.
-/

section Wraparound

def readersIn (m n : Nat) : System (Fin m) where
  rwlock := { state := Int32.ofNat n, waiters := 0 }
  pc := fun t => if t.val < n then .holdsRead else .outside

theorem readersIn_reachable {m : Nat} (n : Nat) (hm : n <= m) (hn : n <= 2 ^ 31) :
    Reachable (readersIn m n) := by
  induction n with
  | zero =>
      have hinit : readersIn m 0 = System.init := by
        simp [readersIn, System.init, myRwInit]
      rw [hinit]
      exact Relation.ReflTransGen.refl
  | succ n ih =>
      apply Relation.ReflTransGen.tail (ih (by omega) (by omega))
      have hstep := Step.rdlock (s := readersIn m n) ⟨n, by omega⟩
        (Or.inl (by simp [readersIn]))
      have hgrant : rdlockSection (readersIn m n).rwlock =
          (true, (readersIn m (n + 1)).rwlock) := by
        have hnonneg : ¬ Int32.ofNat n < 0 :=
          Int32.not_lt.mpr (Int32.zero_le_ofNat_of_lt (by omega))
        simp [rdlockSection, readersHeldOff, readersIn, hnonneg]
      rw [hgrant] at hstep
      have hpc : (readersIn m (n + 1)).pc =
          Function.update (readersIn m n).pc ⟨n, by omega⟩ .holdsRead := by
        funext t
        by_cases ht : t.val = n
        · have hself : t = ⟨n, by omega⟩ := Fin.ext ht
          rw [hself, Function.update_self]
          simp [readersIn]
        · rw [Function.update_of_ne (fun hself => ht (congrArg Fin.val hself))]
          have hlt : t.val < n + 1 <-> t.val < n := by omega
          simp only [readersIn, hlt]
      show Step _ { rwlock := (readersIn m (n + 1)).rwlock
                    pc := (readersIn m (n + 1)).pc }
      rw [hpc]
      exact hstep

/-- With `2 ^ 31 + 1` threads a reader can sleep on a lock that has only readers
and no queued writer. -/
theorem rwlock_wakeup_lost :
    exists s : System (Fin (2 ^ 31 + 1)), Reachable s ∧
      0 <= s.rwlock.state ∧ s.rwlock.waiters = 0 ∧
      exists t, s.pc t = .readerAsleep := by
  have hfull := readersIn_reachable (m := 2 ^ 31 + 1) (2 ^ 31) (by omega) (by omega)
  have hsleep : Step (readersIn (2 ^ 31 + 1) (2 ^ 31))
      { readersIn (2 ^ 31 + 1) (2 ^ 31) with
        pc := Function.update (readersIn (2 ^ 31 + 1) (2 ^ 31)).pc (Fin.last _)
          .readerAsleep } :=
    Step.rdlock (Fin.last _) (Or.inl (by simp [readersIn]))
  have hother : Fin.last (2 ^ 31) ≠ 0 := by simp [Fin.ext_iff]
  have hholds : Function.update (readersIn (2 ^ 31 + 1) (2 ^ 31)).pc (Fin.last _)
      .readerAsleep 0 = .holdsRead := by
    rw [Function.update_of_ne hother.symm]
    simp [readersIn]
  have hunlock := (hfull.tail hsleep).tail (Step.unlock 0 _ (Or.inl hholds) rfl)
  have hpoint : Function.update
      (Function.update (readersIn (2 ^ 31 + 1) (2 ^ 31)).pc (Fin.last _) .readerAsleep)
      0 .outside (Fin.last _) = .readerAsleep := by
    rw [Function.update_of_ne hother, Function.update_self]
  exact ⟨_, hunlock, by decide, by decide, Fin.last _, hpoint⟩

end Wraparound

end RwLock
end MyLibs
