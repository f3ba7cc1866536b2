import MyLibs.Foundation.Counting
import MyLibs.RwLock.Model

/-!
# Mutual exclusion

The two counters always agree with the threads: `state` with those that hold
the lock, `waiters` with those queued in `my_rw_wrlock`. Up to wraparound this
holds for nearly `2 ^ 32` threads. With fewer than `2 ^ 31` neither counter wraps.
-/

namespace MyLibs
namespace RwLock

open Foundation

def Pc.isQueuedWriter : Pc -> Bool
  | .writerAsleep => true
  | .writerWoken => true
  | _ => false

def Pc.isReader : Pc -> Bool
  | .holdsRead => true
  | _ => false

def Pc.isWriter : Pc -> Bool
  | .holdsWrite => true
  | _ => false

section Threads

variable {thread : Type _} [Fintype thread]

def System.readers (s : System thread) : Nat :=
  countWhere Pc.isReader s.pc

def System.writers (s : System thread) : Nat :=
  countWhere Pc.isWriter s.pc

def System.queuedWriters (s : System thread) : Nat :=
  countWhere Pc.isQueuedWriter s.pc

structure System.Counted (s : System thread) : Prop where
  state : s.rwlock.state.toInt = -1 ∧ s.writers = 1 ∧ s.readers = 0 ∨
    s.rwlock.state.toInt = s.readers ∧ s.writers = 0
  waiters : s.rwlock.waiters.toInt = s.queuedWriters

structure System.Tallied (s : System thread) : Prop where
  state : s.rwlock.state = -1 ∧ s.writers = 1 ∧ s.readers = 0 ∨
    s.rwlock.state = Int32.ofNat s.readers ∧ s.writers = 0
  waiters : s.rwlock.waiters = Int32.ofNat s.queuedWriters

end Threads

/-!
## Machine arithmetic

The `int` that stands for a number of threads. Beyond `2 ^ 31` threads it is
negative, and still another `int` for every number below `2 ^ 32`.
-/

theorem int32_pred {x : Int32} {n : Nat} (h : x = Int32.ofNat (n + 1)) :
    x - 1 = Int32.ofNat n := by
  rw [h, Int32.ofNat_add]
  exact Int32.add_sub_cancel _ _

theorem int32_ofNat_toInt (n : Nat) (hn : n < 2 ^ 32) :
    (Int32.ofNat n).toInt = if n < 2 ^ 31 then (n : Int) else n - 2 ^ 32 := by
  rw [Int32.toInt_ofNat']
  split
  · exact Int.bmod_eq_of_le (by omega) (by simp [Int32.size]; omega)
  · rw [← Int.sub_bmod_right]
    exact Int.bmod_eq_of_le (by simp [Int32.size]; omega)
      (by simp [Int32.size]; omega)

theorem int32_ofNat_eq_zero {n : Nat} (hn : n < 2 ^ 32)
    (h : Int32.ofNat n = 0) : n = 0 := by
  have hvalue := int32_ofNat_toInt n hn
  rw [h, show (0 : Int32).toInt = 0 from rfl] at hvalue
  split at hvalue <;> omega

theorem int32_ofNat_ne_minusOne {n : Nat} (hn : n + 1 < 2 ^ 32) :
    Int32.ofNat n ≠ -1 := by
  intro h
  have hvalue := int32_ofNat_toInt n (by omega)
  rw [h, show (-1 : Int32).toInt = -1 from rfl] at hvalue
  split at hvalue <;> omega

/-!
## Wakeups

A signal or a broadcast moves sleeping threads to their woken program point,
which changes none of the three numbers.
-/

section Wakeups

variable {thread : Type _}

theorem wakes_classes {wake : Wake} {before after : thread -> Pc}
    (h : Wakes wake before after) (t : thread) :
    (after t).isReader = (before t).isReader ∧
      (after t).isWriter = (before t).isWriter ∧
      (after t).isQueuedWriter = (before t).isQueuedWriter := by
  cases wake with
  | nobody =>
      rw [show after = before from h]
      exact ⟨rfl, rfl, rfl⟩
  | oneWriter =>
      rcases h.others t with hsame | ⟨hold, hnew⟩
      · rw [hsame]
        exact ⟨rfl, rfl, rfl⟩
      · rw [hold, hnew]
        exact ⟨rfl, rfl, rfl⟩
  | allReaders =>
      rw [show after = broadcast .readerAsleep .readerWoken before from h]
      unfold broadcast
      split
      · rename_i hasleep
        rw [hasleep]
        exact ⟨rfl, rfl, rfl⟩
      · exact ⟨rfl, rfl, rfl⟩

end Wakeups

section Numbers

variable {thread : Type _} [Fintype thread] {s : System thread}

theorem init_tallied : (System.init : System thread).Tallied where
  state := by
    right
    have hreaders : (System.init : System thread).readers = 0 :=
      countWhere_const_false rfl
    exact ⟨by rw [hreaders]; rfl, countWhere_const_false rfl⟩
  waiters := by
    have hqueue : (System.init : System thread).queuedWriters = 0 :=
      countWhere_const_false rfl
    rw [hqueue]
    rfl

theorem System.Tallied.onlyReaders (h : s.Tallied) (hstate : s.rwlock.state ≠ -1) :
    s.rwlock.state = Int32.ofNat s.readers ∧ s.writers = 0 := by
  rcases h.state with ⟨hminus, _, _⟩ | hreaders
  · exact absurd hminus hstate
  · exact hreaders

theorem System.Tallied.nobody (h : s.Tallied) (hcard : Fintype.card thread < 2 ^ 32)
    (hfree : s.rwlock.state = 0) : s.readers = 0 ∧ s.writers = 0 := by
  have honly := h.onlyReaders (by rw [hfree]; decide)
  have hbound : s.readers <= Fintype.card thread := countWhere_le_card _ _
  exact ⟨int32_ofNat_eq_zero (by omega) (honly.left.symm.trans hfree), honly.right⟩

theorem System.Tallied.heldRead (h : s.Tallied)
    (hcard : Fintype.card thread + 1 < 2 ^ 32) {t : thread}
    (hread : s.pc t = .holdsRead) : s.rwlock.state ≠ -1 := by
  have hbound : s.readers <= Fintype.card thread := countWhere_le_card _ _
  have hpos : 0 < s.readers := countWhere_pos (i := t) (by rw [hread]; rfl)
  rcases h.state with ⟨_, _, hnone⟩ | ⟨hstate, _⟩
  · omega
  · rw [hstate]
    exact int32_ofNat_ne_minusOne (by omega)

theorem System.Tallied.heldWrite (h : s.Tallied) {t : thread}
    (hwrite : s.pc t = .holdsWrite) :
    s.rwlock.state = -1 ∧ s.writers = 1 ∧ s.readers = 0 := by
  have hpos : 0 < s.writers := countWhere_pos (i := t) (by rw [hwrite]; rfl)
  rcases h.state with hstate | ⟨_, hnone⟩
  · exact hstate
  · omega

theorem System.Tallied.counted (h : s.Tallied)
    (hcard : Fintype.card thread < 2 ^ 31) : s.Counted := by
  have hreaders : s.readers <= Fintype.card thread := countWhere_le_card _ _
  have hqueue : s.queuedWriters <= Fintype.card thread := countWhere_le_card _ _
  constructor
  · rcases h.state with ⟨hminus, hholders⟩ | ⟨hstate, hwriters⟩
    · left
      exact ⟨by rw [hminus]; rfl, hholders⟩
    · right
      exact ⟨by rw [hstate]; exact Int32.toInt_ofNat_of_lt (by omega), hwriters⟩
  · rw [h.waiters]
    exact Int32.toInt_ofNat_of_lt (by omega)

theorem readersHeldOff_eq_false {rwlock : MyRwLock} :
    readersHeldOff rwlock = false <-> ¬ rwlock.state < 0 ∧ rwlock.waiters = 0 := by
  simp [readersHeldOff]

theorem System.Tallied.wake (h : s.Tallied) {wake : Wake} {pc : thread -> Pc}
    (hwakes : Wakes wake s.pc pc) : System.Tallied { s with pc := pc } := by
  have hclasses := wakes_classes hwakes
  have hreaders : countWhere Pc.isReader pc = s.readers :=
    countWhere_congr (fun t => (hclasses t).left)
  have hwriters : countWhere Pc.isWriter pc = s.writers :=
    countWhere_congr (fun t => (hclasses t).right.left)
  have hqueue : countWhere Pc.isQueuedWriter pc = s.queuedWriters :=
    countWhere_congr (fun t => (hclasses t).right.right)
  constructor
  · have hsame := h.state
    rw [← hreaders, ← hwriters] at hsame
    exact hsame
  · have hsame := h.waiters
    rw [← hqueue] at hsame
    exact hsame

end Numbers

/-!
## Preservation
-/

section Preservation

variable {thread : Type _} [Fintype thread] [DecidableEq thread]
variable {s : System thread}

theorem System.Tallied.move (h : s.Tallied) (t : thread) (pc : Pc)
    (hreader : pc.isReader = (s.pc t).isReader)
    (hwriter : pc.isWriter = (s.pc t).isWriter)
    (hqueued : pc.isQueuedWriter = (s.pc t).isQueuedWriter) :
    System.Tallied { s with pc := Function.update s.pc t pc } where
  state := by
    simpa [System.readers, System.writers, countWhere_update_same hreader,
      countWhere_update_same hwriter] using h.state
  waiters := by
    simpa [System.queuedWriters, countWhere_update_same hqueued] using h.waiters

theorem System.Tallied.grantRead (h : s.Tallied) {t : thread}
    (hreader : (s.pc t).isReader = false)
    (hwriter : (s.pc t).isWriter = false)
    (hqueued : (s.pc t).isQueuedWriter = false)
    (hfree : readersHeldOff s.rwlock = false) :
    System.Tallied
      { rwlock := { s.rwlock with state := s.rwlock.state + 1 }
        pc := Function.update s.pc t .holdsRead } := by
  rcases readersHeldOff_eq_false.mp hfree with ⟨hstate, _hwaiters⟩
  have honly := h.onlyReaders (fun hminus => hstate (by rw [hminus]; decide))
  constructor
  · right
    constructor
    · show s.rwlock.state + 1 =
        Int32.ofNat (countWhere Pc.isReader (Function.update s.pc t .holdsRead))
      rw [countWhere_update_enter hreader rfl, honly.left]
      exact (Int32.ofNat_add _ _).symm
    · show countWhere Pc.isWriter (Function.update s.pc t .holdsRead) = 0
      rw [countWhere_update_same (by rw [hwriter]; rfl)]
      exact honly.right
  · show s.rwlock.waiters =
      Int32.ofNat (countWhere Pc.isQueuedWriter (Function.update s.pc t .holdsRead))
    rw [countWhere_update_same (by rw [hqueued]; rfl)]
    exact h.waiters

/-- The holders after a thread that held nothing is granted the write lock of a
free lock. -/
theorem System.Tallied.soleWriter (h : s.Tallied)
    (hcard : Fintype.card thread < 2 ^ 32) {t : thread}
    (hreader : (s.pc t).isReader = false) (hwriter : (s.pc t).isWriter = false)
    (hfree : s.rwlock.state = 0) :
    countWhere Pc.isWriter (Function.update s.pc t .holdsWrite) = 1 ∧
      countWhere Pc.isReader (Function.update s.pc t .holdsWrite) = 0 := by
  have hnobody := h.nobody hcard hfree
  constructor
  · rw [countWhere_update_enter hwriter rfl]
    exact congrArg (· + 1) hnobody.right
  · rw [countWhere_update_same (by rw [hreader]; rfl)]
    exact hnobody.left

theorem System.Tallied.grantWrite (h : s.Tallied)
    (hcard : Fintype.card thread < 2 ^ 32) {t : thread}
    (hreader : (s.pc t).isReader = false)
    (hwriter : (s.pc t).isWriter = false)
    (hqueued : (s.pc t).isQueuedWriter = false)
    (hfree : s.rwlock.state = 0) :
    System.Tallied
      { rwlock := { s.rwlock with state := -1 }
        pc := Function.update s.pc t .holdsWrite } := by
  constructor
  · left
    exact ⟨rfl, h.soleWriter hcard hreader hwriter hfree⟩
  · show s.rwlock.waiters =
      Int32.ofNat (countWhere Pc.isQueuedWriter (Function.update s.pc t .holdsWrite))
    rw [countWhere_update_same (by rw [hqueued]; rfl)]
    exact h.waiters

theorem System.Tallied.grantQueued (h : s.Tallied)
    (hcard : Fintype.card thread < 2 ^ 32) {t : thread}
    (hreader : (s.pc t).isReader = false)
    (hwriter : (s.pc t).isWriter = false)
    (hqueued : (s.pc t).isQueuedWriter = true)
    (hfree : s.rwlock.state = 0) :
    System.Tallied
      { rwlock := { state := -1, waiters := s.rwlock.waiters - 1 }
        pc := Function.update s.pc t .holdsWrite } := by
  have hqueue : countWhere Pc.isQueuedWriter
      (Function.update s.pc t .holdsWrite) + 1 = s.queuedWriters :=
    countWhere_update_leave hqueued rfl
  constructor
  · left
    exact ⟨rfl, h.soleWriter hcard hreader hwriter hfree⟩
  · have hwaiters := h.waiters
    rw [← hqueue] at hwaiters
    exact int32_pred hwaiters

theorem System.Tallied.arrive (h : s.Tallied) {t : thread}
    (houtside : s.pc t = .outside) :
    System.Tallied
      { rwlock := wrlockArrive s.rwlock
        pc := Function.update s.pc t .writerAsleep } := by
  constructor
  · have hsame := h.state
    simp only [System.readers, System.writers] at hsame ⊢
    rw [countWhere_update_same (by rw [houtside]; rfl),
      countWhere_update_same (by rw [houtside]; rfl)]
    exact hsame
  · show s.rwlock.waiters + 1 =
      Int32.ofNat (countWhere Pc.isQueuedWriter (Function.update s.pc t .writerAsleep))
    rw [countWhere_update_enter (by rw [houtside]; rfl) rfl, h.waiters]
    exact (Int32.ofNat_add _ _).symm

theorem System.Tallied.release (h : s.Tallied)
    (hcard : Fintype.card thread + 1 < 2 ^ 32) {t : thread}
    (hholds : s.pc t = .holdsRead ∨ s.pc t = .holdsWrite) :
    System.Tallied
      { rwlock := (unlockSection s.rwlock).2
        pc := Function.update s.pc t .outside } := by
  have hqueue : countWhere Pc.isQueuedWriter
      (Function.update s.pc t .outside) = s.queuedWriters := by
    apply countWhere_update_same
    rcases hholds with hread | hwrite
    · rw [hread]; rfl
    · rw [hwrite]; rfl
  rcases hholds with hread | hwrite
  · have hreaders : countWhere Pc.isReader (Function.update s.pc t .outside) + 1 =
        s.readers := countWhere_update_leave (by rw [hread]; rfl) rfl
    have hwriters : countWhere Pc.isWriter (Function.update s.pc t .outside) =
        s.writers := countWhere_update_same (by rw [hread]; rfl)
    have hbranch := h.heldRead hcard hread
    have honly := h.onlyReaders hbranch
    rw [← hreaders] at honly
    unfold unlockSection
    rw [if_neg hbranch]
    constructor
    · right
      exact ⟨int32_pred honly.left, hwriters.trans honly.right⟩
    · exact h.waiters.trans (congrArg Int32.ofNat hqueue.symm)
  · have hwriters : countWhere Pc.isWriter (Function.update s.pc t .outside) + 1 =
        s.writers := countWhere_update_leave (by rw [hwrite]; rfl) rfl
    have hreaders : countWhere Pc.isReader (Function.update s.pc t .outside) =
        s.readers := countWhere_update_same (by rw [hwrite]; rfl)
    have hstate := h.heldWrite hwrite
    unfold unlockSection
    rw [if_pos hstate.left]
    constructor
    · right
      constructor
      · show (0 : Int32) =
          Int32.ofNat (countWhere Pc.isReader (Function.update s.pc t .outside))
        rw [hreaders, hstate.right.right]
        rfl
      · show countWhere Pc.isWriter (Function.update s.pc t .outside) = 0
        omega
    · exact h.waiters.trans (congrArg Int32.ofNat hqueue.symm)

theorem System.Tallied.step {s' : System thread} (h : s.Tallied)
    (hcard : Fintype.card thread + 1 < 2 ^ 32) (hstep : Step s s') :
    s'.Tallied := by
  have hsmall : Fintype.card thread < 2 ^ 32 := by omega
  cases hstep with
  | rdlock t hpc =>
      have hclass : (s.pc t).isReader = false ∧ (s.pc t).isWriter = false ∧
          (s.pc t).isQueuedWriter = false := by
        rcases hpc with hpc | hpc <;> rw [hpc] <;> exact ⟨rfl, rfl, rfl⟩
      unfold rdlockSection
      cases hoff : readersHeldOff s.rwlock with
      | false =>
          exact h.grantRead hclass.left hclass.right.left hclass.right.right hoff
      | true =>
          exact h.move t .readerAsleep (by rw [hclass.left]; rfl)
            (by rw [hclass.right.left]; rfl) (by rw [hclass.right.right]; rfl)
  | tryrdlock t hpc =>
      unfold rdlockSection
      cases hoff : readersHeldOff s.rwlock with
      | false =>
          exact h.grantRead (by rw [hpc]; rfl) (by rw [hpc]; rfl)
            (by rw [hpc]; rfl) hoff
      | true =>
          exact h.move t .outside (by rw [hpc]) (by rw [hpc]) (by rw [hpc])
  | wrlock t hpc =>
      have harrive := h.arrive hpc
      unfold wrlockSection
      by_cases hfree : s.rwlock.state = 0
      · have hgrant := harrive.grantQueued hsmall (t := t)
          (by simp [Pc.isReader]) (by simp [Pc.isWriter])
          (by simp [Pc.isQueuedWriter]) hfree
        simpa [wrlockArrive, hfree] using hgrant
      · simpa [wrlockArrive, hfree] using harrive
  | wrlockAgain t hpc =>
      unfold wrlockSection
      by_cases hfree : s.rwlock.state = 0
      · have hgrant := h.grantQueued hsmall (t := t) (by rw [hpc]; rfl)
          (by rw [hpc]; rfl) (by rw [hpc]; rfl) hfree
        simpa [hfree] using hgrant
      · have hmove := h.move t .writerAsleep (by rw [hpc]; rfl)
          (by rw [hpc]; rfl) (by rw [hpc]; rfl)
        simpa [hfree] using hmove
  | trywrlock t hpc =>
      unfold trywrlockSection
      by_cases hfree : s.rwlock.state = 0
      · have hgrant := h.grantWrite hsmall (t := t) (by rw [hpc]; rfl)
          (by rw [hpc]; rfl) (by rw [hpc]; rfl) hfree
        simpa [hfree] using hgrant
      · have hmove := h.move t .outside (by rw [hpc]) (by rw [hpc])
          (by rw [hpc])
        simpa [hfree] using hmove
  | unlock t pc hholds hwakes =>
      exact (h.release hcard hholds).wake hwakes
  | spuriousReader t hpc =>
      exact h.move t .readerWoken (by rw [hpc]; rfl) (by rw [hpc]; rfl)
        (by rw [hpc]; rfl)
  | spuriousWriter t hpc =>
      exact h.move t .writerWoken (by rw [hpc]; rfl) (by rw [hpc]; rfl)
        (by rw [hpc]; rfl)

theorem reachable_tallied (hcard : Fintype.card thread + 1 < 2 ^ 32)
    (hreach : Reachable s) : s.Tallied := by
  induction hreach with
  | refl => exact init_tallied
  | tail _ hstep ih => exact ih.step hcard hstep

theorem reachable_counted (hcard : Fintype.card thread < 2 ^ 31)
    (hreach : Reachable s) : s.Counted :=
  (reachable_tallied (by omega) hreach).counted hcard

end Preservation

section Grants

variable {thread : Type _} [DecidableEq thread] {s : System thread}

/-- A thread that newly holds the read lock got it from a lock without queued
writers. -/
theorem grantedRead_of_no_waiters {s' : System thread} (hstep : Step s s')
    {t : thread} (hold : s.pc t ≠ .holdsRead) (hnew : s'.pc t = .holdsRead) :
    s.rwlock.waiters = 0 := by
  have hgranted : forall t', readersHeldOff s.rwlock = true ->
      forall pc, pc ≠ .holdsRead ->
      Function.update s.pc t' pc t = .holdsRead -> False := by
    intro t' _hoff pc hpc hupdate
    by_cases htt : t = t'
    · rw [htt, Function.update_self] at hupdate
      exact hpc hupdate
    · rw [Function.update_of_ne htt] at hupdate
      exact hold hupdate
  have hother : forall t' pc, pc ≠ .holdsRead ->
      Function.update s.pc t' pc t ≠ .holdsRead := by
    intro t' pc hpc hupdate
    by_cases htt : t = t'
    · rw [htt, Function.update_self] at hupdate
      exact hpc hupdate
    · rw [Function.update_of_ne htt] at hupdate
      exact hold hupdate
  have hfree : readersHeldOff s.rwlock = false -> s.rwlock.waiters = 0 := by
    intro hoff
    simp only [readersHeldOff, Bool.or_eq_false_iff] at hoff
    simpa using hoff.right
  cases hstep with
  | rdlock t' hpc =>
      cases hoff : readersHeldOff s.rwlock with
      | false => exact hfree hoff
      | true =>
          simp only [rdlockSection, hoff, if_true] at hnew
          exact absurd hnew (hother t' _ (by decide))
  | tryrdlock t' hpc =>
      cases hoff : readersHeldOff s.rwlock with
      | false => exact hfree hoff
      | true =>
          simp only [rdlockSection, hoff, if_true] at hnew
          exact absurd hnew (hother t' _ (by decide))
  | wrlock t' hpc => exact absurd hnew (hother t' _ (by split <;> decide))
  | wrlockAgain t' hpc => exact absurd hnew (hother t' _ (by split <;> decide))
  | trywrlock t' hpc => exact absurd hnew (hother t' _ (by split <;> decide))
  | unlock t' pc hholds hwakes =>
      have hreader := (wakes_classes hwakes t).left
      have hnewClass : (pc t).isReader = true := by
        rw [show pc t = .holdsRead from hnew]
        rfl
      rw [hnewClass] at hreader
      have hkept : Function.update s.pc t' .outside t = .holdsRead := by
        generalize Function.update s.pc t' .outside t = p at hreader
        cases p <;> first | rfl | exact absurd hreader (by decide)
      exact absurd hkept (hother t' _ (by decide))
  | spuriousReader t' hpc => exact absurd hnew (hother t' _ (by decide))
  | spuriousWriter t' hpc => exact absurd hnew (hother t' _ (by decide))

end Grants

/-!
## The lock excludes
-/

section Exclusion

variable {thread : Type _} [Fintype thread] [DecidableEq thread]

/-- In every reachable state the two counters are exactly the numbers of threads
they stand for, and no step grants a read lock while a writer is queued. -/
theorem rwlock_counts_threads (hcard : Fintype.card thread < 2 ^ 31)
    {s : System thread} (hreach : Reachable s) :
    (s.rwlock.state.toInt = -1 <-> s.writers = 1 ∧ s.readers = 0) ∧
      (forall n : Nat, s.rwlock.state.toInt = n <->
        s.readers = n ∧ s.writers = 0) ∧
      s.rwlock.waiters.toInt = s.queuedWriters ∧
      forall (s' : System thread) (t : thread), Step s s' ->
        s.pc t ≠ .holdsRead -> s'.pc t = .holdsRead ->
        ¬ 0 < s.rwlock.waiters.toInt := by
  have hcounted := reachable_counted hcard hreach
  refine ⟨?_, ?_, hcounted.waiters, ?_⟩
  · rcases hcounted.state with ⟨hstate, hwriters, hreaders⟩ | ⟨hstate, hwriters⟩
    · constructor
      · intro _
        exact ⟨hwriters, hreaders⟩
      · intro _
        exact hstate
    · omega
  · intro n
    rcases hcounted.state with ⟨hstate, hwriters, hreaders⟩ | ⟨hstate, hwriters⟩ <;>
      omega
  · intro s' t hstep hold hnew
    have hzero := grantedRead_of_no_waiters hstep hold hnew
    rw [hzero]
    exact Int.lt_irrefl 0

def oneReader : System (Fin 3) where
  rwlock := (rdlockSection myRwInit).2
  pc := Function.update (fun _ => .outside) 0 .holdsRead

theorem rwlock_counts_threads_oneReader :
    oneReader.readers = 1 ∧ oneReader.writers = 0 :=
  ((rwlock_counts_threads (s := oneReader) (by decide)
    (Relation.ReflTransGen.single
      (Step.rdlock (s := System.init) 0 (Or.inl rfl)))).right.left 1).mp rfl

end Exclusion

end RwLock
end MyLibs
