import MyLibs.Foundation.Counting
import MyLibs.PrRwLock.Model

/-!
# Exclusion and reader preference

The mutex has an owner exactly while a thread stands where the code owns it, and
a granted write lock is one of these places. Whoever comes next finds no writer,
and a thread that gives a lock back reads the flag of the lock it holds.
-/

namespace MyLibs
namespace PrRwLock

open Foundation

def Pc.ownsMutex : Pc -> Bool
  | .rdlockCounted => true
  | .wrlockWaits => true
  | .holdsWrite => true
  | .unlockBranch .write _ => true
  | .unlockSignal _ => true
  | .unlockRelease => true
  | _ => false

def Mode.isWrite : Mode -> Bool
  | .read => false
  | .write => true

section Threads

variable {thread : Type _} [Fintype thread]

def System.readers (s : System thread) : Nat :=
  countWhere Pc.isReader s.pc

def System.writers (s : System thread) : Nat :=
  countWhere Pc.isWriter s.pc

def System.waitingWriters (s : System thread) : Nat :=
  countWhere Pc.isWaiting s.pc

end Threads

/-!
## The owner of the mutex
-/

section Owner

variable {thread : Type _} {pc : thread -> Pc} {mutex : Option thread} {t : thread}
  {p : Pc}

def Owned (pc : thread -> Pc) (mutex : Option thread) : Prop :=
  forall t, (pc t).ownsMutex = true <-> mutex = some t

theorem Owned.not_owner (h : Owned pc none) (t : thread) :
    (pc t).ownsMutex = false := by
  cases howns : (pc t).ownsMutex with
  | false => rfl
  | true => cases (h t).mp howns

theorem isWriter_owns {p : Pc} (h : p.isWriter = true) : p.ownsMutex = true := by
  cases p with
  | unlockBranch held activeWriter =>
      cases held with
      | read => cases h
      | write => rfl
  | holdsWrite => rfl
  | _ => cases h

variable [DecidableEq thread]

theorem Owned.take (h : Owned pc none) (hp : p.ownsMutex = true) :
    Owned (Function.update pc t p) (some t) := by
  intro t'
  by_cases htt : t' = t
  · simp [htt, hp]
  · rw [Function.update_of_ne htt, h.not_owner t']
    constructor
    · intro hfalse
      cases hfalse
    · intro hsome
      exact absurd (Option.some.inj hsome).symm htt

theorem Owned.release (h : Owned pc mutex) (ht : (pc t).ownsMutex = true)
    (hp : p.ownsMutex = false) : Owned (Function.update pc t p) none := by
  intro t'
  by_cases htt : t' = t
  · simp [htt, hp]
  · rw [Function.update_of_ne htt, h t', (h t).mp ht]
    constructor
    · intro hsome
      exact absurd (Option.some.inj hsome).symm htt
    · intro hnone
      cases hnone

theorem Owned.keep (h : Owned pc mutex) (hp : p.ownsMutex = (pc t).ownsMutex) :
    Owned (Function.update pc t p) mutex := by
  intro t'
  by_cases htt : t' = t
  · rw [htt, Function.update_self, hp]
    exact h t
  · rw [Function.update_of_ne htt]
    exact h t'

end Owner

/-!
## Wakeups

A signal moves sleeping writers, which own nothing before and after.
-/

section Wakeups

variable {thread : Type _}

theorem wakes_cases {signals : Bool} {before after : thread -> Pc}
    (h : Wakes signals before after) (t : thread) :
    after t = before t ∨ (before t = .wrlockAsleep ∧ after t = .wrlockWoken) := by
  cases signals with
  | true => exact h.others t
  | false =>
      rw [show after = before from h]
      exact Or.inl rfl

theorem wakes_classes {signals : Bool} {before after : thread -> Pc}
    (h : Wakes signals before after) (t : thread) :
    (after t).isReader = (before t).isReader ∧
      (after t).isWriter = (before t).isWriter ∧
      (after t).isWaiting = (before t).isWaiting ∧
      (after t).ownsMutex = (before t).ownsMutex := by
  rcases wakes_cases h t with hsame | ⟨hold, hnew⟩
  · rw [hsame]
    exact ⟨rfl, rfl, rfl, rfl⟩
  · rw [hold, hnew]
    exact ⟨rfl, rfl, rfl, rfl⟩

theorem exists_wakes (signals : Bool) (before : thread -> Pc) :
    exists after, Wakes signals before after := by
  cases signals with
  | false => exact ⟨before, rfl⟩
  | true =>
      refine ⟨fun t => if before t = .wrlockAsleep then .wrlockWoken else before t, ?_, ?_⟩
      · intro t
        by_cases hasleep : before t = .wrlockAsleep
        · exact Or.inr ⟨hasleep, if_pos hasleep⟩
        · exact Or.inl (if_neg hasleep)
      · rintro ⟨t, hasleep⟩
        exact ⟨t, hasleep, if_pos hasleep⟩

end Wakeups

/-!
## The invariant
-/

section Invariant

variable {thread : Type _} [Fintype thread] {s : System thread}

structure System.Consistent (s : System thread) : Prop where
  owner : Owned s.pc s.mutex
  readers : s.rwlock.activeReaders = UInt32.ofNat s.readers
  waiting : s.rwlock.writersWaitingReaders.toNat = s.waitingWriters
  flag : s.rwlock.activeWriter = true <-> 0 < s.writers
  exclusive : 0 < s.writers -> s.writers = 1 ∧ s.readers = 0
  branch : forall t held activeWriter,
    s.pc t = .unlockBranch held activeWriter -> activeWriter = held.isWrite
  waits : forall t, s.pc t = .wrlockWaits -> s.rwlock.activeReaders ≠ 0

theorem init_consistent : (System.init : System thread).Consistent where
  owner := by
    intro t
    simp [System.init, Pc.ownsMutex]
  readers := by
    have hnone : (System.init : System thread).readers = 0 :=
      countWhere_const_false rfl
    rw [hnone]
    rfl
  waiting := by
    have hnone : (System.init : System thread).waitingWriters = 0 :=
      countWhere_const_false rfl
    rw [hnone]
    rfl
  flag := by
    have hnone : (System.init : System thread).writers = 0 :=
      countWhere_const_false rfl
    rw [hnone]
    exact ⟨fun h => (by cases h), fun h => absurd h (Nat.lt_irrefl 0)⟩
  exclusive := by
    have hnone : (System.init : System thread).writers = 0 :=
      countWhere_const_false rfl
    rw [hnone]
    intro h
    exact absurd h (Nat.lt_irrefl 0)
  branch := by
    intro t held activeWriter h
    cases h
  waits := by
    intro t h
    cases h

theorem System.Consistent.no_writers (h : s.Consistent) (hfree : s.mutex = none) :
    s.writers = 0 := by
  apply Nat.eq_zero_of_not_pos
  intro hpos
  rcases exists_of_countWhere_pos hpos with ⟨t, ht⟩
  have howner := h.owner
  rw [hfree] at howner
  have hnot := howner.not_owner t
  rw [isWriter_owns ht] at hnot
  cases hnot

theorem System.Consistent.no_waits (h : s.Consistent) (hfree : s.mutex = none)
    (t : thread) : s.pc t ≠ .wrlockWaits := by
  intro hpc
  have howner := h.owner
  rw [hfree] at howner
  have hnot := howner.not_owner t
  rw [hpc] at hnot
  cases hnot

/-- `active_readers` is 0 only without readers, unless all threads of a full
house are readers. -/
theorem System.Consistent.no_readers (h : s.Consistent)
    (hcard : Fintype.card thread <= 2 ^ 32) {t : thread}
    (hout : (s.pc t).isReader = false) (hzero : s.rwlock.activeReaders = 0) :
    s.readers = 0 := by
  have hbound : s.readers < Fintype.card thread := countWhere_lt_card hout
  have hvalue : (UInt32.ofNat s.readers).toNat = s.readers :=
    UInt32.toNat_ofNat_of_lt' (by simp [UInt32.size]; omega)
  rw [← h.readers, hzero] at hvalue
  exact hvalue.symm

theorem System.Consistent.wake (h : s.Consistent) {signals : Bool}
    {pc : thread -> Pc} (hwakes : Wakes signals s.pc pc) :
    System.Consistent { s with pc := pc } := by
  have hclasses := wakes_classes hwakes
  have hreaders : countWhere Pc.isReader pc = s.readers :=
    countWhere_congr (fun t => (hclasses t).left)
  have hwriters : countWhere Pc.isWriter pc = s.writers :=
    countWhere_congr (fun t => (hclasses t).right.left)
  have hwaiting : countWhere Pc.isWaiting pc = s.waitingWriters :=
    countWhere_congr (fun t => (hclasses t).right.right.left)
  constructor
  · intro t
    show (pc t).ownsMutex = true <-> s.mutex = some t
    rw [(hclasses t).right.right.right]
    exact h.owner t
  · exact h.readers.trans (congrArg UInt32.ofNat hreaders.symm)
  · exact h.waiting.trans hwaiting.symm
  · have hsame := h.flag
    rw [← hwriters] at hsame
    exact hsame
  · have hsame := h.exclusive
    rw [← hwriters, ← hreaders] at hsame
    exact hsame
  · intro t held activeWriter hpc
    rcases wakes_cases hwakes t with hsame | ⟨_, hwoken⟩
    · exact h.branch t held activeWriter (hsame.symm.trans hpc)
    · cases hwoken.symm.trans hpc
  · intro t hpc
    rcases wakes_cases hwakes t with hsame | ⟨_, hwoken⟩
    · exact h.waits t (hsame.symm.trans hpc)
    · cases hwoken.symm.trans hpc

/-- Whoever holds a lock reads the flag of that lock. -/
theorem System.Consistent.flag_held (h : s.Consistent) {t : thread} {held : Mode}
    (hpc : s.pc t = .holding held) : s.rwlock.activeWriter = held.isWrite := by
  cases held with
  | read =>
      have hpos : 0 < s.readers := countWhere_pos (i := t) (by rw [hpc]; rfl)
      cases hactive : s.rwlock.activeWriter with
      | false => rfl
      | true =>
          have hnone := (h.exclusive (h.flag.mp hactive)).right
          omega
  | write => exact h.flag.mpr (countWhere_pos (i := t) (by rw [hpc]; rfl))

theorem System.Consistent.waiting_ne_zero (h : s.Consistent) {t : thread}
    (hwaiting : (s.pc t).isWaiting = true) : s.rwlock.writersWaitingReaders ≠ 0 := by
  intro hzero
  have hpos : 0 < s.waitingWriters := countWhere_pos hwaiting
  rw [← h.waiting, hzero] at hpos
  exact absurd hpos (Nat.lt_irrefl 0)

end Invariant

/-!
## Preservation
-/

section Preservation

variable {thread : Type _} [Fintype thread] [DecidableEq thread]
variable {s : System thread}

theorem branch_update (h : s.Consistent) {t : thread} {p : Pc}
    (hp : forall held activeWriter, p = .unlockBranch held activeWriter ->
      activeWriter = held.isWrite) (t' : thread) (held : Mode) (activeWriter : Bool)
    (hpc : Function.update s.pc t p t' = .unlockBranch held activeWriter) :
    activeWriter = held.isWrite := by
  by_cases htt : t' = t
  · exact hp held activeWriter (by simpa [htt] using hpc)
  · exact h.branch t' held activeWriter
      (by simpa [Function.update_of_ne htt] using hpc)

theorem waits_update (h : s.Consistent) (hfree : s.mutex = none) {t : thread} {p : Pc}
    {rwlock : RwPrLock} (hp : p = .wrlockWaits -> rwlock.activeReaders ≠ 0)
    (t' : thread) (hpc : Function.update s.pc t p t' = .wrlockWaits) :
    rwlock.activeReaders ≠ 0 := by
  by_cases htt : t' = t
  · exact hp (by simpa [htt] using hpc)
  · exact absurd (by simpa [Function.update_of_ne htt] using hpc)
      (h.no_waits hfree t')

/-- A step of one thread between two points of the same classes. -/
theorem System.Consistent.move (h : s.Consistent) {t : thread} {p : Pc}
    {mutex : Option thread} (howner : Owned (Function.update s.pc t p) mutex)
    (hreader : p.isReader = (s.pc t).isReader)
    (hwriter : p.isWriter = (s.pc t).isWriter)
    (hwaiting : p.isWaiting = (s.pc t).isWaiting)
    (hbranch : forall held activeWriter, p = .unlockBranch held activeWriter ->
      activeWriter = held.isWrite)
    (hwaits : p = .wrlockWaits -> s.rwlock.activeReaders ≠ 0) :
    System.Consistent { s with mutex := mutex, pc := Function.update s.pc t p } where
  owner := howner
  readers := by
    simpa [System.readers, countWhere_update_same hreader] using h.readers
  waiting := by
    simpa [System.waitingWriters, countWhere_update_same hwaiting] using h.waiting
  flag := by
    simpa [System.writers, countWhere_update_same hwriter] using h.flag
  exclusive := by
    simpa [System.writers, System.readers, countWhere_update_same hwriter,
      countWhere_update_same hreader] using h.exclusive
  branch := branch_update h hbranch
  waits := by
    intro t' hpc
    by_cases htt : t' = t
    · exact hwaits (by simpa [htt] using hpc)
    · exact h.waits t' (by simpa [Function.update_of_ne htt] using hpc)

theorem System.Consistent.advance (h : s.Consistent) {t : thread} {p q : Pc}
    {mutex : Option thread} (howner : Owned (Function.update s.pc t p) mutex)
    (hpc : s.pc t = q) (hreader : p.isReader = q.isReader)
    (hwriter : p.isWriter = q.isWriter) (hwaiting : p.isWaiting = q.isWaiting)
    (hbranch : forall held activeWriter, p ≠ .unlockBranch held activeWriter)
    (hwaits : p ≠ .wrlockWaits) :
    System.Consistent { s with mutex := mutex, pc := Function.update s.pc t p } := by
  subst hpc
  exact h.move howner hreader hwriter hwaiting
    (fun held activeWriter hp => absurd hp (hbranch held activeWriter))
    (fun hp => absurd hp hwaits)

/-!
## Steps that change the fields
-/

theorem System.Consistent.rdlock (h : s.Consistent) {t : thread}
    (hpc : s.pc t = .rdlockCalled) (hfree : s.mutex = none) :
    System.Consistent
      { rwlock := rdlockSection s.rwlock
        mutex := some t
        pc := Function.update s.pc t .rdlockCounted } where
  owner := by
    have howner := h.owner
    rw [hfree] at howner
    exact howner.take rfl
  readers := by
    show s.rwlock.activeReaders + 1 =
      UInt32.ofNat (countWhere Pc.isReader (Function.update s.pc t .rdlockCounted))
    rw [countWhere_update_enter (by rw [hpc]; rfl) rfl, h.readers]
    exact (UInt32.ofNat_add _ _).symm
  waiting := by
    show s.rwlock.writersWaitingReaders.toNat =
      countWhere Pc.isWaiting (Function.update s.pc t .rdlockCounted)
    rw [countWhere_update_same (by rw [hpc]; rfl)]
    exact h.waiting
  flag := by
    show s.rwlock.activeWriter = true <->
      0 < countWhere Pc.isWriter (Function.update s.pc t .rdlockCounted)
    rw [countWhere_update_same (by rw [hpc]; rfl)]
    exact h.flag
  exclusive := by
    intro hwriters
    have hsame : countWhere Pc.isWriter (Function.update s.pc t .rdlockCounted) =
        s.writers := countWhere_update_same (by rw [hpc]; rfl)
    have hpos : 0 < countWhere Pc.isWriter
        (Function.update s.pc t .rdlockCounted) := hwriters
    have hnone := h.no_writers hfree
    omega
  branch := branch_update h (fun _ _ hp => by cases hp)
  waits := waits_update h hfree (fun hp => by cases hp)

theorem System.Consistent.grantWrite (h : s.Consistent)
    (hcard : Fintype.card thread <= 2 ^ 32) {t : thread}
    (hreader : (s.pc t).isReader = false) (hwriter : (s.pc t).isWriter = false)
    (hfree : s.mutex = none) (hzero : s.rwlock.activeReaders = 0)
    {waiting : UInt32}
    (hwaiting : waiting.toNat =
      countWhere Pc.isWaiting (Function.update s.pc t .holdsWrite)) :
    System.Consistent
      { rwlock := { s.rwlock with
          writersWaitingReaders := waiting
          activeWriter := true }
        mutex := some t
        pc := Function.update s.pc t .holdsWrite } := by
  have hreaders : countWhere Pc.isReader (Function.update s.pc t .holdsWrite) =
      s.readers := countWhere_update_same (by rw [hreader]; rfl)
  have hwriters : countWhere Pc.isWriter (Function.update s.pc t .holdsWrite) =
      s.writers + 1 := countWhere_update_enter hwriter rfl
  have hnone := h.no_writers hfree
  constructor
  · have howner := h.owner
    rw [hfree] at howner
    exact howner.take rfl
  · exact h.readers.trans (congrArg UInt32.ofNat hreaders.symm)
  · exact hwaiting
  · constructor
    · intro _
      show 0 < countWhere Pc.isWriter (Function.update s.pc t .holdsWrite)
      omega
    · intro _
      rfl
  · intro _
    constructor
    · show countWhere Pc.isWriter (Function.update s.pc t .holdsWrite) = 1
      omega
    · show countWhere Pc.isReader (Function.update s.pc t .holdsWrite) = 0
      rw [hreaders]
      exact h.no_readers hcard hreader hzero
  · exact branch_update h (fun _ _ hp => by cases hp)
  · exact waits_update h hfree (fun hp => by cases hp)

theorem System.Consistent.arrive (h : s.Consistent)
    (hcard : Fintype.card thread <= 2 ^ 32) {t : thread}
    (hpc : s.pc t = .wrlockCalled) (hfree : s.mutex = none)
    (hreaders : s.rwlock.activeReaders ≠ 0) :
    System.Consistent
      { rwlock := { s.rwlock with
          writersWaitingReaders := s.rwlock.writersWaitingReaders + 1 }
        mutex := some t
        pc := Function.update s.pc t .wrlockWaits } where
  owner := by
    have howner := h.owner
    rw [hfree] at howner
    exact howner.take rfl
  readers := by
    show s.rwlock.activeReaders =
      UInt32.ofNat (countWhere Pc.isReader (Function.update s.pc t .wrlockWaits))
    rw [countWhere_update_same (by rw [hpc]; rfl)]
    exact h.readers
  waiting := by
    -- a reader is among the threads and does not wait
    have hpos : 0 < s.readers := by
      apply Nat.pos_of_ne_zero
      intro hnone
      apply hreaders
      rw [h.readers, hnone]
      rfl
    rcases exists_of_countWhere_pos hpos with ⟨r, hr⟩
    have hrt : r ≠ t := by
      intro hrt
      rw [hrt, hpc] at hr
      cases hr
    have hout : (Function.update s.pc t Pc.wrlockWaits r).isWaiting = false := by
      rw [Function.update_of_ne hrt]
      generalize s.pc r = p at hr
      cases p <;> first | rfl | cases hr
    have hbound := countWhere_lt_card hout
    have hcount : countWhere Pc.isWaiting (Function.update s.pc t .wrlockWaits) =
        s.waitingWriters + 1 := countWhere_update_enter (by rw [hpc]; rfl) rfl
    show (s.rwlock.writersWaitingReaders + 1).toNat =
      countWhere Pc.isWaiting (Function.update s.pc t .wrlockWaits)
    rw [hcount, UInt32.toNat_add, h.waiting]
    exact Nat.mod_eq_of_lt (show s.waitingWriters + 1 < 2 ^ 32 by omega)
  flag := by
    show s.rwlock.activeWriter = true <->
      0 < countWhere Pc.isWriter (Function.update s.pc t .wrlockWaits)
    rw [countWhere_update_same (by rw [hpc]; rfl)]
    exact h.flag
  exclusive := by
    intro hwriters
    have hsame : countWhere Pc.isWriter (Function.update s.pc t .wrlockWaits) =
        s.writers := countWhere_update_same (by rw [hpc]; rfl)
    have hpos : 0 < countWhere Pc.isWriter (Function.update s.pc t .wrlockWaits) :=
      hwriters
    have hnone := h.no_writers hfree
    omega
  branch := branch_update h (fun _ _ hp => by cases hp)
  waits := waits_update h hfree (fun _ => hreaders)

theorem System.Consistent.unlockWriter (h : s.Consistent) {t : thread}
    {activeWriter : Bool} (hpc : s.pc t = .unlockBranch .write activeWriter) :
    System.Consistent
      { s with
        rwlock := unlockSection true s.rwlock
        pc := Function.update s.pc t (.unlockSignal true) } where
  owner := h.owner.keep (by rw [hpc]; rfl)
  readers := by
    show s.rwlock.activeReaders = UInt32.ofNat
      (countWhere Pc.isReader (Function.update s.pc t (.unlockSignal true)))
    rw [countWhere_update_same (by rw [hpc]; rfl)]
    exact h.readers
  waiting := by
    show s.rwlock.writersWaitingReaders.toNat =
      countWhere Pc.isWaiting (Function.update s.pc t (.unlockSignal true))
    rw [countWhere_update_same (by rw [hpc]; rfl)]
    exact h.waiting
  flag := by
    have hleave : countWhere Pc.isWriter
        (Function.update s.pc t (.unlockSignal true)) + 1 = s.writers :=
      countWhere_update_leave (by rw [hpc]; rfl) rfl
    have hone := (h.exclusive (by omega)).left
    constructor
    · intro hflag
      cases hflag
    · intro hpos
      have hpos' : 0 < countWhere Pc.isWriter
          (Function.update s.pc t (.unlockSignal true)) := hpos
      omega
  exclusive := by
    intro hpos
    have hpos' : 0 < countWhere Pc.isWriter
        (Function.update s.pc t (.unlockSignal true)) := hpos
    have hleave : countWhere Pc.isWriter
        (Function.update s.pc t (.unlockSignal true)) + 1 = s.writers :=
      countWhere_update_leave (by rw [hpc]; rfl) rfl
    have hone := (h.exclusive (by omega)).left
    omega
  branch := branch_update h (fun _ _ hp => by cases hp)
  waits := by
    intro t' hpc'
    by_cases htt : t' = t
    · have hself : Function.update s.pc t (.unlockSignal true) t' = .wrlockWaits :=
        hpc'
      rw [htt, Function.update_self] at hself
      cases hself
    · exact h.waits t' (by simpa [Function.update_of_ne htt] using hpc')

theorem System.Consistent.unlockReader (h : s.Consistent) {t : thread}
    {activeWriter : Bool} (hpc : s.pc t = .unlockBranch .read activeWriter)
    (hfree : s.mutex = none) :
    System.Consistent
      { rwlock := unlockSection false s.rwlock
        mutex := some t
        pc := Function.update s.pc t (.unlockSignal false) } where
  owner := by
    have howner := h.owner
    rw [hfree] at howner
    exact howner.take rfl
  readers := by
    have hleave : countWhere Pc.isReader
        (Function.update s.pc t (.unlockSignal false)) + 1 = s.readers :=
      countWhere_update_leave (by rw [hpc]; rfl) rfl
    show s.rwlock.activeReaders - 1 = UInt32.ofNat
      (countWhere Pc.isReader (Function.update s.pc t (.unlockSignal false)))
    rw [h.readers, ← hleave, UInt32.ofNat_add]
    exact UInt32.add_sub_cancel _ _
  waiting := by
    show s.rwlock.writersWaitingReaders.toNat =
      countWhere Pc.isWaiting (Function.update s.pc t (.unlockSignal false))
    rw [countWhere_update_same (by rw [hpc]; rfl)]
    exact h.waiting
  flag := by
    show s.rwlock.activeWriter = true <->
      0 < countWhere Pc.isWriter (Function.update s.pc t (.unlockSignal false))
    rw [countWhere_update_same (by rw [hpc]; rfl)]
    exact h.flag
  exclusive := by
    intro hwriters
    have hsame : countWhere Pc.isWriter
        (Function.update s.pc t (.unlockSignal false)) = s.writers :=
      countWhere_update_same (by rw [hpc]; rfl)
    have hpos : 0 < countWhere Pc.isWriter
        (Function.update s.pc t (.unlockSignal false)) := hwriters
    have hnone := h.no_writers hfree
    omega
  branch := branch_update h (fun _ _ hp => by cases hp)
  waits := waits_update h hfree (fun hp => by cases hp)

theorem System.Consistent.wrlock (h : s.Consistent)
    (hcard : Fintype.card thread <= 2 ^ 32) {t : thread}
    (hpc : s.pc t = .wrlockCalled) (hfree : s.mutex = none) :
    System.Consistent
      { rwlock := (wrlockSection s.rwlock).2
        mutex := some t
        pc := Function.update s.pc t
          (if (wrlockSection s.rwlock).1 then .holdsWrite else .wrlockWaits) } := by
  unfold wrlockSection
  by_cases hzero : s.rwlock.activeReaders = 0
  · have hwaiting : s.rwlock.writersWaitingReaders.toNat =
        countWhere Pc.isWaiting (Function.update s.pc t .holdsWrite) := by
      rw [countWhere_update_same (by rw [hpc]; rfl)]
      exact h.waiting
    simpa [hzero] using h.grantWrite hcard (by rw [hpc]; rfl) (by rw [hpc]; rfl)
      hfree hzero hwaiting
  · simpa [hzero] using h.arrive hcard hpc hfree hzero

theorem System.Consistent.wrlockAgain (h : s.Consistent)
    (hcard : Fintype.card thread <= 2 ^ 32) {t : thread}
    (hpc : s.pc t = .wrlockWoken) (hfree : s.mutex = none) :
    System.Consistent
      { rwlock := (wrlockAgainSection s.rwlock).2
        mutex := some t
        pc := Function.update s.pc t
          (if (wrlockAgainSection s.rwlock).1 then .holdsWrite
            else .wrlockWaits) } := by
  unfold wrlockAgainSection
  by_cases hzero : s.rwlock.activeReaders = 0
  · have hleave : countWhere Pc.isWaiting
        (Function.update s.pc t .holdsWrite) + 1 = s.waitingWriters :=
      countWhere_update_leave (by rw [hpc]; rfl) rfl
    have hwaiting : (s.rwlock.writersWaitingReaders - 1).toNat =
        countWhere Pc.isWaiting (Function.update s.pc t .holdsWrite) := by
      have hone : (1 : UInt32) <= s.rwlock.writersWaitingReaders := by
        show 1 <= s.rwlock.writersWaitingReaders.toNat
        rw [h.waiting]
        omega
      rw [UInt32.toNat_sub_of_le _ _ hone, h.waiting, ← hleave]
      rfl
    simpa [hzero] using h.grantWrite hcard (by rw [hpc]; rfl) (by rw [hpc]; rfl)
      hfree hzero hwaiting
  · have howner := h.owner
    rw [hfree] at howner
    have hmove := h.move (t := t) (p := .wrlockWaits) (howner.take rfl) (by rw [hpc]; rfl)
      (by rw [hpc]; rfl) (by rw [hpc]; rfl) (fun _ _ hp => by cases hp)
      (fun _ => hzero)
    simpa [hzero] using hmove

theorem System.Consistent.unlock (h : s.Consistent) {t : thread} {held : Mode}
    (hpc : s.pc t = .holding held) :
    System.Consistent
      { s with
        pc := Function.update s.pc t
          (.unlockBranch held s.rwlock.activeWriter) } := by
  apply h.move (h.owner.keep _)
  · rw [hpc]
    cases held <;> rfl
  · rw [hpc]
    cases held <;> rfl
  · rw [hpc]
    cases held <;> rfl
  · intro held' activeWriter hp
    cases hp
    exact h.flag_held hpc
  · intro hp
    cases hp
  · rw [hpc]
    cases held <;> rfl

theorem System.Consistent.step {s' : System thread} {t : thread} (h : s.Consistent)
    (hcard : Fintype.card thread <= 2 ^ 32) (hstep : Step t s s') :
    s'.Consistent := by
  cases hstep with
  | callRdlock hpc =>
      have howner := h.owner.keep (t := t) (p := .rdlockCalled) (by rw [hpc]; rfl)
      exact h.advance howner hpc rfl rfl rfl nofun nofun
  | callWrlock hpc =>
      have howner := h.owner.keep (t := t) (p := .wrlockCalled) (by rw [hpc]; rfl)
      exact h.advance howner hpc rfl rfl rfl nofun nofun
  | rdlock hpc hfree => exact h.rdlock hpc hfree
  | rdlockRelease hpc =>
      have howner := h.owner.release (t := t) (p := .holdsRead) (by rw [hpc]; rfl) rfl
      exact h.advance howner hpc rfl rfl rfl nofun nofun
  | wrlock hpc hfree => exact h.wrlock hcard hpc hfree
  | wait hpc =>
      have howner := h.owner.release (t := t) (p := .wrlockAsleep) (by rw [hpc]; rfl) rfl
      exact h.advance howner hpc rfl rfl rfl nofun nofun
  | spurious hpc =>
      have howner := h.owner.keep (t := t) (p := .wrlockWoken) (by rw [hpc]; rfl)
      exact h.advance howner hpc rfl rfl rfl nofun nofun
  | wrlockAgain hpc hfree => exact h.wrlockAgain hcard hpc hfree
  | unlock held hpc => exact h.unlock hpc
  | unlockWriter held hpc =>
      cases held with
      | read => cases h.branch t .read true hpc
      | write => exact h.unlockWriter hpc
  | unlockReader held hpc hfree =>
      cases held with
      | read => exact h.unlockReader hpc hfree
      | write => cases h.branch t .write false hpc
  | signal activeWriter pc hpc hwakes =>
      have howner := h.owner.keep (t := t) (p := .unlockRelease) (by rw [hpc]; rfl)
      have hadvanced := h.advance howner hpc rfl rfl rfl nofun nofun
      exact hadvanced.wake hwakes
  | unlockRelease hpc =>
      have howner := h.owner.release (t := t) (p := .outside) (by rw [hpc]; rfl) rfl
      exact h.advance howner hpc rfl rfl rfl nofun nofun

theorem reachable_consistent (hcard : Fintype.card thread <= 2 ^ 32)
    (hreach : Reachable s) : s.Consistent := by
  induction hreach with
  | refl => exact init_consistent
  | tail _ hstep ih =>
      rcases hstep with ⟨t, hstep⟩
      exact ih.step hcard hstep

end Preservation

/-!
## Readers are not kept waiting
-/

section Preference

variable {thread : Type _} [DecidableEq thread] {s : System thread}

/-- The owner of the mutex, if there is one, runs on by itself until the mutex
is free. -/
def OwnerReleases (s s' : System thread) : Prop :=
  s'.mutex = none ∧
    (s' = s ∨ exists t, s.mutex = some t ∧ Relation.ReflTransGen (Step t) s s')

/-- An owner of the mutex that does not hold the write lock gives it back
without waiting for anybody. -/
theorem owner_releases {t r : thread} (howns : (s.pc t).ownsMutex = true)
    (hmutex : s.mutex = some t) (hwriter : (s.pc t).isWriter = false)
    (hr : s.pc r = .rdlockCalled) :
    exists s', OwnerReleases s s' ∧ s'.pc r = .rdlockCalled := by
  have hrt : r ≠ t := by
    intro hrt
    rw [← hrt, hr] at howns
    cases howns
  have hkept : forall p, Function.update s.pc t p r = .rdlockCalled := by
    intro p
    rw [Function.update_of_ne hrt]
    exact hr
  have hone : forall s', Step t s s' -> s'.mutex = none ->
      OwnerReleases s s' := fun s' hstep hnone =>
    ⟨hnone, Or.inr ⟨t, hmutex, Relation.ReflTransGen.single hstep⟩⟩
  cases hpc : s.pc t with
  | rdlockCounted => exact ⟨_, hone _ (Step.rdlockRelease hpc) rfl, hkept _⟩
  | wrlockWaits => exact ⟨_, hone _ (Step.wait hpc) rfl, hkept _⟩
  | unlockRelease => exact ⟨_, hone _ (Step.unlockRelease hpc) rfl, hkept _⟩
  | unlockSignal activeWriter =>
      rcases exists_wakes (unlockSignals activeWriter s.rwlock)
        (Function.update s.pc t .unlockRelease) with ⟨pc, hwakes⟩
      have hself : pc t = .unlockRelease := by
        rcases wakes_cases hwakes t with hsame | ⟨hasleep, _⟩
        · rw [hsame, Function.update_self]
        · rw [Function.update_self] at hasleep
          cases hasleep
      have hother : pc r = .rdlockCalled := by
        rcases wakes_cases hwakes r with hsame | ⟨hasleep, _⟩
        · exact hsame.trans (hkept _)
        · rw [hkept] at hasleep
          cases hasleep
      have hsteps := (Relation.ReflTransGen.single
        (Step.signal (s := s) activeWriter pc hpc hwakes)).tail
        (Step.unlockRelease hself)
      refine ⟨_, ⟨rfl, Or.inr ⟨t, hmutex, hsteps⟩⟩, ?_⟩
      exact (Function.update_of_ne hrt _ _).trans hother
  | unlockBranch held activeWriter =>
      rw [hpc] at howns hwriter
      cases held with
      | read => cases howns
      | write => cases hwriter
  | holdsWrite =>
      rw [hpc] at hwriter
      cases hwriter
  | _ =>
      rw [hpc] at howns
      cases howns

theorem reachable_of_eq {s s' : System thread} (h : Reachable s)
    (hrwlock : s.rwlock = s'.rwlock) (hmutex : s.mutex = s'.mutex)
    (hpc : forall t, s.pc t = s'.pc t) : Reachable s' := by
  have hstate : s = s' := by
    cases s
    cases s'
    simp only [System.mk.injEq]
    exact ⟨hrwlock, hmutex, funext hpc⟩
  rw [← hstate]
  exact h

end Preference

section Exclusion

variable {thread : Type _} [Fintype thread] [DecidableEq thread]

/-- In every reachable state the lock has one writer or any number of readers,
the fields say which, unlocking threads are in the branch of their lock, and
while there are readers a thread in `rw_pr_rdlock` needs at most the next steps
of a mutex owner that is no write holder. -/
theorem prRwlock_exclusion (hcard : Fintype.card thread < 2 ^ 32)
    {s : System thread} (hreach : Reachable s) :
    s.writers <= 1 ∧ (0 < s.writers -> s.readers = 0) ∧
      (s.rwlock.activeWriter = true <->
        exists t, s.mutex = some t ∧ (s.pc t).isWriter = true) ∧
      s.rwlock.activeReaders.toNat = s.readers ∧
      (forall t held activeWriter, s.pc t = .unlockBranch held activeWriter ->
        (activeWriter = true <-> held = .write)) ∧
      (0 < s.rwlock.activeReaders ->
        (forall t, s.mutex = some t -> (s.pc t).isWriter = false) ∧
          forall t, s.pc t = .rdlockCalled ->
            exists s' s'', OwnerReleases s s' ∧ Step t s' s'' ∧
              s''.pc t = .rdlockCounted) := by
  have hcons := reachable_consistent (by omega) hreach
  have hvalue : s.rwlock.activeReaders.toNat = s.readers := by
    have hbound : s.readers <= Fintype.card thread := countWhere_le_card _ _
    rw [hcons.readers]
    exact UInt32.toNat_ofNat_of_lt' (show s.readers < 2 ^ 32 by omega)
  refine ⟨?_, ?_, ?_, hvalue, ?_, ?_⟩
  · by_cases hpos : 0 < s.writers
    · exact (hcons.exclusive hpos).left.le
    · omega
  · exact fun hpos => (hcons.exclusive hpos).right
  · rw [hcons.flag]
    constructor
    · intro hpos
      rcases exists_of_countWhere_pos hpos with ⟨t, ht⟩
      exact ⟨t, (hcons.owner t).mp (isWriter_owns ht), ht⟩
    · rintro ⟨t, _, ht⟩
      exact countWhere_pos ht
  · intro t held activeWriter hpc
    rw [hcons.branch t held activeWriter hpc]
    cases held <;> decide
  · intro hreaders
    have hpos : 0 < s.readers := by
      rw [← hvalue]
      exact hreaders
    have hnone : forall t, (s.pc t).isWriter = false := by
      intro t
      cases hwriter : (s.pc t).isWriter with
      | false => rfl
      | true =>
          have hexcl := (hcons.exclusive (countWhere_pos hwriter)).right
          omega
    refine ⟨fun t _ => hnone t, ?_⟩
    intro r hr
    have hfreed : exists s', OwnerReleases s s' ∧ s'.pc r = .rdlockCalled := by
      cases hmutex : s.mutex with
      | none => exact ⟨s, ⟨hmutex, Or.inl rfl⟩, hr⟩
      | some t =>
          exact owner_releases ((hcons.owner t).mpr hmutex) hmutex (hnone t) hr
    rcases hfreed with ⟨s', hreleases, hcalled⟩
    exact ⟨s', _, hreleases, Step.rdlock hcalled hreleases.left,
      Function.update_self _ _ _⟩

/-- Thread 0 holds the read lock, 1 is asleep in `rw_pr_wrlock` and 2 has
called `rw_pr_rdlock`. -/
def readerBehindWriter : System (Fin 3) where
  rwlock := { activeReaders := 1, writersWaitingReaders := 1, activeWriter := false }
  mutex := none
  pc := fun t =>
    match t with
    | 0 => .holdsRead
    | 1 => .wrlockAsleep
    | 2 => .rdlockCalled

theorem readerBehindWriter_reachable : Reachable readerBehindWriter := by
  have hread := ((Relation.ReflTransGen.refl
    (r := fun s s' : System (Fin 3) => exists t, Step t s s')).tail
    ⟨0, Step.callRdlock (s := System.init) rfl⟩).tail
    ⟨0, Step.rdlock rfl rfl⟩ |>.tail ⟨0, Step.rdlockRelease rfl⟩
  have hwait := ((hread.tail ⟨1, Step.callWrlock rfl⟩).tail
    ⟨1, Step.wrlock rfl rfl⟩).tail ⟨1, Step.wait rfl⟩
  have hcall := hwait.tail ⟨2, Step.callRdlock rfl⟩
  exact reachable_of_eq hcall (by decide) rfl (by decide)

theorem prRwlock_exclusion_readerBehindWriter :
    readerBehindWriter.writers <= 1 ∧
      exists s' s'', OwnerReleases readerBehindWriter s' ∧ Step 2 s' s'' ∧
        s''.pc 2 = .rdlockCounted :=
  have hexclusion := prRwlock_exclusion (by decide) readerBehindWriter_reachable
  ⟨hexclusion.left,
    (hexclusion.right.right.right.right.right (by decide)).right 2 rfl⟩

end Exclusion

end PrRwLock
end MyLibs
