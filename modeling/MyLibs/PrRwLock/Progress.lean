import Mathlib.Algebra.Order.BigOperators.Group.Finset
import MyLibs.Foundation.Transitions
import MyLibs.PrRwLock.Refinement
import MyLibs.PrRwLock.Wakeups

/-!
# No deadlock, and when the lock may be destroyed

A thread inside the lock's functions has a bounded number of steps left, waits
included. From every reachable state some step brings one of the threads closer
to its end, so that all of them can leave. A lock that is unlocked and that nobody
tries to lock has no thread left that could touch it.
-/

namespace MyLibs
namespace PrRwLock

open Foundation

def Pc.stepsLeft : Pc -> Nat
  | .outside => 0
  | .unlockRelease => 1
  | .unlockSignal _ => 2
  | .unlockBranch _ _ => 3
  | .holdsRead => 4
  | .holdsWrite => 4
  | .rdlockCounted => 5
  | .wrlockWoken => 5
  | .rdlockCalled => 6
  | .wrlockAsleep => 6
  | .wrlockWaits => 7
  | .wrlockCalled => 8

def Pc.isRunning : Pc -> Bool
  | .outside => false
  | .wrlockAsleep => false
  | _ => true

def Pc.isLocking : Pc -> Bool
  | .rdlockCalled => true
  | .wrlockCalled => true
  | .wrlockWaits => true
  | .wrlockAsleep => true
  | .wrlockWoken => true
  | _ => false

theorem stepsLeft_wakes {thread : Type _} {signals : Bool} {before after : thread -> Pc}
    (h : Wakes signals before after) (t : thread) :
    (after t).stepsLeft <= (before t).stepsLeft := by
  rcases wakes_cases h t with hsame | ⟨hold, hnew⟩
  · rw [hsame]
  · rw [hold, hnew]
    decide

section Steps

variable {thread : Type _} [DecidableEq thread]

def Continues (s s' : System thread) : Prop :=
  exists t, (s.pc t).isRunning = true ∧ Step t s s'

variable {s : System thread} {t : thread}

theorem stepsLeft_update {p : Pc} (hp : p.stepsLeft < (s.pc t).stepsLeft) :
    (forall u, (Function.update s.pc t p u).stepsLeft <= (s.pc u).stepsLeft) ∧
      (Function.update s.pc t p t).stepsLeft < (s.pc t).stepsLeft := by
  constructor
  · intro u
    by_cases hut : u = t
    · rw [hut, Function.update_self]
      exact hp.le
    · rw [Function.update_of_ne hut]
  · rw [Function.update_self]
    exact hp

def Advances (s s' : System thread) : Prop :=
  Continues s s' ∧ (forall u, (s'.pc u).stepsLeft <= (s.pc u).stepsLeft) ∧
    exists t, (s'.pc t).stepsLeft < (s.pc t).stepsLeft

theorem advances_update {p : Pc} {s' : System thread} (hstep : Step t s s')
    (hpc : s'.pc = Function.update s.pc t p) (hrunning : (s.pc t).isRunning = true)
    (hp : p.stepsLeft < (s.pc t).stepsLeft) : Advances s s' := by
  have hupdate := stepsLeft_update hp
  rw [← hpc] at hupdate
  exact ⟨⟨t, hrunning, hstep⟩, hupdate.left, t, hupdate.right⟩

theorem advances_signal {activeWriter : Bool} (hpc : s.pc t = .unlockSignal activeWriter) :
    exists s', Advances s s' := by
  rcases exists_wakes (unlockSignals activeWriter s.rwlock)
    (Function.update s.pc t .unlockRelease) with ⟨pc, hwakes⟩
  have hstep := Step.signal activeWriter pc hpc hwakes
  have hupdate := stepsLeft_update (s := s) (t := t) (p := .unlockRelease)
    (by rw [hpc]; exact Nat.lt_succ_self 1)
  refine ⟨_, ⟨t, by rw [hpc]; rfl, hstep⟩, ?_, t, ?_⟩
  · intro u
    exact (stepsLeft_wakes hwakes u).trans (hupdate.left u)
  · exact (stepsLeft_wakes hwakes t).trans_lt hupdate.right

/-- The owner of the mutex never waits for anybody. -/
theorem advances_owner (hbranch : forall held activeWriter,
      s.pc t = .unlockBranch held activeWriter -> activeWriter = held.isWrite)
    (howns : (s.pc t).ownsMutex = true) : exists s', Advances s s' := by
  cases hpc : s.pc t with
  | rdlockCounted =>
      exact ⟨_, advances_update (Step.rdlockRelease hpc) rfl (by rw [hpc]; rfl)
        (by rw [hpc]; decide)⟩
  | wrlockWaits =>
      exact ⟨_, advances_update (Step.wait hpc) rfl (by rw [hpc]; rfl)
        (by rw [hpc]; decide)⟩
  | holdsWrite =>
      exact ⟨_, advances_update (Step.unlock .write hpc) rfl (by rw [hpc]; rfl)
        (by rw [hpc]; exact Nat.lt_succ_self 3)⟩
  | unlockBranch held activeWriter =>
      rw [hpc] at howns
      cases held with
      | read => cases howns
      | write =>
          rw [hbranch _ _ hpc] at hpc
          exact ⟨_, advances_update (Step.unlockWriter .write hpc) rfl (by rw [hpc]; rfl)
            (by rw [hpc]; decide)⟩
  | unlockSignal activeWriter => exact advances_signal hpc
  | unlockRelease =>
      exact ⟨_, advances_update (Step.unlockRelease hpc) rfl (by rw [hpc]; rfl)
        (by rw [hpc]; decide)⟩
  | _ =>
      rw [hpc] at howns
      cases howns

theorem advances_free (hbranch : forall held activeWriter,
      s.pc t = .unlockBranch held activeWriter -> activeWriter = held.isWrite)
    (hfree : s.mutex = none) (howns : (s.pc t).ownsMutex = false)
    (hwaits : (s.pc t).isWaiting = false) (hinside : s.pc t ≠ .outside) :
    exists s', Advances s s' := by
  cases hpc : s.pc t with
  | outside => exact absurd hpc hinside
  | rdlockCalled =>
      exact ⟨_, advances_update (Step.rdlock hpc hfree) rfl (by rw [hpc]; rfl)
        (by rw [hpc]; decide)⟩
  | holdsRead =>
      exact ⟨_, advances_update (Step.unlock .read hpc) rfl (by rw [hpc]; rfl)
        (by rw [hpc]; exact Nat.lt_succ_self 3)⟩
  | wrlockCalled =>
      refine ⟨_, advances_update (Step.wrlock hpc hfree) rfl (by rw [hpc]; rfl) ?_⟩
      rw [hpc]
      cases (wrlockSection s.rwlock).1 <;> decide
  | unlockBranch held activeWriter =>
      rw [hpc] at howns
      cases held with
      | write => cases howns
      | read =>
          rw [hbranch _ _ hpc] at hpc
          exact ⟨_, advances_update (Step.unlockReader .read hpc hfree) rfl
            (by rw [hpc]; rfl) (by rw [hpc]; decide)⟩
  | wrlockWaits =>
      rw [hpc] at hwaits
      cases hwaits
  | wrlockAsleep =>
      rw [hpc] at hwaits
      cases hwaits
  | wrlockWoken =>
      rw [hpc] at hwaits
      cases hwaits
  | _ =>
      rw [hpc] at howns
      cases howns

theorem advances_woken (hpc : s.pc t = .wrlockWoken) (hfree : s.mutex = none)
    (hzero : s.rwlock.activeReaders = 0) : exists s', Advances s s' := by
  have hgranted : (wrlockAgainSection s.rwlock).1 = true := by
    simp [wrlockAgainSection, hzero]
  refine ⟨_, advances_update (Step.wrlockAgain hpc hfree) rfl (by rw [hpc]; rfl) ?_⟩
  rw [hpc, hgranted]
  decide

end Steps

/-!
## Everybody can leave
-/

section Progress

variable {thread : Type _} [Fintype thread]

def System.stepsLeft (s : System thread) : Nat :=
  ∑ t, (s.pc t).stepsLeft

structure System.Live (s : System thread) : Prop where
  consistent : s.Consistent
  awake : s.Awake

variable {s : System thread}

/-- If the threads that are left are all writers in their wait, nobody holds the lock,
and one of them was woken. -/
theorem System.Live.exists_woken (h : s.Live) (hfree : s.mutex = none)
    (hwaits : forall t, s.pc t ≠ .outside -> (s.pc t).isWaiting = true)
    (hinside : exists t, s.pc t ≠ .outside) :
    s.rwlock.activeReaders = 0 ∧ exists t, s.pc t = .wrlockWoken := by
  have hnone : forall q : Pc -> Bool, q .outside = false ->
      (forall p, p.isWaiting = true -> q p = false) -> forall t, q (s.pc t) = false := by
    intro q hout hq t
    by_cases ht : s.pc t = .outside
    · rw [ht]
      exact hout
    · exact hq _ (hwaits t ht)
  have hreader : forall t, (s.pc t).isReader = false :=
    hnone Pc.isReader rfl (by intro p hp; cases p <;> first | rfl | cases hp)
  have hreaders : s.readers = 0 := by
    apply Nat.eq_zero_of_not_pos
    intro hpos
    rcases exists_of_countWhere_pos hpos with ⟨t, ht⟩
    rw [hreader t] at ht
    cases ht
  have hzero : s.rwlock.activeReaders = 0 := by
    rw [h.consistent.readers, hreaders]
    rfl
  refine ⟨hzero, ?_⟩
  rcases hinside with ⟨t, ht⟩
  by_cases hwoken : s.pc t = .wrlockWoken
  · exact ⟨t, hwoken⟩
  · have hasleep : s.pc t = .wrlockAsleep := by
      have hwaiting := hwaits t ht
      have hnotabout := h.consistent.no_waits hfree t
      cases hpc : s.pc t with
      | wrlockAsleep => rfl
      | wrlockWaits => exact absurd hpc hnotabout
      | wrlockWoken => exact absurd hpc hwoken
      | _ =>
          rw [hpc] at hwaiting
          cases hwaiting
    rcases h.awake ⟨t, hasleep⟩ with hsome | ⟨w, hw⟩ | ⟨w, hw⟩ | hw
    · exact absurd hzero hsome
    · rw [hnone Pc.isWriter rfl (by intro p hp; cases p <;> first | rfl | cases hp)] at hw
      cases hw
    · rw [hnone Pc.isBeforeSignal rfl
        (by intro p hp; cases p <;> first | rfl | cases hp)] at hw
      cases hw
    · exact hw

variable [DecidableEq thread]

theorem System.Live.step {s' : System thread} {t : thread} (h : s.Live)
    (hcard : Fintype.card thread <= 2 ^ 32) (hstep : Step t s s') : s'.Live := by
  have hconsistent := h.consistent.step hcard hstep
  exact ⟨hconsistent, h.awake.step h.consistent hconsistent hcard hstep⟩

theorem System.Live.advances (h : s.Live) (hinside : exists t, s.pc t ≠ .outside) :
    exists s', Advances s s' := by
  cases hmutex : s.mutex with
  | some t => exact advances_owner (h.consistent.branch t) ((h.consistent.owner t).mpr hmutex)
  | none =>
      have howner := h.consistent.owner
      rw [hmutex] at howner
      by_cases hstuck : forall t, s.pc t ≠ .outside -> (s.pc t).isWaiting = true
      · rcases h.exists_woken hmutex hstuck hinside with ⟨hzero, t, hwoken⟩
        exact advances_woken hwoken hmutex hzero
      · rcases not_forall.mp hstuck with ⟨t, ht⟩
        rcases Classical.not_imp.mp ht with ⟨hout, hwaits⟩
        exact advances_free (h.consistent.branch t) hmutex (howner.not_owner t)
          (Bool.eq_false_of_not_eq_true hwaits) hout

end Progress

/-!
## Destroying the lock
-/

section Quiet

variable {thread : Type _} {s : System thread}

def System.Quiet (s : System thread) : Prop :=
  forall t, (s.pc t).isLocking = false

theorem System.Quiet.wakes (h : s.Quiet) {signals : Bool} {pc : thread -> Pc}
    (hwakes : Wakes signals s.pc pc) (t : thread) : (pc t).isLocking = false := by
  rcases wakes_cases hwakes t with hsame | ⟨hold, _⟩
  · rw [hsame]
    exact h t
  · have hnot := h t
    rw [hold] at hnot
    cases hnot

variable [DecidableEq thread]

theorem System.Quiet.update (h : s.Quiet) {t : thread} {p : Pc} (hp : p.isLocking = false)
    (u : thread) : (Function.update s.pc t p u).isLocking = false := by
  by_cases hut : u = t
  · rw [hut, Function.update_self]
    exact hp
  · rw [Function.update_of_ne hut]
    exact h u

theorem System.Quiet.step {s' : System thread} (h : s.Quiet) (hstep : Continues s s') :
    s'.Quiet := by
  rcases hstep with ⟨t, hrunning, hstep⟩
  have hnot := h t
  cases hstep with
  | callRdlock hpc =>
      rw [hpc] at hrunning
      cases hrunning
  | callWrlock hpc =>
      rw [hpc] at hrunning
      cases hrunning
  | spurious hpc =>
      rw [hpc] at hrunning
      cases hrunning
  | rdlock hpc _ =>
      rw [hpc] at hnot
      cases hnot
  | wrlock hpc _ =>
      rw [hpc] at hnot
      cases hnot
  | wait hpc =>
      rw [hpc] at hnot
      cases hnot
  | wrlockAgain hpc _ =>
      rw [hpc] at hnot
      cases hnot
  | rdlockRelease _ => exact h.update rfl
  | unlock _ _ => exact h.update rfl
  | unlockWriter _ _ => exact h.update rfl
  | unlockReader _ _ _ => exact h.update rfl
  | unlockRelease _ => exact h.update rfl
  | signal activeWriter pc _ hwakes =>
      have hquiet : System.Quiet { s with pc := Function.update s.pc t .unlockRelease } :=
        h.update rfl
      exact hquiet.wakes hwakes

theorem System.Quiet.run {s' : System thread} (h : s.Quiet)
    (hrun : Relation.ReflTransGen Continues s s') : s'.Quiet := by
  induction hrun with
  | refl => exact h
  | tail _ hstep ih => exact ih.step hstep

theorem Reachable.continues {s' : System thread} (h : Reachable s)
    (hrun : Relation.ReflTransGen Continues s s') : Reachable s' := by
  induction hrun with
  | refl => exact h
  | tail _ hstep ih =>
      rcases hstep with ⟨t, _, hstep⟩
      exact ih.tail ⟨t, hstep⟩

end Quiet

section Destroy

variable {thread : Type _} [Fintype thread] {s : System thread}

/-- Nobody is inside a lock that is unlocked and that nobody tries to lock. -/
theorem System.Consistent.all_outside (h : s.Consistent)
    (hcard : Fintype.card thread < 2 ^ 32) (hquiet : s.Quiet) (hmutex : s.mutex = none)
    (hzero : s.rwlock.activeReaders = 0) (t : thread) : s.pc t = .outside := by
  have howner := h.owner
  rw [hmutex] at howner
  have howns := howner.not_owner t
  have hreader : (s.pc t).isReader = false := by
    have hvalue : (UInt32.ofNat s.readers).toNat = s.readers := by
      have hbound : s.readers <= Fintype.card thread := countWhere_le_card _ _
      exact UInt32.toNat_ofNat_of_lt' (show s.readers < 2 ^ 32 by omega)
    rw [← h.readers, hzero] at hvalue
    exact isReader_false hvalue.symm t
  have hlocking := hquiet t
  generalize s.pc t = p at howns hreader hlocking
  cases p with
  | outside => rfl
  | rdlockCalled => cases hlocking
  | wrlockCalled => cases hlocking
  | wrlockWaits => cases hlocking
  | wrlockAsleep => cases hlocking
  | wrlockWoken => cases hlocking
  | rdlockCounted => cases hreader
  | holdsRead => cases hreader
  | holdsWrite => cases howns
  | unlockSignal _ => cases howns
  | unlockRelease => cases howns
  | unlockBranch held _ =>
      cases held with
      | read => cases hreader
      | write => cases howns

theorem System.Consistent.fields_of_outside (h : s.Consistent)
    (hout : forall t, s.pc t = .outside) : s.rwlock = rwPrInit := by
  have hnone : forall q : Pc -> Bool, q .outside = false -> countWhere q s.pc = 0 := by
    intro q hq
    rw [show s.pc = fun _ => .outside from funext hout]
    exact countWhere_const_false hq
  have hreaders : s.rwlock.activeReaders = 0 := by
    rw [h.readers, show s.readers = 0 from hnone Pc.isReader rfl]
    rfl
  have hwaiting : s.rwlock.writersWaitingReaders = 0 := by
    apply UInt32.toNat.inj
    rw [h.waiting, show s.waitingWriters = 0 from hnone Pc.isWaiting rfl]
    rfl
  have hflag : s.rwlock.activeWriter = false := by
    have hiff := h.flag
    rw [show s.writers = 0 from hnone Pc.isWriter rfl] at hiff
    cases hactive : s.rwlock.activeWriter with
    | false => rfl
    | true => exact absurd (hiff.mp hactive) (Nat.lt_irrefl 0)
  cases hrwlock : s.rwlock with
  | mk readers waiting flag =>
      rw [hrwlock] at hreaders hwaiting hflag
      subst hreaders hwaiting hflag
      rfl

variable [DecidableEq thread]

/-- Once nobody tries to lock any more, whoever sees the lock unlocked may destroy it:
the fields are those of a new lock, and no thread has a step left that could touch
it. -/
theorem prRwlock_destroy_safe (hcard : Fintype.card thread < 2 ^ 32)
    (hreach : Reachable s) (hquiet : s.Quiet) {s' : System thread}
    (hrun : Relation.ReflTransGen Continues s s') (hmutex : s'.mutex = none)
    (hzero : s'.rwlock.activeReaders = 0) :
    s'.rwlock = rwPrInit ∧ forall last, ¬ Continues s' last := by
  have hconsistent := reachable_consistent (by omega) (hreach.continues hrun)
  have hout := hconsistent.all_outside hcard (hquiet.run hrun) hmutex hzero
  refine ⟨hconsistent.fields_of_outside hout, ?_⟩
  intro last hcontinues
  rcases hcontinues with ⟨t, hrunning, _⟩
  rw [hout t] at hrunning
  cases hrunning

def writerAlone : System (Fin 2) where
  rwlock := { activeReaders := 0, writersWaitingReaders := 0, activeWriter := true }
  mutex := some 0
  pc := fun t =>
    match t with
    | 0 => .holdsWrite
    | 1 => .outside

theorem writerAlone_reachable : Reachable writerAlone := by
  have hcall := (Relation.ReflTransGen.refl
    (r := fun s s' : System (Fin 2) => exists t, Step t s s')).tail
    ⟨0, Step.callWrlock (s := System.init) rfl⟩
  exact reachable_of_eq (hcall.tail ⟨0, Step.wrlock rfl rfl⟩) (by decide) rfl (by decide)

theorem writerAlone_leaves :
    exists s', Relation.ReflTransGen Continues writerAlone s' ∧ s'.mutex = none ∧
      s'.rwlock.activeReaders = 0 := by
  have hbranch := (Relation.ReflTransGen.refl (r := Continues)).tail
    ⟨0, rfl, Step.unlock (s := writerAlone) .write rfl⟩
  have hsection := hbranch.tail ⟨0, rfl, Step.unlockWriter .write rfl⟩
  have hsignal := hsection.tail ⟨0, rfl, Step.signal true _ rfl (Eq.refl _)⟩
  exact ⟨_, hsignal.tail ⟨0, rfl, Step.unlockRelease (by decide)⟩, rfl, rfl⟩

theorem prRwlock_destroy_safe_writerAlone :
    exists s', Relation.ReflTransGen Continues writerAlone s' ∧ s'.rwlock = rwPrInit ∧
      forall last, ¬ Continues s' last := by
  rcases writerAlone_leaves with ⟨s', hrun, hmutex, hzero⟩
  exact ⟨s', hrun, prRwlock_destroy_safe (by decide) writerAlone_reachable
    (by unfold System.Quiet; decide) hrun hmutex hzero⟩

end Destroy

end PrRwLock
end MyLibs
