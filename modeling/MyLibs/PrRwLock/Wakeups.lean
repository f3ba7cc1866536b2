import MyLibs.PrRwLock.Exclusion

/-!
# No lost wakeup of writers

A writer goes to sleep because there are readers. From then on somebody is
always responsible for it: a reader, a writer that overtook it, a thread that
has still to reach the signal of `rw_pr_unlock`, or a writer that was woken.
-/

namespace MyLibs
namespace PrRwLock

open Foundation

section Attended

variable {thread : Type _} {s : System thread}

def System.Attended (s : System thread) : Prop :=
  s.rwlock.activeReaders ≠ 0 ∨ (exists t, (s.pc t).isWriter = true) ∨
    (exists t, (s.pc t).isBeforeSignal = true) ∨
    exists t, s.pc t = .wrlockWoken

def System.Awake (s : System thread) : Prop :=
  (exists t, s.pc t = .wrlockAsleep) -> s.Attended

theorem init_awake : (System.init : System thread).Awake := by
  rintro ⟨t, hasleep⟩
  cases hasleep

variable [DecidableEq thread]

theorem asleep_of_update {t : thread} {p : Pc} (hp : p ≠ .wrlockAsleep)
    (h : exists t', Function.update s.pc t p t' = .wrlockAsleep) :
    exists t', s.pc t' = .wrlockAsleep := by
  rcases h with ⟨t', ht'⟩
  by_cases htt : t' = t
  · rw [htt, Function.update_self] at ht'
    exact absurd ht' hp
  · exact ⟨t', (Function.update_of_ne htt _ _).symm.trans ht'⟩

theorem exists_update {q : Pc -> Prop} {t : thread} {p : Pc}
    (hp : q (s.pc t) -> q p) (h : exists t', q (s.pc t')) :
    exists t', q (Function.update s.pc t p t') := by
  rcases h with ⟨t', ht'⟩
  by_cases htt : t' = t
  · exact ⟨t, by rw [Function.update_self]; exact hp (htt ▸ ht')⟩
  · exact ⟨t', by rw [Function.update_of_ne htt]; exact ht'⟩

theorem System.Awake.move (h : s.Awake) {t : thread} {p : Pc}
    {mutex : Option thread} (hp : p ≠ .wrlockAsleep)
    (hwriter : (s.pc t).isWriter = true -> p.isWriter = true)
    (hsignal : (s.pc t).isBeforeSignal = true -> p.isBeforeSignal = true)
    (hwoken : s.pc t = .wrlockWoken -> p = .wrlockWoken) :
    System.Awake { s with mutex := mutex, pc := Function.update s.pc t p } := by
  intro hasleep
  rcases h (asleep_of_update hp hasleep) with hreaders | hwriters | hbefore | hawake
  · exact Or.inl hreaders
  · exact Or.inr (Or.inl (exists_update (q := fun p => p.isWriter = true) hwriter hwriters))
  · exact Or.inr (Or.inr (Or.inl
      (exists_update (q := fun p => p.isBeforeSignal = true) hsignal hbefore)))
  · exact Or.inr (Or.inr (Or.inr
      (exists_update (q := fun p => p = .wrlockWoken) hwoken hawake)))

end Attended

section Schedules

variable {thread : Type _} [Fintype thread] [DecidableEq thread]
variable {s : System thread}

/-- The signal of `rw_pr_unlock`: it is sent, or not needed. -/
theorem System.Consistent.signal_awake (h : s.Consistent) {t : thread}
    {activeWriter : Bool} {pc : thread -> Pc}
    (hwakes : Wakes (unlockSignals activeWriter s.rwlock)
      (Function.update s.pc t .unlockRelease) pc) :
    System.Awake { s with pc := pc } := by
  rintro ⟨t', hasleep⟩
  have hasleep' : pc t' = .wrlockAsleep := hasleep
  have hbefore : Function.update s.pc t .unlockRelease t' = .wrlockAsleep := by
    rcases wakes_cases hwakes t' with hsame | ⟨hold, _⟩
    · exact hsame.symm.trans hasleep'
    · exact hold
  cases hsignals : unlockSignals activeWriter s.rwlock with
  | true =>
      rw [hsignals] at hwakes
      rcases hwakes.someone ⟨t', hbefore⟩ with ⟨w, _, hwoken⟩
      exact Or.inr (Or.inr (Or.inr ⟨w, hwoken⟩))
  | false =>
      rcases asleep_of_update (fun hp => by cases hp) ⟨t', hbefore⟩ with ⟨w, hw⟩
      have hwaiting := h.waiting_ne_zero (t := w) (by rw [hw]; rfl)
      cases activeWriter with
      | true => simp [unlockSignals, hwaiting] at hsignals
      | false => exact Or.inl (by simpa [unlockSignals, hwaiting] using hsignals)

theorem System.Awake.step {s' : System thread} {t : thread} (h : s.Awake)
    (hcons : s.Consistent) (hcons' : s'.Consistent)
    (hcard : Fintype.card thread <= 2 ^ 32) (hstep : Step t s s') : s'.Awake := by
  cases hstep with
  | callRdlock hpc =>
      exact h.move (by decide) (by rw [hpc]; decide) (by rw [hpc]; decide)
        (by rw [hpc]; decide)
  | callWrlock hpc =>
      exact h.move (by decide) (by rw [hpc]; decide) (by rw [hpc]; decide)
        (by rw [hpc]; decide)
  | rdlock hpc hfree =>
      rintro ⟨w, hw⟩
      left
      intro hzero
      have hnone := hcons'.no_readers hcard (t := w) (by rw [hw]; rfl) hzero
      have hpos : 0 < System.readers
          { rwlock := rdlockSection s.rwlock, mutex := some t,
            pc := Function.update s.pc t .rdlockCounted } :=
        countWhere_pos (i := t) (by simp [Pc.isReader])
      omega
  | rdlockRelease hpc =>
      exact h.move (by decide) (by rw [hpc]; decide) (by rw [hpc]; decide)
        (by rw [hpc]; decide)
  | wrlock hpc hfree =>
      intro _
      by_cases hzero : s.rwlock.activeReaders = 0
      · right
        left
        exact ⟨t, by simp [wrlockSection, hzero, Pc.isWriter]⟩
      · left
        simp [wrlockSection, hzero]
  | wait hpc =>
      intro _
      exact Or.inl (hcons.waits t hpc)
  | spurious hpc =>
      intro _
      exact Or.inr (Or.inr (Or.inr ⟨t, Function.update_self _ _ _⟩))
  | wrlockAgain hpc hfree =>
      intro _
      by_cases hzero : s.rwlock.activeReaders = 0
      · right
        left
        exact ⟨t, by simp [wrlockAgainSection, hzero, Pc.isWriter]⟩
      · left
        simp [wrlockAgainSection, hzero]
  | unlock held hpc =>
      apply h.move (fun hp => by cases hp)
      · rw [hpc]
        cases held
        · exact fun hwriter => by cases hwriter
        · exact fun _ => rfl
      · exact fun _ => rfl
      · rw [hpc]
        cases held <;> exact fun hwoken => by cases hwoken
  | unlockWriter held hpc =>
      intro _
      exact Or.inr (Or.inr (Or.inl ⟨t, by simp [Pc.isBeforeSignal]⟩))
  | unlockReader held hpc hfree =>
      intro _
      exact Or.inr (Or.inr (Or.inl ⟨t, by simp [Pc.isBeforeSignal]⟩))
  | signal activeWriter pc hpc hwakes => exact hcons.signal_awake hwakes
  | unlockRelease hpc =>
      exact h.move (by decide) (by rw [hpc]; decide) (by rw [hpc]; decide)
        (by rw [hpc]; decide)

theorem reachable_awake (hcard : Fintype.card thread <= 2 ^ 32)
    (hreach : Reachable s) : s.Awake := by
  induction hreach with
  | refl => exact init_awake
  | tail hbefore hstep ih =>
      rcases hstep with ⟨t, hstep⟩
      have hcons := reachable_consistent hcard hbefore
      exact ih.step hcons (hcons.step hcard hstep) hcard hstep

/-- `writers_waiting_readers` counts the threads in the loop of `rw_pr_wrlock`,
and none of them sleeps on a lock that nobody is responsible for. -/
theorem prRwlock_no_lost_wakeup (hcard : Fintype.card thread <= 2 ^ 32)
    (hreach : Reachable s) :
    s.rwlock.writersWaitingReaders.toNat = s.waitingWriters ∧
      ¬ (s.rwlock.activeReaders = 0 ∧ (forall t, (s.pc t).isWriter = false) ∧
        (forall t, (s.pc t).isBeforeSignal = false) ∧
        (exists t, s.pc t = .wrlockAsleep) ∧
        forall t, s.pc t ≠ .wrlockWoken) := by
  refine ⟨(reachable_consistent hcard hreach).waiting, ?_⟩
  rintro ⟨hzero, hwriter, hsignal, hasleep, hwoken⟩
  rcases reachable_awake hcard hreach hasleep with
    hreaders | ⟨t, ht⟩ | ⟨t, ht⟩ | ⟨t, ht⟩
  · exact hreaders hzero
  · rw [hwriter t] at ht
    cases ht
  · rw [hsignal t] at ht
    cases ht
  · exact hwoken t ht

theorem prRwlock_no_lost_wakeup_readerBehindWriter :
    readerBehindWriter.rwlock.writersWaitingReaders.toNat =
      readerBehindWriter.waitingWriters :=
  (prRwlock_no_lost_wakeup (by decide) readerBehindWriter_reachable).left

end Schedules

/-!
## More writers than `uint` values

`2 ^ 32` writers in the loop bring `writers_waiting_readers` back to 0, so that
the last reader does not signal.
-/

section Wraparound

theorem reachable_unlockReader {thread : Type _} [DecidableEq thread]
    {s : System thread} (h : Reachable s) {t : thread} (hpc : s.pc t = .holdsRead)
    (hmutex : s.mutex = none) (hflag : s.rwlock.activeWriter = false)
    (hsignals : unlockSignals false (unlockSection false s.rwlock) = false) :
    Reachable
      { rwlock := unlockSection false s.rwlock
        mutex := none
        pc := Function.update s.pc t .outside } := by
  have hread := h.tail ⟨t, Step.unlock .read hpc⟩
  rw [hflag] at hread
  have hsection := hread.tail
    ⟨t, Step.unlockReader .read (Function.update_self _ _ _) hmutex⟩
  have hwakes : Wakes (unlockSignals false (unlockSection false s.rwlock))
      (Function.update (Function.update (Function.update s.pc t
        (.unlockBranch .read false)) t (.unlockSignal false)) t .unlockRelease)
      (Function.update s.pc t .unlockRelease) := by
    rw [hsignals, Function.update_idem, Function.update_idem]
    rfl
  have hsignal := hsection.tail
    ⟨t, Step.signal false _ (Function.update_self _ _ _) hwakes⟩
  have hfree := hsignal.tail ⟨t, Step.unlockRelease (Function.update_self _ _ _)⟩
  refine reachable_of_eq hfree rfl rfl ?_
  intro t'
  show Function.update (Function.update s.pc t .unlockRelease) t .outside t' = _
  rw [Function.update_idem]

def writersAsleep (m n : Nat) : System (Fin (m + 1)) where
  rwlock :=
    { activeReaders := 1
      writersWaitingReaders := UInt32.ofNat n
      activeWriter := false }
  mutex := none
  pc := fun t =>
    if t.val = 0 then .holdsRead
    else if t.val <= n then .wrlockAsleep
    else .outside

theorem writersAsleep_zero (m : Nat) : Reachable (writersAsleep m 0) := by
  have hread := ((Relation.ReflTransGen.refl
    (r := fun s s' : System (Fin (m + 1)) => exists t, Step t s s')).tail
    ⟨0, Step.callRdlock (s := System.init) rfl⟩).tail
    ⟨0, Step.rdlock (by simp) rfl⟩ |>.tail ⟨0, Step.rdlockRelease (by simp)⟩
  apply reachable_of_eq hread
  · rfl
  · rfl
  · intro t
    by_cases ht : t = 0
    · simp [ht, writersAsleep]
    · simp [ht, writersAsleep, System.init]

theorem writersAsleep_reachable {m : Nat} (n : Nat) (hn : n <= m) :
    Reachable (writersAsleep m n) := by
  induction n with
  | zero => exact writersAsleep_zero m
  | succ n ih =>
      have hnext : (writersAsleep m n).pc ⟨n + 1, by omega⟩ = .outside := by
        simp [writersAsleep]
      have hcall := (ih (by omega)).tail ⟨_, Step.callWrlock hnext⟩
      have hwait := (hcall.tail
        ⟨_, Step.wrlock (Function.update_self _ _ _) rfl⟩).tail
        ⟨_, Step.wait (Function.update_self _ _ _)⟩
      apply reachable_of_eq hwait
      · show (wrlockSection (writersAsleep m n).rwlock).2 = _
        simp [wrlockSection, writersAsleep]
      · rfl
      · intro t
        by_cases ht : t = ⟨n + 1, by omega⟩
        · simp [ht, writersAsleep]
        · have hval : t.val ≠ n + 1 := fun heq => ht (Fin.ext heq)
          have hle : t.val <= n + 1 <-> t.val <= n := by omega
          simp [Function.update_of_ne ht, writersAsleep, hle]

/-- With `2 ^ 32 + 1` threads the count is wrong, and the last reader leaves all
writers asleep. -/
theorem prRwlock_wakeup_lost :
    exists s : System (Fin (2 ^ 32 + 1)), Reachable s ∧
      s.rwlock.activeReaders = 0 ∧ (forall t, (s.pc t).isWriter = false) ∧
      (forall t, (s.pc t).isBeforeSignal = false) ∧
      (exists t, s.pc t = .wrlockAsleep) ∧
      forall t, s.pc t ≠ .wrlockWoken := by
  have hasleep := writersAsleep_reachable (m := 2 ^ 32) (2 ^ 32) (Nat.le_refl _)
  have hfree := reachable_unlockReader (t := 0) hasleep (by simp [writersAsleep]) rfl rfl
    (by decide)
  have hend : Reachable
      { rwlock := unlockSection false (writersAsleep (2 ^ 32) (2 ^ 32)).rwlock
        mutex := none
        pc := fun t : Fin (2 ^ 32 + 1) =>
          if t.val = 0 then .outside else .wrlockAsleep } := by
    apply reachable_of_eq hfree
    · rfl
    · rfl
    · intro t
      by_cases ht : t = 0
      · simp [ht]
      · have hval : t.val ≠ 0 := fun hzero => ht (Fin.ext hzero)
        have hle : t.val <= 2 ^ 32 := by omega
        simp [ht, hval, writersAsleep]
        omega
  refine ⟨_, hend, by decide, ?_, ?_, ⟨Fin.last _, by simp⟩, ?_⟩
  · intro t
    by_cases ht : t.val = 0 <;> simp [ht, Pc.isWriter]
  · intro t
    by_cases ht : t.val = 0 <;> simp [ht, Pc.isBeforeSignal]
  · intro t
    by_cases ht : t.val = 0 <;> simp [ht]

end Wraparound

end PrRwLock
end MyLibs
