import MyLibs.Pthread.Once

/-!
# The choice between the native and the portable lock

`my_rw_init` looks for the native locks once, through `my_pthread_once`, and every
function of `my_rwlock.c` reads `have_srwlock` again. The flag and the pointers to
the native functions are plain static variables. A step of a thread is a step of
`my_pthread_once`, one assignment of `check_srwlock_availability`, or the read of
the flag in `my_rw_init`.
-/

namespace MyLibs
namespace RwLock
namespace Dispatch

open Pthread

inductive SrwFunc where
  | initializeSRWLock
  | acquireSRWLockExclusive
  | acquireSRWLockShared
  | releaseSRWLockExclusive
  | releaseSRWLockShared
  | tryAcquireSRWLockExclusive
  | tryAcquireSRWLockShared
deriving DecidableEq

/-- The line of `check_srwlock_availability` that assigns the pointer. -/
def SrwFunc.line : SrwFunc -> Nat
  | .initializeSRWLock => 0
  | .acquireSRWLockExclusive => 1
  | .acquireSRWLockShared => 2
  | .releaseSRWLockExclusive => 3
  | .releaseSRWLockShared => 4
  | .tryAcquireSRWLockExclusive => 5
  | .tryAcquireSRWLockShared => 6

/-- The line that tests a pointer and sets `have_srwlock`. -/
def flagLine : Nat := 7

inductive Implementation where
  | portable
  | native
deriving DecidableEq

/-- The test `if(have_srwlock)` that all functions of the lock begin with. -/
def dispatch (haveSrwlock : Bool) : Implementation :=
  if haveSrwlock then .native else .portable

/-- The static variables, what the threads are doing, and the locks in use with the
branch that `my_rw_init` took for them. `pointers` says which are not null. -/
structure System (thread lock : Type _) where
  once : Pthread.System thread
  pointers : SrwFunc -> Bool
  haveSrwlock : Bool
  /-- The argument of `my_rw_init` while a thread is in it. -/
  call : thread -> Option lock
  /-- Lines of `check_srwlock_availability` that a thread has executed. -/
  executed : thread -> Nat
  impl : lock -> Option Implementation

variable {thread lock : Type _}

def System.init : System thread lock where
  once := Pthread.System.init
  pointers := fun _ => false
  haveSrwlock := false
  call := fun _ => none
  executed := fun _ => 0
  impl := fun _ => none

/-- The steps of `my_pthread_once` outside `init_routine`: no step is its start or end,
or the call or the return. -/
def IsInner (before : Pc) : Prop :=
  before ≠ .outside ∧ before ≠ .starts ∧ before ≠ .initializing ∧ before ≠ .returns

/-- A step of thread `t` where `kernel32.dll` has the functions of `exports`. -/
inductive Step [DecidableEq thread] [DecidableEq lock] (exports : SrwFunc -> Bool)
    (t : thread) : System thread lock -> System thread lock -> Prop where
  /-- `my_rw_init` calls `my_pthread_once`. -/
  | callInit {s : System thread lock} {once : Pthread.System thread} (rwlock : lock) :
      s.once.pc t = .outside -> Pthread.Step t s.once once ->
      Step exports t s
        { s with
          once := once
          call := Function.update s.call t (some rwlock) }
  | once {s : System thread lock} {once : Pthread.System thread} :
      IsInner (s.once.pc t) -> Pthread.Step t s.once once ->
      Step exports t s { s with once := once }
  /-- `init_routine` is `check_srwlock_availability`. -/
  | checkStarts {s : System thread lock} {once : Pthread.System thread} :
      s.once.pc t = .starts -> Pthread.Step t s.once once ->
      Step exports t s
        { s with
          once := once
          executed := Function.update s.executed t 0 }
  | getProcAddress {s : System thread lock} (func : SrwFunc) :
      s.once.pc t = .initializing -> s.executed t = func.line ->
      Step exports t s
        { s with
          pointers := Function.update s.pointers func (exports func)
          executed := Function.update s.executed t (func.line + 1) }
  | setFlag {s : System thread lock} :
      s.once.pc t = .initializing -> s.executed t = flagLine ->
      Step exports t s
        { s with
          haveSrwlock :=
            if s.pointers .tryAcquireSRWLockExclusive then true else s.haveSrwlock
          executed := Function.update s.executed t (flagLine + 1) }
  | checkReturns {s : System thread lock} {once : Pthread.System thread} :
      s.once.pc t = .initializing -> s.executed t = flagLine + 1 ->
      Pthread.Step t s.once once ->
      Step exports t s { s with once := once }
  /-- Back in `my_rw_init`. -/
  | rwInit {s : System thread lock} {once : Pthread.System thread} (rwlock : lock) :
      s.once.pc t = .returns -> s.call t = some rwlock -> Pthread.Step t s.once once ->
      Step exports t s
        { s with
          once := once
          call := Function.update s.call t none
          impl := Function.update s.impl rwlock (some (dispatch s.haveSrwlock)) }
  | rwDestroy {s : System thread lock} (rwlock : lock) :
      s.once.pc t = .outside ->
      Step exports t s { s with impl := Function.update s.impl rwlock none }

def Reachable [DecidableEq thread] [DecidableEq lock] (exports : SrwFunc -> Bool)
    (s : System thread lock) : Prop :=
  Relation.ReflTransGen (fun s s' => exists t, Step exports t s s') System.init s

/-!
## What a step of `my_pthread_once` does
-/

section Once

variable [DecidableEq thread] {s s' : Pthread.System thread} {t : thread}

theorem once_done_iff (h : Pthread.Step t s s') :
    s'.onceControl = MY_PTHREAD_ONCE_DONE <->
      s.onceControl = MY_PTHREAD_ONCE_DONE ∨ s.pc t = .stores := by
  cases h with
  | exchange state word hpc hexchange =>
      rw [← (Prod.mk.inj hexchange).right, hpc]
      by_cases hinit : s.onceControl = MY_PTHREAD_ONCE_INIT
      · simp only [hinit]
        decide
      · simp [if_neg hinit]
  | store hpc => simp [hpc]
  | _ hpc => simp [hpc]

theorem once_pc_other (h : Pthread.Step t s s') {u : thread} (hut : u ≠ t) :
    s'.pc u = s.pc u := by
  cases h with
  | _ => exact Function.update_of_ne hut _ _

theorem once_pc_self (h : Pthread.Step t s s') :
    (s'.pc t = .initializing -> s.pc t = .starts) ∧
      (s'.pc t = .stores -> s.pc t = .initializing) := by
  cases h with
  | read hpc =>
      simp only [Function.update_self, hpc, afterRead]
      split <;> simp
  | exchange state word hpc hexchange =>
      simp only [Function.update_self, hpc, afterExchange]
      split
      · simp
      · split <;> simp
  | poll hpc =>
      simp only [Function.update_self, hpc, afterPoll]
      split <;> simp
  | _ hpc => simp [hpc]

end Once

/-!
## The variables are settled when they are read
-/

/-- What the threads may rely on. `DONE` is the only thing another thread sees of the
assignments. -/
structure Settled (exports : SrwFunc -> Bool) (s : System thread lock) : Prop where
  phase : Phase s.once
  flag : s.haveSrwlock = true -> exports .tryAcquireSRWLockExclusive = true
  loaded : forall t func, s.once.pc t = .initializing -> func.line < s.executed t ->
    s.pointers func = exports func
  flagged : forall t, s.once.pc t = .initializing -> flagLine < s.executed t ->
    s.haveSrwlock = exports .tryAcquireSRWLockExclusive
  stores : forall t, s.once.pc t = .stores ->
    s.pointers = exports ∧ s.haveSrwlock = exports .tryAcquireSRWLockExclusive
  done : s.once.onceControl = MY_PTHREAD_ONCE_DONE ->
    s.pointers = exports ∧ s.haveSrwlock = exports .tryAcquireSRWLockExclusive
  impls : forall rwlock i, s.impl rwlock = some i ->
    s.once.onceControl = MY_PTHREAD_ONCE_DONE ∧
      i = dispatch (exports .tryAcquireSRWLockExclusive)

theorem settled_init (exports : SrwFunc -> Bool) :
    Settled exports (System.init : System thread lock) where
  phase := phase_init
  flag := nofun
  loaded := nofun
  flagged := nofun
  stores := nofun
  done := nofun
  impls := nofun

section Invariant

variable {exports : SrwFunc -> Bool} {s : System thread lock} {t : thread}

theorem line_lt (func : SrwFunc) : func.line < flagLine := by
  cases func <;> decide

theorem line_injective {func other : SrwFunc} (h : func.line = other.line) :
    func = other := by
  revert h
  cases func <;> cases other <;> decide

/-- A thread in `init_routine` is alone there, and the word says so. -/
theorem Settled.alone (h : Settled exports s) (ht : s.once.pc t = .initializing) :
    s.once.onceControl ≠ MY_PTHREAD_ONCE_DONE ∧
      forall u, u ≠ t -> (s.once.pc u).initializer = none := by
  have hcounts : (s.once.pc t).initializer = some (1, 0) := by
    rw [ht]
    rfl
  rcases h.phase.owner hcounts with ⟨hword, _, hothers⟩
  refine ⟨?_, fun u hu => (hothers u hu).left⟩
  rw [hword]
  decide

theorem Settled.returned (h : Settled exports s) (ht : s.once.pc t = .returns) :
    s.once.onceControl = MY_PTHREAD_ONCE_DONE := by
  cases h.phase with
  | done hword _ _ _ => exact hword
  | untouched _ _ _ hall =>
      rcases hall t with hpc | hpc | hpc
      all_goals
        rw [ht] at hpc
        cases hpc
  | inProgress owner _ howner hothers =>
      by_cases hto : t = owner
      · rw [← hto, ht] at howner
        cases howner
      · exact absurd ht (hothers t hto).right

variable [DecidableEq thread]

theorem Settled.once (h : Settled exports s) {once : Pthread.System thread}
    {executed : thread -> Nat} (hstep : Pthread.Step t s.once once)
    (hothers : forall u, u ≠ t -> executed u = s.executed u)
    (hstart : s.once.pc t = .starts -> executed t = 0)
    (hend : s.once.pc t = .initializing -> s.executed t = flagLine + 1) :
    Settled exports { s with once := once, executed := executed } where
  phase := h.phase.step hstep
  flag := h.flag
  loaded := by
    intro u func hpc hline
    by_cases hut : u = t
    · subst hut
      have hzero := hstart ((once_pc_self hstep).left hpc)
      exact absurd (show func.line < executed u from hline) (by rw [hzero]; exact Nat.not_lt_zero _)
    · exact h.loaded u func ((once_pc_other hstep hut).symm.trans hpc)
        (by rw [← hothers u hut]; exact hline)
  flagged := by
    intro u hpc hline
    by_cases hut : u = t
    · subst hut
      have hzero := hstart ((once_pc_self hstep).left hpc)
      exact absurd (show flagLine < executed u from hline) (by rw [hzero]; exact Nat.not_lt_zero _)
    · exact h.flagged u ((once_pc_other hstep hut).symm.trans hpc)
        (by rw [← hothers u hut]; exact hline)
  stores := by
    intro u hpc
    by_cases hut : u = t
    · subst hut
      have hinit := (once_pc_self hstep).right hpc
      have hall := hend hinit
      constructor
      · funext func
        exact h.loaded u func hinit (by rw [hall]; exact Nat.lt_succ_of_lt (line_lt func))
      · exact h.flagged u hinit (by rw [hall]; exact Nat.lt_succ_self _)
    · exact h.stores u ((once_pc_other hstep hut).symm.trans hpc)
  done := by
    intro hword
    rcases (once_done_iff hstep).mp hword with hdone | hstores
    · exact h.done hdone
    · exact h.stores t hstores
  impls := by
    intro rwlock i himpl
    rcases h.impls rwlock i himpl with ⟨hdone, hi⟩
    exact ⟨(once_done_iff hstep).mpr (Or.inl hdone), hi⟩

theorem Settled.assign (h : Settled exports s) {pointers : SrwFunc -> Bool}
    {haveSrwlock : Bool} {line : Nat} (ht : s.once.pc t = .initializing)
    (hflag : haveSrwlock = true -> exports .tryAcquireSRWLockExclusive = true)
    (hloaded : forall func, func.line < line -> pointers func = exports func)
    (hflagged : flagLine < line -> haveSrwlock = exports .tryAcquireSRWLockExclusive) :
    Settled exports
      { s with
        pointers := pointers
        haveSrwlock := haveSrwlock
        executed := Function.update s.executed t line } := by
  rcases h.alone ht with ⟨hword, hothers⟩
  have honly : forall u, s.once.pc u = .initializing -> u = t := by
    intro u hu
    by_contra hut
    have hnone := hothers u hut
    rw [hu] at hnone
    cases hnone
  constructor
  · exact h.phase
  · exact hflag
  · intro u func hpc hline
    rw [honly u hpc] at hline
    exact hloaded func (by simpa using hline)
  · intro u hpc hline
    rw [honly u hpc] at hline
    exact hflagged (by simpa using hline)
  · intro u hpc
    have hpc' : s.once.pc u = .stores := hpc
    by_cases hut : u = t
    · rw [hut, ht] at hpc'
      cases hpc'
    · have hnone := hothers u hut
      rw [hpc'] at hnone
      cases hnone
  · exact fun hdone => absurd hdone hword
  · exact fun rwlock i himpl => absurd (h.impls rwlock i himpl).left hword

variable [DecidableEq lock]

theorem Settled.step {s' : System thread lock} (h : Settled exports s)
    (hstep : Step exports t s s') : Settled exports s' := by
  cases hstep with
  | callInit rwlock hpc honce =>
      have hnext := h.once honce (fun _ _ => rfl) (by rw [hpc]; nofun) (by rw [hpc]; nofun)
      exact ⟨hnext.phase, hnext.flag, hnext.loaded, hnext.flagged, hnext.stores, hnext.done,
        hnext.impls⟩
  | once hinner honce =>
      exact h.once honce (fun _ _ => rfl) (fun hpc => absurd hpc hinner.right.left)
        fun hpc => absurd hpc hinner.right.right.left
  | checkStarts hpc honce =>
      exact h.once honce (fun u hut => Function.update_of_ne hut _ _)
        (fun _ => Function.update_self _ _ _) (by rw [hpc]; nofun)
  | checkReturns hpc hall honce =>
      exact h.once honce (fun _ _ => rfl) (by rw [hpc]; nofun) fun _ => hall
  | getProcAddress func hpc hline =>
      apply h.assign hpc h.flag
      · intro other hother
        by_cases heq : other = func
        · rw [heq, Function.update_self]
        · rw [Function.update_of_ne heq]
          apply h.loaded t other hpc
          have hne : other.line ≠ func.line := fun hsame => heq (line_injective hsame)
          omega
      · intro hover
        exact absurd (line_lt func) (by omega)
  | setFlag hpc hline =>
      have hpointers : forall func, s.pointers func = exports func :=
        fun func => h.loaded t func hpc (by rw [hline]; exact line_lt func)
      rw [hpointers .tryAcquireSRWLockExclusive]
      have hvalue : (if exports .tryAcquireSRWLockExclusive then true else s.haveSrwlock) =
          exports .tryAcquireSRWLockExclusive := by
        cases hexports : exports .tryAcquireSRWLockExclusive with
        | true => rfl
        | false =>
            cases hflag : s.haveSrwlock with
            | false => rfl
            | true => exact absurd (h.flag hflag) (by rw [hexports]; decide)
      rw [hvalue]
      exact h.assign hpc id (fun func _ => hpointers func) fun _ => rfl
  | rwInit rwlock hpc _ honce =>
      have hnext := h.once honce (fun _ _ => rfl) (by rw [hpc]; nofun) (by rw [hpc]; nofun)
      have hdone := h.returned hpc
      refine ⟨hnext.phase, hnext.flag, hnext.loaded, hnext.flagged, hnext.stores, hnext.done, ?_⟩
      intro other i himpl
      have himpl' : Function.update s.impl rwlock (some (dispatch s.haveSrwlock)) other =
          some i := himpl
      by_cases heq : other = rwlock
      · rw [heq, Function.update_self, (h.done hdone).right] at himpl'
        exact ⟨(once_done_iff honce).mpr (Or.inl hdone), (Option.some.inj himpl').symm⟩
      · rw [Function.update_of_ne heq] at himpl'
        exact hnext.impls other i himpl'
  | rwDestroy rwlock _ =>
      refine ⟨h.phase, h.flag, h.loaded, h.flagged, h.stores, h.done, ?_⟩
      intro other i himpl
      have himpl' : Function.update s.impl rwlock none other = some i := himpl
      by_cases heq : other = rwlock
      · rw [heq, Function.update_self] at himpl'
        cases himpl'
      · rw [Function.update_of_ne heq] at himpl'
        exact h.impls other i himpl'

/-- As long as a lock is in use, every function of it takes the branch that `my_rw_init`
took, the one for the native lock exactly if the system has the function that is asked
for, and all pointers to native functions have their values. -/
theorem rwInit_dispatch_stable (hreach : Reachable exports s) {rwlock : lock}
    {i : Implementation} (himpl : s.impl rwlock = some i) :
    dispatch s.haveSrwlock = i ∧
      (i = .native <-> exports .tryAcquireSRWLockExclusive = true) ∧
      s.pointers = exports := by
  have hsettled : Settled exports s := by
    clear himpl
    induction hreach with
    | refl => exact settled_init exports
    | tail _ hstep ih =>
        rcases hstep with ⟨t, hstep⟩
        exact ih.step hstep
  rcases hsettled.impls rwlock i himpl with ⟨hdone, hi⟩
  rcases hsettled.done hdone with ⟨hpointers, hflag⟩
  refine ⟨by rw [hflag, hi], ?_, hpointers⟩
  rw [hi, dispatch]
  cases exports .tryAcquireSRWLockExclusive <;> decide

end Invariant

theorem initialised_reachable : exists s : System (Fin 1) Unit,
    Reachable (fun _ => true) s ∧ s.impl () = some .native := by
  have hinit : Reachable (fun _ => true) (System.init : System (Fin 1) Unit) :=
    Relation.ReflTransGen.refl
  have hcall := hinit.tail ⟨0, .callInit () rfl (.call rfl)⟩
  have hread := hcall.tail ⟨0, .once (by unfold IsInner; decide) (.read rfl)⟩
  have hstarts := hread.tail ⟨0, .once (by unfold IsInner; decide) (.exchange _ _ rfl rfl)⟩
  have hcheck := hstarts.tail ⟨0, .checkStarts rfl (.start rfl)⟩
  have hacquire := ((hcheck.tail ⟨0, .getProcAddress .initializeSRWLock rfl rfl⟩).tail
    ⟨0, .getProcAddress .acquireSRWLockExclusive rfl rfl⟩).tail
    ⟨0, .getProcAddress .acquireSRWLockShared rfl rfl⟩
  have hrelease := (hacquire.tail ⟨0, .getProcAddress .releaseSRWLockExclusive rfl rfl⟩).tail
    ⟨0, .getProcAddress .releaseSRWLockShared rfl rfl⟩
  have htry := (hrelease.tail ⟨0, .getProcAddress .tryAcquireSRWLockExclusive rfl rfl⟩).tail
    ⟨0, .getProcAddress .tryAcquireSRWLockShared rfl rfl⟩
  have hflag := (htry.tail ⟨0, .setFlag rfl rfl⟩).tail ⟨0, .checkReturns rfl rfl (.finish rfl)⟩
  have hstore := hflag.tail ⟨0, .once (by unfold IsInner; decide) (.store rfl)⟩
  exact ⟨_, hstore.tail ⟨0, .rwInit () rfl rfl (.ret rfl)⟩, rfl⟩

theorem rwInit_dispatch_stable_initialised : exists s : System (Fin 1) Unit,
    s.impl () = some .native ∧ dispatch s.haveSrwlock = .native ∧
      s.pointers = fun _ => true := by
  rcases initialised_reachable with ⟨s, hreach, himpl⟩
  have hstable := rwInit_dispatch_stable hreach himpl
  exact ⟨s, himpl, hstable.left, hstable.right.right⟩

end Dispatch
end RwLock
end MyLibs
