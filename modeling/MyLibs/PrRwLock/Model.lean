import Mathlib.Algebra.Order.Ring.Nat
import Mathlib.Logic.Relation
import Mathlib.Logic.Function.Basic

/-!
# The reader-preferring lock of `my_pr_rwlock.c`

`rw_pr_lock_t` is a mutex, a condition variable and three fields. A reader owns
the mutex only while it changes the fields. A writer keeps it from the grant to
the end of `rw_pr_unlock`, so that for the write lock the mutex is the lock.

A step of a thread goes up to the next point where another thread can come in:
taking the mutex, waiting on `no_active_readers`, the read of `active_writer`
that `rw_pr_unlock` does before it owns anything, and releasing the mutex. In
`rw_pr_unlock` the change of the fields and the signal are two steps.
-/

namespace MyLibs
namespace PrRwLock

/-- The fields of `rw_pr_lock_t` next to its mutex and its condition. -/
structure RwPrLock where
  /-- Number of active readers. -/
  activeReaders : UInt32
  /-- Number of writers waiting for readers to go away. -/
  writersWaitingReaders : UInt32
  activeWriter : Bool
deriving DecidableEq

def rwPrInit : RwPrLock where
  activeReaders := 0
  writersWaitingReaders := 0
  activeWriter := false

/-- `rw_pr_rdlock` under the mutex. -/
def rdlockSection (rwlock : RwPrLock) : RwPrLock :=
  { rwlock with activeReaders := rwlock.activeReaders + 1 }

/-- `rw_pr_wrlock` from taking the mutex to its grant or its first wait. -/
def wrlockSection (rwlock : RwPrLock) : Bool × RwPrLock :=
  if rwlock.activeReaders != 0 then
    (false, { rwlock with
      writersWaitingReaders := rwlock.writersWaitingReaders + 1 })
  else
    (true, { rwlock with activeWriter := true })

/-- `rw_pr_wrlock` from the end of a wait to its grant or the next wait. -/
def wrlockAgainSection (rwlock : RwPrLock) : Bool × RwPrLock :=
  if rwlock.activeReaders != 0 then
    (false, rwlock)
  else
    (true, { rwlock with
      writersWaitingReaders := rwlock.writersWaitingReaders - 1
      activeWriter := true })

/-- What the two branches of `rw_pr_unlock` change before they signal: the one
for the write lock, which `active_writer` selects, and the one for the read
lock. -/
def unlockSection (activeWriter : Bool) (rwlock : RwPrLock) : RwPrLock :=
  if activeWriter then
    { rwlock with activeWriter := false }
  else
    { rwlock with activeReaders := rwlock.activeReaders - 1 }

/-- Whether the branch signals `no_active_readers`. -/
def unlockSignals (activeWriter : Bool) (rwlock : RwPrLock) : Bool :=
  if activeWriter then
    rwlock.writersWaitingReaders != 0
  else
    rwlock.activeReaders == 0 && rwlock.writersWaitingReaders != 0

/-!
## Threads
-/

inductive Mode where
  | read
  | write
deriving DecidableEq

inductive Pc where
  | outside
  /-- In `rw_pr_rdlock`, before it owns the mutex. -/
  | rdlockCalled
  /-- In `rw_pr_rdlock`, to release the mutex. -/
  | rdlockCounted
  | holdsRead
  /-- In `rw_pr_wrlock`, before it owns the mutex. -/
  | wrlockCalled
  /-- In `rw_pr_wrlock`, owning the mutex and about to wait. -/
  | wrlockWaits
  | wrlockAsleep
  /-- In `rw_pr_wrlock`, to take the mutex again. -/
  | wrlockWoken
  | holdsWrite
  /-- In `rw_pr_unlock` with the lock it still holds and the value of
  `active_writer` it read. -/
  | unlockBranch (held : Mode) (activeWriter : Bool)
  /-- In `rw_pr_unlock`, before the signal. -/
  | unlockSignal (activeWriter : Bool)
  /-- In `rw_pr_unlock`, to release the mutex. -/
  | unlockRelease
deriving DecidableEq

def Pc.holding : Mode -> Pc
  | .read => .holdsRead
  | .write => .holdsWrite

def Pc.isReader : Pc -> Bool
  | .rdlockCounted => true
  | .holdsRead => true
  | .unlockBranch .read _ => true
  | _ => false

def Pc.isWriter : Pc -> Bool
  | .holdsWrite => true
  | .unlockBranch .write _ => true
  | _ => false

/-- Between the increment and the decrement of `writers_waiting_readers`. -/
def Pc.isWaiting : Pc -> Bool
  | .wrlockWaits => true
  | .wrlockAsleep => true
  | .wrlockWoken => true
  | _ => false

/-- Inside `rw_pr_unlock` and not yet past its signal. -/
def Pc.isBeforeSignal : Pc -> Bool
  | .unlockBranch _ _ => true
  | .unlockSignal _ => true
  | _ => false

structure System (thread : Type _) where
  rwlock : RwPrLock
  mutex : Option thread
  pc : thread -> Pc

variable {thread : Type _} [DecidableEq thread]

def System.init : System thread where
  rwlock := rwPrInit
  mutex := none
  pc := fun _ => .outside

/-- `pthread_cond_signal` on `no_active_readers` wakes at least one of the
threads asleep on it, if there is one. -/
structure Signals (before after : thread -> Pc) : Prop where
  others : forall t, after t = before t ∨
    (before t = .wrlockAsleep ∧ after t = .wrlockWoken)
  someone : (exists t, before t = .wrlockAsleep) ->
    exists t, before t = .wrlockAsleep ∧ after t = .wrlockWoken

/-- The threads after `pthread_cond_signal`, or after it was skipped. -/
def Wakes (signals : Bool) (before after : thread -> Pc) : Prop :=
  match signals with
  | true => Signals before after
  | false => after = before

/-- A step of thread `t`. -/
inductive Step (t : thread) : System thread -> System thread -> Prop where
  | callRdlock {s : System thread} :
      s.pc t = .outside ->
      Step t s { s with pc := Function.update s.pc t .rdlockCalled }
  | callWrlock {s : System thread} :
      s.pc t = .outside ->
      Step t s { s with pc := Function.update s.pc t .wrlockCalled }
  | rdlock {s : System thread} :
      s.pc t = .rdlockCalled -> s.mutex = none ->
      Step t s
        { rwlock := rdlockSection s.rwlock
          mutex := some t
          pc := Function.update s.pc t .rdlockCounted }
  | rdlockRelease {s : System thread} :
      s.pc t = .rdlockCounted ->
      Step t s
        { s with
          mutex := none
          pc := Function.update s.pc t .holdsRead }
  | wrlock {s : System thread} :
      s.pc t = .wrlockCalled -> s.mutex = none ->
      Step t s
        { rwlock := (wrlockSection s.rwlock).2
          mutex := some t
          pc := Function.update s.pc t
            (if (wrlockSection s.rwlock).1 then .holdsWrite else .wrlockWaits) }
  /-- `pthread_cond_wait` releases the mutex. -/
  | wait {s : System thread} :
      s.pc t = .wrlockWaits ->
      Step t s
        { s with
          mutex := none
          pc := Function.update s.pc t .wrlockAsleep }
  /-- A wakeup out of the blue. -/
  | spurious {s : System thread} :
      s.pc t = .wrlockAsleep ->
      Step t s { s with pc := Function.update s.pc t .wrlockWoken }
  | wrlockAgain {s : System thread} :
      s.pc t = .wrlockWoken -> s.mutex = none ->
      Step t s
        { rwlock := (wrlockAgainSection s.rwlock).2
          mutex := some t
          pc := Function.update s.pc t
            (if (wrlockAgainSection s.rwlock).1 then .holdsWrite
              else .wrlockWaits) }
  /-- The read of `active_writer` that selects the branch. -/
  | unlock {s : System thread} (held : Mode) :
      s.pc t = .holding held ->
      Step t s
        { s with
          pc := Function.update s.pc t
            (.unlockBranch held s.rwlock.activeWriter) }
  /-- The branch for the write lock does not take the mutex. -/
  | unlockWriter {s : System thread} (held : Mode) :
      s.pc t = .unlockBranch held true ->
      Step t s
        { s with
          rwlock := unlockSection true s.rwlock
          pc := Function.update s.pc t (.unlockSignal true) }
  | unlockReader {s : System thread} (held : Mode) :
      s.pc t = .unlockBranch held false -> s.mutex = none ->
      Step t s
        { rwlock := unlockSection false s.rwlock
          mutex := some t
          pc := Function.update s.pc t (.unlockSignal false) }
  | signal {s : System thread} (activeWriter : Bool) (pc : thread -> Pc) :
      s.pc t = .unlockSignal activeWriter ->
      Wakes (unlockSignals activeWriter s.rwlock)
        (Function.update s.pc t .unlockRelease) pc ->
      Step t s { s with pc := pc }
  | unlockRelease {s : System thread} :
      s.pc t = .unlockRelease ->
      Step t s
        { s with
          mutex := none
          pc := Function.update s.pc t .outside }

def Reachable (s : System thread) : Prop :=
  Relation.ReflTransGen (fun s s' => exists t, Step t s s') System.init s

end PrRwLock
end MyLibs
