import Mathlib.Algebra.Order.Ring.Nat
import Mathlib.Logic.Relation
import Mathlib.Logic.Function.Basic

/-!
# The portable read/write lock of `my_rwlock.c`

The fallback of `my_rw_lock_t` guards two counters with a mutex and lets
threads wait on two condition variables. A thread runs one mutex-protected
section at a time: up to the wait inside a loop, or up to the end of the call.
The section functions below are those stretches of code; the step relation
interleaves them.

The lock never looks at who calls it. A caller that takes the lock again before
giving it back is one more thread here.
-/

namespace MyLibs
namespace RwLock

/-- The counters `rwlock->lock` protects. -/
structure MyRwLock where
  /-- -1: writer, 0: free, > 0: readers. -/
  state : Int32
  /-- Number of waiting writers. -/
  waiters : Int32
deriving DecidableEq

/-- `my_rw_init`, without the native lock. -/
def myRwInit : MyRwLock where
  state := 0
  waiters := 0

/-- Active or queued writers: what `my_rw_rdlock` waits on and
`my_rw_tryrdlock` refuses. -/
def readersHeldOff (rwlock : MyRwLock) : Bool :=
  rwlock.state < 0 || rwlock.waiters != 0

/-- `my_rw_rdlock` from the test of its loop on, and all of `my_rw_tryrdlock`:
whether the lock was granted, and the counters after. -/
def rdlockSection (rwlock : MyRwLock) : Bool × MyRwLock :=
  if readersHeldOff rwlock then
    (false, rwlock)
  else
    (true, { rwlock with state := rwlock.state + 1 })

/-- `my_rw_wrlock` before its loop. -/
def wrlockArrive (rwlock : MyRwLock) : MyRwLock :=
  { rwlock with waiters := rwlock.waiters + 1 }

/-- `my_rw_wrlock` from the test of its loop on. -/
def wrlockSection (rwlock : MyRwLock) : Bool × MyRwLock :=
  if rwlock.state != 0 then
    (false, rwlock)
  else
    (true, { state := -1, waiters := rwlock.waiters - 1 })

/-- `my_rw_trywrlock`. -/
def trywrlockSection (rwlock : MyRwLock) : Bool × MyRwLock :=
  if rwlock.state != 0 then
    (false, rwlock)
  else
    (true, { rwlock with state := -1 })

/-- Which condition `my_rw_unlock` signals. -/
inductive Wake where
  | nobody
  | oneWriter
  | allReaders
deriving DecidableEq

/-- `my_rw_unlock`. -/
def unlockSection (rwlock : MyRwLock) : Wake × MyRwLock :=
  if rwlock.state = -1 then
    (if rwlock.waiters != 0 then .oneWriter else .allReaders,
      { rwlock with state := 0 })
  else
    (if rwlock.state - 1 = 0 && rwlock.waiters != 0 then .oneWriter else .nobody,
      { rwlock with state := rwlock.state - 1 })

/-!
## Threads
-/

/-- Where a thread is. A woken thread has still to take the mutex again. -/
inductive Pc where
  | outside
  | readerAsleep
  | readerWoken
  | writerAsleep
  | writerWoken
  | holdsRead
  | holdsWrite
deriving DecidableEq

structure System (thread : Type _) where
  rwlock : MyRwLock
  pc : thread -> Pc

variable {thread : Type _} [DecidableEq thread]

def System.init : System thread where
  rwlock := myRwInit
  pc := fun _ => .outside

/-- `pthread_cond_signal` wakes at least one of the threads asleep on the
condition, if there is one. -/
structure Signals (asleep woken : Pc) (before after : thread -> Pc) : Prop where
  others : forall t, after t = before t ∨ (before t = asleep ∧ after t = woken)
  someone : (exists t, before t = asleep) ->
    exists t, before t = asleep ∧ after t = woken

/-- `pthread_cond_broadcast` wakes every thread asleep on the condition. -/
def broadcast (asleep woken : Pc) (pc : thread -> Pc) : thread -> Pc :=
  fun t => if pc t = asleep then woken else pc t

def Wakes (wake : Wake) (before after : thread -> Pc) : Prop :=
  match wake with
  | .nobody => after = before
  | .oneWriter => Signals .writerAsleep .writerWoken before after
  | .allReaders => after = broadcast .readerAsleep .readerWoken before

/-- One mutex-protected section of one thread, or a wakeup out of the blue. -/
inductive Step : System thread -> System thread -> Prop where
  /-- `my_rw_rdlock`, called or woken. -/
  | rdlock {s : System thread} (t : thread) :
      s.pc t = .outside ∨ s.pc t = .readerWoken ->
      Step s
        { rwlock := (rdlockSection s.rwlock).2
          pc := Function.update s.pc t
            (if (rdlockSection s.rwlock).1 then .holdsRead else .readerAsleep) }
  | tryrdlock {s : System thread} (t : thread) :
      s.pc t = .outside ->
      Step s
        { rwlock := (rdlockSection s.rwlock).2
          pc := Function.update s.pc t
            (if (rdlockSection s.rwlock).1 then .holdsRead else .outside) }
  | wrlock {s : System thread} (t : thread) :
      s.pc t = .outside ->
      Step s
        { rwlock := (wrlockSection (wrlockArrive s.rwlock)).2
          pc := Function.update s.pc t
            (if (wrlockSection (wrlockArrive s.rwlock)).1 then .holdsWrite
              else .writerAsleep) }
  /-- `my_rw_wrlock`, woken. -/
  | wrlockAgain {s : System thread} (t : thread) :
      s.pc t = .writerWoken ->
      Step s
        { rwlock := (wrlockSection s.rwlock).2
          pc := Function.update s.pc t
            (if (wrlockSection s.rwlock).1 then .holdsWrite
              else .writerAsleep) }
  | trywrlock {s : System thread} (t : thread) :
      s.pc t = .outside ->
      Step s
        { rwlock := (trywrlockSection s.rwlock).2
          pc := Function.update s.pc t
            (if (trywrlockSection s.rwlock).1 then .holdsWrite else .outside) }
  | unlock {s : System thread} (t : thread) (pc : thread -> Pc) :
      s.pc t = .holdsRead ∨ s.pc t = .holdsWrite ->
      Wakes (unlockSection s.rwlock).1 (Function.update s.pc t .outside) pc ->
      Step s { rwlock := (unlockSection s.rwlock).2, pc := pc }
  | spuriousReader {s : System thread} (t : thread) :
      s.pc t = .readerAsleep ->
      Step s { s with pc := Function.update s.pc t .readerWoken }
  | spuriousWriter {s : System thread} (t : thread) :
      s.pc t = .writerAsleep ->
      Step s { s with pc := Function.update s.pc t .writerWoken }

def Reachable (s : System thread) : Prop :=
  Relation.ReflTransGen Step System.init s

end RwLock
end MyLibs
