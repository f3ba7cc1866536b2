import Mathlib.Logic.Relation
import MyLibs.Foundation.SharedExclusive

/-!
# The slim lock of `my_rwlock.c`

On a Windows that has them, `my_rw_lock_t` is a native lock and the flag
`have_exclusive_srwlock`. Releasing needs to know the mode of the lock, and the
flag is all that `srw_unlock` has to tell it: whoever holds the lock exclusively
sets it after the native lock was taken and clears it before it is released.

The native calls, and each read and each write of the flag, are steps of their
own. A native lock that is free for a thread may be given to it; the calls that
only try may fail at any time.
-/

namespace MyLibs
namespace SrwLock

open Foundation

/-- What `srw_tryrdlock` and `srw_trywrlock` return without the lock. -/
def EBUSY : Nat := 16

inductive Pc where
  /-- Outside, with the result of its last call. -/
  | outside (ret : Nat)
  /-- In `srw_rdlock`, before `AcquireSRWLockShared`. -/
  | rdlock
  /-- In `srw_tryrdlock`, before `TryAcquireSRWLockShared`. -/
  | tryrdlock
  /-- In `srw_wrlock`, before `AcquireSRWLockExclusive`. -/
  | wrlock
  /-- In `srw_trywrlock`, before `TryAcquireSRWLockExclusive`. -/
  | trywrlock
  /-- In `srw_wrlock` or `srw_trywrlock`, with the native lock. -/
  | setsFlag
  /-- In `srw_unlock`, before the flag is read. -/
  | unlock
  /-- In the first branch of `srw_unlock`. -/
  | clearsFlag
  /-- In the first branch, before `ReleaseSRWLockExclusive`. -/
  | releasesExclusive
  /-- In the second branch, before `ReleaseSRWLockShared`. -/
  | releasesShared
deriving DecidableEq

def Pc.isAcquiring : Pc -> Bool
  | .rdlock => true
  | .tryrdlock => true
  | .wrlock => true
  | .trywrlock => true
  | _ => false

/-- In `srw_unlock`, before its native release. -/
def Pc.inUnlock : Pc -> Bool
  | .unlock => true
  | .clearsFlag => true
  | .releasesExclusive => true
  | .releasesShared => true
  | _ => false

structure System (thread : Type _) where
  srwlock : SharedExclusive thread
  haveExclusiveSrwlock : Bool
  pc : thread -> Pc

variable {thread : Type _}

def System.srwInit : System thread where
  srwlock := SharedExclusive.free
  haveExclusiveSrwlock := false
  pc := fun _ => .outside 0

def System.HoldsExclusive (s : System thread) (t : thread) : Prop :=
  s.srwlock.exclusive = some t

def System.HoldsShared (s : System thread) (t : thread) : Prop :=
  0 < s.srwlock.shared t

variable [DecidableEq thread]

/-- A step of thread `t`. -/
inductive Step (t : thread) : System thread -> System thread -> Prop where
  | call {s : System thread} {ret : Nat} {p : Pc} :
      s.pc t = .outside ret -> p.isAcquiring = true ->
      Step t s { s with pc := Function.update s.pc t p }
  | rdlock {s : System thread} :
      s.pc t = .rdlock -> s.srwlock.AllowsShared ->
      Step t s
        { s with
          srwlock := s.srwlock.acquireShared t
          pc := Function.update s.pc t (.outside 0) }
  | tryrdlock {s : System thread} :
      s.pc t = .tryrdlock -> s.srwlock.AllowsShared ->
      Step t s
        { s with
          srwlock := s.srwlock.acquireShared t
          pc := Function.update s.pc t (.outside 0) }
  | tryrdlockBusy {s : System thread} :
      s.pc t = .tryrdlock ->
      Step t s { s with pc := Function.update s.pc t (.outside EBUSY) }
  | wrlock {s : System thread} :
      s.pc t = .wrlock -> s.srwlock.AllowsExclusive ->
      Step t s
        { s with
          srwlock := s.srwlock.acquireExclusive t
          pc := Function.update s.pc t .setsFlag }
  | trywrlock {s : System thread} :
      s.pc t = .trywrlock -> s.srwlock.AllowsExclusive ->
      Step t s
        { s with
          srwlock := s.srwlock.acquireExclusive t
          pc := Function.update s.pc t .setsFlag }
  | trywrlockBusy {s : System thread} :
      s.pc t = .trywrlock ->
      Step t s { s with pc := Function.update s.pc t (.outside EBUSY) }
  | setFlag {s : System thread} :
      s.pc t = .setsFlag ->
      Step t s
        { s with
          haveExclusiveSrwlock := true
          pc := Function.update s.pc t (.outside 0) }
  /-- Only a holder calls `srw_unlock`. -/
  | callUnlock {s : System thread} {ret : Nat} :
      s.pc t = .outside ret -> s.HoldsExclusive t ∨ s.HoldsShared t ->
      Step t s { s with pc := Function.update s.pc t .unlock }
  | readFlag {s : System thread} :
      s.pc t = .unlock ->
      Step t s
        { s with
          pc := Function.update s.pc t
            (if s.haveExclusiveSrwlock then .clearsFlag else .releasesShared) }
  | clearFlag {s : System thread} :
      s.pc t = .clearsFlag ->
      Step t s
        { s with
          haveExclusiveSrwlock := false
          pc := Function.update s.pc t .releasesExclusive }
  | releaseExclusive {s : System thread} :
      s.pc t = .releasesExclusive ->
      Step t s
        { s with
          srwlock := s.srwlock.releaseExclusive
          pc := Function.update s.pc t (.outside 0) }
  | releaseShared {s : System thread} :
      s.pc t = .releasesShared ->
      Step t s
        { s with
          srwlock := s.srwlock.releaseShared t
          pc := Function.update s.pc t (.outside 0) }

/-- The states that some interleaving of the threads leads to after
`srw_init`. -/
def Reachable (s : System thread) : Prop :=
  Relation.ReflTransGen (fun s s' => exists t, Step t s s') System.srwInit s

end SrwLock
end MyLibs
