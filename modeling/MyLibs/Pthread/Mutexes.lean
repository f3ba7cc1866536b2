import Mathlib.Logic.Relation
import Mathlib.Logic.Function.Basic
import Mathlib.Tactic.Common

/-!
# `win_pthread_mutex_trylock`

A mutex is a critical section, which its owner may enter again. `pthread_mutex_lock` and
`pthread_mutex_unlock` enter and leave it. `win_pthread_mutex_trylock` is to refuse its
owner too: it enters, looks at the count and leaves again. Threads call all three in any
order.
-/

namespace MyLibs
namespace Pthread
namespace Mutexes

variable {thread : Type _}

/-- The members of a `CRITICAL_SECTION` that tell who has entered it how often. -/
structure CriticalSection (thread : Type _) where
  owner : Option thread
  recursionCount : Nat

/-- `InitializeCriticalSection`. -/
def CriticalSection.init : CriticalSection thread where
  owner := none
  recursionCount := 0

/-- What `EnterCriticalSection` waits for. -/
def CriticalSection.Admits (mutex : CriticalSection thread) (t : thread) : Prop :=
  mutex.owner = none ∨ mutex.owner = some t

/-- `EnterCriticalSection`, after its wait. -/
def enterCriticalSection (mutex : CriticalSection thread) (t : thread) :
    CriticalSection thread where
  owner := some t
  recursionCount := mutex.recursionCount + 1

def leaveCriticalSection (mutex : CriticalSection thread) : CriticalSection thread where
  owner := if mutex.recursionCount - 1 = 0 then none else mutex.owner
  recursionCount := mutex.recursionCount - 1

def EBUSY : Nat := 16

/-- Where a thread is in `win_pthread_mutex_trylock`, with the depth at which it called. -/
inductive Pc where
  | outside
  /-- Before the count is read. -/
  | entered (depth : Nat)
  /-- Before `LeaveCriticalSection`. -/
  | leaves (depth : Nat)
  | returned (ret depth : Nat)

def afterCount (recursionCount depth : Nat) : Pc :=
  if 1 < recursionCount then .leaves depth else .returned 0 depth

structure System (thread : Type _) where
  mutex : CriticalSection thread
  pc : thread -> Pc

def System.init : System thread where
  mutex := .init
  pc := fun _ => .outside

/-!
## The count
-/

section Counts

variable {mutex : CriticalSection thread} {t : thread}

def CriticalSection.Counted (mutex : CriticalSection thread) : Prop :=
  mutex.owner = none <-> mutex.recursionCount = 0

theorem counted_init : (CriticalSection.init : CriticalSection thread).Counted :=
  iff_of_true rfl rfl

theorem counted_enter : (enterCriticalSection mutex t).Counted :=
  iff_of_false (Option.some_ne_none t) (Nat.succ_ne_zero _)

theorem CriticalSection.Counted.leave (h : mutex.Counted) :
    (leaveCriticalSection mutex).Counted := by
  unfold CriticalSection.Counted leaveCriticalSection
  by_cases hlast : mutex.recursionCount - 1 = 0
  · simp [hlast]
  · have hsome : mutex.owner ≠ none := by
      intro hnone
      rw [h.mp hnone] at hlast
      exact hlast rfl
    simp [hlast, hsome]

end Counts

/-!
## Threads
-/

variable [DecidableEq thread]

instance (mutex : CriticalSection thread) (t : thread) : Decidable (mutex.Admits t) :=
  inferInstanceAs (Decidable (mutex.owner = none ∨ mutex.owner = some t))

/-- `TryEnterCriticalSection`: whether the thread has entered, and the section after. -/
def tryEnterCriticalSection (mutex : CriticalSection thread) (t : thread) :
    Bool × CriticalSection thread :=
  if mutex.Admits t then (true, enterCriticalSection mutex t) else (false, mutex)

def CriticalSection.depth (mutex : CriticalSection thread) (t : thread) : Nat :=
  if mutex.owner = some t then mutex.recursionCount else 0

/-- A step of thread `t`. -/
inductive Step (t : thread) : System thread -> System thread -> Prop where
  /-- `pthread_mutex_lock`. -/
  | lock {s : System thread} :
      s.pc t = .outside -> s.mutex.Admits t ->
      Step t s { s with mutex := enterCriticalSection s.mutex t }
  /-- `pthread_mutex_unlock`, by the owner. -/
  | unlock {s : System thread} :
      s.pc t = .outside -> s.mutex.owner = some t ->
      Step t s { s with mutex := leaveCriticalSection s.mutex }
  | tryEnter {s : System thread} (entered : Bool) (mutex : CriticalSection thread) :
      s.pc t = .outside -> tryEnterCriticalSection s.mutex t = (entered, mutex) ->
      Step t s
        { mutex := mutex
          pc := Function.update s.pc t
            (if entered then .entered (s.mutex.depth t)
              else .returned EBUSY (s.mutex.depth t)) }
  | readCount {s : System thread} {depth : Nat} :
      s.pc t = .entered depth ->
      Step t s
        { s with pc := Function.update s.pc t (afterCount s.mutex.recursionCount depth) }
  | leave {s : System thread} {depth : Nat} :
      s.pc t = .leaves depth ->
      Step t s
        { mutex := leaveCriticalSection s.mutex
          pc := Function.update s.pc t (.returned EBUSY depth) }
  | ret {s : System thread} {ret depth : Nat} :
      s.pc t = .returned ret depth ->
      Step t s { s with pc := Function.update s.pc t .outside }

def Reachable (s : System thread) : Prop :=
  Relation.ReflTransGen (fun s s' => exists t, Step t s s') System.init s

/-!
## Depths
-/

section Depths

variable {mutex : CriticalSection thread} {t u : thread}

theorem depth_owner (h : mutex.owner = some t) : mutex.depth t = mutex.recursionCount :=
  if_pos h

theorem depth_pos_iff (h : mutex.Counted) : 0 < mutex.depth t <-> mutex.owner = some t := by
  unfold CriticalSection.depth
  by_cases howner : mutex.owner = some t
  · rw [if_pos howner, Nat.pos_iff_ne_zero]
    refine iff_of_true (fun hzero => ?_) howner
    rw [h.mpr hzero] at howner
    cases howner
  · rw [if_neg howner]
    exact iff_of_false (Nat.lt_irrefl 0) howner

theorem depth_enter (h : mutex.Counted) (hadmits : mutex.Admits t) :
    (enterCriticalSection mutex t).depth t = mutex.depth t + 1 := by
  rw [depth_owner rfl]
  show mutex.recursionCount + 1 = _
  rcases hadmits with hnone | howner
  · rw [CriticalSection.depth, hnone, if_neg (Option.some_ne_none t).symm, h.mp hnone]
  · rw [depth_owner howner]

theorem depth_enter_other (hadmits : mutex.Admits t) (hne : u ≠ t) :
    (enterCriticalSection mutex t).depth u = mutex.depth u := by
  have hold : mutex.owner ≠ some u := by
    intro hother
    rcases hadmits with hnone | howner
    · rw [hnone] at hother
      cases hother
    · rw [howner] at hother
      exact hne (Option.some.inj hother).symm
  have hnew : (enterCriticalSection mutex t).owner ≠ some u :=
    fun hother => hne (Option.some.inj hother).symm
  rw [CriticalSection.depth, CriticalSection.depth, if_neg hold, if_neg hnew]

theorem depth_leave (howner : mutex.owner = some t) :
    (leaveCriticalSection mutex).depth t = mutex.depth t - 1 := by
  rw [depth_owner howner, CriticalSection.depth]
  by_cases hlast : mutex.recursionCount - 1 = 0
  · simp [leaveCriticalSection, hlast]
  · simp [leaveCriticalSection, hlast, howner]

theorem depth_leave_other (howner : mutex.owner = some t) (hne : u ≠ t) :
    (leaveCriticalSection mutex).depth u = mutex.depth u := by
  have hold : mutex.owner ≠ some u := by
    rw [howner]
    exact fun hother => hne (Option.some.inj hother).symm
  have hnew : (leaveCriticalSection mutex).owner ≠ some u := by
    intro hother
    unfold leaveCriticalSection at hother
    by_cases hlast : mutex.recursionCount - 1 = 0
    · simp [hlast] at hother
    · simp only [if_neg hlast] at hother
      exact hold hother
  rw [CriticalSection.depth, CriticalSection.depth, if_neg hold, if_neg hnew]

theorem tryEnterCriticalSection_cases {entered : Bool} {mutex' : CriticalSection thread}
    (h : tryEnterCriticalSection mutex t = (entered, mutex')) :
    entered = true ∧ mutex.Admits t ∧ mutex' = enterCriticalSection mutex t ∨
      entered = false ∧ ¬ mutex.Admits t ∧ mutex' = mutex := by
  unfold tryEnterCriticalSection at h
  by_cases hadmits : mutex.Admits t
  · rw [if_pos hadmits] at h
    cases h
    exact Or.inl ⟨rfl, hadmits, rfl⟩
  · rw [if_neg hadmits] at h
    cases h
    exact Or.inr ⟨rfl, hadmits, rfl⟩

end Depths

/-!
## Calls of the function
-/

def Pc.Fits (depth : Nat) : Pc -> Prop
  | .outside => True
  | .entered before => depth = before + 1
  | .leaves before => depth = before + 1 ∧ 0 < before
  | .returned ret before => ret = 0 ∧ before = 0 ∧ depth = 1 ∨ ret = EBUSY ∧ depth = before

structure System.Sound (s : System thread) : Prop where
  counted : s.mutex.Counted
  fits : forall t, (s.pc t).Fits (s.mutex.depth t)

variable {s s' : System thread} {t : thread}

theorem sound_init : (System.init : System thread).Sound where
  counted := counted_init
  fits _ := trivial

theorem System.Sound.move (h : s.Sound) {mutex : CriticalSection thread} {pc : Pc}
    (hcounted : mutex.Counted) (hothers : forall u, u ≠ t -> mutex.depth u = s.mutex.depth u)
    (hpc : pc.Fits (mutex.depth t)) :
    System.Sound { mutex := mutex, pc := Function.update s.pc t pc } where
  counted := hcounted
  fits := by
    intro u
    show (Function.update s.pc t pc u).Fits (mutex.depth u)
    by_cases hut : u = t
    · rw [hut, Function.update_self]
      exact hpc
    · rw [Function.update_of_ne hut, hothers u hut]
      exact h.fits u

theorem System.Sound.outside (h : s.Sound) {mutex : CriticalSection thread}
    (hpc : s.pc t = .outside) (hcounted : mutex.Counted)
    (hothers : forall u, u ≠ t -> mutex.depth u = s.mutex.depth u) :
    System.Sound { s with mutex := mutex } := by
  have hmove : System.Sound { mutex := mutex, pc := Function.update s.pc t .outside } :=
    h.move hcounted hothers trivial
  rw [← hpc, Function.update_eq_self] at hmove
  exact hmove

theorem System.Sound.owner (h : s.Sound) (hinside : 0 < s.mutex.depth t) :
    s.mutex.owner = some t :=
  (depth_pos_iff h.counted).mp hinside

theorem System.Sound.step (h : s.Sound) (hstep : Step t s s') : s'.Sound := by
  have hfits := h.fits t
  cases hstep with
  | lock hpc hadmits =>
      exact h.outside hpc counted_enter fun u hut => depth_enter_other hadmits hut
  | unlock hpc howner =>
      exact h.outside hpc h.counted.leave fun u hut => depth_leave_other howner hut
  | tryEnter entered mutex hpc htry =>
      rcases tryEnterCriticalSection_cases htry with
        ⟨hentered, hadmits, hmutex⟩ | ⟨hentered, hrefused, hmutex⟩
      · rw [hentered, hmutex]
        exact h.move counted_enter (fun u hut => depth_enter_other hadmits hut)
          (depth_enter h.counted hadmits)
      · rw [hentered, hmutex]
        exact h.move h.counted (fun u _ => rfl) (Or.inr ⟨rfl, rfl⟩)
  | @readCount before hpc =>
      rw [hpc] at hfits
      have hdepth : s.mutex.depth t = before + 1 := hfits
      have howner := h.owner (by rw [hdepth]; exact Nat.succ_pos before)
      rw [depth_owner howner] at hdepth
      refine h.move h.counted (fun u _ => rfl) ?_
      rw [afterCount, hdepth]
      by_cases hagain : 1 < before + 1
      · rw [if_pos hagain]
        exact ⟨hfits, Nat.lt_of_succ_lt_succ hagain⟩
      · rw [if_neg hagain]
        have hfirst : before = 0 := by omega
        rw [hfirst] at hfits
        exact Or.inl ⟨rfl, hfirst, hfits⟩
  | @leave before hpc =>
      rw [hpc] at hfits
      rcases hfits with ⟨hdepth, _⟩
      have howner := h.owner (by rw [hdepth]; exact Nat.succ_pos before)
      refine h.move h.counted.leave (fun u hut => depth_leave_other howner hut) ?_
      exact Or.inr ⟨rfl, by rw [depth_leave howner, hdepth]; rfl⟩
  | ret hpc => exact h.move h.counted (fun u _ => rfl) trivial

def Returns (t : thread) (s : System thread) : Prop :=
  exists s', Relation.ReflTransGen (Step t) s s' ∧ s'.pc t = .outside

theorem Returns.of_step (hstep : Step t s s') (h : Returns t s') : Returns t s := by
  rcases h with ⟨last, hrun, hout⟩
  exact ⟨last, hrun.head hstep, hout⟩

theorem returns_of_returned {ret depth : Nat} (hpc : s.pc t = .returned ret depth) :
    Returns t s :=
  ⟨_, Relation.ReflTransGen.single (.ret hpc), Function.update_self ..⟩

theorem returns_of_leaves {depth : Nat} (hpc : s.pc t = .leaves depth) : Returns t s := by
  have hpc' : (System.mk (leaveCriticalSection s.mutex)
      (Function.update s.pc t (.returned EBUSY depth))).pc t = .returned EBUSY depth :=
    Function.update_self ..
  exact .of_step (.leave hpc) (returns_of_returned hpc')

theorem returns (s : System thread) (t : thread) : Returns t s := by
  cases hpc : s.pc t with
  | outside => exact ⟨s, Relation.ReflTransGen.refl, hpc⟩
  | entered depth =>
      apply Returns.of_step (.readCount hpc)
      unfold afterCount
      split
      · exact returns_of_leaves (Function.update_self ..)
      · exact returns_of_returned (Function.update_self ..)
  | leaves depth => exact returns_of_leaves hpc
  | returned ret depth => exact returns_of_returned hpc

end Mutexes
end Pthread
end MyLibs
