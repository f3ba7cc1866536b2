import MyLibs.SrwLock.Model

/-!
# Releasing in the mode of the lock

The flag and the native lock disagree from an exclusive acquisition to the write
of the flag, and again between the two writes of `srw_unlock`. In both windows
the native lock is held exclusively, so that every other thread holds nothing
and has nothing to unlock.
-/

namespace MyLibs
namespace SrwLock

open Foundation

section Threads

variable {thread : Type _} {lock lock' : SharedExclusive thread} {flag flag' : Bool}
  {t u : thread} {p : Pc}

def Fits (lock : SharedExclusive thread) (flag : Bool) (t : thread) : Pc -> Prop
  | .setsFlag => lock.exclusive = some t
  | .unlock => (lock.exclusive = some t ∧ flag = true) ∨ 0 < lock.shared t
  | .clearsFlag => lock.exclusive = some t
  | .releasesExclusive => lock.exclusive = some t ∧ flag = false
  | .releasesShared => 0 < lock.shared t
  | _ => lock.exclusive = some t -> flag = true

/-- Neither between an exclusive acquisition and its flag nor in
`srw_unlock`. -/
def Pc.isIdle (p : Pc) : Bool :=
  match p with
  | .setsFlag => false
  | p => !p.inUnlock

theorem fits_of_isIdle (hidle : p.isIdle = true)
    (hflag : lock.exclusive = some t -> flag = true) : Fits lock flag t p := by
  cases p with
  | setsFlag => cases hidle
  | unlock => cases hidle
  | clearsFlag => cases hidle
  | releasesExclusive => cases hidle
  | releasesShared => cases hidle
  | _ => exact hflag

theorem Fits.isIdle (h : Fits lock flag t p) (hwithout : lock.Without t) :
    p.isIdle = true := by
  have hshared : ¬ 0 < lock.shared t := by
    rw [hwithout.right]
    exact Nat.lt_irrefl 0
  cases p with
  | setsFlag => exact absurd h hwithout.left
  | unlock =>
      rcases h with hexclusive | hpos
      · exact absurd hexclusive.left hwithout.left
      · exact absurd hpos hshared
  | clearsFlag => exact absurd h hwithout.left
  | releasesExclusive => exact absurd h.left hwithout.left
  | releasesShared => exact absurd h hshared
  | _ => rfl

theorem isAcquiring_isIdle (h : p.isAcquiring = true) : p.isIdle = true := by
  cases p with
  | rdlock => rfl
  | tryrdlock => rfl
  | wrlock => rfl
  | trywrlock => rfl
  | _ => cases h

theorem Fits.congr (h : Fits lock flag t p) (hexclusive : lock'.exclusive = lock.exclusive)
    (hshared : lock'.shared t = lock.shared t) : Fits lock' flag t p := by
  unfold Fits at h ⊢
  rw [hexclusive, hshared]
  exact h

theorem Fits.of_without (h : Fits lock flag t p) (hwithout : lock.Without t)
    (hexclusive : lock'.exclusive ≠ some t) : Fits lock' flag' t p :=
  fits_of_isIdle (h.isIdle hwithout) fun hholds => absurd hholds hexclusive

end Threads

/-!
## The invariant
-/

section Invariant

variable {thread : Type _}

structure Consistent (s : System thread) : Prop where
  excludes : s.srwlock.Excludes
  unset : s.srwlock.exclusive = none -> s.haveExclusiveSrwlock = false
  fits : forall t, Fits s.srwlock s.haveExclusiveSrwlock t (s.pc t)

theorem consistent_srwInit : Consistent (System.srwInit : System thread) where
  excludes := SharedExclusive.excludes_free
  unset _ := rfl
  fits _ := fun hholds => nomatch hholds

variable {s : System thread} {t : thread} {p : Pc}

/-- A set flag and a shared hold do not go together. -/
theorem Consistent.flag_excludes (h : Consistent s) (hshared : s.HoldsShared t) :
    s.haveExclusiveSrwlock = false := by
  apply h.unset
  cases hexclusive : s.srwlock.exclusive with
  | none => rfl
  | some holder =>
      have hnone := h.excludes holder t hexclusive
      exact absurd hnone (Nat.ne_of_gt hshared)

variable [DecidableEq thread]

theorem consistent_move {lock : SharedExclusive thread} {flag : Bool}
    (hexcludes : lock.Excludes) (hunset : lock.exclusive = none -> flag = false)
    (hself : Fits lock flag t p)
    (hothers : forall u, u ≠ t -> Fits lock flag u (s.pc u)) :
    Consistent (System.mk lock flag (Function.update s.pc t p)) where
  excludes := hexcludes
  unset := hunset
  fits := by
    intro u
    show Fits lock flag u (Function.update s.pc t p u)
    by_cases hsame : u = t
    · rw [hsame, Function.update_self]
      exact hself
    · rw [Function.update_of_ne hsame]
      exact hothers u hsame

theorem Consistent.move (h : Consistent s)
    (hself : Fits s.srwlock s.haveExclusiveSrwlock t p) :
    Consistent { s with pc := Function.update s.pc t p } :=
  consistent_move h.excludes h.unset hself fun u _ => h.fits u

theorem Consistent.acquireShared (h : Consistent s) (hallows : s.srwlock.AllowsShared) :
    Consistent
      { s with
        srwlock := s.srwlock.acquireShared t
        pc := Function.update s.pc t (.outside 0) } := by
  apply consistent_move (hallows.excludes t) h.unset
  · intro hholds
    have hnone : s.srwlock.exclusive = none := hallows
    rw [show s.srwlock.exclusive = some t from hholds] at hnone
    cases hnone
  · intro u hother
    exact (h.fits u).congr rfl (SharedExclusive.acquireShared_other hother)

theorem Consistent.acquireExclusive (h : Consistent s)
    (hallows : s.srwlock.AllowsExclusive) :
    Consistent
      { s with
        srwlock := s.srwlock.acquireExclusive t
        pc := Function.update s.pc t .setsFlag } := by
  apply consistent_move (hallows.excludes t)
  · intro hnone
    cases hnone
  · exact rfl
  · intro u hother
    apply (h.fits u).of_without (hallows.without u)
    intro hsame
    exact hother (Option.some.inj hsame).symm

theorem Consistent.writeFlag (h : Consistent s) (hholds : s.HoldsExclusive t) {flag : Bool}
    (hself : Fits s.srwlock flag t p) :
    Consistent
      { s with haveExclusiveSrwlock := flag, pc := Function.update s.pc t p } := by
  apply consistent_move h.excludes
  · intro hnone
    rw [show s.srwlock.exclusive = some t from hholds] at hnone
    cases hnone
  · exact hself
  · intro u hother
    have hwithout := h.excludes.without hholds hother
    exact (h.fits u).of_without hwithout hwithout.left

theorem Consistent.releaseExclusive (h : Consistent s) (hholds : s.HoldsExclusive t)
    (hflag : s.haveExclusiveSrwlock = false) :
    Consistent
      { s with
        srwlock := s.srwlock.releaseExclusive
        pc := Function.update s.pc t (.outside 0) } := by
  apply consistent_move (SharedExclusive.excludes_releaseExclusive _)
  · intro _
    exact hflag
  · intro hnone
    cases hnone
  · intro u hother
    apply (h.fits u).of_without (h.excludes.without hholds hother)
    intro hnone
    cases hnone

theorem Consistent.releaseShared (h : Consistent s) (hholds : s.HoldsShared t) :
    Consistent
      { s with
        srwlock := s.srwlock.releaseShared t
        pc := Function.update s.pc t (.outside 0) } := by
  apply consistent_move (h.excludes.releaseShared t) h.unset
  · intro hexclusive
    have hnone := h.excludes t t hexclusive
    exact absurd hnone (Nat.ne_of_gt hholds)
  · intro u hother
    exact (h.fits u).congr rfl (SharedExclusive.releaseShared_other hother)

theorem Consistent.step {s' : System thread} (h : Consistent s) (hstep : Step t s s') :
    Consistent s' := by
  have hfits := h.fits t
  cases hstep with
  | call hpc hacquiring =>
      rw [hpc] at hfits
      exact h.move (fits_of_isIdle (isAcquiring_isIdle hacquiring) hfits)
  | rdlock _ hallows => exact h.acquireShared hallows
  | tryrdlock _ hallows => exact h.acquireShared hallows
  | tryrdlockBusy hpc =>
      rw [hpc] at hfits
      exact h.move hfits
  | wrlock _ hallows => exact h.acquireExclusive hallows
  | trywrlock _ hallows => exact h.acquireExclusive hallows
  | trywrlockBusy hpc =>
      rw [hpc] at hfits
      exact h.move hfits
  | setFlag hpc =>
      rw [hpc] at hfits
      exact h.writeFlag hfits fun _ => rfl
  | callUnlock hpc hholds =>
      rw [hpc] at hfits
      apply h.move
      rcases hholds with hexclusive | hshared
      · exact Or.inl ⟨hexclusive, hfits hexclusive⟩
      · exact Or.inr hshared
  | readFlag hpc =>
      rw [hpc] at hfits
      apply h.move
      rcases hfits with hexclusive | hshared
      · rw [if_pos hexclusive.right]
        exact hexclusive.left
      · rw [h.flag_excludes hshared]
        exact hshared
  | clearFlag hpc =>
      rw [hpc] at hfits
      exact h.writeFlag hfits ⟨hfits, rfl⟩
  | releaseExclusive hpc =>
      rw [hpc] at hfits
      exact h.releaseExclusive hfits.left hfits.right
  | releaseShared hpc =>
      rw [hpc] at hfits
      exact h.releaseShared hfits

theorem reachable_consistent (h : Reachable s) : Consistent s := by
  induction h with
  | refl => exact consistent_srwInit
  | tail _ hstep ih =>
      rcases hstep with ⟨t, hstep⟩
      exact ih.step hstep

end Invariant

/-!
## What `srw_unlock` does
-/

section Modes

variable {thread : Type _} {s : System thread} {t : thread}

variable [DecidableEq thread]

/-- Thread 0 has the lock exclusively and is about to clear the flag, while
thread 1 waits in `srw_rdlock`. -/
def writerLeaving : System Nat where
  srwlock := SharedExclusive.free.acquireExclusive 0
  haveExclusiveSrwlock := true
  pc := Function.update (Function.update (fun _ => .outside 0) 1 .rdlock) 0 .clearsFlag

theorem writerLeaving_reachable : Reachable writerLeaving := by
  have hinit : Reachable (System.srwInit : System Nat) := Relation.ReflTransGen.refl
  have hreader := hinit.tail ⟨1, Step.call (p := .rdlock) rfl rfl⟩
  have hcall := hreader.tail ⟨0, Step.call (p := .wrlock) rfl rfl⟩
  have hlocked := hcall.tail ⟨0, Step.wrlock rfl ⟨rfl, fun _ => rfl⟩⟩
  have hset := hlocked.tail ⟨0, Step.setFlag rfl⟩
  have hunlock := hset.tail ⟨0, Step.callUnlock rfl (Or.inl rfl)⟩
  have hread := hunlock.tail ⟨0, Step.readFlag rfl⟩
  simpa [Reachable, writerLeaving, System.srwInit] using hread

end Modes

end SrwLock
end MyLibs
