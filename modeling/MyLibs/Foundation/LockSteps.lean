import MyLibs.Foundation.SharedExclusive
import MyLibs.Foundation.Transitions

/-!
# What a read/write lock is for

The lock as its users see it: who holds it, and the four things that change
that. A system whose threads hold the lock at some of their program points shows
such a lock.
-/

namespace MyLibs
namespace Foundation

variable {thread : Type _}

/-!
## Locks shown by program points

Each thread reads, writes or does neither; a reader holds the lock once.
-/

section Shown

variable {reader writer reader' writer' : thread -> Bool} {lock : SharedExclusive thread}
  {t : thread}

structure Shows (reader writer : thread -> Bool) (lock : SharedExclusive thread) : Prop where
  exclusive : forall t, lock.exclusive = some t <-> writer t = true
  shared : forall t, lock.shared t = (reader t).toNat

theorem Shows.free (hreader : forall t, reader t = false) (hwriter : forall t, writer t = false) :
    Shows reader writer SharedExclusive.free where
  exclusive := by
    intro t
    rw [hwriter t]
    constructor <;> intro h <;> cases h
  shared := by
    intro t
    rw [hreader t]
    rfl

theorem Shows.congr (h : Shows reader writer lock) (hreader : forall t, reader' t = reader t)
    (hwriter : forall t, writer' t = writer t) : Shows reader' writer' lock where
  exclusive t := by
    rw [hwriter t]
    exact h.exclusive t
  shared t := by
    rw [hreader t]
    exact h.shared t

theorem Shows.allowsShared (h : Shows reader writer lock)
    (hwriter : forall t, writer t = false) : lock.AllowsShared := by
  apply Option.eq_none_iff_forall_ne_some.mpr
  intro t hholds
  have hwrites := (h.exclusive t).mp hholds
  rw [hwriter t] at hwrites
  cases hwrites

theorem Shows.allowsExclusive (h : Shows reader writer lock)
    (hwriter : forall t, writer t = false) (hreader : forall t, reader t = false) :
    lock.AllowsExclusive := by
  constructor
  · exact h.allowsShared hwriter
  · intro t
    rw [h.shared t, hreader t]
    rfl

theorem Shows.acquireExclusive (h : Shows reader writer lock)
    (hnone : forall u, writer u = false)
    (hnew : writer' t = true) (hothers : forall u, u ≠ t -> writer' u = writer u)
    (hreader : forall u, reader' u = reader u) :
    Shows reader' writer' (lock.acquireExclusive t) where
  exclusive u := by
    show some t = some u <-> _
    by_cases hut : u = t
    · rw [hut, hnew]
      exact iff_of_true rfl rfl
    · rw [hothers u hut, hnone u]
      exact iff_of_false (fun hsame => hut (Option.some.inj hsame).symm) Bool.noConfusion
  shared u := by
    rw [hreader u]
    exact h.shared u

theorem Shows.releaseExclusive (h : Shows reader writer lock) (hold : writer t = true)
    (hnew : writer' t = false) (hothers : forall u, u ≠ t -> writer' u = writer u)
    (hreader : forall u, reader' u = reader u) :
    Shows reader' writer' lock.releaseExclusive where
  exclusive u := by
    have hholder := (h.exclusive t).mpr hold
    show none = some u <-> _
    by_cases hut : u = t
    · rw [hut, hnew]
      exact iff_of_false nofun Bool.noConfusion
    · rw [hothers u hut]
      refine iff_of_false nofun fun hwrites => ?_
      have hother := (h.exclusive u).mpr hwrites
      rw [hholder] at hother
      exact hut (Option.some.inj hother).symm
  shared u := by
    rw [hreader u]
    exact h.shared u

/-- How a step of one thread changes what the threads hold: not at all, or it gets
what the others allow or gives back what it holds. -/
inductive HoldChange (t : thread) (reader writer reader' writer' : thread -> Bool) :
    Prop where
  | same :
      (forall u, reader' u = reader u) -> (forall u, writer' u = writer u) ->
      HoldChange t reader writer reader' writer'
  | getsShared :
      reader t = false -> reader' t = true -> (forall u, u ≠ t -> reader' u = reader u) ->
      (forall u, writer' u = writer u) -> (forall u, writer u = false) ->
      HoldChange t reader writer reader' writer'
  | getsExclusive :
      writer' t = true -> (forall u, u ≠ t -> writer' u = writer u) ->
      (forall u, reader' u = reader u) -> (forall u, writer u = false) ->
      (forall u, reader u = false) ->
      HoldChange t reader writer reader' writer'
  | givesShared :
      reader t = true -> reader' t = false -> (forall u, u ≠ t -> reader' u = reader u) ->
      (forall u, writer' u = writer u) ->
      HoldChange t reader writer reader' writer'
  | givesExclusive :
      writer t = true -> writer' t = false -> (forall u, u ≠ t -> writer' u = writer u) ->
      (forall u, reader' u = reader u) ->
      HoldChange t reader writer reader' writer'

/-!
## Steps of the lock
-/

variable [DecidableEq thread]

theorem Shows.acquireShared (h : Shows reader writer lock) (hold : reader t = false)
    (hnew : reader' t = true) (hothers : forall u, u ≠ t -> reader' u = reader u)
    (hwriter : forall u, writer' u = writer u) :
    Shows reader' writer' (lock.acquireShared t) where
  exclusive u := by
    rw [hwriter u]
    exact h.exclusive u
  shared u := by
    by_cases hut : u = t
    · show Function.update lock.shared t (lock.shared t + 1) u = _
      rw [hut, Function.update_self, h.shared t, hold, hnew]
      rfl
    · rw [SharedExclusive.acquireShared_other hut, hothers u hut]
      exact h.shared u

theorem Shows.releaseShared (h : Shows reader writer lock) (hold : reader t = true)
    (hnew : reader' t = false) (hothers : forall u, u ≠ t -> reader' u = reader u)
    (hwriter : forall u, writer' u = writer u) :
    Shows reader' writer' (lock.releaseShared t) where
  exclusive u := by
    rw [hwriter u]
    exact h.exclusive u
  shared u := by
    by_cases hut : u = t
    · show Function.update lock.shared t (lock.shared t - 1) u = _
      rw [hut, Function.update_self, h.shared t, hold, hnew]
      rfl
    · rw [SharedExclusive.releaseShared_other hut, hothers u hut]
      exact h.shared u

inductive LockStep (t : thread) : SharedExclusive thread -> SharedExclusive thread -> Prop where
  | acquireShared {lock : SharedExclusive thread} :
      lock.AllowsShared -> LockStep t lock (lock.acquireShared t)
  | acquireExclusive {lock : SharedExclusive thread} :
      lock.AllowsExclusive -> LockStep t lock (lock.acquireExclusive t)
  | releaseShared {lock : SharedExclusive thread} :
      0 < lock.shared t -> LockStep t lock (lock.releaseShared t)
  | releaseExclusive {lock : SharedExclusive thread} :
      lock.exclusive = some t -> LockStep t lock lock.releaseExclusive

def LockReachable (lock : SharedExclusive thread) : Prop :=
  Relation.ReflTransGen (fun lock lock' => exists t, LockStep t lock lock')
    SharedExclusive.free lock

theorem LockStep.excludes {t : thread} {lock lock' : SharedExclusive thread}
    (h : lock.Excludes) (hstep : LockStep t lock lock') : lock'.Excludes := by
  cases hstep with
  | acquireShared hallows => exact hallows.excludes t
  | acquireExclusive hallows => exact hallows.excludes t
  | releaseShared _ => exact h.releaseShared t
  | releaseExclusive _ => exact SharedExclusive.excludes_releaseExclusive lock

theorem LockReachable.excludes {lock : SharedExclusive thread} (h : LockReachable lock) :
    lock.Excludes := by
  induction h with
  | refl => exact SharedExclusive.excludes_free
  | tail _ hstep ih =>
      rcases hstep with ⟨t, hstep⟩
      exact hstep.excludes ih

/-- A change of what one thread holds shows as a step of the lock. -/
theorem HoldChange.shows (hchange : HoldChange t reader writer reader' writer')
    (h : Shows reader writer lock) :
    exists lock', Shows reader' writer' lock' ∧ (lock' = lock ∨ LockStep t lock lock') := by
  cases hchange with
  | same hreader hwriter => exact ⟨lock, h.congr hreader hwriter, Or.inl rfl⟩
  | getsShared hold hnew hothers hwriter hnone =>
      exact ⟨_, h.acquireShared hold hnew hothers hwriter,
        Or.inr (LockStep.acquireShared (h.allowsShared hnone))⟩
  | getsExclusive hnew hothers hreader hnone hunread =>
      exact ⟨_, h.acquireExclusive hnone hnew hothers hreader,
        Or.inr (LockStep.acquireExclusive (h.allowsExclusive hnone hunread))⟩
  | givesShared hold hnew hothers hwriter =>
      have hholds : 0 < lock.shared t := by
        rw [h.shared t, hold]
        exact Nat.zero_lt_one
      exact ⟨_, h.releaseShared hold hnew hothers hwriter,
        Or.inr (LockStep.releaseShared hholds)⟩
  | givesExclusive hold hnew hothers hreader =>
      exact ⟨_, h.releaseExclusive hold hnew hothers hreader,
        Or.inr (LockStep.releaseExclusive ((h.exclusive t).mpr hold))⟩

end Shown

/-!
## One thread moves
-/

section Points

variable {point : Type _} {reader writer : point -> Bool} {before pc after : thread -> point}
  {t : thread} {p : point}

/-- How the holders change when the threads change their program points in a step of
one of them. -/
def PointChange (t : thread) (reader writer : point -> Bool)
    (before after : thread -> point) : Prop :=
  HoldChange t (fun u => reader (before u)) (fun u => writer (before u))
    (fun u => reader (after u)) (fun u => writer (after u))

theorem PointChange.congr (h : PointChange t reader writer before pc)
    (hreader : forall t, reader (after t) = reader (pc t))
    (hwriter : forall t, writer (after t) = writer (pc t)) :
    PointChange t reader writer before after := by
  unfold PointChange
  rw [funext hreader, funext hwriter]
  exact h

variable [DecidableEq thread]

theorem class_others (c : point -> Bool) (p : point) :
    forall u, u ≠ t -> c (Function.update pc t p u) = c (pc u) := by
  intro u hut
  rw [Function.update_of_ne hut]

theorem class_update {c : point -> Bool} (h : c p = c (pc t)) :
    forall u, c (Function.update pc t p u) = c (pc u) := by
  intro u
  by_cases hut : u = t
  · rw [hut, Function.update_self, h]
  · exact class_others c p u hut

theorem PointChange.move (hreader : reader p = reader (pc t))
    (hwriter : writer p = writer (pc t)) :
    PointChange t reader writer pc (Function.update pc t p) :=
  HoldChange.same (class_update hreader) (class_update hwriter)

theorem PointChange.getShared (hold : reader (pc t) = false) (hnew : reader p = true)
    (hwriter : writer p = writer (pc t)) (hnone : forall u, writer (pc u) = false) :
    PointChange t reader writer pc (Function.update pc t p) := by
  apply HoldChange.getsShared
  · exact hold
  · rw [Function.update_self, hnew]
  · exact class_others reader p
  · exact class_update hwriter
  · exact hnone

theorem PointChange.getExclusive (hnew : writer p = true) (hreader : reader p = reader (pc t))
    (hnone : forall u, writer (pc u) = false) (hunread : forall u, reader (pc u) = false) :
    PointChange t reader writer pc (Function.update pc t p) := by
  apply HoldChange.getsExclusive
  · rw [Function.update_self, hnew]
  · exact class_others writer p
  · exact class_update hreader
  · exact hnone
  · exact hunread

theorem PointChange.giveShared (hold : reader (pc t) = true) (hnew : reader p = false)
    (hwriter : writer p = writer (pc t)) :
    PointChange t reader writer pc (Function.update pc t p) := by
  apply HoldChange.givesShared
  · exact hold
  · rw [Function.update_self, hnew]
  · exact class_others reader p
  · exact class_update hwriter

theorem PointChange.giveExclusive (hold : writer (pc t) = true) (hnew : writer p = false)
    (hreader : reader p = reader (pc t)) :
    PointChange t reader writer pc (Function.update pc t p) := by
  apply HoldChange.givesExclusive
  · exact hold
  · rw [Function.update_self, hnew]
  · exact class_others writer p
  · exact class_update hreader

end Points

end Foundation
end MyLibs
