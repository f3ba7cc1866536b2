import Mathlib.Algebra.Order.BigOperators.Group.Finset
import MyLibs.Foundation.Transitions
import MyLibs.Pthread.Once

/-!
# Every call of `my_pthread_once` can return

The poll of a waiting thread fails only while another thread is in the branch of
the initializer, and that thread waits for nobody. So the threads inside can all
return, provided that `init_routine` ends.
-/

namespace MyLibs
namespace Pthread

open Foundation

def Pc.stepsLeft : Pc -> Nat
  | .outside => 0
  | .returns => 1
  | .stores => 2
  | .polls => 2
  | .initializing => 3
  | .sleeps => 3
  | .starts => 4
  | .exchanges => 5
  | .called => 6

section Steps

variable {thread : Type _} [DecidableEq thread]

def Continues (s s' : System thread) : Prop :=
  exists t, s.pc t ≠ .outside ∧ Step t s s'

variable {s s' : System thread} {t : thread}

def Advances (t : thread) (s s' : System thread) : Prop :=
  Step t s s' ∧ exists p, s'.pc = Function.update s.pc t p ∧
    p.stepsLeft < (s.pc t).stepsLeft

/-- Only a failing poll does not bring a thread closer to its return. -/
theorem exists_advances (hinside : s.pc t ≠ .outside)
    (hpolls : s.pc t = .polls -> s.onceControl ≠ MY_PTHREAD_ONCE_INPROGRESS) :
    exists s', Advances t s s' := by
  cases hpc : s.pc t with
  | outside => exact absurd hpc hinside
  | called =>
      refine ⟨_, Step.read hpc, _, rfl, ?_⟩
      rw [hpc]
      unfold afterRead
      split <;> decide
  | exchanges =>
      refine ⟨_, Step.exchange _ _ hpc rfl, _, rfl, ?_⟩
      rw [hpc]
      unfold afterExchange
      split
      · decide
      · split <;> decide
  | starts => exact ⟨_, Step.start hpc, _, rfl, by rw [hpc]; decide⟩
  | initializing => exact ⟨_, Step.finish hpc, _, rfl, by rw [hpc]; decide⟩
  | stores => exact ⟨_, Step.store hpc, _, rfl, by rw [hpc]; decide⟩
  | polls =>
      refine ⟨_, Step.poll hpc, _, rfl, ?_⟩
      rw [hpc, afterPoll, if_neg (hpolls hpc)]
      decide
  | sleeps => exact ⟨_, Step.wake hpc, _, rfl, by rw [hpc]; decide⟩
  | returns => exact ⟨_, Step.ret hpc, _, rfl, by rw [hpc]; decide⟩

theorem Phase.all_poll {thread : Type _} {s : System thread} (h : Phase s)
    (hpolls : forall u, s.pc u ≠ .outside -> s.pc u = .polls) :
    s.onceControl ≠ MY_PTHREAD_ONCE_INPROGRESS := by
  cases h with
  | untouched hword _ _ _ =>
      rw [hword]
      decide
  | done hword _ _ _ =>
      rw [hword]
      decide
  | inProgress owner hword howner hothers =>
      by_cases hout : s.pc owner = .outside
      · rw [hout] at howner
        cases howner
      · rw [hpolls owner hout] at howner
        cases howner

theorem Phase.advances (h : Phase s) (hinside : exists t, s.pc t ≠ .outside) :
    exists t s', s.pc t ≠ .outside ∧ Advances t s s' := by
  by_cases hpolls : forall u, s.pc u ≠ .outside -> s.pc u = .polls
  · rcases hinside with ⟨t, ht⟩
    rcases exists_advances ht (fun _ => h.all_poll hpolls) with ⟨s', hadvances⟩
    exact ⟨t, s', ht, hadvances⟩
  · rcases not_forall.mp hpolls with ⟨t, ht⟩
    rcases Classical.not_imp.mp ht with ⟨hout, hnot⟩
    rcases exists_advances hout (fun hpc => absurd hpc hnot) with ⟨s', hadvances⟩
    exact ⟨t, s', hout, hadvances⟩

def System.Engaged (s : System thread) : Prop :=
  s.onceControl ≠ MY_PTHREAD_ONCE_INIT ∨ exists t, s.pc t ≠ .outside

theorem Phase.finished {thread : Type _} {s : System thread} (h : Phase s)
    (hengaged : s.Engaged) (hfinal : forall t, s.pc t = .outside) :
    s.started = 1 ∧ s.finished = 1 := by
  cases h with
  | done _ hstarted hfinished _ => exact ⟨hstarted, hfinished⟩
  | untouched hword _ _ _ =>
      rcases hengaged with hchanged | ⟨t, ht⟩
      · exact absurd hword hchanged
      · exact absurd (hfinal t) ht
  | inProgress owner _ howner _ =>
      rw [hfinal owner] at howner
      cases howner

theorem Step.changed (h : Step t s s') (hword : s.onceControl ≠ MY_PTHREAD_ONCE_INIT) :
    s'.onceControl ≠ MY_PTHREAD_ONCE_INIT := by
  cases h with
  | exchange state word _ hexchange =>
      unfold interlockedCompareExchange at hexchange
      rw [if_neg hword] at hexchange
      rw [(Prod.mk.inj hexchange).right] at hword
      exact hword
  | store _ =>
      show MY_PTHREAD_ONCE_DONE ≠ MY_PTHREAD_ONCE_INIT
      decide
  | _ => exact hword

/-- The first thread that gets through the compare-exchange changes the word before it
can return. -/
theorem Phase.engaged (h : Phase s) (hstep : Continues s s') :
    s'.Engaged := by
  rcases hstep with ⟨t, hinside, hstep⟩
  by_cases hword : s.onceControl = MY_PTHREAD_ONCE_INIT
  · cases h with
    | inProgress _ hother _ _ => exact absurd (hword.symm.trans hother) (by decide)
    | done hother _ _ _ => exact absurd (hword.symm.trans hother) (by decide)
    | untouched _ _ _ hall =>
        rcases hall t with hpc | hpc | hpc
        · exact absurd hpc hinside
        · cases hstep with
          | read _ =>
              right
              refine ⟨t, ?_⟩
              show Function.update s.pc t (afterRead s.onceControl) t ≠ .outside
              rw [Function.update_self, hword]
              decide
          | exchange _ _ hother _ => exact absurd (hpc.symm.trans hother) (by decide)
          | _ hother => exact absurd (hpc.symm.trans hother) (by decide)
        · cases hstep with
          | exchange state word _ hexchange =>
              left
              unfold interlockedCompareExchange at hexchange
              rw [if_pos hword] at hexchange
              show word ≠ MY_PTHREAD_ONCE_INIT
              rw [← (Prod.mk.inj hexchange).right]
              decide
          | _ hother => exact absurd (hpc.symm.trans hother) (by decide)
  · exact Or.inl (hstep.changed hword)

end Steps

section Returning

variable {thread : Type _} [Fintype thread] [DecidableEq thread] {s : System thread}

def System.stepsLeft (s : System thread) : Nat :=
  ∑ t, (s.pc t).stepsLeft

theorem Advances.stepsLeft {t : thread} {s' : System thread} (h : Advances t s s') :
    s'.stepsLeft < s.stepsLeft := by
  rcases h with ⟨_, p, hpc, hless⟩
  have hself : (s'.pc t).stepsLeft < (s.pc t).stepsLeft := by
    rw [hpc, Function.update_self]
    exact hless
  have hothers : forall u, (s'.pc u).stepsLeft <= (s.pc u).stepsLeft := by
    intro u
    by_cases hut : u = t
    · rw [hut]
      exact hself.le
    · rw [hpc, Function.update_of_ne hut]
  exact Finset.sum_lt_sum (fun u _ => hothers u) ⟨t, Finset.mem_univ t, hself⟩

/-- Whatever the interleaving has done, the calls under way can all return, and if there
was one, `init_routine` has then been run once. -/
theorem once_calls_return (hreach : Reachable s) :
    exists s', Relation.ReflTransGen Continues s s' ∧ (forall t, s'.pc t = .outside) ∧
      ((exists t, s.pc t ≠ .outside) -> s'.started = 1 ∧ s'.finished = 1) := by
  have hprogress : forall u : System thread,
      Phase u ∧ ((exists t, s.pc t ≠ .outside) -> u.Engaged) ->
      ¬ (forall t, u.pc t = .outside) ->
      exists u', Relation.ReflTransGen Continues u u' ∧
        (Phase u' ∧ ((exists t, s.pc t ≠ .outside) -> u'.Engaged)) ∧
        u'.stepsLeft < u.stepsLeft := by
    intro u hu hinside
    rcases hu with ⟨hphase, _⟩
    rcases hphase.advances (not_forall.mp hinside) with ⟨t, u', hout, hadvances⟩
    have hstep : Continues u u' := ⟨t, hout, hadvances.left⟩
    exact ⟨u', Relation.ReflTransGen.single hstep,
      ⟨hphase.step hadvances.left, fun _ => hphase.engaged hstep⟩,
      hadvances.stepsLeft⟩
  rcases exists_final_run System.stepsLeft hprogress ⟨reachable_phase hreach, Or.inr⟩ with
    ⟨s', hrun, ⟨hphase, hengaged⟩, hfinal⟩
  exact ⟨s', hrun, hfinal, fun hsome => hphase.finished (hengaged hsome) hfinal⟩

theorem oneWaits_reachable : exists s : System (Fin 2), Reachable s ∧
    s.pc 0 = .initializing ∧ s.pc 1 = .sleeps := by
  have hinit : Reachable (System.init : System (Fin 2)) := Relation.ReflTransGen.refl
  have hcall := (hinit.tail ⟨0, .call rfl⟩).tail ⟨0, .read rfl⟩
  have hstart := (hcall.tail ⟨0, .exchange _ _ rfl rfl⟩).tail ⟨0, .start rfl⟩
  have hother := (hstart.tail ⟨1, .call rfl⟩).tail ⟨1, .read rfl⟩
  have hpolls := (hother.tail ⟨1, .exchange _ _ rfl rfl⟩).tail ⟨1, .poll rfl⟩
  exact ⟨_, hpolls, rfl, rfl⟩

theorem once_calls_return_oneWaits : exists s s' : System (Fin 2), s.pc 1 = .sleeps ∧
    Relation.ReflTransGen Continues s s' ∧ s'.pc 1 = .outside ∧ s'.finished = 1 := by
  rcases oneWaits_reachable with ⟨s, hreach, hstarts, hwaits⟩
  rcases once_calls_return hreach with ⟨s', hrun, hfinal, hfinished⟩
  have hsome : exists t, s.pc t ≠ .outside := ⟨1, by rw [hwaits]; decide⟩
  exact ⟨s, s', hwaits, hrun, hfinal 1, (hfinished hsome).right⟩

end Returning

end Pthread
end MyLibs
