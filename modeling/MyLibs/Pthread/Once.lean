import Mathlib.Logic.Relation
import Mathlib.Logic.Function.Basic

/-!
# One-time initialization, `my_pthread_once` of `my_pthread.c`

Threads share one control word. A step of a thread is one access to that word,
the start or the end of `init_routine`, or the return. A thread may call again
after it has returned.
-/

namespace MyLibs
namespace Pthread

/-- `my_pthread_once_t`, a `long` of 32 bits. -/
abbrev MyPthreadOnceT := Int32

def MY_PTHREAD_ONCE_INIT : MyPthreadOnceT := 0

def MY_PTHREAD_ONCE_INPROGRESS : MyPthreadOnceT := 1

def MY_PTHREAD_ONCE_DONE : MyPthreadOnceT := 2

/-- `InterlockedCompareExchange`: the word before and the word after. -/
def interlockedCompareExchange (word exchange comparand : MyPthreadOnceT) :
    MyPthreadOnceT × MyPthreadOnceT :=
  (word, if word = comparand then exchange else word)

inductive Pc where
  | outside
  /-- Before the read that saves the interlocked operation. -/
  | called
  /-- Before the compare-exchange. -/
  | exchanges
  /-- Before the call of `init_routine`. -/
  | starts
  | initializing
  /-- Before the store of `MY_PTHREAD_ONCE_DONE`. -/
  | stores
  /-- Before a read of the polling loop. -/
  | polls
  | sleeps
  | returns
deriving DecidableEq

def afterRead (word : MyPthreadOnceT) : Pc :=
  if word = MY_PTHREAD_ONCE_DONE then .returns else .exchanges

/-- The `switch` over what the compare-exchange returned. -/
def afterExchange (state : MyPthreadOnceT) : Pc :=
  if state = MY_PTHREAD_ONCE_INIT then .starts
  else if state = MY_PTHREAD_ONCE_INPROGRESS then .polls
  else .returns

def afterPoll (word : MyPthreadOnceT) : Pc :=
  if word = MY_PTHREAD_ONCE_INPROGRESS then .sleeps else .returns

variable {thread : Type _}

/-- The word and the threads, and how often `init_routine` has been started and
has finished. -/
structure System (thread : Type _) where
  onceControl : MyPthreadOnceT
  pc : thread -> Pc
  started : Nat
  finished : Nat

def System.init : System thread where
  onceControl := MY_PTHREAD_ONCE_INIT
  pc := fun _ => .outside
  started := 0
  finished := 0

/-- A step of thread `t`. -/
inductive Step [DecidableEq thread] (t : thread) : System thread -> System thread -> Prop where
  | call {s : System thread} :
      s.pc t = .outside ->
      Step t s { s with pc := Function.update s.pc t .called }
  | read {s : System thread} :
      s.pc t = .called ->
      Step t s { s with pc := Function.update s.pc t (afterRead s.onceControl) }
  | exchange {s : System thread} (state word : MyPthreadOnceT) :
      s.pc t = .exchanges ->
      interlockedCompareExchange s.onceControl MY_PTHREAD_ONCE_INPROGRESS
        MY_PTHREAD_ONCE_INIT = (state, word) ->
      Step t s
        { s with
          onceControl := word
          pc := Function.update s.pc t (afterExchange state) }
  | start {s : System thread} :
      s.pc t = .starts ->
      Step t s
        { s with
          started := s.started + 1
          pc := Function.update s.pc t .initializing }
  | finish {s : System thread} :
      s.pc t = .initializing ->
      Step t s
        { s with
          finished := s.finished + 1
          pc := Function.update s.pc t .stores }
  | store {s : System thread} :
      s.pc t = .stores ->
      Step t s
        { s with
          onceControl := MY_PTHREAD_ONCE_DONE
          pc := Function.update s.pc t .returns }
  | poll {s : System thread} :
      s.pc t = .polls ->
      Step t s { s with pc := Function.update s.pc t (afterPoll s.onceControl) }
  | wake {s : System thread} :
      s.pc t = .sleeps ->
      Step t s { s with pc := Function.update s.pc t .polls }
  | ret {s : System thread} :
      s.pc t = .returns ->
      Step t s { s with pc := Function.update s.pc t .outside }

def Reachable [DecidableEq thread] (s : System thread) : Prop :=
  Relation.ReflTransGen (fun s s' => exists t, Step t s s') System.init s

/-!
## Phases

Threads in the branch of the initializer are told apart from those that wait for
it, and both from those that have not yet seen the word change.
-/

namespace Pc

/-- In the branch of the initializer: how often `init_routine` has been started
and has finished. -/
def initializer : Pc -> Option (Nat × Nat)
  | .starts => some (0, 0)
  | .initializing => some (1, 0)
  | .stores => some (1, 1)
  | _ => none

def Unaware (pc : Pc) : Prop :=
  pc = .outside ∨ pc = .called ∨ pc = .exchanges

end Pc

inductive Phase (s : System thread) : Prop where
  | untouched :
      s.onceControl = MY_PTHREAD_ONCE_INIT -> s.started = 0 -> s.finished = 0 ->
      (forall t, (s.pc t).Unaware) -> Phase s
  | inProgress (t : thread) :
      s.onceControl = MY_PTHREAD_ONCE_INPROGRESS ->
      (s.pc t).initializer = some (s.started, s.finished) ->
      (forall u, u ≠ t -> (s.pc u).initializer = none ∧ s.pc u ≠ .returns) -> Phase s
  | done :
      s.onceControl = MY_PTHREAD_ONCE_DONE -> s.started = 1 -> s.finished = 1 ->
      (forall t, (s.pc t).initializer = none) -> Phase s

variable {s s' : System thread} {t : thread}

theorem phase_init : Phase (System.init : System thread) :=
  .untouched rfl rfl rfl fun _ => Or.inl rfl

theorem Phase.changed (h : Phase s) (ht : ¬(s.pc t).Unaware) :
    s.onceControl ≠ MY_PTHREAD_ONCE_INIT := by
  cases h with
  | untouched _ _ _ hall => exact absurd (hall t) ht
  | inProgress _ hword _ _ =>
      rw [hword]
      decide
  | done hword _ _ _ =>
      rw [hword]
      decide

theorem Phase.owner (h : Phase s) {counts : Nat × Nat}
    (ht : (s.pc t).initializer = some counts) :
    s.onceControl = MY_PTHREAD_ONCE_INPROGRESS ∧ counts = (s.started, s.finished) ∧
      forall u, u ≠ t -> (s.pc u).initializer = none ∧ s.pc u ≠ .returns := by
  cases h with
  | untouched _ _ _ hall =>
      rcases hall t with hpc | hpc | hpc
      all_goals
        rw [hpc] at ht
        cases ht
  | inProgress owner hword howner hothers =>
      have heq : t = owner := by
        by_contra hne
        rw [(hothers t hne).left] at ht
        cases ht
      subst heq
      rw [ht] at howner
      exact ⟨hword, Option.some.inj howner, hothers⟩
  | done _ _ _ hall =>
      rw [hall t] at ht
      cases ht

variable [DecidableEq thread]

theorem Phase.move {pc : Pc} (h : Phase s) (hbefore : (s.pc t).initializer = none)
    (hafter : pc.initializer = none)
    (huntouched : s.onceControl = MY_PTHREAD_ONCE_INIT -> pc.Unaware)
    (hreturns : s.onceControl = MY_PTHREAD_ONCE_INPROGRESS -> pc ≠ .returns) :
    Phase { s with pc := Function.update s.pc t pc } := by
  cases h with
  | untouched hword hstarted hfinished hall =>
      refine .untouched hword hstarted hfinished fun u => ?_
      cases eq_or_ne u t with
      | inl heq =>
          subst heq
          simpa using huntouched hword
      | inr hne => simpa [Function.update_of_ne hne] using hall u
  | inProgress owner hword howner hothers =>
      have hne : owner ≠ t := by
        intro heq
        rw [heq, hbefore] at howner
        cases howner
      refine .inProgress owner hword (by simpa [Function.update_of_ne hne] using howner) ?_
      intro u hu
      cases eq_or_ne u t with
      | inl heq =>
          subst heq
          simpa using And.intro hafter (hreturns hword)
      | inr hut => simpa [Function.update_of_ne hut] using hothers u hu
  | done hword hstarted hfinished hall =>
      refine .done hword hstarted hfinished fun u => ?_
      cases eq_or_ne u t with
      | inl heq =>
          subst heq
          simpa using hafter
      | inr hne => simpa [Function.update_of_ne hne] using hall u

/-- The compare-exchange makes at most one thread the initializer. -/
theorem Phase.exchange (h : Phase s) (ht : s.pc t = .exchanges) {state word : MyPthreadOnceT}
    (hexchange : interlockedCompareExchange s.onceControl MY_PTHREAD_ONCE_INPROGRESS
      MY_PTHREAD_ONCE_INIT = (state, word)) :
    Phase { s with
      onceControl := word
      pc := Function.update s.pc t (afterExchange state) } := by
  have hnone : (s.pc t).initializer = none := by
    rw [ht]
    rfl
  unfold interlockedCompareExchange at hexchange
  cases hexchange
  cases h with
  | untouched hword hstarted hfinished hall =>
      refine .inProgress t (if_pos hword) ?_ ?_
      · simp [hword, afterExchange, Pc.initializer, hstarted, hfinished]
      · intro u hu
        rcases hall u with hpc | hpc | hpc
        all_goals simp [Function.update_of_ne hu, hpc, Pc.initializer]
  | inProgress owner hword howner hothers =>
      have hother : s.onceControl ≠ MY_PTHREAD_ONCE_INIT := by
        rw [hword]
        decide
      rw [if_neg hother, afterExchange, if_neg hother, if_pos hword]
      have hphase : Phase s := .inProgress owner hword howner hothers
      exact hphase.move hnone rfl (fun hinit => absurd hinit hother) fun _ hpc => by cases hpc
  | done hword hstarted hfinished hall =>
      have hother : s.onceControl ≠ MY_PTHREAD_ONCE_INIT := by
        rw [hword]
        decide
      have hover : s.onceControl ≠ MY_PTHREAD_ONCE_INPROGRESS := by
        rw [hword]
        decide
      rw [if_neg hother, afterExchange, if_neg hother, if_neg hover]
      have hphase : Phase s := .done hword hstarted hfinished hall
      exact hphase.move hnone rfl (fun hinit => absurd hinit hother)
        fun hprogress => absurd hprogress hover

theorem Phase.advance (h : Phase s) {counts : Nat × Nat} {pc : Pc} {started finished : Nat}
    (ht : (s.pc t).initializer = some counts)
    (hnext : pc.initializer = some (started, finished)) :
    Phase { s with
      started := started
      finished := finished
      pc := Function.update s.pc t pc } := by
  rcases h.owner ht with ⟨hword, _, hothers⟩
  refine .inProgress t hword (by simpa using hnext) fun u hu => ?_
  simpa [Function.update_of_ne hu] using hothers u hu

theorem Phase.store (h : Phase s) (ht : s.pc t = .stores) :
    Phase { s with
      onceControl := MY_PTHREAD_ONCE_DONE
      pc := Function.update s.pc t .returns } := by
  have hcounts : (s.pc t).initializer = some (1, 1) := by
    rw [ht]
    rfl
  rcases h.owner hcounts with ⟨_, heq, hothers⟩
  rcases Prod.mk.inj heq with ⟨hstarted, hfinished⟩
  refine .done rfl hstarted.symm hfinished.symm fun u => ?_
  cases eq_or_ne u t with
  | inl heq =>
      subst heq
      simp [Pc.initializer]
  | inr hne => simpa [Function.update_of_ne hne] using (hothers u hne).left

theorem Phase.step (h : Phase s) (hstep : Step t s s') : Phase s' := by
  cases hstep with
  | call hpc =>
      exact h.move (by rw [hpc]; rfl) rfl (fun _ => Or.inr (Or.inl rfl))
        fun _ heq => by cases heq
  | read hpc =>
      have hnone : (s.pc t).initializer = none := by
        rw [hpc]
        rfl
      by_cases hdone : s.onceControl = MY_PTHREAD_ONCE_DONE
      · rw [afterRead, if_pos hdone]
        refine h.move hnone rfl (fun hinit => ?_) fun hprogress => ?_
        · rw [hdone] at hinit
          cases hinit
        · rw [hdone] at hprogress
          cases hprogress
      · rw [afterRead, if_neg hdone]
        exact h.move hnone rfl (fun _ => Or.inr (Or.inr rfl)) fun _ heq => by cases heq
  | exchange state word hpc hexchange => exact h.exchange hpc hexchange
  | start hpc =>
      have hcounts : (s.pc t).initializer = some (0, 0) := by
        rw [hpc]
        rfl
      rcases h.owner hcounts with ⟨_, heq, _⟩
      rcases Prod.mk.inj heq with ⟨hstarted, hfinished⟩
      rw [← hstarted]
      exact h.advance hcounts (congrArg some (congrArg (Prod.mk 1) hfinished))
  | finish hpc =>
      have hcounts : (s.pc t).initializer = some (1, 0) := by
        rw [hpc]
        rfl
      rcases h.owner hcounts with ⟨_, heq, _⟩
      rcases Prod.mk.inj heq with ⟨hstarted, hfinished⟩
      rw [← hfinished]
      exact h.advance hcounts (congrArg (fun n => some (n, 1)) hstarted)
  | store hpc => exact h.store hpc
  | poll hpc =>
      have hchanged := h.changed (t := t) (by rw [hpc]; simp [Pc.Unaware])
      have hnone : (s.pc t).initializer = none := by
        rw [hpc]
        rfl
      by_cases hprogress : s.onceControl = MY_PTHREAD_ONCE_INPROGRESS
      · rw [afterPoll, if_pos hprogress]
        exact h.move hnone rfl (fun hinit => absurd hinit hchanged) fun _ heq => by cases heq
      · rw [afterPoll, if_neg hprogress]
        exact h.move hnone rfl (fun hinit => absurd hinit hchanged)
          fun heq => absurd heq hprogress
  | wake hpc =>
      have hchanged := h.changed (t := t) (by rw [hpc]; simp [Pc.Unaware])
      exact h.move (by rw [hpc]; rfl) rfl (fun hinit => absurd hinit hchanged)
        fun _ heq => by cases heq
  | ret hpc =>
      exact h.move (by rw [hpc]; rfl) rfl (fun _ => Or.inl rfl) fun _ heq => by cases heq

/-- Every interleaving keeps to the phases. -/
theorem reachable_phase (h : Reachable s) : Phase s := by
  induction h with
  | refl => exact phase_init
  | tail _ hstep ih =>
      rcases hstep with ⟨t, hstep⟩
      exact ih.step hstep

/-- `init_routine` is started at most once, and has finished when a call
returns. -/
theorem once_runs_initializer_once (h : Reachable s) :
    s.started <= 1 ∧ forall t, s.pc t = .returns -> s.started = 1 ∧ s.finished = 1 := by
  cases reachable_phase h with
  | untouched _ hstarted _ hall =>
      refine ⟨by omega, fun t ht => ?_⟩
      rcases hall t with hpc | hpc | hpc
      all_goals
        rw [ht] at hpc
        cases hpc
  | inProgress owner _ howner hothers =>
      constructor
      · cases hpc : s.pc owner with
        | starts | initializing | stores =>
            rw [hpc] at howner
            have hstarted := (Prod.mk.inj (Option.some.inj howner)).left
            omega
        | outside | called | exchanges | polls | sleeps | returns =>
            rw [hpc] at howner
            cases howner
      · intro t ht
        have heq : t = owner := by
          by_contra hne
          exact (hothers t hne).right ht
        rw [← heq, ht] at howner
        cases howner
  | done _ hstarted hfinished _ => exact ⟨by omega, fun _ _ => ⟨hstarted, hfinished⟩⟩

theorem bothReturn_reachable : exists s : System Nat, Reachable s ∧
    s.pc 0 = .returns ∧ s.pc 1 = .returns := by
  have hinit : Reachable (System.init : System Nat) := Relation.ReflTransGen.refl
  have hcall := (hinit.tail ⟨0, .call rfl⟩).tail ⟨0, .read rfl⟩
  have hstart := (hcall.tail ⟨0, .exchange _ _ rfl rfl⟩).tail ⟨0, .start rfl⟩
  have hstore := (hstart.tail ⟨0, .finish rfl⟩).tail ⟨0, .store rfl⟩
  have hother := (hstore.tail ⟨1, .call rfl⟩).tail ⟨1, .read rfl⟩
  exact ⟨_, hother, rfl, rfl⟩

theorem once_runs_initializer_once_bothReturn : exists s : System Nat, Reachable s ∧
    s.pc 1 = .returns ∧ s.started <= 1 ∧ s.finished = 1 := by
  rcases bothReturn_reachable with ⟨s, hreachable, _, hother⟩
  have honce := once_runs_initializer_once hreachable
  exact ⟨s, hreachable, hother, honce.left, (honce.right 1 hother).right⟩

end Pthread
end MyLibs
