import Mathlib.Algebra.Order.Ring.Nat
import Mathlib.Tactic.Common

/-!
# Walks that nest

A walk stands on one item after the other. It flags the item, calls back, and
when it leaves it takes the flag off; an item that has lost its flag by then is
removed. The callback may walk over the same container again, to any depth.

A callback that changes nothing is a program of its own: it looks at the
container, starts walks with callbacks of the same kind, and returns a number.
Such a walk leaves the container alone exactly when no walk inside it comes to
an item on which an outer one stands.
-/

namespace MyLibs
namespace Foundation

variable {δ ι α σ τ : Type _}

/-!
## Visits

A walk visits items until a visit answers something else than zero. What is
carried from one visit to the next is the visitor's own state.
-/

section Visits

variable {ρ : Type _} [Zero ρ] [DecidableEq ρ]

def visitAll (answer : τ -> ι -> ρ × τ) : List ι -> τ -> ρ × τ
  | [], own => (0, own)
  | p :: rest, own =>
      if (answer own p).1 = 0 then visitAll answer rest (answer own p).2 else answer own p

def EachVisit (Good : τ -> ι -> Prop) (answer : τ -> ι -> ρ × τ) : List ι -> τ -> Prop
  | [], _ => True
  | p :: rest, own =>
      Good own p ∧ ((answer own p).1 = 0 -> EachVisit Good answer rest (answer own p).2)

inductive Visited (answer : τ -> ι -> ρ × τ) : τ -> List ι -> ρ × τ -> Prop
  | nil {own : τ} : Visited answer own [] (0, own)
  | last {own : τ} {p : ι} : (answer own p).1 ≠ 0 -> Visited answer own [p] (answer own p)
  | next {own : τ} {p : ι} {rest : List ι} {result : ρ × τ} : (answer own p).1 = 0 ->
      Visited answer (answer own p).2 rest result -> Visited answer own (p :: rest) result

variable {answer : τ -> ι -> ρ × τ} {Good Better : τ -> ι -> Prop} {first rest : List ι}
  {own : τ}

theorem visitAll_append : visitAll answer (first ++ rest) own =
    if (visitAll answer first own).1 = 0 then
      visitAll answer rest (visitAll answer first own).2
    else
      visitAll answer first own := by
  induction first generalizing own with
  | nil => exact (if_pos rfl).symm
  | cons p first ih =>
      rw [List.cons_append, visitAll, visitAll]
      by_cases hzero : (answer own p).1 = 0
      · simp only [if_pos hzero]
        exact ih
      · simp only [if_neg hzero]

theorem visitAll_visited (answer : τ -> ι -> ρ × τ) (items : List ι) (own : τ) :
    exists visited rest, items = visited ++ rest ∧
      Visited answer own visited (visitAll answer items own) ∧
      ((visitAll answer items own).1 = 0 -> rest = []) := by
  induction items generalizing own with
  | nil => exact ⟨[], [], rfl, .nil, fun _ => rfl⟩
  | cons p items ih =>
      rw [visitAll]
      by_cases hzero : (answer own p).1 = 0
      · rcases ih (answer own p).2 with ⟨visited, rest, hitems, hvisited, hrest⟩
        rw [if_pos hzero, hitems]
        rw [hitems] at hvisited hrest
        exact ⟨p :: visited, rest, rfl, .next hzero hvisited, hrest⟩
      · rw [if_neg hzero]
        exact ⟨[p], items, rfl, .last hzero, fun h => absurd h hzero⟩

theorem eachVisit_append : EachVisit Good answer (first ++ rest) own <->
    EachVisit Good answer first own ∧ ((visitAll answer first own).1 = 0 ->
      EachVisit Good answer rest (visitAll answer first own).2) := by
  induction first generalizing own with
  | nil => simp [EachVisit, visitAll]
  | cons p first ih =>
      rw [List.cons_append, EachVisit, EachVisit, visitAll]
      by_cases hzero : (answer own p).1 = 0
      · simp only [hzero, forall_const, if_true, ih, and_assoc]
      · simp [hzero]

omit [DecidableEq ρ] in
theorem eachVisit_of_forall (hgood : forall own p, Good own p) :
    EachVisit Good answer first own := by
  induction first generalizing own with
  | nil => trivial
  | cons p first ih => exact ⟨hgood own p, fun _ => ih⟩

omit [DecidableEq ρ] in
theorem EachVisit.mono (hgood : forall own p, p ∈ first -> Good own p -> Better own p)
    (h : EachVisit Good answer first own) : EachVisit Better answer first own := by
  induction first generalizing own with
  | nil => trivial
  | cons p first ih =>
      rcases h with ⟨hp, hrest⟩
      constructor
      · exact hgood own p (List.mem_cons_self ..) hp
      · intro hzero
        exact ih (fun own q hq => hgood own q (List.mem_cons_of_mem p hq)) (hrest hzero)

end Visits

/-!
## Flags
-/

structure Flags (ι σ : Type _) where
  flagged : σ -> ι -> Prop
  freed : σ -> Nat

namespace Flags

variable {F : Flags ι σ} {s s' s'' : σ} {count : Nat} {active : List ι}

structure Worse (F : Flags ι σ) (s s' : σ) : Prop where
  freed_le : F.freed s <= F.freed s'
  flagged : forall p, F.flagged s' p -> F.flagged s p

theorem Worse.refl (F : Flags ι σ) (s : σ) : F.Worse s s :=
  ⟨Nat.le_refl _, fun _ h => h⟩

theorem Worse.trans (hfirst : F.Worse s s') (hsecond : F.Worse s' s'') : F.Worse s s'' where
  freed_le := Nat.le_trans hfirst.freed_le hsecond.freed_le
  flagged := fun p h => hfirst.flagged p (hsecond.flagged p h)

/-- Something has been freed since `count`, or an item on which a walk stands
has lost its flag. -/
def Broken (F : Flags ι σ) (count : Nat) (active : List ι) (s : σ) : Prop :=
  count < F.freed s ∨ exists p, p ∈ active ∧ ¬F.flagged s p

theorem Broken.worse (hworse : F.Worse s s') (h : F.Broken count active s) :
    F.Broken count active s' := by
  rcases h with hfreed | ⟨p, hp, hflag⟩
  · exact Or.inl (Nat.lt_of_lt_of_le hfreed hworse.freed_le)
  · exact Or.inr ⟨p, hp, fun h => hflag (hworse.flagged p h)⟩

end Flags

/-!
## One walk along a chain of items
-/

/-- What a walk calls: its own state, what the item holds and the container go
in, the answer and both states after it come out. -/
abbrev Visitor (τ α σ : Type _) := τ -> α -> σ -> Option (Nat × τ × σ)

def Visitor.Worse (F : Flags ι σ) (visit : Visitor τ α σ) : Prop :=
  forall own a s r own' s', visit own a s = some (r, own', s') -> F.Worse s s'

structure Cursor (ι α σ : Type _) where
  nil : ι
  arrive : ι -> σ -> Option σ
  content : ι -> σ -> Option α
  leave : ι -> σ -> Option (ι × σ)

namespace Cursor

def turn (C : Cursor ι α σ) (visit : Visitor τ α σ) (p : ι) (own : τ) (s : σ) :
    Option (Nat × ι × τ × σ) := do
  let s <- C.arrive p s
  let a <- C.content p s
  let (ret, own, s) <- visit own a s
  let (next, s) <- C.leave p s
  some (ret, next, own, s)

def loop [DecidableEq ι] (C : Cursor ι α σ) (visit : Visitor τ α σ) :
    Nat -> ι -> τ -> σ -> Option (Nat × τ × σ)
  | 0, _, _, _ => none
  | turns + 1, p, own, s =>
      if p = C.nil then
        some (0, own, s)
      else do
        let (ret, next, own, s) <- C.turn visit p own s
        if ret ≠ 0 then some (ret, own, s) else loop C visit turns next own s

variable {C : Cursor ι α σ} {F : Flags ι σ} {visit : Visitor τ α σ} {p next start : ι}
  {own own' : τ} {s s' : σ} {ret turns : Nat}

theorem turn_eq_some (h : C.turn visit p own s = some (ret, next, own', s')) :
    exists s₁ a s₂, C.arrive p s = some s₁ ∧ C.content p s₁ = some a ∧
      visit own a s₁ = some (ret, own', s₂) ∧ C.leave p s₂ = some (next, s') := by
  simp only [turn, Option.bind_eq_bind, Option.bind_eq_some_iff, Prod.exists, Option.some.injEq,
    Prod.mk.injEq] at h
  rcases h with ⟨s₁, harrive, a, hcontent, r, o, s₂, hvisit, q, s₃, hleave, hret, hnext, hown,
    hs⟩
  subst hret hnext hown hs
  exact ⟨s₁, a, s₂, harrive, hcontent, hvisit, hleave⟩

/-- Arriving flags the item and nothing else; leaving unflags it, and frees it
when it has lost its flag. -/
structure Lawful (C : Cursor ι α σ) (F : Flags ι σ) : Prop where
  arrive_freed : forall {p s s'}, C.arrive p s = some s' -> F.freed s' = F.freed s
  arrive_flagged : forall {p s s'}, C.arrive p s = some s' -> forall q, q ≠ p ->
    F.flagged s' q -> F.flagged s q
  leave_worse : forall {p s next s'}, p ≠ C.nil -> C.leave p s = some (next, s') ->
    F.Worse s s'
  leave_unflagged : forall {p s next s'}, p ≠ C.nil -> C.leave p s = some (next, s') ->
    ¬F.flagged s' p
  leave_freed : forall {p s next s'}, p ≠ C.nil -> C.leave p s = some (next, s') ->
    ¬F.flagged s p -> F.freed s < F.freed s'

theorem Lawful.turn_worse (h : C.Lawful F) (hvisit : Visitor.Worse F visit) (hp : p ≠ C.nil)
    (hturn : C.turn visit p own s = some (ret, next, own', s')) :
    F.Worse s s' ∧ ¬F.flagged s' p := by
  rcases turn_eq_some hturn with ⟨s₁, a, s₂, harrive, _, hcall, hleave⟩
  have hrest := (hvisit _ _ _ _ _ _ hcall).trans (h.leave_worse hp hleave)
  have hself := h.leave_unflagged hp hleave
  refine ⟨⟨?_, ?_⟩, hself⟩
  · rw [← h.arrive_freed harrive]
    exact hrest.freed_le
  · intro q hq
    have hne : q ≠ p := by
      intro heq
      rw [heq] at hq
      exact hself hq
    exact h.arrive_flagged harrive q hne (hrest.flagged q hq)

/-- The items of a chain as they are when the items of `active` are flagged and
nothing else has changed. -/
structure Covers (C : Cursor ι α σ) (marked : List ι -> σ) (content : ι -> α)
    (path : List ι) : Prop where
  ne_nil : forall p, p ∈ path -> p ≠ C.nil
  arrive_marked : forall p, p ∈ path -> forall active,
    C.arrive p (marked active) = some (marked (p :: active))
  content_marked : forall p, p ∈ path -> forall active,
    C.content p (marked active) = some (content p)
  leave_marked : forall first p rest, path = first ++ p :: rest -> forall active, p ∉ active ->
    C.leave p (marked (p :: active)) = some (rest.headD C.nil, marked active)

variable {marked : List ι -> σ} {content : ι -> α} {path first rest active : List ι}
  {answer : τ -> ι -> Nat × τ} {count : Nat}

def Quiet (visit : Visitor τ α σ) (marked : List ι -> σ) (content : ι -> α)
    (answer : τ -> ι -> Nat × τ) (active : List ι) (own : τ) (p : ι) : Prop :=
  visit own (content p) (marked (p :: active)) =
    some ((answer own p).1, (answer own p).2, marked (p :: active))

theorem Covers.turn_quiet (h : C.Covers marked content (first ++ p :: rest))
    (hp : p ∉ active) (hquiet : Quiet visit marked content answer active own p) :
    C.turn visit p own (marked active) =
      some ((answer own p).1, rest.headD C.nil, (answer own p).2, marked active) := by
  have hmem : p ∈ first ++ p :: rest := List.mem_append_right _ (List.mem_cons_self ..)
  rw [turn, h.arrive_marked p hmem]
  simp only [Option.bind_eq_bind, Option.bind_some, h.content_marked p hmem]
  rw [hquiet]
  simp only [Option.bind_some, h.leave_marked first p rest rfl active hp]

structure Breaks (F : Flags ι σ) (count : Nat) (visit : Visitor τ α σ) (marked : List ι -> σ)
    (content : ι -> α) (answer : τ -> ι -> Nat × τ) (active : List ι)
    (Good : τ -> ι -> Prop) : Prop where
  worse : Visitor.Worse F visit
  quiet : forall own p, Good own p -> Quiet visit marked content answer active own p
  broken : forall own p, ¬Good own p -> forall r own' s',
    visit own (content p) (marked (p :: active)) = some (r, own', s') ->
    F.Broken count (p :: active) s'

variable {Good : τ -> ι -> Prop}

theorem Lawful.turn_broken (h : C.Lawful F) (hcovers : C.Covers marked content path)
    (hcount : forall active, F.freed (marked active) = count)
    (hbreaks : Breaks F count visit marked content answer active Good)
    (hmem : p ∈ path) (hbad : ¬(p ∉ active ∧ Good own p))
    (hturn : C.turn visit p own (marked active) = some (ret, next, own', s')) :
    F.Broken count active s' := by
  have hne := hcovers.ne_nil p hmem
  by_cases hp : p ∈ active
  · exact Or.inr ⟨p, hp, (h.turn_worse hbreaks.worse hne hturn).right⟩
  · have hgood : ¬Good own p := fun hgood => hbad ⟨hp, hgood⟩
    rcases turn_eq_some hturn with ⟨s₁, a, s₂, harrive, hcontent, hcall, hleave⟩
    rw [hcovers.arrive_marked p hmem active] at harrive
    cases harrive
    rw [hcovers.content_marked p hmem] at hcontent
    cases hcontent
    have hworse := h.leave_worse hne hleave
    rcases hbreaks.broken own p hgood _ _ _ hcall with hfreed | ⟨q, hq, hflag⟩
    · exact Flags.Broken.worse hworse (Or.inl hfreed)
    · rcases List.mem_cons.mp hq with heq | hq
      · -- the item itself has lost its flag and is freed
        rw [heq] at hflag
        have hcall' := (hbreaks.worse _ _ _ _ _ _ hcall).freed_le
        rw [hcount] at hcall'
        exact Or.inl (Nat.lt_of_le_of_lt hcall' (h.leave_freed hne hleave hflag))
      · exact Flags.Broken.worse hworse (Or.inr ⟨q, hq, hflag⟩)

variable [DecidableEq ι]

theorem loop_succ (hp : p ≠ C.nil) : C.loop visit (turns + 1) p own s =
    (C.turn visit p own s).bind fun (ret, next, own, s) =>
      if ret ≠ 0 then some (ret, own, s) else C.loop visit turns next own s := by
  rw [loop, if_neg hp]
  rfl

theorem Lawful.loop_worse (h : C.Lawful F) (hvisit : Visitor.Worse F visit)
    (hloop : C.loop visit turns p own s = some (ret, own', s')) : F.Worse s s' := by
  induction turns generalizing p own s with
  | zero => cases hloop
  | succ turns ih =>
      by_cases hp : p = C.nil
      · rw [loop, if_pos hp] at hloop
        cases hloop
        exact Flags.Worse.refl F _
      · rw [loop_succ hp, Option.bind_eq_some_iff] at hloop
        rcases hloop with ⟨⟨r, next, own₁, s₁⟩, hturn, hrest⟩
        have hfirst := (h.turn_worse hvisit hp hturn).left
        simp only at hrest
        split at hrest
        · cases hrest
          exact hfirst
        · exact hfirst.trans (ih hrest)

theorem Covers.loop_quiet (h : C.Covers marked content (first ++ path))
    (hturns : path.length < turns)
    (hvisits : EachVisit (fun own p => p ∉ active ∧ Quiet visit marked content answer active own p)
      answer path own) :
    C.loop visit turns (path.headD C.nil) own (marked active) =
      some ((visitAll answer path own).1, (visitAll answer path own).2, marked active) := by
  induction path generalizing first turns own with
  | nil =>
      cases turns with
      | zero => cases hturns
      | succ turns =>
          rw [List.headD_nil, loop, if_pos rfl]
          rfl
  | cons p path ih =>
      cases turns with
      | zero => cases hturns
      | succ turns =>
          rcases hvisits with ⟨⟨hp, hquiet⟩, hrest⟩
          have hne := h.ne_nil p (List.mem_append_right _ (List.mem_cons_self ..))
          rw [List.headD_cons, loop_succ hne, h.turn_quiet hp hquiet, Option.bind_some, visitAll]
          by_cases hzero : (answer own p).1 = 0
          · have hshift : C.Covers marked content ((first ++ [p]) ++ path) := by
              rw [List.append_assoc]
              exact h
            rw [if_pos hzero]
            simp only [hzero, ne_eq, not_true_eq_false, if_false]
            exact ih hshift (Nat.lt_of_succ_lt_succ hturns) (hrest hzero)
          · rw [if_neg hzero]
            simp only [ne_eq, hzero, not_false_eq_true, if_true]

theorem Lawful.loop_broken (h : C.Lawful F) (hcovers : C.Covers marked content (first ++ path))
    (hcount : forall active, F.freed (marked active) = count)
    (hbreaks : Breaks F count visit marked content answer active Good)
    (hvisits : ¬EachVisit (fun own p => p ∉ active ∧ Good own p) answer path own)
    (hloop : C.loop visit turns (path.headD C.nil) own (marked active) =
      some (ret, own', s')) : F.Broken count active s' := by
  induction path generalizing first turns own with
  | nil => exact absurd trivial hvisits
  | cons p path ih =>
      cases turns with
      | zero => cases hloop
      | succ turns =>
          have hmem : p ∈ first ++ p :: path := List.mem_append_right _ (List.mem_cons_self ..)
          rw [List.headD_cons, loop_succ (hcovers.ne_nil p hmem), Option.bind_eq_some_iff] at hloop
          rcases hloop with ⟨⟨r, next, own₁, s₁⟩, hturn, hrest⟩
          simp only at hrest
          by_cases hfirst : p ∉ active ∧ Good own p
          · -- this visit is quiet, so a later one is not
            rw [hcovers.turn_quiet hfirst.left (hbreaks.quiet own p hfirst.right)] at hturn
            cases hturn
            have hlater : (answer own p).1 = 0 ∧
                ¬EachVisit (fun own p => p ∉ active ∧ Good own p) answer path
                  (answer own p).2 := by
              rw [EachVisit] at hvisits
              tauto
            rw [if_neg (not_not_intro hlater.left)] at hrest
            have hshift : C.Covers marked content ((first ++ [p]) ++ path) := by
              rw [List.append_assoc]
              exact hcovers
            exact ih hshift hlater.right hrest
          · have hbroken := h.turn_broken hcovers hcount hbreaks hmem hfirst hturn
            split at hrest
            · cases hrest
              exact hbroken
            · exact hbroken.worse (h.loop_worse hbreaks.worse hrest)

end Cursor

/-!
## Callbacks that walk
-/

/-- A callback from some point on, with the own state `τ`: it returns, looks at
the container, or walks over it in the way `d` and goes on. -/
inductive Callback (δ α σ τ : Type _) where
  | ret (result : Nat) (own : τ)
  | look (next : σ -> Callback δ α σ τ)
  | walk (d : δ) (own : τ) (visit : τ -> α -> Callback δ α σ τ) (rest : τ -> Callback δ α σ τ)

abbrev Walks (δ α σ τ : Type _) := δ -> Visitor τ α σ -> τ -> σ -> Option (τ × σ)

/-- A container outside any walk: the items each way visits, what they hold, and
the container when the walks stand on some items. -/
structure Still (δ ι α σ : Type _) where
  order : δ -> List ι
  content : ι -> α
  marked : List ι -> σ

namespace Callback

variable {S : Still δ ι α σ} {F : Flags ι σ} {foreach : Walks δ α σ τ} {active : List ι}
  {count : Nat}

def run (foreach : Walks δ α σ τ) : Callback δ α σ τ -> σ -> Option (Nat × τ × σ)
  | ret result own, s => some (result, own, s)
  | look next, s => (next s).run foreach s
  | walk d own visit rest, s =>
      (foreach d (fun own a s => (visit own a).run foreach s) own s).bind fun (own, s) =>
        (rest own).run foreach s

def visitor (foreach : Walks δ α σ τ) (visit : τ -> α -> Callback δ α σ τ) : Visitor τ α σ :=
  fun own a s => (visit own a).run foreach s

def answer (S : Still δ ι α σ) : Callback δ α σ τ -> List ι -> Nat × τ
  | ret result own, _ => (result, own)
  | look next, active => (next (S.marked active)).answer S active
  | walk d own visit rest, active =>
      (rest (visitAll (fun own p => (visit own (S.content p)).answer S (p :: active))
        (S.order d) own).2).answer S active

def Clean (S : Still δ ι α σ) : Callback δ α σ τ -> List ι -> Prop
  | ret _ _, _ => True
  | look next, active => (next (S.marked active)).Clean S active
  | walk d own visit rest, active =>
      EachVisit (fun own p => p ∉ active ∧ (visit own (S.content p)).Clean S (p :: active))
          (fun own p => (visit own (S.content p)).answer S (p :: active)) (S.order d) own ∧
        (rest (visitAll (fun own p => (visit own (S.content p)).answer S (p :: active))
          (S.order d) own).2).Clean S active

structure Walked (S : Still δ ι α σ) (F : Flags ι σ) (count : Nat)
    (foreach : Walks δ α σ τ) : Prop where
  worse : forall {d visit}, Visitor.Worse F visit -> forall {own s own' s'},
    foreach d visit own s = some (own', s') -> F.Worse s s'
  quiet : forall {d visit answer active own},
    EachVisit (fun own p => p ∉ active ∧ Cursor.Quiet visit S.marked S.content answer active own p)
      answer (S.order d) own ->
    foreach d visit own (S.marked active) =
      some ((visitAll answer (S.order d) own).2, S.marked active)
  broken : forall {d visit answer active Good own},
    Cursor.Breaks F count visit S.marked S.content answer active Good ->
    ¬EachVisit (fun own p => p ∉ active ∧ Good own p) answer (S.order d) own ->
    forall {own' s'}, foreach d visit own (S.marked active) = some (own', s') ->
      F.Broken count active s'

theorem run_worse (h : Walked S F count foreach) (callback : Callback δ α σ τ) {s s' : σ}
    {r : Nat} {own' : τ} (hrun : callback.run foreach s = some (r, own', s')) :
    F.Worse s s' := by
  induction callback generalizing s s' r own' with
  | ret result own =>
      cases hrun
      exact Flags.Worse.refl F s
  | look next ih => exact ih s hrun
  | walk d own visit rest ihVisit ihRest =>
      rw [run, Option.bind_eq_some_iff] at hrun
      rcases hrun with ⟨⟨own₁, s₁⟩, hwalk, hrest⟩
      have hfirst := h.worse (fun own a _ _ _ _ hcall => ihVisit own a hcall) hwalk
      exact hfirst.trans (ihRest own₁ hrest)

variable {d : δ} {visit : τ -> α -> Callback δ α σ τ} {own : τ}

def answers (S : Still δ ι α σ) (visit : τ -> α -> Callback δ α σ τ) (active : List ι) :
    τ -> ι -> Nat × τ :=
  fun own p => (visit own (S.content p)).answer S (p :: active)

/-- No call of a walk comes to an item on which an outer walk stands. -/
def CleanVisits (S : Still δ ι α σ) (d : δ) (own : τ) (visit : τ -> α -> Callback δ α σ τ)
    (active : List ι) : Prop :=
  EachVisit (fun own p => p ∉ active ∧ (visit own (S.content p)).Clean S (p :: active))
    (answers S visit active) (S.order d) own

theorem Walked.clean_walk (h : Walked S F count foreach)
    (hcall : forall own p, (visit own (S.content p)).Clean S (p :: active) ->
      Cursor.Quiet (visitor foreach visit) S.marked S.content (answers S visit active) active own p)
    (hvisits : CleanVisits S d own visit active) :
    foreach d (visitor foreach visit) own (S.marked active) =
      some ((visitAll (answers S visit active) (S.order d) own).2, S.marked active) :=
  h.quiet (hvisits.mono fun own p _ hp => ⟨hp.left, hcall own p hp.right⟩)

theorem run_clean (h : Walked S F count foreach) (callback : Callback δ α σ τ)
    (hclean : callback.Clean S active) : callback.run foreach (S.marked active) =
      some ((callback.answer S active).1, (callback.answer S active).2, S.marked active) := by
  induction callback generalizing active with
  | ret result own => rfl
  | look next ih => exact ih (S.marked active) hclean
  | walk d own visit rest ihVisit ihRest =>
      rcases hclean with ⟨hvisits, hrest⟩
      have hwalk := h.clean_walk (fun own p hp => ihVisit own (S.content p) hp) hvisits
      unfold visitor at hwalk
      rw [run, hwalk]
      exact ihRest _ hrest

/-- Other callbacks free something, or unflag an item on which a walk stands, if
they return at all. -/
theorem run_broken (h : Walked S F count foreach) (callback : Callback δ α σ τ)
    (hclean : ¬callback.Clean S active) {s' : σ} {r : Nat} {own' : τ}
    (hrun : callback.run foreach (S.marked active) = some (r, own', s')) :
    F.Broken count active s' := by
  induction callback generalizing active s' r own' with
  | ret result own => exact absurd trivial hclean
  | look next ih => exact ih (S.marked active) hclean hrun
  | walk d own visit rest ihVisit ihRest =>
      rw [run, Option.bind_eq_some_iff] at hrun
      rcases hrun with ⟨⟨own₁, s₁⟩, hwalk, hrest⟩
      by_cases hvisits : CleanVisits S d own visit active
      · -- the walk is quiet, so the rest is not clean
        have hquiet := h.clean_walk (fun own p hp => run_clean h (visit own (S.content p)) hp)
          hvisits
        unfold visitor at hquiet
        rw [hwalk] at hquiet
        cases hquiet
        exact ihRest _ (fun hlater => hclean ⟨hvisits, hlater⟩) hrest
      · have hbreaks : Cursor.Breaks F count (visitor foreach visit) S.marked S.content
            (answers S visit active) active
            (fun own p => (visit own (S.content p)).Clean S (p :: active)) :=
          ⟨fun own a _ _ _ _ hcall => run_worse h (visit own a) hcall,
            fun own p hp => run_clean h (visit own (S.content p)) hp,
            fun own p hp _ _ _ hcall => ihVisit own (S.content p) hp hcall⟩
        exact (h.broken hbreaks hvisits hwalk).worse (run_worse h (rest own₁) hrest)

/-!
## The outermost walk
-/

/-- A walk outside any other leaves the container alone if it is clean; if it is
not and returns, something has been freed. -/
theorem foreach_clean (h : Walked S F count foreach) (hclean : CleanVisits S d own visit []) :
    exists own', foreach d (visitor foreach visit) own (S.marked []) =
      some (own', S.marked []) :=
  ⟨_, h.clean_walk (fun own p hp => run_clean h (visit own (S.content p)) hp) hclean⟩

theorem foreach_broken (h : Walked S F count foreach) (hclean : ¬CleanVisits S d own visit [])
    {own' : τ} {s' : σ}
    (hwalk : foreach d (visitor foreach visit) own (S.marked []) = some (own', s')) :
    count < F.freed s' := by
  have hrun : (walk d own visit fun own => ret 0 own).run foreach (S.marked []) =
      some (0, own', s') := by
    unfold visitor at hwalk
    rw [run, hwalk]
    rfl
  have hnot : ¬(walk d own visit fun own => ret 0 own).Clean S [] := by
    intro hwhole
    rw [Clean] at hwhole
    exact hclean hwhole.left
  rcases run_broken h _ hnot hrun with hfreed | ⟨p, hp, _⟩
  · exact hfreed
  · cases hp

end Callback

end Foundation
end MyLibs
