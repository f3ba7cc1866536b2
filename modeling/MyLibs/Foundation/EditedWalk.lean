import Mathlib.Algebra.Order.Ring.Nat
import MyLibs.Foundation.NestedWalk

/-!
# Walks over a changing sequence

A callback may take items out of the sequence it is called for, among them the
one it is called at, and may put others in. What such a walk visits is read off
its record: at which item each turn is, what the callback does in it, and what
it answers.
-/

namespace MyLibs
namespace Foundation

universe u

variable {ι α σ τ ρ : Type u}

structure Turn (ι ρ : Type u) where
  item : ι
  /-- What the callback does. -/
  note : ρ
  ret : Nat

/-!
## Records
-/

namespace Cursor

def noted (C : Cursor ι α σ) (note : τ -> α -> σ -> ρ) (p : ι) (own : τ) (s : σ) :
    Option ρ := do
  let s <- C.arrive p s
  let a <- C.content p s
  some (note own a s)

variable [DecidableEq ι]

/-- `Cursor.loop` with a record of its turns, which are there even if it does not
come to an end. -/
def recorded (C : Cursor ι α σ) (visit : Visitor τ α σ) (note : τ -> α -> σ -> ρ) :
    Nat -> ι -> τ -> σ -> List (Turn ι ρ) × Option (Nat × τ × σ)
  | 0, _, _, _ => ([], none)
  | turns + 1, p, own, s =>
      if p = C.nil then
        ([], some (0, own, s))
      else
        match C.noted note p own s, C.turn visit p own s with
        | some n, some (ret, next, own, s) =>
            if ret ≠ 0 then
              ([⟨p, n, ret⟩], some (ret, own, s))
            else
              let rest := recorded C visit note turns next own s
              (⟨p, n, ret⟩ :: rest.1, rest.2)
        | _, _ => ([], none)

variable {C : Cursor ι α σ} {visit : Visitor τ α σ} {note : τ -> α -> σ -> ρ} {p next : ι}
  {own own' : τ} {s s' : σ} {n : ρ} {ret : Nat}

theorem recorded_nil (turns : Nat) (own : τ) (s : σ) :
    C.recorded visit note (turns + 1) C.nil own s = ([], some (0, own, s)) :=
  if_pos rfl

theorem recorded_last (hp : p ≠ C.nil) (hnoted : C.noted note p own s = some n)
    (hturn : C.turn visit p own s = some (ret, next, own', s')) (hret : ret ≠ 0) (turns : Nat) :
    C.recorded visit note (turns + 1) p own s = ([⟨p, n, ret⟩], some (ret, own', s')) := by
  rw [recorded, if_neg hp, hnoted, hturn]
  exact if_pos hret

theorem recorded_next (hp : p ≠ C.nil) (hnoted : C.noted note p own s = some n)
    (hturn : C.turn visit p own s = some (0, next, own', s')) (turns : Nat) :
    C.recorded visit note (turns + 1) p own s =
      (⟨p, n, 0⟩ :: (C.recorded visit note turns next own' s').1,
        (C.recorded visit note turns next own' s').2) := by
  rw [recorded, if_neg hp, hnoted, hturn]
  exact if_neg (not_not_intro rfl)

theorem recorded_loop (visit : Visitor τ α σ) (note : τ -> α -> σ -> ρ) (turns : Nat) (p : ι)
    (own : τ) (s : σ) :
    (C.recorded visit note turns p own s).2 = C.loop visit turns p own s := by
  induction turns generalizing p own s with
  | zero => rfl
  | succ turns ih =>
      by_cases hp : p = C.nil
      · rw [recorded, if_pos hp, loop, if_pos hp]
      · cases hturn : C.turn visit p own s with
        | none =>
            rw [recorded, if_neg hp, loop_succ hp, hturn]
            cases C.noted note p own s with
            | none => rfl
            | some n => rfl
        | some result =>
            rcases result with ⟨ret, next, own₁, s₁⟩
            rcases turn_eq_some hturn with ⟨s₀, a, s₂, harrive, hcontent, _, _⟩
            have hnoted : C.noted note p own s = some (note own a s₀) := by
              simp [noted, harrive, hcontent]
            rw [loop_succ hp, hturn, Option.bind_some]
            cases ret with
            | zero =>
                rw [recorded_next hp hnoted hturn]
                exact ih next own₁ s₁
            | succ r =>
                rw [recorded_last hp hnoted hturn (Nat.succ_ne_zero r)]
                rfl

end Cursor

/-!
## What is visited
-/

section Visits

variable {deleted : ρ -> List ι} {New : List ι -> ι -> Prop} {turn : Turn ι ρ}
  {first visits : List (Turn ι ρ)} {gone rest : List ι}

def deletedIn (deleted : ρ -> List ι) (visits : List (Turn ι ρ)) : List ι :=
  visits.flatMap fun turn => deleted turn.note

theorem deletedIn_snoc (deleted : ρ -> List ι) (first : List (Turn ι ρ)) (turn : Turn ι ρ) :
    deletedIn deleted (first ++ [turn]) = deletedIn deleted first ++ deleted turn.note := by
  simp [deletedIn]

def insertedIn (inserted : ρ -> Nat) (visits : List (Turn ι ρ)) : Nat :=
  (visits.map fun turn => inserted turn.note).sum

variable [DecidableEq ι]

/-- The turns of a walk that is still to visit the items of `rest`, when those of
`gone` have been deleted. Each turn is at the first of them; one that is deleted
before its turn is not visited any more, and an answer that is not zero ends the
walk. In between the walk may come to an item that is `New`. -/
def Proceeds (deleted : ρ -> List ι) (New : List ι -> ι -> Prop) :
    List ι -> List ι -> List (Turn ι ρ) -> Prop
  | _, rest, [] => rest = []
  | gone, rest, turn :: visits => exists later,
      (rest = turn.item :: later ∨ New gone turn.item ∧ rest = later) ∧
        if turn.ret = 0 then
          Proceeds deleted New (gone ++ deleted turn.note)
            (later.filter fun p => p ∉ deleted turn.note) visits
        else
          visits = []

end Visits

/-!
## Walks that keep an invariant
-/

namespace Cursor

variable [DecidableEq ι] {C : Cursor ι α σ} {visit : Visitor τ α σ} {note : τ -> α -> σ -> ρ}
  {deleted : ρ -> List ι} {inserted : ρ -> Nat} {New : List ι -> ι -> Prop}
  {start ahead later gone : List ι} {Inv : List (Turn ι ρ) -> List ι -> σ -> Prop}
  {seen : List (Turn ι ρ)} {own : τ} {s : σ}

/-- A callback that counts down when it puts items in puts in no more than that. -/
theorem recorded_inserts_le {count : τ -> Nat}
    (hcount : forall own a s ret own' s', visit own a s = some (ret, own', s') ->
      inserted (note own a s) + count own' <= count own) (turns : Nat) (p : ι) (own : τ) (s : σ) :
    insertedIn inserted (C.recorded visit note turns p own s).1 <= count own := by
  induction turns generalizing p own s with
  | zero => exact Nat.zero_le _
  | succ turns ih =>
      rw [recorded]
      split
      · exact Nat.zero_le _
      · split
        · rename_i n ret next own₁ s₁ hnoted hturn
          rcases turn_eq_some hturn with ⟨s₀, a, s₂, harrive, hcontent, hvisit, _⟩
          have hn : n = note own a s₀ := by
            simpa [noted, harrive, hcontent] using hnoted.symm
          have hspent := hcount own a s₀ ret own₁ s₂ hvisit
          rw [← hn] at hspent
          split
          · show inserted n + 0 <= count own
            omega
          · have hrest := ih next own₁ s₁
            show inserted n + insertedIn inserted _ <= count own
            omega
        · exact Nat.zero_le _

def left (start gone items : List ι) : List ι :=
  items.filter fun p => p ∈ start ∧ p ∉ gone

theorem left_append (start gone first rest : List ι) :
    left start gone (first ++ rest) = left start gone first ++ left start gone rest :=
  List.filter_append ..

theorem filter_left (start gone deleted items : List ι) :
    (left start gone items).filter (fun p => p ∉ deleted) =
      left start (gone ++ deleted) items := by
  rw [left, left, List.filter_filter]
  congr 1
  funext p
  simp only [List.mem_append, not_or, ← Bool.decide_and]
  exact decide_eq_decide.mpr ⟨fun h => ⟨h.right.left, h.right.right, h.left⟩,
    fun h => ⟨h.right.right, h.left, h.right.left⟩⟩

theorem filter_gone (gone deleted items : List ι) :
    (items.filter fun p => p ∉ gone ++ deleted) =
      (items.filter fun p => p ∉ gone).filter fun p => p ∉ deleted := by
  rw [List.filter_filter]
  refine List.filter_congr fun p _ => Bool.eq_iff_iff.mpr ?_
  simp [and_comm]

theorem left_filter (start : List ι) {deleted : List ι} (items : List ι)
    (hsub : forall p, p ∈ deleted -> p ∈ gone) :
    left start gone (items.filter fun p => p ∉ deleted) = left start gone items := by
  rw [left, left, List.filter_filter]
  refine List.filter_congr fun p _ => Bool.eq_iff_iff.mpr ?_
  simp only [Bool.and_eq_true, decide_eq_true_eq]
  exact ⟨fun h => h.left, fun h => ⟨h, fun hp => h.right (hsub p hp)⟩⟩

/-- A walk of which an invariant tells the items ahead. What has been ahead from
the start and is not deleted stays ahead, in the same order. -/
structure Keeps (C : Cursor ι α σ) (visit : Visitor τ α σ) (note : τ -> α -> σ -> ρ)
    (deleted : ρ -> List ι) (inserted : ρ -> Nat) (New : List ι -> ι -> Prop) (start : List ι)
    (Inv : List (Turn ι ρ) -> List ι -> σ -> Prop) : Prop where
  ne_nil : forall {seen p ahead s}, Inv seen (p :: ahead) s -> p ≠ C.nil
  new : forall {seen p ahead s}, Inv seen (p :: ahead) s ->
    ¬(p ∈ start ∧ p ∉ deletedIn deleted seen) -> New (deletedIn deleted seen) p
  turn : forall {seen p ahead s}, Inv seen (p :: ahead) s -> forall own,
    exists n ret own' s' ahead', C.noted note p own s = some n ∧
      C.turn visit p own s = some (ret, ahead'.headD C.nil, own', s') ∧
      Inv (seen ++ [⟨p, n, ret⟩]) ahead' s' ∧
      ahead'.length <= ahead.length + inserted n ∧
      left start (deletedIn deleted seen ++ deleted n) ahead' =
        left start (deletedIn deleted seen ++ deleted n) ahead

theorem Keeps.proceeds_cons (h : Keeps C visit note deleted inserted New start Inv) {p : ι}
    {items : List ι} {visits : List (Turn ι ρ)} {n : ρ} {ret : Nat}
    (hinv : Inv seen (p :: ahead) s)
    (hrest : if ret = 0 then
        Proceeds deleted New (deletedIn deleted seen ++ deleted n)
          (left start (deletedIn deleted seen ++ deleted n) items) visits
      else visits = []) :
    Proceeds deleted New (deletedIn deleted seen) (left start (deletedIn deleted seen) (p :: items))
      (⟨p, n, ret⟩ :: visits) := by
  refine ⟨left start (deletedIn deleted seen) items, ?_, ?_⟩
  · by_cases hold : p ∈ start ∧ p ∉ deletedIn deleted seen
    · exact Or.inl (List.filter_cons_of_pos (by simpa using hold))
    · exact Or.inr ⟨h.new hinv hold, List.filter_cons_of_neg (by simpa using hold)⟩
  · rw [filter_left]
    exact hrest

/-- The walk comes to an end, if there is a bound on what is put in; `more` are
the turns of another walk that goes on with the items of `later`. -/
theorem Keeps.run (h : Keeps C visit note deleted inserted New start Inv) {turns budget : Nat}
    (hinv : Inv seen ahead s)
    (hbudget : forall n,
      insertedIn inserted (C.recorded visit note n (ahead.headD C.nil) own s).1 <= budget)
    (hturns : ahead.length + budget < turns) :
    exists visits ret own' s' ahead',
      C.recorded visit note turns (ahead.headD C.nil) own s = (visits, some (ret, own', s')) ∧
      Inv (seen ++ visits) ahead' s' ∧ (ret = 0 -> ahead' = []) ∧
      forall later more,
        (if ret = 0 then
          Proceeds deleted New (deletedIn deleted (seen ++ visits))
            (left start (deletedIn deleted (seen ++ visits)) later) more
        else more = []) ->
        Proceeds deleted New (deletedIn deleted seen)
          (left start (deletedIn deleted seen) (ahead ++ later)) (visits ++ more) := by
  induction turns generalizing seen ahead own s budget with
  | zero => cases hturns
  | succ turns ih =>
      cases ahead with
      | nil =>
          refine ⟨[], 0, own, s, [], recorded_nil turns own s, ?_, fun _ => rfl, ?_⟩
          · rw [List.append_nil]
            exact hinv
          · intro later more hmore
            rw [if_pos rfl, List.append_nil] at hmore
            exact hmore
      | cons p ahead =>
          have hp := h.ne_nil hinv
          rcases h.turn hinv own with
            ⟨n, ret, own₁, s₁, ahead₁, hnoted, hturn, hinv₁, hlength, hleft⟩
          have hleft' : forall later, left start (deletedIn deleted seen ++ deleted n)
              (ahead ++ later) = left start (deletedIn deleted (seen ++ [⟨p, n, ret⟩]))
                (ahead₁ ++ later) := by
            intro later
            rw [left_append, ← hleft, ← left_append, deletedIn_snoc]
          cases ret with
          | succ r =>
              refine ⟨[⟨p, n, r + 1⟩], r + 1, own₁, s₁, ahead₁,
                recorded_last hp hnoted hturn (Nat.succ_ne_zero r) turns, hinv₁,
                fun hzero => absurd hzero (Nat.succ_ne_zero r), fun later more hmore => ?_⟩
              rw [if_neg (Nat.succ_ne_zero r)] at hmore
              refine h.proceeds_cons hinv ?_
              rw [if_neg (Nat.succ_ne_zero r), hmore]
              rfl
          | zero =>
              have hrecord := recorded_next hp hnoted hturn
              have hbudget₁ : forall k, insertedIn inserted
                  (C.recorded visit note k (ahead₁.headD C.nil) own₁ s₁).1 <=
                    budget - inserted n := by
                intro k
                have hk := hbudget (k + 1)
                rw [List.headD_cons, hrecord k, insertedIn, List.map_cons, List.sum_cons] at hk
                exact Nat.le_sub_of_add_le' hk
              have hroom : inserted n <= budget := by
                have hone := hbudget 1
                rw [List.headD_cons, hrecord 0, insertedIn, List.map_cons, List.sum_cons] at hone
                exact Nat.le_trans (Nat.le_add_right _ _) hone
              have hturns₁ : ahead₁.length + (budget - inserted n) < turns := by
                rw [List.length_cons] at hturns
                omega
              rcases ih hinv₁ hbudget₁ hturns₁ with
                ⟨visits, ret, own', s', ahead', hrest, hinv', hend, hproceeds⟩
              refine ⟨⟨p, n, 0⟩ :: visits, ret, own', s', ahead', ?_, ?_, hend, ?_⟩
              · rw [List.headD_cons, hrecord turns, hrest]
              · rw [List.append_cons]
                exact hinv'
              · intro later more hmore
                refine h.proceeds_cons hinv ?_
                rw [List.append_cons] at hmore
                have hlater := hproceeds later more hmore
                rw [← hleft', deletedIn_snoc] at hlater
                exact hlater

end Cursor

end Foundation
end MyLibs
