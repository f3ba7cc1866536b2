import MyLibs.Foundation.IntervalDescent
import MyLibs.RBTree.Map
import MyLibs.RBTree.Walks

/-!
# Estimated positions

`rbtree_record_pos` halves the interval from 1 to `elements` at every level of
the tree, as if both subtrees always had the same size. The two `double`
variables are rational numbers here. `none` is `HA_POS_ERROR`, which no file of
the library defines.
-/

namespace MyLibs
namespace RBTree

open Foundation

section Model

variable {κ : Type _}

/-- The `switch` at an equal element: the new `cmp`, or the function returns. -/
def HaReadFunc.posAtEqual : HaReadFunc -> Option Int
  | .HA_READ_KEY_EXACT => some 1
  | .HA_READ_BEFORE_KEY => some 1
  | .HA_READ_AFTER_KEY => some (-1)
  | _ => none

/-- The `switch` at the end: which of `left` and `right` is returned. -/
def HaReadFunc.posAtEnd (flag : HaReadFunc) (left right : Rat) : Option Rat :=
  match flag with
  | .HA_READ_KEY_EXACT => some right
  | .HA_READ_BEFORE_KEY => some right
  | .HA_READ_AFTER_KEY => some left
  | _ => none

/-- The conversion of a `double` that is not negative to `unsigned long long`. -/
def truncated (x : Rat) : Nat :=
  x.floor.toNat

/-- `(left + right) / 2` -/
def middle (left right : Rat) : Rat :=
  (left + right) / 2

/-- The loop of `rbtree_record_pos`: `left` and `right` after it. -/
def recordPosLoop (compare : κ -> κ -> Int) (key : κ) (flag : HaReadFunc) (s : Nodes κ) :
    Nat -> Ptr -> Rat -> Rat -> Except Fault (Option (Rat × Rat))
  | 0, _, _, _ => .error .noFuel
  | fuel + 1, element, left, right =>
      if element = s.nullElement then
        .ok (some (left, right))
      else do
        let elementKey <- s.elementKey element
        let cmp := compare elementKey key
        match if cmp = 0 then flag.posAtEqual else some cmp with
        | none => .ok none
        | some cmp =>
            let e <- s.element element
            if cmp < 0 then
              recordPosLoop compare key flag s fuel e.right (middle left right) right
            else
              recordPosLoop compare key flag s fuel e.left left (middle left right)

/-- `rbtree_record_pos`, with a bound for the turns of its loop. -/
def rbtreeRecordPos (fuel : Nat) (tree : RbTree κ) (key : κ) (flag : HaReadFunc) :
    Except Fault (Option Nat) := do
  let ends <- recordPosLoop tree.compare key flag tree.nodes fuel tree.nodes.root 1 tree.elements
  .ok (ends.bind fun (left, right) => (flag.posAtEnd left right).map truncated)

end Model

variable {κ : Type} {compare : κ -> κ -> Int} {key key' : κ} {flag : HaReadFunc} {c : Int}

/-!
## The way down
-/

/-- The loop goes to the right at this element; `c` is the `cmp` for an equal
one. -/
def posRight (compare : κ -> κ -> Int) (key : κ) (c : Int) (u : Node κ) : Bool :=
  decide ((if compare u.key key = 0 then c else compare u.key key) < 0)

theorem posRight_iff {u : Node κ} : posRight compare key c u = true <->
    compare u.key key < 0 ∨ compare u.key key = 0 ∧ c < 0 := by
  rw [posRight, decide_eq_true_eq]
  split
  · omega
  · omega

theorem posRight_mono (hcompare : TotalPreorder compare) (hle : compare key key' <= 0)
    {u : Node κ} (h : posRight compare key c u = true) : posRight compare key' c u = true := by
  rw [posRight_iff] at h ⊢
  rcases h with hlt | ⟨hzero, hc⟩
  · exact Or.inl (hcompare.lt_of_lt_of_le hlt hle)
  · have hle' := hcompare.trans u.key key key' (by omega) hle
    omega

theorem posRight_first (hcompare : TotalPreorder compare) {l : List (Node κ)}
    (h : Ascending compare l) : RightFirst (posRight compare key c) l := by
  apply List.Pairwise.imp _ h
  intro u v huv hv
  rw [posRight_iff] at hv ⊢
  have hle : compare v.key key <= 0 := by omega
  exact Or.inl (hcompare.lt_of_lt_of_le huv hle)

theorem recordPosLoop_eq {s : Nodes κ} {ctx : Context (Node κ)} {t : ColourTree (Node κ)}
    (hequal : flag.posAtEqual = some c) {fuel : Nat} (hfuel : t.height < fuel)
    (h : Rep s (plug ctx t)) (left right : Rat) :
    recordPosLoop compare key flag s fuel (addrOf s.nullElement t) left right =
      .ok (some (halve middle (posRight compare key c) t left right)) := by
  induction t generalizing ctx fuel left right with
  | nil =>
      cases fuel with
      | zero => cases hfuel
      | succ fuel =>
          rw [recordPosLoop, addrOf, if_pos rfl]
          rfl
  | node col a v b iha ihb =>
      cases fuel with
      | zero => cases hfuel
      | succ fuel =>
          rw [ColourTree.height] at hfuel
          have hnode : Rep s (plug ctx (.mk .left col a v b)) := h
          have hleft : Rep s (plug (⟨.left, col, v, b⟩ :: ctx) a) := h
          have hright : Rep s (plug (⟨.right, col, v, a⟩ :: ctx) b) := h
          have hnull : addrOf s.nullElement (.node col a v b) ≠ s.nullElement := by
            rw [ne_eq, h.addrOf_eq_null_iff]
            exact ColourTree.mk_ne_nil .left col a v b
          have hcmp : (if compare v.key key = 0 then flag.posAtEqual
              else some (compare v.key key)) =
                some (if compare v.key key = 0 then c else compare v.key key) := by
            rw [hequal]
            split
            · rfl
            · rfl
          have haddr : addrOf s.nullElement (.node col a v b) = v.addr := rfl
          rw [recordPosLoop, if_neg hnull, haddr]
          simp only [bind, Except.bind, elementKey_eq hnode, hcmp, hnode.element, mkElement]
          by_cases hside : (if compare v.key key = 0 then c else compare v.key key) < 0
          · have hgoes : posRight compare key c v = true := decide_eq_true hside
            rw [if_pos hside, halve_right hgoes]
            exact ihb (by omega) hright _ right
          · have hgoes : posRight compare key c v = false := decide_eq_false hside
            rw [if_neg hside, halve_left hgoes]
            exact iha (by omega) hleft left _

def posEnds (compare : κ -> κ -> Int) (t : ColourTree (Node κ)) (elements : Nat) (key : κ)
    (c : Int) : Rat × Rat :=
  halve middle (posRight compare key c) t 1 elements

theorem rbtreeRecordPos_eq {tree : RbTree κ} {t : ColourTree (Node κ)}
    (h : Rep tree.nodes t) (hequal : flag.posAtEqual = some c) {fuel : Nat}
    (hfuel : t.height < fuel) (key : κ) :
    rbtreeRecordPos fuel tree key flag =
      .ok ((flag.posAtEnd (posEnds tree.compare t tree.elements key c).1
        (posEnds tree.compare t tree.elements key c).2).map truncated) := by
  have hrep : Rep tree.nodes (plug [] t) := h
  rw [rbtreeRecordPos, h.root_eq, recordPosLoop_eq hequal hfuel hrep]
  rfl

/-!
## Arithmetic
-/

theorem middle_between : Between middle := by
  intro left right hle
  unfold middle
  constructor
  · grind
  · grind

theorem one_le_elements {elements : Nat} (helements : elements ≠ 0) :
    (1 : Rat) <= elements := by
  exact_mod_cast Nat.one_le_iff_ne_zero.mpr helements

theorem truncated_mono {x y : Rat} (h : x <= y) : truncated x <= truncated y :=
  Int.toNat_le_toNat (Rat.floor_monotone h)

theorem truncated_between {x : Rat} {n : Nat} (hlow : 1 <= x) (hhigh : x <= n) :
    1 <= truncated x ∧ truncated x <= n := by
  have hone : truncated 1 = 1 := by
    decide
  have hn : truncated n = n := by
    rw [truncated, show (n : Rat) = ((n : Int) : Rat) from rfl, Rat.floor_intCast]
    rfl
  constructor
  · rw [← hone]
    exact truncated_mono hlow
  · rw [← hn]
    exact truncated_mono hhigh

/-!
## Positions
-/

def posOf (compare : κ -> κ -> Int) (t : ColourTree (Node κ)) (elements : Nat)
    (flag : HaReadFunc) (key : κ) : Nat :=
  match flag with
  | .HA_READ_AFTER_KEY => truncated (posEnds compare t elements key (-1)).1
  | _ => truncated (posEnds compare t elements key 1).2

def HaReadFunc.HasPosition (flag : HaReadFunc) : Prop :=
  flag = .HA_READ_KEY_EXACT ∨ flag = .HA_READ_BEFORE_KEY ∨ flag = .HA_READ_AFTER_KEY

variable {tree : RbTree κ} {t : ColourTree (Node κ)} {elements : Nat}

theorem rbtreeRecordPos_posOf (h : Rep tree.nodes t) (hflag : flag.HasPosition) {fuel : Nat}
    (hfuel : t.height < fuel) (key : κ) :
    rbtreeRecordPos fuel tree key flag =
      .ok (some (posOf tree.compare t tree.elements flag key)) := by
  rcases hflag with hexact | hbefore | hafter
  · rw [hexact]
    exact rbtreeRecordPos_eq h rfl hfuel key
  · rw [hbefore]
    exact rbtreeRecordPos_eq h rfl hfuel key
  · rw [hafter]
    exact rbtreeRecordPos_eq h rfl hfuel key

theorem posEnds_inside (compare : κ -> κ -> Int) (t : ColourTree (Node κ))
    (helements : elements ≠ 0) (key : κ) (c : Int) :
    1 <= (posEnds compare t elements key c).1 ∧
      (posEnds compare t elements key c).1 <= (posEnds compare t elements key c).2 ∧
      (posEnds compare t elements key c).2 <= elements :=
  halve_inside middle_between (posRight compare key c) t (one_le_elements helements)

theorem posEnds_mono (hcompare : TotalPreorder compare) (helements : elements ≠ 0)
    (hle : compare key key' <= 0) (c : Int) :
    (posEnds compare t elements key c).1 <= (posEnds compare t elements key' c).1 ∧
      (posEnds compare t elements key c).2 <= (posEnds compare t elements key' c).2 := by
  apply halve_mono middle_between t _ (one_le_elements helements)
  intro u _ hright
  exact posRight_mono hcompare hle hright

theorem posOf_between (helements : elements ≠ 0) (hflag : flag.HasPosition) (key : κ) :
    1 <= posOf compare t elements flag key ∧ posOf compare t elements flag key <= elements := by
  rcases posEnds_inside compare t helements key 1 with ⟨hlow, hordered, hhigh⟩
  rcases posEnds_inside compare t helements key (-1) with ⟨hlow', hordered', hhigh'⟩
  rcases hflag with hexact | hbefore | hafter
  · rw [hexact]
    exact truncated_between (Std.le_trans hlow hordered) hhigh
  · rw [hbefore]
    exact truncated_between (Std.le_trans hlow hordered) hhigh
  · rw [hafter]
    exact truncated_between hlow' (Std.le_trans hordered' hhigh')

theorem posOf_mono (hcompare : TotalPreorder compare) (helements : elements ≠ 0)
    (hflag : flag.HasPosition) (hle : compare key key' <= 0) :
    posOf compare t elements flag key <= posOf compare t elements flag key' := by
  rcases hflag with hexact | hbefore | hafter
  · rw [hexact]
    exact truncated_mono (posEnds_mono hcompare helements hle 1).right
  · rw [hbefore]
    exact truncated_mono (posEnds_mono hcompare helements hle 1).right
  · rw [hafter]
    exact truncated_mono (posEnds_mono hcompare helements hle (-1)).left

/-- The ways of the two modes for a key that is there part at its element. -/
theorem posOf_exact_le_after (hcompare : TotalPreorder compare)
    (hascending : Ascending compare t.toList) (helements : elements ≠ 0) {u : Node κ}
    (hu : u ∈ t.toList) (hpresent : compare u.key key = 0) :
    posOf compare t elements .HA_READ_KEY_EXACT key <=
      posOf compare t elements .HA_READ_AFTER_KEY key := by
  have hmore : forall v, v ∈ t.toList -> posRight compare key 1 v = true ->
      posRight compare key (-1) v = true := by
    intro v _ hv
    rw [posRight_iff] at hv ⊢
    omega
  have hleft : posRight compare key 1 u = false := by
    rw [posRight, if_pos hpresent]
    rfl
  have hright : posRight compare key (-1) u = true := by
    rw [posRight, if_pos hpresent]
    rfl
  exact truncated_mono (halve_apart middle_between t hmore
    (posRight_first hcompare hascending) (posRight_first hcompare hascending)
    (one_le_elements helements) hu hleft hright)

/-!
## Reachable trees
-/

variable {settings : Settings κ} {calls : List (Call κ)}

/-- In every reachable tree that counts its elements, positions lie between 1
and their number and ascend with the key in each mode, and from `HA_READ_KEY_EXACT`
to `HA_READ_AFTER_KEY` for a key that is there. -/
theorem record_pos_ascends (h : settings.Proper)
    (hrun : Run Call.Allowed settings.start calls tree) (helements : tree.elements ≠ 0) :
    exists (t : ColourTree (Node κ)) (pos : HaReadFunc -> κ -> Nat), Rep tree.nodes t ∧
      tree.elements = uint t.size ∧
      (forall flag, flag.HasPosition -> forall key fuel, t.height < fuel ->
        rbtreeRecordPos fuel tree key flag = .ok (some (pos flag key))) ∧
      (forall flag, flag.HasPosition -> forall key,
        1 <= pos flag key ∧ pos flag key <= tree.elements) ∧
      (forall flag, flag.HasPosition -> forall key key', settings.compare key key' <= 0 ->
        pos flag key <= pos flag key') ∧
      (forall key u, u ∈ t.toList -> settings.compare u.key key = 0 ->
        pos .HA_READ_KEY_EXACT key <= pos .HA_READ_AFTER_KEY key) ∧
      forall key key' u, u ∈ t.toList -> settings.compare u.key key = 0 ->
        settings.compare key key' <= 0 ->
          pos .HA_READ_KEY_EXACT key <= pos .HA_READ_AFTER_KEY key' := by
  rcases hrun.valid h with ⟨hsettings, t, hvalid⟩
  have hcompare : TotalPreorder tree.compare := by
    rw [hsettings.compare_eq]
    exact h.compare
  have hsame : settings.compare = tree.compare := hsettings.compare_eq.symm
  rw [hsame]
  have hpresent : forall key u, u ∈ t.toList -> tree.compare u.key key = 0 ->
      posOf tree.compare t tree.elements .HA_READ_KEY_EXACT key <=
        posOf tree.compare t tree.elements .HA_READ_AFTER_KEY key :=
    fun key u hu => posOf_exact_le_after hcompare hvalid.ascending helements hu
  have hmono : forall flag : HaReadFunc, flag.HasPosition -> forall key key',
      tree.compare key key' <= 0 -> posOf tree.compare t tree.elements flag key <=
        posOf tree.compare t tree.elements flag key' :=
    fun flag hflag key key' => posOf_mono hcompare helements hflag
  refine ⟨t, posOf tree.compare t tree.elements, hvalid.rep, hvalid.elements_eq, ?_, ?_,
    hmono, hpresent, ?_⟩
  · intro flag hflag key fuel hfuel
    exact rbtreeRecordPos_posOf hvalid.rep hflag hfuel key
  · intro flag hflag key
    exact posOf_between helements hflag key
  · intro key key' u hu hequal hle
    have hafter : HaReadFunc.HasPosition .HA_READ_AFTER_KEY := Or.inr (Or.inr rfl)
    exact Nat.le_trans (hpresent key u hu hequal) (hmono .HA_READ_AFTER_KEY hafter key key' hle)

theorem record_pos_ascends_two : exists tree,
    Run Call.Allowed integerSettings.start (countingCalls 2) tree ∧
      exists (t : ColourTree (Node Int)) (pos : HaReadFunc -> Int -> Nat), Rep tree.nodes t ∧
        (forall key fuel, t.height < fuel ->
          rbtreeRecordPos fuel tree key .HA_READ_KEY_EXACT =
            .ok (some (pos .HA_READ_KEY_EXACT key))) ∧
        1 <= pos .HA_READ_KEY_EXACT 0 ∧
        pos .HA_READ_KEY_EXACT 0 <= pos .HA_READ_KEY_EXACT 1 ∧
        pos .HA_READ_KEY_EXACT 1 <= 2 := by
  rcases countingCalls_run 2 (by decide) with ⟨tree, t, hrun, hvalid, _, hsize, _⟩
  have hallowed := hrun.mono fun _ _ hsucceeds => hsucceeds.allowed
  have helements : tree.elements = 2 := by
    rw [hvalid.elements_eq, hsize]
    rfl
  have hne : tree.elements ≠ 0 := by
    rw [helements]
    decide
  rcases record_pos_ascends integerSettings_proper hallowed hne with
    ⟨t', pos, hrep, _, hreturns, hbetween, hmono, _⟩
  have hexact : HaReadFunc.HasPosition .HA_READ_KEY_EXACT := Or.inl rfl
  rw [helements] at hbetween
  exact ⟨tree, hallowed, t', pos, hrep, hreturns _ hexact, (hbetween _ hexact 0).left,
    hmono _ hexact 0 1 (by decide), (hbetween _ hexact 1).right⟩

/-- With 2^32 elements the tree counts none, and no position is between 1 and
0. -/
theorem record_pos_outside : exists tree,
    Run Call.Allowed integerSettings.start (countingCalls (2 ^ 32)) tree ∧
      exists t : ColourTree (Node Int), Rep tree.nodes t ∧ t.size = 2 ^ 32 ∧
        forall flag, flag.HasPosition -> exists pos,
          (forall fuel, t.height < fuel ->
            rbtreeRecordPos fuel tree 0 flag = .ok (some pos)) ∧
          ¬ (1 <= pos ∧ pos <= tree.elements) := by
  rcases countingCalls_run (2 ^ 32) (Nat.le_refl _) with
    ⟨tree, t, hrun, hvalid, _, hsize, _⟩
  have helements : tree.elements = 0 := by
    rw [hvalid.elements_eq, hsize]
    rfl
  refine ⟨tree, hrun.mono fun _ _ hsucceeds => hsucceeds.allowed, t, hvalid.rep, hsize, ?_⟩
  intro flag hflag
  refine ⟨posOf tree.compare t tree.elements flag 0, ?_, ?_⟩
  · intro fuel hfuel
    exact rbtreeRecordPos_posOf hvalid.rep hflag hfuel 0
  · intro hbetween
    rw [helements] at hbetween
    exact Nat.not_succ_le_zero 0 (Nat.le_trans hbetween.left hbetween.right)

end RBTree
end MyLibs
