import MyLibs.Foundation.TreeContext

/-!
# Red-black trees

The colour rules for trees and for trees with a hole, and how large a tree of a
given height has to be.
-/

namespace MyLibs
namespace Foundation

variable {α : Type _}

/-- No red node has a red child, and every path down has `n` black nodes. -/
def IsRedBlack : ColourTree α -> Nat -> Prop
  | .nil, n => n = 0
  | .node .red l _ r, n =>
      l.colour = .black ∧ r.colour = .black ∧ IsRedBlack l n ∧ IsRedBlack r n
  | .node .black _ _ _, 0 => False
  | .node .black l _ r, n + 1 => IsRedBlack l n ∧ IsRedBlack r n

def RedBlackTree (t : ColourTree α) : Prop :=
  t.colour = .black ∧ exists n, IsRedBlack t n

/-- The rules a context keeps around a hole of black height `n`. -/
def Fits : Context α -> Nat -> Prop
  | [], _ => True
  | f :: ctx, n => IsRedBlack f.sibling n ∧
      match f.colour with
      | .red => f.sibling.colour = .black ∧ ctx ≠ [] ∧ headColour ctx = .black ∧ Fits ctx n
      | .black => Fits ctx (n + 1)

variable {n : Nat} {d : Dir} {t a b : ColourTree α} {v : α} {ctx : Context α}

theorem isRedBlack_nil_iff : IsRedBlack (.nil : ColourTree α) n <-> n = 0 := by
  cases n <;> exact Iff.rfl

theorem isRedBlack_red_iff : IsRedBlack (.mk d .red a v b) n <->
    a.colour = .black ∧ b.colour = .black ∧ IsRedBlack a n ∧ IsRedBlack b n := by
  cases d with
  | left => cases n <;> exact Iff.rfl
  | right =>
      have hswap : IsRedBlack (.mk .right .red a v b) n <->
          b.colour = .black ∧ a.colour = .black ∧ IsRedBlack b n ∧ IsRedBlack a n := by
        cases n <;> exact Iff.rfl
      rw [hswap]
      tauto

theorem isRedBlack_black_iff : IsRedBlack (.mk d .black a v b) (n + 1) <->
    IsRedBlack a n ∧ IsRedBlack b n := by
  cases d with
  | left => exact Iff.rfl
  | right => exact and_comm

theorem isRedBlack_black_zero : ¬ IsRedBlack (.mk d .black a v b) 0 := by
  cases d <;> exact id

theorem IsRedBlack.ne_nil (h : IsRedBlack t (n + 1)) : t ≠ .nil := by
  rintro rfl
  exact absurd (isRedBlack_nil_iff.mp h) (Nat.succ_ne_zero n)

theorem IsRedBlack.blacken (h : IsRedBlack t n) (hred : t.colour = .red) :
    IsRedBlack (t.setColour .black) (n + 1) := by
  rcases ColourTree.exists_mk_of_red .left hred with ⟨a, v, b, rfl⟩
  rw [isRedBlack_red_iff] at h
  rw [ColourTree.setColour_mk, isRedBlack_black_iff]
  exact h.right.right

theorem RedBlackTree.of_setColour {t : ColourTree α} (h : exists n, IsRedBlack t n) :
    RedBlackTree (t.setColour .black) := by
  rcases h with ⟨n, h⟩
  cases hcolour : t.colour with
  | black =>
      rw [ColourTree.setColour_self hcolour]
      exact ⟨hcolour, n, h⟩
  | red =>
      exact ⟨ColourTree.colour_setColour .black hcolour, n + 1, h.blacken hcolour⟩

/-!
## Paths
-/

def ColourTree.blackCounts : ColourTree α -> List Nat
  | .nil => [0]
  | .node .red l _ r => l.blackCounts ++ r.blackCounts
  | .node .black l _ r => (l.blackCounts ++ r.blackCounts).map (· + 1)

def ColourTree.NoRedChild : ColourTree α -> Prop
  | .nil => True
  | .node c l _ r => (c = .red -> l.colour = .black ∧ r.colour = .black) ∧
      l.NoRedChild ∧ r.NoRedChild

theorem IsRedBlack.blackCounts_eq (h : IsRedBlack t n) :
    forall m, m ∈ t.blackCounts -> m = n := by
  induction t generalizing n with
  | nil =>
      intro m hm
      rw [isRedBlack_nil_iff.mp h]
      exact List.mem_singleton.mp hm
  | node c l v r ihl ihr =>
      intro m hm
      cases c with
      | red =>
          rcases h with ⟨_, _, hl, hr⟩
          exact (List.mem_append.mp hm).elim (ihl hl m) (ihr hr m)
      | black =>
          cases n with
          | zero => cases h
          | succ n =>
              rcases List.mem_map.mp hm with ⟨k, hk, rfl⟩
              exact congrArg Nat.succ ((List.mem_append.mp hk).elim (ihl h.left k) (ihr h.right k))

theorem IsRedBlack.noRedChild (h : IsRedBlack t n) : t.NoRedChild := by
  induction t generalizing n with
  | nil => trivial
  | node c l v r ihl ihr =>
      cases c with
      | red =>
          rcases h with ⟨hlblack, hrblack, hl, hr⟩
          exact ⟨fun _ => ⟨hlblack, hrblack⟩, ihl hl, ihr hr⟩
      | black =>
          cases n with
          | zero => cases h
          | succ n => exact ⟨(fun hred => by cases hred), ihl h.left, ihr h.right⟩

/-!
## Filling a hole
-/

theorem RedBlackTree.plug (hctx : Fits ctx n) (ht : IsRedBlack t n)
    (hcolour : t.colour = .black ∨ ctx ≠ [] ∧ headColour ctx = .black) :
    RedBlackTree (plug ctx t) := by
  induction ctx generalizing t n with
  | nil =>
      rcases hcolour with hblack | ⟨hne, _⟩
      · exact ⟨hblack, n, ht⟩
      · exact absurd rfl hne
  | cons f ctx ih =>
      rcases f with ⟨d, c, v, s⟩
      cases c with
      | red =>
          rcases hctx with ⟨hs, hsblack, hne, hhead, hctx⟩
          rcases hcolour with hblack | ⟨_, hhead'⟩
          · exact ih hctx (isRedBlack_red_iff.mpr ⟨hblack, hsblack, ht, hs⟩)
              (Or.inr ⟨hne, hhead⟩)
          · cases hhead'
      | black =>
          rcases hctx with ⟨hs, hctx⟩
          exact ih hctx (isRedBlack_black_iff.mpr ⟨ht, hs⟩)
            (Or.inl (ColourTree.colour_mk d .black t v s))

theorem RedBlackTree.unplug (h : RedBlackTree (Foundation.plug ctx t)) :
    exists n, Fits ctx n ∧ IsRedBlack t n ∧
      (t.colour = .black ∨ ctx ≠ [] ∧ headColour ctx = .black) := by
  induction ctx generalizing t with
  | nil =>
      rcases h with ⟨hblack, n, ht⟩
      exact ⟨n, trivial, ht, Or.inl hblack⟩
  | cons f ctx ih =>
      rcases ih h with ⟨n, hctx, hfill, hcolour⟩
      rcases f with ⟨d, c, v, s⟩
      cases c with
      | red =>
          rcases isRedBlack_red_iff.mp hfill with ⟨htblack, hsblack, ht, hs⟩
          rcases hcolour with hblack | ⟨hne, hhead⟩
          · rw [Frame.fill, ColourTree.colour_mk] at hblack
            cases hblack
          · exact ⟨n, ⟨hs, hsblack, hne, hhead, hctx⟩, ht, Or.inl htblack⟩
      | black =>
          cases n with
          | zero => exact absurd hfill isRedBlack_black_zero
          | succ n =>
              rcases isRedBlack_black_iff.mp hfill with ⟨ht, hs⟩
              exact ⟨n, ⟨hs, hctx⟩, ht, Or.inr ⟨List.cons_ne_nil _ _, rfl⟩⟩

theorem RedBlackTree.congr_value {c : Colour} {v' : α}
    (h : RedBlackTree (Foundation.plug ctx (.node c a v b))) :
    RedBlackTree (Foundation.plug ctx (.node c a v' b)) := by
  rcases h.unplug with ⟨n, hctx, hnode, hcolour⟩
  have hnode' : IsRedBlack (.node c a v' b) n := by
    cases c <;> cases n <;> exact hnode
  exact .plug hctx hnode' hcolour

theorem Fits.congr_value {inner : Context α} {f : Frame α} (v' : α)
    (h : Fits (inner ++ f :: ctx) n) : Fits (inner ++ { f with value := v' } :: ctx) n := by
  induction inner generalizing n with
  | nil => exact h
  | cons g inner ih =>
      rcases g with ⟨d, c, w, s⟩
      cases c with
      | black => exact ⟨h.left, ih h.right⟩
      | red =>
          rcases h with ⟨hs, hsblack, _, hhead, hrest⟩
          have hhead' : headColour (inner ++ { f with value := v' } :: ctx) = .black := by
            cases inner <;> exact hhead
          exact ⟨hs, hsblack, List.append_ne_nil_of_right_ne_nil _ (List.cons_ne_nil _ _),
            hhead', ih hrest⟩

/-!
## Height and size
-/

theorem IsRedBlack.height_le (h : IsRedBlack t n) :
    t.height <= 2 * n + 1 ∧ (t.colour = .black -> t.height <= 2 * n) := by
  induction t generalizing n with
  | nil => simp [ColourTree.height]
  | node c l v r ihl ihr =>
      cases c with
      | red =>
          rcases h with ⟨hlblack, hrblack, hl, hr⟩
          have hleft := (ihl hl).right hlblack
          have hright := (ihr hr).right hrblack
          refine ⟨?_, fun hblack => by cases hblack⟩
          rw [ColourTree.height]
          omega
      | black =>
          cases n with
          | zero => cases h
          | succ n =>
              have hleft := (ihl h.left).left
              have hright := (ihr h.right).left
              rw [ColourTree.height]
              omega

theorem IsRedBlack.le_height (h : IsRedBlack t n) : n <= t.height := by
  induction t generalizing n with
  | nil => exact Nat.le_of_eq (isRedBlack_nil_iff.mp h)
  | node c l v r ihl ihr =>
      cases c with
      | red =>
          have hleft := ihl h.right.right.left
          rw [ColourTree.height]
          omega
      | black =>
          cases n with
          | zero => cases h
          | succ n =>
              have hleft := ihl h.left
              rw [ColourTree.height]
              omega

/-- Besides the black nodes of a full tree there are the red ones of a longest
path. -/
theorem IsRedBlack.size_ge (h : IsRedBlack t n) : 2 ^ n + t.height <= t.size + 1 + n := by
  induction t generalizing n with
  | nil =>
      rw [isRedBlack_nil_iff.mp h]
      simp [ColourTree.height, ColourTree.size]
  | node c l v r ihl ihr =>
      cases c with
      | red =>
          rcases h with ⟨_, _, hl, hr⟩
          have hleft := ihl hl
          have hright := ihr hr
          have hlheight := hl.le_height
          have hrheight := hr.le_height
          have hpos : 0 < 2 ^ n := Nat.two_pow_pos n
          rw [ColourTree.height, ColourTree.size]
          omega
      | black =>
          cases n with
          | zero => cases h
          | succ n =>
              have hleft := ihl h.left
              have hright := ihr h.right
              have hlheight := h.left.le_height
              have hrheight := h.right.le_height
              rw [ColourTree.height, ColourTree.size, Nat.pow_succ]
              omega

/-- Up to 2^32 nodes make a tree of height 62 at most. -/
theorem RedBlackTree.height_le_of_le (h : RedBlackTree t) (hsize : t.size <= 2 ^ 32) :
    t.height <= 62 := by
  rcases h with ⟨hblack, n, h⟩
  have hheight := h.height_le.right hblack
  have hle := h.le_height
  have hge := h.size_ge
  by_contra hlt
  have hn : 32 <= n := by omega
  cases Nat.lt_or_ge 32 n with
  | inl hn =>
      have hpow : 2 ^ 33 <= 2 ^ n := Nat.pow_le_pow_right (by decide) hn
      omega
  | inr hn' =>
      have heq : n = 32 := Nat.le_antisymm hn' hn
      subst heq
      omega

theorem RedBlackTree.height_le (h : RedBlackTree t) (hsize : t.size < 2 ^ 32) :
    t.height <= 62 :=
  h.height_le_of_le (Nat.le_of_lt hsize)

/-!
## Wrong colours
-/

theorem IsRedBlack.unique {m : Nat} (h : IsRedBlack t m) (h' : IsRedBlack t n) : m = n := by
  induction t generalizing m n with
  | nil => exact (isRedBlack_nil_iff.mp h).trans (isRedBlack_nil_iff.mp h').symm
  | node c l v r ihl _ =>
      cases c with
      | red => exact ihl h.right.right.left h'.right.right.left
      | black =>
          cases m with
          | zero => cases h
          | succ m =>
              cases n with
              | zero => cases h'
              | succ n => exact congrArg Nat.succ (ihl h.left h'.left)

theorem IsRedBlack.recoloured {c c' : Colour} {m : Nat} (h : IsRedBlack (.mk d c a v b) m)
    (h' : IsRedBlack (.mk d c' a v b) n) (hne : c' ≠ c) : m ≠ n := by
  have hblack {k : Nat} (h : IsRedBlack (.mk d .black a v b) k) :
      exists l, k = l + 1 ∧ IsRedBlack a l := by
    cases k with
    | zero => exact absurd h isRedBlack_black_zero
    | succ l => exact ⟨l, rfl, (isRedBlack_black_iff.mp h).left⟩
  cases c with
  | red =>
      cases c' with
      | red => exact absurd rfl hne
      | black =>
          rcases hblack h' with ⟨l, hn, ha⟩
          have hsame := (isRedBlack_red_iff.mp h).right.right.left.unique ha
          omega
  | black =>
      cases c' with
      | black => exact absurd rfl hne
      | red =>
          rcases hblack h with ⟨l, hm, ha⟩
          have hsame := (isRedBlack_red_iff.mp h').right.right.left.unique ha
          omega

theorem IsRedBlack.node {c : Colour} (v : α) (ha : IsRedBlack a n)
    (hcolour : ¬ (c = .red ∧ (a.colour = .red ∨ b.colour = .red))) (hb : IsRedBlack b n) :
    exists k, IsRedBlack (.node c a v b) k := by
  cases c with
  | red =>
      have hblack : a.colour = .black ∧ b.colour = .black := by
        cases hacolour : a.colour with
        | red => exact absurd ⟨rfl, Or.inl hacolour⟩ hcolour
        | black =>
            cases hbcolour : b.colour with
            | red => exact absurd ⟨rfl, Or.inr hbcolour⟩ hcolour
            | black => exact ⟨rfl, rfl⟩
      exact ⟨n, hblack.left, hblack.right, ha, hb⟩
  | black => exact ⟨n + 1, ha, hb⟩

theorem IsRedBlack.unfill {f : Frame α} (h : IsRedBlack (f.fill t) n) :
    exists m, IsRedBlack t m ∧ IsRedBlack f.sibling m := by
  rcases f with ⟨d, c, v, s⟩
  cases c with
  | red =>
      rcases isRedBlack_red_iff.mp h with ⟨_, _, ht, hs⟩
      exact ⟨n, ht, hs⟩
  | black =>
      cases n with
      | zero => exact absurd h isRedBlack_black_zero
      | succ n => exact ⟨n, isRedBlack_black_iff.mp h⟩

theorem IsRedBlack.part (h : IsRedBlack (plug ctx t) n) : exists m, IsRedBlack t m := by
  induction ctx generalizing t with
  | nil => exact ⟨n, h⟩
  | cons f ctx ih =>
      rcases ih h with ⟨k, hfill⟩
      rcases hfill.unfill with ⟨m, ht, _⟩
      exact ⟨m, ht⟩

/-- One wrong colour below the root breaks the rules, since the paths beside it keep their
black nodes. -/
theorem IsRedBlack.not_recoloured {c c' : Colour} {f : Frame α}
    (h : IsRedBlack (plug (f :: ctx) (.mk d c a v b)) n) (hne : c' ≠ c) (m : Nat) :
    ¬ IsRedBlack (plug (f :: ctx) (.mk d c' a v b)) m := by
  intro h'
  have hpart : IsRedBlack (plug ctx (f.fill (.mk d c a v b))) n := h
  have hpart' : IsRedBlack (plug ctx (f.fill (.mk d c' a v b))) m := h'
  rcases hpart.part with ⟨k, hfill⟩
  rcases hpart'.part with ⟨k', hfill'⟩
  rcases hfill.unfill with ⟨l, ht, hs⟩
  rcases hfill'.unfill with ⟨l', ht', hs'⟩
  exact ht.recoloured ht' hne (hs.unique hs')

end Foundation
end MyLibs
