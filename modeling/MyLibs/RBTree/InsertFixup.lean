import MyLibs.Foundation.RedBlack
import MyLibs.RBTree.Writes

/-!
# The path stack and the insertion fixup
-/

namespace MyLibs
namespace RBTree

open Foundation

variable {κ : Type _} {s s' : Nodes κ} {d : Dir} {c : Colour}
  {a b t : ColourTree (Node κ)} {v : Node κ} {ctx : Context (Node κ)} {f g : Frame (Node κ)}
  {n : Nat}

/-!
## The path stack
-/

/-- The stack holds the links on the way from the root to the hole. -/
def StackFor (parents : Nat -> Link) : Context (Node κ) -> Prop
  | [] => parents 0 = .root
  | f :: ctx => parents (ctx.length + 1) = .child f.dir f.value.addr ∧ StackFor parents ctx

theorem StackFor.top {parents : Nat -> Link} (h : StackFor parents ctx) :
    parents ctx.length = linkOf ctx := by
  cases ctx with
  | nil => exact h
  | cons f ctx => exact h.left

theorem parentAt_eq (h : StackFor s.parents ctx) (hlen : ctx.length < MAX_rbtree_HEIGHT) :
    s.parentAt ctx.length = .ok (linkOf ctx) := by
  rw [Nodes.parentAt, if_pos hlen, h.top]

theorem parentAbove_one (h : StackFor s.parents (f :: ctx))
    (hlen : ctx.length < MAX_rbtree_HEIGHT) :
    s.parentAbove (f :: ctx).length 1 = .ok (linkOf ctx) := by
  rw [Nodes.parentAbove, List.length_cons, if_pos (Nat.le_add_left 1 ctx.length),
    Nat.add_sub_cancel]
  exact parentAt_eq h.right hlen

theorem parentAbove_two (h : StackFor s.parents (f :: g :: ctx))
    (hlen : ctx.length < MAX_rbtree_HEIGHT) :
    s.parentAbove (f :: g :: ctx).length 2 = .ok (linkOf ctx) := by
  rw [Nodes.parentAbove, List.length_cons, List.length_cons,
    if_pos (Nat.le_add_left 2 ctx.length)]
  exact parentAt_eq h.right.right hlen

/-!
## Looking around the hole
-/

theorem Rep.frame_element (h : Rep s (plug (f :: ctx) t)) :
    s.element f.value.addr = .ok (mkElement f.dir (addrOf s.nullElement t)
      (addrOf s.nullElement f.sibling) f.colour f.value) := by
  have hfill : Rep s (plug ctx (.mk f.dir f.colour t f.value f.sibling)) := h
  exact hfill.element

theorem Rep.toSibling (h : Rep s (plug (f :: ctx) t)) :
    Rep s (plug (({ f with dir := f.dir.other, sibling := t } : Frame (Node κ)) :: ctx)
      f.sibling) := by
  rw [plug_cons, ← Frame.fill_mk]
  exact h

theorem Rep.sibling_element (h : Rep s (plug (f :: ctx) t)) : exists e,
    s.element (addrOf s.nullElement f.sibling) = .ok e ∧ e.colour = f.sibling.colour :=
  h.toSibling.exists_element

theorem Rep.sides_ne (h : Rep s (plug ctx (.mk d c a v b))) (hne : a ≠ .nil ∨ b ≠ .nil) :
    addrOf s.nullElement a ≠ addrOf s.nullElement b := by
  have hnodup := h.nodup
  rw [nodup_plug, nodup_mk] at hnodup
  have hnull : forall {x : ColourTree (Node κ)}, (x = a ∨ x = b) -> x ≠ .nil ->
      addrOf s.nullElement x ≠ s.nullElement := by
    intro x hx hxne
    refine h.null_ne (mem_addrs_mk.mpr (Or.inr ?_))
    rcases hx with rfl | rfl
    · exact Or.inl (addrOf_mem hxne s.nullElement)
    · exact Or.inr (addrOf_mem hxne s.nullElement)
  intro heq
  by_cases ha : a = .nil
  · rw [ha] at heq
    exact hnull (Or.inr rfl) (hne.resolve_left (not_not.mpr ha)) heq.symm
  · by_cases hb : b = .nil
    · rw [hb] at heq
      exact hnull (Or.inl rfl) ha heq
    · have hmem := addrOf_mem hb s.nullElement
      rw [← heq] at hmem
      exact hnodup.left.right.right.right _ (addrOf_mem ha s.nullElement) hmem

theorem side_eq (d : Dir) (c : Colour) (v : Node κ) {near far : Ptr} (hne : near ≠ far) :
    (if near = (mkElement d near far c v).left then Dir.left else Dir.right) = d := by
  cases d with
  | left => exact if_pos rfl
  | right => exact if_neg hne

/-!
## The insertion fixup
-/

theorem insertTurn {x y u : ColourTree (Node κ)} {p q : Node κ}
    (h : Rep s (plug ctx (.mk d .black (.mk d .red x p y) q u))) :
    exists s₁ s₂ s', s.setColour p.addr .black = .ok s₁ ∧ s₁.setColour q.addr .red = .ok s₂ ∧
      rotate d.other s₂ (linkOf ctx) q.addr = .ok s' ∧
      Rearranged s (plug ctx (.mk d .black (.mk d .red x p y) q u))
        s' (plug ctx (.mk d .black x p (.mk d .red y q u))) := by
  let upper : Frame (Node κ) := ⟨d, .black, q, u⟩
  have hlower : Rep s (plug (upper :: ctx) (.mk d .red x p y)) := h
  rcases hlower.setColour .black with ⟨s₁, hwrite₁, hstep₁⟩
  have hupper : Rep s₁ (plug ctx (.mk d .black (.mk d .black x p y) q u)) := hstep₁.rep
  rcases hupper.setColour .red with ⟨s₂, hwrite₂, hstep₂⟩
  have hturned := hstep₂.rep
  rw [← ColourTree.mk_other d .red, ← ColourTree.mk_other d .black] at hturned
  rcases hturned.rotate with ⟨s', hrotate, hstep₃⟩
  rw [ColourTree.mk_other, ColourTree.mk_other, ColourTree.mk_other, ColourTree.mk_other] at hstep₃
  exact ⟨s₁, s₂, s', hwrite₁, hwrite₂, hrotate, (hstep₁.trans hstep₂).trans hstep₃⟩

theorem insertRecolour {x y u : ColourTree (Node κ)} {p q : Node κ} {e : Dir}
    (h : Rep s (plug ctx (.mk d .black (.mk e .red x p y) q u))) (hu : u.colour = .red) :
    exists s₁ s₂ s', s.setColour p.addr .black = .ok s₁ ∧
      s₁.setColour (addrOf s.nullElement u) .black = .ok s₂ ∧
      s₂.setColour q.addr .red = .ok s' ∧
      Rearranged s (plug ctx (.mk d .black (.mk e .red x p y) q u))
        s' (plug ctx (.mk d .red (.mk e .black x p y) q (u.setColour .black))) := by
  rcases ColourTree.exists_mk_of_red .left hu with ⟨ua, w, ub, rfl⟩
  let upper : Frame (Node κ) := ⟨d, .black, q, .mk .left .red ua w ub⟩
  have hlower : Rep s (plug (upper :: ctx) (.mk e .red x p y)) := h
  rcases hlower.setColour .black with ⟨s₁, hwrite₁, hstep₁⟩
  have huncle : Rep s₁ (plug (⟨d.other, .black, q, .mk e .black x p y⟩ :: ctx)
      (.mk .left .red ua w ub)) := hstep₁.rep.toSibling
  rcases huncle.setColour .black with ⟨s₂, hwrite₂, hstep₂⟩
  simp only [plug_cons, Frame.fill, ColourTree.mk_other] at hstep₂
  have hupper : Rep s₂ (plug ctx (.mk d .black (.mk e .black x p y) q
      (.mk .left .black ua w ub))) := hstep₂.rep
  rcases hupper.setColour .red with ⟨s', hwrite₃, hstep₃⟩
  refine ⟨s₁, s₂, s', hwrite₁, ?_, hwrite₃, (Rearranged.trans hstep₁ hstep₂).trans hstep₃⟩
  rw [addrOf_mk]
  exact hwrite₂

/-- The branch for a black uncle, with the node `p` between `q` and the red `t`
on either side. -/
theorem insertRotate {y u : ColourTree (Node κ)} {p q : Node κ} {e : Dir}
    (h : Rep s (plug ctx (.mk d .black (.mk e .red t p y) q u)))
    (hu : u.colour = .black) (hun : IsRedBlack u n) (hy : y.colour = .black)
    (hyn : IsRedBlack y n) (ht : t.colour = .red) (htn : IsRedBlack t n) :
    exists s₁ par s₂ s₃ s' t',
      turnOutward d s (.child d q.addr) (addrOf s.nullElement t) p.addr = .ok (s₁, par) ∧
        s₁.setColour par .black = .ok s₂ ∧ s₂.setColour q.addr .red = .ok s₃ ∧
        rotate d.other s₃ (linkOf ctx) q.addr = .ok s' ∧
        Rearranged s (plug ctx (.mk d .black (.mk e .red t p y) q u)) s' (plug ctx t') ∧
        t'.colour = .black ∧ IsRedBlack t' (n + 1) := by
  let upper : Frame (Node κ) := ⟨d, .black, q, u⟩
  have hpar : Rep s (plug (upper :: ctx) (.mk e .red t p y)) := h
  by_cases hside : e = d
  · -- `t` is on the outer side already
    subst hside
    have htne : t ≠ .nil := by
      rintro rfl
      cases ht
    have hne := hpar.sides_ne (Or.inl htne)
    rcases insertTurn h with ⟨s₁, s₂, s', hwrite₁, hwrite₂, hrotate, hstep⟩
    refine ⟨s, p.addr, s₁, s₂, s', _, ?_, hwrite₁, hwrite₂, hrotate, hstep,
      ColourTree.colour_mk .., ?_⟩
    · rw [turnOutward, hpar.element]
      simp only [bind, Except.bind, mkElement_child_other, if_neg hne]
    · exact isRedBlack_black_iff.mpr ⟨htn, isRedBlack_red_iff.mpr ⟨hy, hu, hyn, hun⟩⟩
  · have hother : e = d.other := Dir.eq_other hside
    subst hother
    rcases ColourTree.exists_mk_of_red d ht with ⟨a, v, b, rfl⟩
    rcases isRedBlack_red_iff.mp htn with ⟨ha, hb, han, hbn⟩
    have hinner : Rep s (plug (upper :: ctx) (.mk d .red y p (.mk d .red a v b))) := by
      rw [ColourTree.mk_other] at hpar
      exact hpar
    rcases hinner.rotate with ⟨s₁, hrotate₁, hstep₁⟩
    have hturned : Rep s₁ (plug ctx (.mk d .black
        (.mk d .red (.mk d .red y p a) v b) q u)) := hstep₁.rep
    rcases insertTurn hturned with ⟨s₂, s₃, s', hwrite₁, hwrite₂, hrotate₂, hstep₂⟩
    rw [ColourTree.mk_other]
    refine ⟨s₁, v.addr, s₂, s₃, s', _, ?_, hwrite₁, hwrite₂, hrotate₂,
      Rearranged.trans hstep₁ hstep₂, ColourTree.colour_mk .., ?_⟩
    · rw [turnOutward, hinner.element]
      simp only [bind, Except.bind, mkElement_child_other, addrOf_mk, if_true]
      rw [show Link.child d q.addr = linkOf (upper :: ctx) from rfl, hrotate₁]
    · refine isRedBlack_black_iff.mpr ⟨isRedBlack_red_iff.mpr ⟨hy, ha, hyn, han⟩, ?_⟩
      exact isRedBlack_red_iff.mpr ⟨hb, hu, hbn, hun⟩

/-- The loop of `rb_insert` mends a tree whose only fault may be a red node
above the red `t`. -/
theorem rbInsertLoop_spec {fuel : Nat} (hfuel : ctx.length < fuel)
    (hlen : ctx.length < MAX_rbtree_HEIGHT) (h : Rep s (plug ctx t))
    (hstack : StackFor s.parents ctx) (hfits : Fits ctx n) (ht : IsRedBlack t n)
    (hred : t.colour = .red) :
    exists s' t', rbInsertLoop fuel s ctx.length (addrOf s.nullElement t) = .ok s' ∧
      Rearranged s (plug ctx t) s' t' ∧ exists m, IsRedBlack t' m := by
  induction fuel generalizing s ctx t n with
  | zero => cases hfuel
  | succ fuel ih =>
      rw [rbInsertLoop]
      cases ctx with
      | nil =>
          have hroot : addrOf s.nullElement t = s.root := h.root_eq.symm
          rw [if_pos hroot]
          exact ⟨s, t, rfl, Rearranged.refl h, n, ht⟩
      | cons f ctx =>
          rw [if_neg h.root_ne]
          rw [List.length_cons] at hlen
          have hparLink := parentAbove_one hstack (Nat.lt_of_succ_lt hlen)
          have hpar : s.read (linkOf ctx) = .ok f.value.addr := by
            have hfill : Rep s (plug ctx (f.fill t)) := h
            have hread := hfill.read
            rw [addrOf_fill] at hread
            exact hread
          simp only [bind, Except.bind, hparLink, hpar, h.frame_element, mkElement_colour]
          rcases f with ⟨e, fc, p, y⟩
          cases fc with
          | black =>
              rw [if_pos rfl]
              exact ⟨s, _, rfl, Rearranged.refl h,
                (RedBlackTree.plug hfits ht (Or.inr ⟨List.cons_ne_nil _ _, rfl⟩)).right⟩
          | red =>
              rw [if_neg (fun hblack => by cases hblack)]
              rcases hfits with ⟨hyn, hy, hne, hhead, hfits⟩
              cases ctx with
              | nil => exact absurd rfl hne
              | cons g ctx =>
                  rcases g with ⟨d, gc, q, u⟩
                  cases gc with
                  | red => cases hhead
                  | black =>
                      rcases hfits with ⟨hun, hfits⟩
                      have hpar2Link := parentAbove_two hstack
                        (Nat.lt_of_succ_lt (Nat.lt_of_succ_lt hlen))
                      have hwhole : Rep s (plug ctx
                        (.mk d .black (.mk e .red t p y) q u)) := h
                      have hpar2 := hwhole.read
                      have hpar2Element := hwhole.element
                      rw [addrOf_mk] at hpar2 hpar2Element
                      have hside := side_eq d .black q
                        (hwhole.sides_ne (Or.inl (ColourTree.mk_ne_nil e .red t p y)))
                      rw [addrOf_mk] at hside
                      have hupper : Rep s (plug (⟨d, .black, q, u⟩ :: ctx)
                        (.mk e .red t p y)) := h
                      rcases hupper.sibling_element with ⟨yElement, hyElement, hyColour⟩
                      simp only [hpar2Link, hpar2, hpar2Element, hside, mkElement_child_other,
                        hyElement, hyColour]
                      cases hu : u.colour with
                      | red =>
                          rcases insertRecolour hwhole hu with
                            ⟨s₁, s₂, s₃, hwrite₁, hwrite₂, hwrite₃, hstep⟩
                          have hparents := hstep.kept.parents_eq
                          rw [← hparents] at hstack
                          have htn : IsRedBlack (.mk d .red (.mk e .black t p y) q
                              (u.setColour .black)) (n + 1) :=
                            isRedBlack_red_iff.mpr ⟨ColourTree.colour_mk ..,
                              ColourTree.colour_setColour .black hu,
                              isRedBlack_black_iff.mpr ⟨ht, hyn⟩, hun.blacken hu⟩
                          have hrest := ih (Nat.lt_of_succ_lt (Nat.lt_of_succ_lt_succ hfuel))
                            (Nat.lt_of_succ_lt (Nat.lt_of_succ_lt hlen)) hstep.rep
                            hstack.right.right hfits htn (ColourTree.colour_mk ..)
                          rcases hrest with ⟨s', t', hloop, hstep', hm⟩
                          rw [addrOf_mk] at hloop
                          refine ⟨s', t', ?_, hstep.trans hstep', hm⟩
                          simp only [if_true, hwrite₁, hwrite₂, hwrite₃]
                          exact hloop
                      | black =>
                          rcases insertRotate hwhole hu hun hy hyn hred ht with
                            ⟨s₁, par, s₂, s₃, s', t', hturn, hwrite₁, hwrite₂, hrotate, hstep,
                              hblack, htn⟩
                          refine ⟨s', _, ?_, hstep,
                            (RedBlackTree.plug hfits htn (Or.inl hblack)).right⟩
                          rw [if_neg (fun hred => by cases hred)]
                          have hlink : linkOf (⟨d, .black, q, u⟩ :: ctx) = .child d q.addr := rfl
                          simp only [hlink, hturn, hwrite₁, hwrite₂]
                          exact hrotate

theorem Rep.setColour_root (h : Rep s t) (hne : t ≠ .nil) :
    exists s', s.setColour s.root .black = .ok s' ∧ Rearranged s t s' (t.setColour .black) := by
  rcases ColourTree.exists_mk .left hne with ⟨c, a, v, b, rfl⟩
  have hroot : Rep s (plug [] (.mk .left c a v b)) := h
  rcases hroot.setColour .black with ⟨s', hwrite, hstep⟩
  have haddr : s.root = v.addr := by
    rw [h.root_eq, addrOf_mk]
  rw [haddr, ColourTree.setColour_mk]
  exact ⟨s', hwrite, hstep⟩

/-- `rb_insert` makes a red-black tree of one with a new leaf. -/
theorem rbInsert_spec (hlen : ctx.length < MAX_rbtree_HEIGHT)
    (h : Rep s (plug ctx (.mk d c .nil v .nil))) (hstack : StackFor s.parents ctx)
    (hfits : Fits ctx 0) :
    exists s' t', rbInsert s ctx.length v.addr = .ok s' ∧
      Rearranged s (plug ctx (.mk d c .nil v .nil)) s' t' ∧ RedBlackTree t' := by
  rcases h.setColour .red with ⟨s₁, hwrite₁, hstep₁⟩
  have hleaf : IsRedBlack (.mk d .red .nil v .nil) 0 :=
    isRedBlack_red_iff.mpr ⟨rfl, rfl, rfl, rfl⟩
  rw [← hstep₁.kept.parents_eq] at hstack
  rcases rbInsertLoop_spec (Nat.lt_succ_of_lt hlen) hlen hstep₁.rep hstack hfits hleaf
    (ColourTree.colour_mk ..) with ⟨s₂, t', hloop, hstep₂, hm⟩
  rw [addrOf_mk] at hloop
  have hne : t' ≠ .nil :=
    ColourTree.ne_nil_of_toList (f := ⟨d, c, v, .nil⟩) (t := .nil) (hstep₁.trans hstep₂).toList_eq
  rcases hstep₂.rep.setColour_root hne with ⟨s', hwrite₃, hstep₃⟩
  refine ⟨s', _, ?_, (hstep₁.trans hstep₂).trans hstep₃, RedBlackTree.of_setColour hm⟩
  rw [rbInsert]
  simp only [bind, Except.bind, hwrite₁, hloop]
  exact hwrite₃

end RBTree
end MyLibs
