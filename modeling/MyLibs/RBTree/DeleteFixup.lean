import MyLibs.RBTree.InsertFixup

/-!
# The deletion fixup

The hole is filled by a tree that misses one black node. A turn of the loop
either mends this with a rotation or hands it on to the parent; a red sibling is
first rotated above the parent, which lengthens the path stack by one.
-/

namespace MyLibs
namespace RBTree

open Foundation

variable {κ : Type} {s s' s'' : Nodes κ} {d : Dir} {c : Colour}
  {a b t t' t'' : ColourTree (Node κ)} {v p w : Node κ} {ctx : Context (Node κ)}
  {f : Frame (Node κ)} {n : Nat}

structure Settled (s : Nodes κ) (t : ColourTree (Node κ)) (s' : Nodes κ)
    (t' : ColourTree (Node κ)) :
    Prop where
  rep : Rep s' t'
  confined : Confined (addrs t) s s'
  toList_eq : t'.toList = t.toList

theorem Rearranged.settled (h : Rearranged s t s' t') : Settled s t s' t' :=
  ⟨h.rep, h.kept.toConfined, h.toList_eq⟩

theorem Settled.trans (hfirst : Settled s t s' t') (hsecond : Settled s' t' s'' t'') :
    Settled s t s'' t'' where
  rep := hsecond.rep
  confined := by
    have haddrs : addrs t' = addrs t := by rw [addrs, hfirst.toList_eq, addrs]
    have hconfined := hsecond.confined
    rw [haddrs] at hconfined
    exact hfirst.confined.trans hconfined
  toList_eq := hsecond.toList_eq.trans hfirst.toList_eq

/-!
## Writing the stack
-/

theorem Rep.withParents (h : Rep s t) (parents : Nat -> Link) :
    Settled s t { s with parents := parents } t where
  rep := ⟨h.root_eq, h.holds, h.nodup, h.null_notMem, h.sentinel, h.null_none⟩
  confined := ⟨rfl, fun _ _ => rfl⟩
  toList_eq := rfl

/-- Places above the top of the stack are free. -/
theorem StackFor.update {parents : Nat -> Link} (h : StackFor parents ctx) {i : Nat}
    (hi : ctx.length < i) (link : Link) : StackFor (Function.update parents i link) ctx := by
  induction ctx with
  | nil =>
      have hne : 0 ≠ i := Nat.ne_of_lt hi
      show Function.update parents i link 0 = .root
      rw [Function.update_of_ne hne]
      exact h
  | cons f ctx ih =>
      rw [List.length_cons] at hi
      refine ⟨?_, ih h.right (Nat.lt_of_succ_lt hi)⟩
      rw [Function.update_of_ne (Nat.ne_of_lt hi)]
      exact h.left

theorem StackFor.push {parents : Nat -> Link} (h : StackFor parents ctx) (f : Frame (Node κ)) :
    StackFor (Function.update parents (ctx.length + 1) (.child f.dir f.value.addr))
      (f :: ctx) :=
  ⟨Function.update_self .., h.update (Nat.lt_succ_self _) _⟩

theorem setParent_eq {i : Nat} (hi : i < MAX_rbtree_HEIGHT) (link : Link) :
    s.setParent i link = .ok { s with parents := Function.update s.parents i link } :=
  if_pos hi

/-!
## Colours
-/

theorem Rep.blacken (h : Rep s (plug ctx t)) : exists s',
    s.setColour (addrOf s.nullElement t) .black = .ok s' ∧
      Rearranged s (plug ctx t) s' (plug ctx (t.setColour .black)) := by
  cases t with
  | nil =>
      refine ⟨s, ?_, Rearranged.refl h⟩
      rw [addrOf, Nodes.setColour, Nodes.modify, Nodes.element, h.sentinel]
      show Except.ok _ = _
      have hsame : Function.update s.heap s.nullElement
          (some { nullElement with colour := .black }) = s.heap := by
        rw [show ({ nullElement with colour := .black } : Element κ) = nullElement from rfl,
          ← h.sentinel, Function.update_eq_self]
      rw [hsame]
  | node c l v r => exact Rep.setColour (d := .left) h .black

/-- A tree that misses a black node where black height `n + 1` is needed: it can
still be blackened if it is red. -/
def Deficient (t : ColourTree (Node κ)) (n : Nat) : Prop :=
  (t.colour = .black ∧ IsRedBlack t n) ∨
    (t.colour = .red ∧ IsRedBlack (t.setColour .black) (n + 1))

theorem Deficient.mended (hfits : Fits ctx (n + 1)) (ht : Deficient t n)
    (hred : t.colour = .red) : RedBlackTree (plug ctx (t.setColour .black)) := by
  rcases ht with ⟨hblack, _⟩ | ⟨_, ht⟩
  · rw [hred] at hblack
    cases hblack
  · exact RedBlackTree.plug hfits ht (Or.inl (ColourTree.colour_setColour .black hred))

theorem Deficient.root (ht : Deficient t n) : RedBlackTree (t.setColour .black) := by
  rcases ht with ⟨_, ht⟩ | ⟨_, ht⟩
  · exact RedBlackTree.of_setColour ⟨n, ht⟩
  · have hblack := RedBlackTree.of_setColour ⟨n + 1, ht⟩
    rw [ColourTree.setColour_setColour] at hblack
    exact hblack

/-!
## A red sibling
-/

theorem siblingTurn {x y z : ColourTree (Node κ)}
    (h : Rep s (plug ctx (.mk d .black x p (.mk d .red y w z)))) :
    exists s₁ s₂ s', s.setColour w.addr .black = .ok s₁ ∧ s₁.setColour p.addr .red = .ok s₂ ∧
      rotate d s₂ (linkOf ctx) p.addr = .ok s' ∧ s₂.parents = s.parents ∧
      Rearranged s (plug ctx (.mk d .black x p (.mk d .red y w z)))
        s' (plug ctx (.mk d .black (.mk d .red x p y) w z)) := by
  have hsibling : Rep s (plug (⟨d.other, .black, p, x⟩ :: ctx) (.mk d .red y w z)) := by
    rw [plug_cons, Frame.fill, ColourTree.mk_other]
    exact h
  rcases hsibling.setColour .black with ⟨s₁, hwrite₁, hstep₁⟩
  simp only [plug_cons, Frame.fill, ColourTree.mk_other] at hstep₁
  rcases hstep₁.rep.setColour .red with ⟨s₂, hwrite₂, hstep₂⟩
  rcases hstep₂.rep.rotate with ⟨s', hrotate, hstep₃⟩
  have hstep := Rearranged.trans hstep₁ hstep₂
  exact ⟨s₁, s₂, s', hwrite₁, hwrite₂, hrotate, hstep.kept.parents_eq, hstep.trans hstep₃⟩

/-- What is known before `w` is looked at: the hole misses a black node, and its
sibling is real. -/
structure Lacking (s : Nodes κ) (ctx : Context (Node κ)) (f : Frame (Node κ))
    (t : ColourTree (Node κ)) (n : Nat) : Prop where
  rep : Rep s (plug (f :: ctx) t)
  stack : StackFor s.parents (f :: ctx)
  fits : Fits (f :: ctx) (n + 1)

/-- After the block for a red sibling the sibling is black, and the parent red if
the stack has grown. -/
structure SiblingBlack (s : Nodes κ) (ctx : Context (Node κ)) (f : Frame (Node κ))
    (t : ColourTree (Node κ)) (n : Nat) (s' : Nodes κ) (ctx' : Context (Node κ))
    (f' : Frame (Node κ)) : Prop where
  settled : Settled s (plug (f :: ctx) t) s' (plug (f' :: ctx') t)
  lacking : Lacking s' ctx' f' t n
  dir_eq : f'.dir = f.dir
  addr_eq : f'.value.addr = f.value.addr
  black : f'.sibling.colour = .black
  context_eq : f'.colour = .black -> ctx' = ctx
  length_lt : ctx'.length < MAX_rbtree_HEIGHT

/-- The block for a red sibling, unless it needs a place beyond the end of the
stack. -/
theorem redSibling_spec (h : Lacking s ctx f t n)
    (hlen : (f :: ctx).length < MAX_rbtree_HEIGHT) :
    ((exists fault, redSibling f.dir s (f :: ctx).length f.value.addr
        (addrOf s.nullElement f.sibling) = .error fault) ∧
      MAX_rbtree_HEIGHT <= (f :: ctx).length + 1) ∨
    exists s' ctx' f', redSibling f.dir s (f :: ctx).length f.value.addr
        (addrOf s.nullElement f.sibling) =
          .ok (s', (f' :: ctx').length, addrOf s'.nullElement f'.sibling) ∧
      SiblingBlack s ctx f t n s' ctx' f' := by
  rcases h.rep.sibling_element with ⟨e, helement, hcolour⟩
  rw [List.length_cons] at hlen
  have hctxlen : ctx.length < MAX_rbtree_HEIGHT := Nat.lt_of_succ_lt hlen
  cases hw : f.sibling.colour with
  | black =>
      refine Or.inr ⟨s, ctx, f, ?_, ⟨h.rep, Confined.refl _ s, rfl⟩, h, rfl, rfl, hw,
        fun _ => rfl, hctxlen⟩
      rw [redSibling, helement]
      simp only [bind, Except.bind, hcolour, hw]
      rw [if_neg (fun hred => by cases hred)]
  | red =>
      rcases f with ⟨d, fc, p, sibling⟩
      rcases ColourTree.exists_mk_of_red d hw with ⟨y, w, z, hsibling⟩
      simp only at hsibling
      subst hsibling
      rcases h.fits with ⟨hwn, hfits⟩
      rcases isRedBlack_red_iff.mp hwn with ⟨hy, hz, hyn, hzn⟩
      cases fc with
      | red =>
          rw [ColourTree.colour_mk] at hfits
          cases hfits.left
      | black =>
          have hwhole : Rep s (plug ctx (.mk d .black t p (.mk d .red y w z))) := h.rep
          rcases siblingTurn hwhole with
            ⟨s₁, s₂, s₃, hwrite₁, hwrite₂, hrotate, hparents, hstep⟩
          let upper : Frame (Node κ) := ⟨d, .black, w, z⟩
          let lower : Frame (Node κ) := ⟨d, .red, p, y⟩
          let parents₁ := Function.update s₃.parents (ctx.length + 1) (.child d w.addr)
          let parents₂ := Function.update parents₁ (ctx.length + 2) (.child d p.addr)
          have hlink : s₂.parentAbove (ctx.length + 1) 1 = .ok (linkOf ctx) :=
            parentAbove_one (by rw [hparents]; exact h.stack) hctxlen
          have hset₁ : s₃.setParent (ctx.length + 1) (.child d w.addr) =
              .ok { s₃ with parents := parents₁ } := setParent_eq hlen _
          rw [redSibling, helement]
          simp only [bind, Except.bind, hcolour, ColourTree.colour_mk, if_true, addrOf_mk, hwrite₁,
            hwrite₂, List.length_cons, hlink, hrotate, hset₁]
          by_cases hroom : ctx.length + 2 < MAX_rbtree_HEIGHT
          · have hstack₃ : StackFor s₃.parents ctx := by
              rw [hstep.kept.parents_eq]
              exact h.stack.right
            have hstack : StackFor parents₂ (lower :: upper :: ctx) :=
              StackFor.push (StackFor.push hstack₃ upper) lower
            have hsettled := hstep.settled.trans (hstep.rep.withParents parents₂)
            have hset₂ : Nodes.setParent { s₃ with parents := parents₁ } (ctx.length + 2)
                (.child d p.addr) = .ok { s₃ with parents := parents₂ } :=
              setParent_eq hroom _
            have hlower : Rep { s₃ with parents := parents₂ }
                (plug (lower :: upper :: ctx) t) := hsettled.rep
            have hparent : Nodes.element { s₃ with parents := parents₂ } p.addr =
                .ok (mkElement d (addrOf s₃.nullElement t) (addrOf s₃.nullElement y) .red p) :=
              hlower.frame_element
            refine Or.inr ⟨{ s₃ with parents := parents₂ }, upper :: ctx, lower, ?_, hsettled,
              ⟨hsettled.rep, hstack, ?_⟩, rfl, rfl, hy, (fun hblack => by cases hblack), hlen⟩
            · simp only [hset₂, hparent, mkElement_child_other, lower, upper, List.length_cons]
            · exact ⟨hyn, hy, List.cons_ne_nil _ _, rfl, hzn, hfits⟩
          · have hset₂ : Nodes.setParent { s₃ with parents := parents₁ } (ctx.length + 2)
                (.child d p.addr) = .error .badIndex := if_neg hroom
            refine Or.inl ⟨⟨.badIndex, ?_⟩, Nat.le_of_not_lt hroom⟩
            simp only [hset₂]

/-!
## A black sibling
-/

theorem Lacking.exists_sibling (h : Lacking s ctx f t n) (hblack : f.sibling.colour = .black) :
    exists y w z, f.sibling = .mk f.dir .black y w z ∧ IsRedBlack y n ∧ IsRedBlack z n := by
  have hn := h.fits.left
  rcases ColourTree.exists_mk f.dir hn.ne_nil with ⟨c, y, w, z, hw⟩
  rw [hw, ColourTree.colour_mk] at hblack
  subst hblack
  rw [hw, isRedBlack_black_iff] at hn
  exact ⟨y, w, z, hw, hn⟩

theorem bothBlack_spec {y z : ColourTree (Node κ)} (h : Rep s (plug ctx (.mk d c y w z))) :
    bothBlack d s w.addr =
      .ok (decide (y.colour = .black ∧ z.colour = .black)) := by
  have hnear : Rep s (plug (⟨d, c, w, z⟩ :: ctx) y) := h
  rcases hnear.exists_element with ⟨near, hnear', hnearColour⟩
  rcases hnear.sibling_element with ⟨far, hfar, hfarColour⟩
  rw [bothBlack, h.element]
  simp only [bind, Except.bind, mkElement_child, mkElement_child_other, hnear', hnearColour,
    hfar, hfarColour]
  by_cases hy : y.colour = .black
  · simp [hy]
  · simp [hy]

theorem Rep.sibling_mk {y z : ColourTree (Node κ)} (h : Rep s (plug (f :: ctx) t))
    (hw : f.sibling = .mk d c y w z) :
    Rep s (plug (⟨f.dir.other, f.colour, f.value, t⟩ :: ctx) (.mk d c y w z)) := by
  have hsibling := h.toSibling
  rw [hw] at hsibling
  exact hsibling

theorem siblingRed {y z : ColourTree (Node κ)}
    (h : Rep s (plug ctx (.mk d c t p (.mk d .black y w z)))) :
    exists s', s.setColour w.addr .red = .ok s' ∧
      Rearranged s (plug ctx (.mk d c t p (.mk d .black y w z)))
        s' (plug ctx (.mk d c t p (.mk d .red y w z))) := by
  have hsibling : Rep s (plug (⟨d.other, c, p, t⟩ :: ctx) (.mk d .black y w z)) := by
    rw [plug_cons, Frame.fill, ColourTree.mk_other]
    exact h
  rcases hsibling.setColour .red with ⟨s', hwrite, hstep⟩
  simp only [plug_cons, Frame.fill, ColourTree.mk_other] at hstep
  exact ⟨s', hwrite, hstep⟩

/-- The inner nephew, if only that is red, is rotated above the sibling. -/
theorem innerNephew_spec {y z : ColourTree (Node κ)}
    (h : Rep s (plug ctx (.mk d c t p (.mk d .black y w z))))
    (hy : IsRedBlack y n) (hz : IsRedBlack z n)
    (hred : ¬ (y.colour = .black ∧ z.colour = .black)) :
    exists s' c' y' w' z', innerNephew d s p.addr w.addr = .ok (s', w'.addr) ∧
      Rearranged s (plug ctx (.mk d c t p (.mk d .black y w z)))
        s' (plug ctx (.mk d c t p (.mk d c' y' w' z'))) ∧
      IsRedBlack y' n ∧ IsRedBlack z' n ∧ z'.colour = .red := by
  let upper : Frame (Node κ) := ⟨d.other, c, p, t⟩
  have hplug : forall x, plug (upper :: ctx) x = plug ctx (.mk d c t p x) := by
    intro x
    rw [plug_cons, Frame.fill, ColourTree.mk_other]
  have hsibling : Rep s (plug (upper :: ctx) (.mk d .black y w z)) := by
    rw [hplug]
    exact h
  have hnear : Rep s (plug (⟨d, .black, w, z⟩ :: upper :: ctx) y) := hsibling
  rcases hnear.sibling_element with ⟨far, hfar, hfarColour⟩
  cases hzc : z.colour with
  | red =>
      refine ⟨s, .black, y, w, z, ?_, Rearranged.refl h, hy, hz, hzc⟩
      rw [innerNephew, hsibling.element]
      simp only [bind, Except.bind, mkElement_child_other, hfar, hfarColour, hzc]
      rw [if_neg (fun hblack => by cases hblack)]
  | black =>
      have hyc : y.colour = .red := by
        cases hyc : y.colour with
        | red => rfl
        | black => exact absurd ⟨hyc, hzc⟩ hred
      rcases ColourTree.exists_mk_of_red d hyc with ⟨a, v, b, rfl⟩
      rcases isRedBlack_red_iff.mp hy with ⟨ha, hb, han, hbn⟩
      rcases hnear.setColour .black with ⟨s₁, hwrite₁, hstep₁⟩
      have hsibling₁ : Rep s₁ (plug (upper :: ctx)
          (.mk d .black (.mk d .black a v b) w z)) := hstep₁.rep
      rcases hsibling₁.setColour .red with ⟨s₂, hwrite₂, hstep₂⟩
      have hturned := hstep₂.rep
      rw [← ColourTree.mk_other d .red, ← ColourTree.mk_other d .black] at hturned
      rcases hturned.rotate with ⟨s₃, hrotate, hstep₃⟩
      simp only [ColourTree.mk_other] at hstep₃
      have hstep := (Rearranged.trans hstep₁ hstep₂).trans hstep₃
      have hparent : Rep s₃ (plug (upper :: ctx) (.mk d .black a v (.mk d .red b w z))) :=
        hstep.rep
      have hparentElement : s₃.element p.addr =
          .ok (mkElement d.other v.addr (addrOf s₃.nullElement t) c p) := by
        have hframe := hparent.frame_element
        rw [addrOf_mk] at hframe
        exact hframe
      have hsource : plug (⟨d, .black, w, z⟩ :: upper :: ctx) (.mk d .red a v b) =
          plug ctx (.mk d c t p (.mk d .black (.mk d .red a v b) w z)) := hplug _
      rw [hsource, hplug] at hstep
      refine ⟨s₃, .black, a, v, .mk d .red b w z, ?_, hstep, han,
        isRedBlack_red_iff.mpr ⟨hb, hzc, hbn, hz⟩, ColourTree.colour_mk ..⟩
      have hlink : linkOf (upper :: ctx) = .child d.other p.addr := rfl
      rw [hlink] at hrotate
      rw [innerNephew, hsibling.element]
      simp only [bind, Except.bind, mkElement_child_other, mkElement_child, hfar, hfarColour,
        hzc, if_true, addrOf_mk, hwrite₁, hwrite₂, hrotate, hparentElement]

theorem outerTurn {y z : ColourTree (Node κ)} {c' : Colour}
    (h : Rep s (plug ctx (.mk d c t p (.mk d c' y w z)))) (hz : z.colour = .red) :
    exists s₁ s₂ s₃ s', s.setColour w.addr c = .ok s₁ ∧ s₁.setColour p.addr .black = .ok s₂ ∧
      s₂.element w.addr =
        .ok (mkElement d (addrOf s₂.nullElement y) (addrOf s₂.nullElement z) c w) ∧
      s₂.setColour (addrOf s₂.nullElement z) .black = .ok s₃ ∧
      rotate d s₃ (linkOf ctx) p.addr = .ok s' ∧ s₃.parents = s.parents ∧
      Rearranged s (plug ctx (.mk d c t p (.mk d c' y w z)))
        s' (plug ctx (.mk d c (.mk d .black t p y) w (z.setColour .black))) := by
  rcases ColourTree.exists_mk_of_red d hz with ⟨za, zv, zb, rfl⟩
  have hsibling : forall (s : Nodes κ) (c c' : Colour) (z : ColourTree (Node κ)),
      Rep s (plug ctx (.mk d c t p (.mk d c' y w z))) ->
        Rep s (plug (⟨d.other, c, p, t⟩ :: ctx) (.mk d c' y w z)) := by
    intro s c c' z h
    rw [plug_cons, Frame.fill, ColourTree.mk_other]
    exact h
  rcases (hsibling s c c' _ h).setColour c with ⟨s₁, hwrite₁, hstep₁⟩
  simp only [plug_cons, Frame.fill, ColourTree.mk_other] at hstep₁
  rcases hstep₁.rep.setColour .black with ⟨s₂, hwrite₂, hstep₂⟩
  have hw := hsibling s₂ .black c _ hstep₂.rep
  have hz : Rep s₂ (plug (⟨d.other, c, w, y⟩ :: ⟨d.other, .black, p, t⟩ :: ctx)
      (.mk d .red za zv zb)) := by
    rw [plug_cons, Frame.fill, ColourTree.mk_other]
    exact hw
  rcases hz.setColour .black with ⟨s₃, hwrite₃, hstep₃⟩
  simp only [plug_cons, Frame.fill, ColourTree.mk_other] at hstep₃
  rcases hstep₃.rep.rotate with ⟨s', hrotate, hstep₄⟩
  have hstep := (Rearranged.trans hstep₁ hstep₂).trans hstep₃
  refine ⟨s₁, s₂, s₃, s', hwrite₁, hwrite₂, hw.element, ?_, hrotate, hstep.kept.parents_eq, ?_⟩
  · rw [addrOf_mk]
    exact hwrite₃
  · rw [ColourTree.setColour_mk]
    exact hstep.trans hstep₄

/-- A red nephew ends the fixup. -/
theorem outerNephew_spec {y z : ColourTree (Node κ)} (h : Lacking s ctx f t n)
    (hlen : ctx.length < MAX_rbtree_HEIGHT) (hw : f.sibling = .mk f.dir .black y w z)
    (hy : IsRedBlack y n) (hz : IsRedBlack z n)
    (hred : ¬ (y.colour = .black ∧ z.colour = .black)) (ht : IsRedBlack t n) :
    exists s' t', outerNephew f.dir s (f :: ctx).length f.value.addr w.addr = .ok s' ∧
      Rearranged s (plug (f :: ctx) t) s' t' ∧ RedBlackTree t' := by
  rcases f with ⟨d, c, p, sibling⟩
  simp only at hw
  subst hw
  have hwhole : Rep s (plug ctx (.mk d c t p (.mk d .black y w z))) := h.rep
  rcases innerNephew_spec hwhole hy hz hred with
    ⟨s₁, c', y', w', z', hinner, hstep₁, hyn, hzn, hzc⟩
  have hparent := hstep₁.rep.element
  rcases outerTurn hstep₁.rep hzc with
    ⟨s₂, s₃, s₄, s', hwrite₂, hwrite₃, helement, hwrite₄, hrotate, hparents, hstep₂⟩
  have hlink : s₄.parentAbove (Frame.mk d c p (.mk d .black y w z) :: ctx).length 1 =
      .ok (linkOf ctx) :=
    parentAbove_one (by rw [hparents, hstep₁.kept.parents_eq]; exact h.stack) hlen
  refine ⟨s', _, ?_, hstep₁.trans hstep₂, ?_⟩
  · rw [outerNephew, hinner]
    simp only [bind, Except.bind, hparent, mkElement_colour, hwrite₂, hwrite₃, helement,
      mkElement_child_other, hwrite₄, hlink]
    exact hrotate
  · have houter := hzn.blacken hzc
    have hinnerBlack : IsRedBlack (.mk d .black t p y') (n + 1) :=
      isRedBlack_black_iff.mpr ⟨ht, hyn⟩
    rcases h.fits with ⟨_, hfits⟩
    cases c with
    | red =>
        rcases hfits with ⟨_, hne, hhead, hfits⟩
        exact RedBlackTree.plug hfits (isRedBlack_red_iff.mpr ⟨ColourTree.colour_mk ..,
          ColourTree.colour_setColour .black hzc, hinnerBlack, houter⟩) (Or.inr ⟨hne, hhead⟩)
    | black =>
        exact RedBlackTree.plug hfits (isRedBlack_black_iff.mpr ⟨hinnerBlack, houter⟩)
          (Or.inl (ColourTree.colour_mk ..))

/-!
## The loop
-/

theorem Lacking.handedOn {y z : ColourTree (Node κ)} (hfits : Fits (f :: ctx) (n + 1))
    (ht : IsRedBlack t n) (hyc : y.colour = .black) (hzc : z.colour = .black)
    (hy : IsRedBlack y n) (hz : IsRedBlack z n) : exists m, Fits ctx (m + 1) ∧
      Deficient (.mk f.dir f.colour t f.value (.mk f.dir .red y w z)) m := by
  have hw : IsRedBlack (.mk f.dir .red y w z) n :=
    isRedBlack_red_iff.mpr ⟨hyc, hzc, hy, hz⟩
  rcases f with ⟨d, c, p, sibling⟩
  cases c with
  | red =>
      refine ⟨n, hfits.right.right.right.right, Or.inr ⟨ColourTree.colour_mk .., ?_⟩⟩
      rw [ColourTree.setColour_mk]
      exact isRedBlack_black_iff.mpr ⟨ht, hw⟩
  | black =>
      exact ⟨n + 1, hfits.right,
        Or.inl ⟨ColourTree.colour_mk .., isRedBlack_black_iff.mpr ⟨ht, hw⟩⟩⟩

/-- The loop of `rb_delete_fixup` and the last write make up for the missing
black node, unless the stack has no place for one more link. -/
theorem rbDeleteFixupLoop_spec {fuel : Nat} (hpos : 0 < fuel)
    (hfuel : t.colour = .black -> ctx.length < fuel)
    (hlen : t.colour = .black -> ctx.length < MAX_rbtree_HEIGHT)
    (h : Rep s (plug ctx t)) (hstack : StackFor s.parents ctx) (hfits : Fits ctx (n + 1))
    (ht : Deficient t n) :
    ((exists fault, rbDeleteFixupLoop fuel s ctx.length (addrOf s.nullElement t) =
        .error fault) ∧ t.colour = .black ∧ MAX_rbtree_HEIGHT <= ctx.length + 1) ∨
    exists s₁ x s' t', rbDeleteFixupLoop fuel s ctx.length (addrOf s.nullElement t) =
        .ok (s₁, x) ∧
      s₁.setColour x .black = .ok s' ∧ Settled s (plug ctx t) s' t' ∧ RedBlackTree t' := by
  induction fuel generalizing s ctx t n with
  | zero => cases hpos
  | succ fuel ih =>
      rw [rbDeleteFixupLoop]
      rcases h.blacken with ⟨sb, hwrite, hblackened⟩
      cases ctx with
      | nil =>
          have hroot : addrOf s.nullElement t = s.root := h.root_eq.symm
          rw [if_pos hroot]
          exact Or.inr ⟨s, _, sb, _, rfl, hwrite, hblackened.settled, ht.root⟩
      | cons f ctx =>
          rw [if_neg h.root_ne]
          rcases h.exists_element with ⟨xElement, hxElement, hxColour⟩
          simp only [bind, Except.bind, hxElement, hxColour]
          cases htc : t.colour with
          | red =>
              rw [if_pos rfl]
              exact Or.inr ⟨s, _, sb, _, rfl, hwrite, hblackened.settled, ht.mended hfits htc⟩
          | black =>
              rw [if_neg (fun hred => by cases hred)]
              have hlen := hlen htc
              have hfuel := hfuel htc
              have htn : IsRedBlack t n := by
                rcases ht with ⟨_, htn⟩ | ⟨hred, _⟩
                · exact htn
                · rw [htc] at hred
                  cases hred
              have hlacking : Lacking s ctx f t n := ⟨h, hstack, hfits⟩
              have hctxlen : ctx.length < MAX_rbtree_HEIGHT := Nat.lt_of_succ_lt hlen
              have hlink := parentAbove_one hstack hctxlen
              have hfill : Rep s (plug ctx (.mk f.dir f.colour t f.value f.sibling)) := h
              have hpar := hfill.read
              have hside := side_eq f.dir f.colour f.value
                (hfill.sides_ne (Or.inr hfits.left.ne_nil))
              rw [addrOf_mk] at hpar
              simp only [hlink, hpar, h.frame_element, hside, mkElement_child_other]
              rcases redSibling_spec hlacking hlen with
                ⟨⟨fault, hfault⟩, hroom⟩ | ⟨s₁, ctx', f', hsibling, hturned⟩
              · exact Or.inl ⟨⟨fault, by simp only [hfault]⟩, trivial, hroom⟩
              rcases hturned.lacking.exists_sibling hturned.black with ⟨y, w, z, hw, hyn, hzn⟩
              have hwhole : Rep s₁ (plug ctx' (.mk f'.dir f'.colour t f'.value
                  (.mk f'.dir .black y w z))) := by
                rw [← hw]
                exact hturned.lacking.rep
              have hboth := bothBlack_spec (hturned.lacking.rep.sibling_mk hw)
              rw [hw, addrOf_mk, ← hturned.dir_eq, ← hturned.addr_eq] at hsibling
              rw [← hturned.dir_eq, ← hturned.addr_eq]
              simp only [hsibling, hboth]
              by_cases hnephews : y.colour = .black ∧ z.colour = .black
              · rcases siblingRed hwhole with ⟨s₂, hwrite₂, hstep₂⟩
                rcases Lacking.handedOn hturned.lacking.fits htn hnephews.left hnephews.right
                  hyn hzn with ⟨m, hfits', ht'⟩
                have hstack' : StackFor s₂.parents ctx' := by
                  rw [hstep₂.kept.parents_eq]
                  exact hturned.lacking.stack.right
                have hctx : (ColourTree.mk f'.dir f'.colour t f'.value
                    (.mk f'.dir .red y w z)).colour = .black -> ctx' = ctx := by
                  rw [ColourTree.colour_mk]
                  exact hturned.context_eq
                simp only [hnephews, and_self, decide_true, if_true, hwrite₂]
                have hrest := ih
                  (Nat.lt_of_le_of_lt (Nat.zero_le _) (Nat.lt_of_succ_lt_succ hfuel))
                  (fun hblack => by rw [hctx hblack]; exact Nat.lt_of_succ_lt_succ hfuel)
                  (fun hblack => by rw [hctx hblack]; exact hctxlen)
                  hstep₂.rep hstack' hfits' ht'
                rw [addrOf_mk] at hrest
                rcases hrest with ⟨hfault, hblack, hroom⟩ |
                  ⟨s₃, x, s', t', hloop, hwrite', hsettled', hrb⟩
                · rw [hctx hblack] at hroom
                  exact Or.inl ⟨hfault, trivial, Nat.le_succ_of_le hroom⟩
                · have hsettled₂ := hstep₂.settled
                  rw [← hw] at hsettled₂
                  exact Or.inr ⟨s₃, x, s', t', hloop, hwrite',
                    (hturned.settled.trans hsettled₂).trans hsettled', hrb⟩
              · rcases outerNephew_spec hturned.lacking hturned.length_lt hw hyn hzn hnephews
                  htn with ⟨s₂, t', houter, hstep₂, hrb⟩
                have hne := ColourTree.ne_nil_of_toList hstep₂.toList_eq
                rcases hstep₂.rep.setColour_root hne with ⟨s', hwrite', hstep'⟩
                rw [ColourTree.setColour_self hrb.left] at hstep'
                refine Or.inr ⟨s₂, s₂.root, s', t', ?_, hwrite',
                  hturned.settled.trans (hstep₂.trans hstep').settled, hrb⟩
                simp only [hnephews, decide_false, Bool.false_eq_true, if_false, houter]

theorem rbDeleteFixup_spec (hlen : ctx.length < MAX_rbtree_HEIGHT)
    (h : Rep s (plug ctx t)) (hstack : StackFor s.parents ctx) (hfits : Fits ctx (n + 1))
    (ht : Deficient t n) :
    ((exists fault, rbDeleteFixup s ctx.length = .error fault) ∧
      MAX_rbtree_HEIGHT <= ctx.length + 1) ∨
    exists s' t', rbDeleteFixup s ctx.length = .ok s' ∧
      Settled s (plug ctx t) s' t' ∧ RedBlackTree t' := by
  rw [rbDeleteFixup, parentAt_eq hstack hlen]
  simp only [bind, Except.bind, h.read]
  rcases rbDeleteFixupLoop_spec (Nat.succ_pos MAX_rbtree_HEIGHT)
    (fun _ => Nat.lt_succ_of_lt hlen) (fun _ => hlen) h hstack hfits ht with
    ⟨⟨fault, hfault⟩, _, hroom⟩ | ⟨s₁, x, s', t', hloop, hwrite, hsettled, hrb⟩
  · exact Or.inl ⟨⟨fault, by simp only [hfault]⟩, hroom⟩
  · refine Or.inr ⟨s', t', ?_, hsettled, hrb⟩
    simp only [hloop]
    exact hwrite

end RBTree
end MyLibs
