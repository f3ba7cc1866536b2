import MyLibs.RBTree.Representation

/-!
# Writes and rotations

Pointing a link at another subtree, changing an element in place, and the
rotations, as changes of the represented tree.
-/

namespace MyLibs
namespace RBTree

open Foundation

variable {κ : Type _} {s s' : Nodes κ} {d : Dir} {c c' : Colour}
  {a b e t t' : ColourTree (Node κ)} {v v' w : Node κ} {ctx : Context (Node κ)}
  {f : Frame (Node κ)}

theorem addrOf_plug_congr {z : Ptr} (h : addrOf z t' = addrOf z t) :
    addrOf z (plug ctx t') = addrOf z (plug ctx t) := by
  induction ctx generalizing t t' with
  | nil => exact h
  | cons f ctx ih =>
      refine ih ?_
      rw [addrOf_fill, addrOf_fill]

/-- The subtree `t'` is in the heap and shares no element with the context. -/
structure Graftable (s : Nodes κ) (ctx : Context (Node κ)) (t' : ColourTree (Node κ)) : Prop where
  holds : Holds s.heap s.nullElement t'
  nodup : (addrs t').Nodup
  null_notMem : s.nullElement ∉ addrs t'
  apart : forall p, p ∈ addrs t' -> p ∉ contextAddrs ctx

theorem Rep.frame_apart (h : Rep s (plug (f :: ctx) t)) :
    f.value.addr ∉ addrs f.sibling ∧ f.value.addr ∉ contextAddrs ctx ∧
      f.value.addr ∉ addrs t := by
  have hnodup := h.nodup
  rw [plug_cons, nodup_plug, Frame.fill, nodup_mk] at hnodup
  refine ⟨hnodup.left.left.right, ?_, hnodup.left.left.left⟩
  exact hnodup.right.right f.value.addr (mem_addrs_mk.mpr (Or.inl rfl))

theorem Rep.write (h : Rep s (plug ctx t)) (ht' : Graftable s ctx t') :
    exists s', s.write (linkOf ctx) (addrOf s.nullElement t') = .ok s' ∧
      Rep s' (plug ctx t') ∧ Kept (contextAddrs ctx) s s' := by
  have hnodup := nodup_plug.mpr ⟨ht'.nodup, (nodup_plug.mp h.nodup).right.left, ht'.apart⟩
  have hnull : s.nullElement ∉ addrs (plug ctx t') := by
    rw [mem_addrs_plug, not_or]
    exact ⟨ht'.null_notMem, fun hmem => h.null_notMem (mem_addrs_plug.mpr (Or.inr hmem))⟩
  cases ctx with
  | nil =>
      exact ⟨{ s with root := addrOf s.nullElement t' }, rfl,
        ⟨rfl, ht'.holds, hnodup, hnull, h.sentinel, h.null_none⟩, ⟨rfl, fun _ _ => rfl⟩, rfl⟩
  | cons f ctx =>
      have hmem : f.value.addr ∈ contextAddrs (f :: ctx) :=
        mem_contextAddrs_cons.mpr (Or.inl rfl)
      rcases h.holdsContext with ⟨hcell, hsibling, hctx⟩
      rcases h.frame_apart with ⟨hfsibling, hfctx, _⟩
      let heap' := Function.update s.heap f.value.addr
        (some (mkElement f.dir (addrOf s.nullElement t') (addrOf s.nullElement f.sibling)
          f.colour f.value))
      have hother : forall p, p ≠ f.value.addr -> heap' p = s.heap p := fun p hp =>
        Function.update_of_ne hp ..
      have hnotMem : forall {l : List Ptr} {p : Ptr}, p ∈ l -> f.value.addr ∉ l ->
          heap' p = s.heap p := fun hp hl => hother _ (fun heq => hl (heq ▸ hp))
      refine ⟨{ s with heap := heap' }, ?_, ⟨?_, ?_, hnodup, hnull, ?_, ?_⟩, ⟨rfl, ?_⟩, rfl⟩
      · rw [linkOf, Nodes.write, Nodes.modify, Nodes.element, hcell]
        show Except.ok _ = _
        rw [mkElement_setChild]
      · rw [h.root_eq, plug_cons, plug_cons]
        refine addrOf_plug_congr ?_
        rw [addrOf_fill, addrOf_fill]
      · refine holds_plug.mpr ⟨?_, Function.update_self .., ?_, ?_⟩
        · exact ht'.holds.congr fun p hp => hnotMem hp fun hf => ht'.apart _ hf hmem
        · exact hsibling.congr fun p hp => hnotMem hp hfsibling
        · exact hctx.congr fun p hp => hnotMem hp hfctx
      · show heap' s.nullElement = _
        rw [hother, h.sentinel]
        rintro heq
        exact h.null_notMem (mem_addrs_plug.mpr (Or.inr (heq ▸ hmem)))
      · show heap' NULL = none
        rw [hother, h.null_none]
        rintro heq
        rw [← heq, h.null_none] at hcell
        cases hcell
      · intro p hp
        exact hother p fun heq => hp (heq ▸ hmem)

theorem Rep.modify (change : Element κ -> Element κ) (h : Rep s (plug ctx (.mk d c a v b)))
    (hchange : forall near far, change (mkElement d near far c v) =
      mkElement d near far c' v') (haddr : v'.addr = v.addr) :
    exists s', s.modify v.addr change = .ok s' ∧ Rep s' (plug ctx (.mk d c' a v' b)) ∧
      Kept [v.addr] s s' := by
  have hnodup := h.nodup
  rw [nodup_plug, nodup_mk] at hnodup
  rcases hnodup with ⟨⟨⟨hva, hvb⟩, _⟩, _, hdisjoint⟩
  have hmem : v.addr ∈ addrs (.mk d c a v b) := mem_addrs_mk.mpr (Or.inl rfl)
  have haddrs : addrs (plug ctx (.mk d c' a v' b)) = addrs (plug ctx (.mk d c a v b)) := by
    rw [addrs, addrs, toList_plug, toList_plug]
    cases d <;> simp [ColourTree.mk, ColourTree.toList, haddr]
  have hcell := h.heap_eq
  have hholds := holds_mk.mp h.holdsTree
  let heap' := Function.update s.heap v.addr
    (some (mkElement d (addrOf s.nullElement a) (addrOf s.nullElement b) c' v'))
  have hother : forall p, p ≠ v.addr -> heap' p = s.heap p := fun p hp =>
    Function.update_of_ne hp ..
  have hnotMem : forall {l : List Ptr} {p : Ptr}, p ∈ l -> v.addr ∉ l ->
      heap' p = s.heap p := fun hp hl => hother _ (fun heq => hl (heq ▸ hp))
  refine ⟨{ s with heap := heap' }, ?_, ⟨?_, ?_, ?_, ?_, ?_, ?_⟩, ⟨rfl, ?_⟩, rfl⟩
  · rw [Nodes.modify, h.element]
    show Except.ok _ = _
    rw [hchange]
  · rw [h.root_eq]
    refine (addrOf_plug_congr ?_).symm
    rw [addrOf_mk, addrOf_mk, haddr]
  · refine holds_plug.mpr ⟨holds_mk.mpr ⟨?_, ?_, ?_⟩, ?_⟩
    · rw [haddr]
      exact Function.update_self ..
    · exact hholds.right.left.congr fun p hp => hnotMem hp hva
    · exact hholds.right.right.congr fun p hp => hnotMem hp hvb
    · rw [addrOf_mk, haddr, ← addrOf_mk s.nullElement d c a v b]
      exact h.holdsContext.congr fun p hp => hnotMem hp (hdisjoint _ hmem)
  · rw [haddrs]
    exact h.nodup
  · rw [haddrs]
    exact h.null_notMem
  · show heap' s.nullElement = _
    rw [hother _ (h.null_ne hmem).symm, h.sentinel]
  · show heap' NULL = none
    rw [hother, h.null_none]
    rintro heq
    rw [← heq, h.null_none] at hcell
    cases hcell
  · intro p hp
    exact hother p fun heq => hp (List.mem_singleton.mpr heq)

theorem mkElement_withColour (d : Dir) (near far : Ptr) (c c' : Colour) (v : Node κ) :
    ({ mkElement d near far c v with colour := c' } : Element κ) =
      mkElement d near far c' v := by
  cases d <;> rfl

/-- A step turns one represented tree into another one with the same elements in
the same order. -/
structure Rearranged (s : Nodes κ) (t : ColourTree (Node κ)) (s' : Nodes κ)
    (t' : ColourTree (Node κ)) :
    Prop where
  rep : Rep s' t'
  kept : Kept (addrs t) s s'
  toList_eq : t'.toList = t.toList

theorem Rearranged.refl (h : Rep s t) : Rearranged s t s t :=
  ⟨h, Kept.refl _ s, rfl⟩

theorem Rearranged.trans {s'' : Nodes κ} {t'' : ColourTree (Node κ)}
    (hfirst : Rearranged s t s' t') (hsecond : Rearranged s' t' s'' t'') :
    Rearranged s t s'' t'' where
  rep := hsecond.rep
  kept := by
    have haddrs : addrs t' = addrs t := by rw [addrs, hfirst.toList_eq, addrs]
    have hkept := hsecond.kept
    rw [haddrs] at hkept
    exact hfirst.kept.trans hkept
  toList_eq := hsecond.toList_eq.trans hfirst.toList_eq

theorem Rep.setColour (h : Rep s (plug ctx (.mk d c a v b))) (c' : Colour) :
    exists s', s.setColour v.addr c' = .ok s' ∧
      Rearranged s (plug ctx (.mk d c a v b)) s' (plug ctx (.mk d c' a v b)) := by
  rcases Rep.modify (fun x => { x with colour := c' }) h
    (fun near far => mkElement_withColour d near far c c' v) rfl with ⟨s', hwrite, hrep, hkept⟩
  refine ⟨s', hwrite, hrep, hkept.mono fun p hp => ?_,
    toList_plug_congr ctx (ColourTree.toList_mk_congr rfl rfl)⟩
  rw [List.mem_singleton.mp hp]
  exact mem_addrs_plug.mpr (Or.inl (mem_addrs_mk.mpr (Or.inl rfl)))

/-- A represented subtree can be put anywhere above itself. -/
theorem Rep.graftable (h : Rep s (plug ctx t)) {l : List Ptr} (hs' : Kept l s s')
    (hsame : forall p, p ∈ addrs t -> p ∉ l) {ctx' : Context (Node κ)}
    (hapart : forall p, p ∈ addrs t -> p ∉ contextAddrs ctx') : Graftable s' ctx' t where
  holds := by
    rw [hs'.nullElement_eq]
    exact h.holdsTree.congr fun p hp => hs'.heap_eq p (hsame p hp)
  nodup := (nodup_plug.mp h.nodup).left
  null_notMem := by
    rw [hs'.nullElement_eq]
    exact fun hmem => h.null_notMem (mem_addrs_plug.mpr (Or.inl hmem))
  apart := hapart

theorem Rep.rotate_apart (h : Rep s (plug ctx (.mk d c a v (.mk d c' b w e)))) :
    (forall p, p ∈ addrs (.mk d c' b w e) -> p ∉ contextAddrs (⟨d.other, c, v, a⟩ :: ctx)) ∧
      forall p, p ∈ addrs (.mk d c a v b) -> p ∉ contextAddrs (⟨d, c', w, e⟩ :: ctx) := by
  have hnodup := h.nodup
  rw [nodup_plug, nodup_mk, nodup_mk] at hnodup
  rcases hnodup with
    ⟨⟨⟨hva, hvy⟩, _, ⟨⟨hwb, hwe⟩, _, _, hbe⟩, hay⟩, _, hctx⟩
  constructor
  · intro p hp hmem
    rcases mem_contextAddrs_cons.mp hmem with heq | ha | hup
    · exact hvy (heq ▸ hp)
    · exact hay p ha hp
    · exact hctx p (mem_addrs_mk.mpr (Or.inr (Or.inr hp))) hup
  · intro p hp hmem
    rw [mem_addrs_mk] at hp
    rcases mem_contextAddrs_cons.mp hmem with heq | he | hup
    · have hw : p ∈ addrs (.mk d c' b w e) := mem_addrs_mk.mpr (Or.inl heq)
      rcases hp with hv | ha | hb
      · exact hvy (hv ▸ hw)
      · exact hay p ha hw
      · exact hwb (heq ▸ hb)
    · have hw : p ∈ addrs (.mk d c' b w e) := mem_addrs_mk.mpr (Or.inr (Or.inr he))
      rcases hp with hv | ha | hb
      · exact hvy (hv ▸ hw)
      · exact hay p ha hw
      · exact hbe p hb he
    · rcases hp with hv | ha | hb
      · exact hctx p (mem_addrs_mk.mpr (Or.inl hv)) hup
      · exact hctx p (mem_addrs_mk.mpr (Or.inr (Or.inl ha))) hup
      · exact hctx p (mem_addrs_mk.mpr (Or.inr (Or.inr
          (mem_addrs_mk.mpr (Or.inr (Or.inl hb)))))) hup

/-- A rotation makes three writes: the inner subtree changes its parent, the
lower node takes the place of the upper one, and the upper one goes below it. -/
theorem Rep.rotate (h : Rep s (plug ctx (.mk d c a v (.mk d c' b w e)))) :
    exists s', rotate d s (linkOf ctx) v.addr = .ok s' ∧
      Rearranged s (plug ctx (.mk d c a v (.mk d c' b w e)))
        s' (plug ctx (.mk d c' (.mk d c a v b) w e)) := by
  rcases h.rotate_apart with ⟨hy, hx⟩
  -- the place of the lower node below the upper one, and the other way round
  let upper : Frame (Node κ) := ⟨d.other, c, v, a⟩
  let lower : Frame (Node κ) := ⟨d, c', w, e⟩
  have hup : forall {p : Ptr} {f : Frame (Node κ)}, p ∈ contextAddrs ctx ->
      p ∈ contextAddrs (f :: ctx) := fun hp => mem_contextAddrs_cons.mpr (Or.inr (Or.inr hp))
  have hupper : forall x, plug (upper :: ctx) x = plug ctx (.mk d c a v x) := by
    intro x
    rw [plug_cons, Frame.fill, ColourTree.mk_other]
  have hstart : Rep s (plug (upper :: ctx) (.mk d c' b w e)) := by
    rw [hupper]
    exact h
  have hinner : Rep s (plug (lower :: upper :: ctx) b) := hstart
  have hgraft₁ := hinner.graftable (Kept.refl [] s) (fun _ _ => List.not_mem_nil)
    (fun p hp => hy p (mem_addrs_mk.mpr (Or.inr (Or.inl hp))))
  rcases hstart.write hgraft₁ with ⟨s₁, hwrite₁, hrep₁, hkept₁⟩
  have hgraft₂ := hstart.graftable hkept₁ hy (fun p hp hmem => hy p hp (hup hmem))
  rw [hupper] at hrep₁
  rcases hrep₁.write hgraft₂ with ⟨s₂, hwrite₂, hrep₂, hkept₂⟩
  have hgraft₃ := hrep₁.graftable hkept₂ (fun p hp hmem => hx p hp (hup hmem)) hx
  have hrep₂' : Rep s₂ (plug (lower :: ctx) b) := hrep₂
  rcases hrep₂'.write hgraft₃ with ⟨s₃, hwrite₃, hrep₃, hkept₃⟩
  have hwhole : plug (lower :: upper :: ctx) b =
      plug ctx (.mk d c a v (.mk d c' b w e)) := hupper _
  have hall : forall p, p ∈ contextAddrs (lower :: upper :: ctx) ->
      p ∈ addrs (plug ctx (.mk d c a v (.mk d c' b w e))) := by
    intro p hp
    rw [← hwhole]
    exact mem_addrs_plug.mpr (Or.inr hp)
  have hupperSub : forall p, p ∈ contextAddrs (upper :: ctx) ->
      p ∈ addrs (plug ctx (.mk d c a v (.mk d c' b w e))) := fun p hp =>
    hall p (mem_contextAddrs_cons.mpr (Or.inr (Or.inr hp)))
  have hlowerSub : forall p, p ∈ contextAddrs (lower :: ctx) ->
      p ∈ addrs (plug ctx (.mk d c a v (.mk d c' b w e))) := by
    intro p hp
    rw [mem_contextAddrs_cons, ← or_assoc] at hp
    rcases hp with hp | hp
    · exact hall p (mem_contextAddrs_cons.mpr (or_assoc.mp (Or.inl hp)))
    · exact hupperSub p (hup hp)
  refine ⟨s₃, ?_, hrep₃,
    ((hkept₁.mono hupperSub).trans (hkept₂.mono fun p hp => hupperSub p (hup hp))).trans
      (hkept₃.mono hlowerSub),
    toList_plug_congr ctx (ColourTree.toList_rotate d c c' a b e v w)⟩
  rw [addrOf_mk] at hwrite₂ hwrite₃
  rw [RBTree.rotate, h.element]
  simp only [bind, Except.bind, mkElement_child_other, addrOf_mk, hstart.element,
    mkElement_child]
  rw [linkOf, Nodes.write] at hwrite₁ hwrite₃
  rw [hwrite₁]
  simp only [hwrite₂]
  exact hwrite₃

end RBTree
end MyLibs
