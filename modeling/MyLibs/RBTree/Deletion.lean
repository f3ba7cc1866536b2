import MyLibs.RBTree.Insertion

/-!
# Deletion

An element with at most one child is replaced by that child. One with two
children gives its place and its colour to its successor, so that what leaves is
again a place with at most one child. The path stack ends at that place.
-/

namespace MyLibs
namespace RBTree

open Foundation

variable {κ : Type} {s s' : Nodes κ} {compare : κ -> κ -> Int} {key : κ} {d : Dir}
  {c c' : Colour} {a b e t t' : ColourTree (Node κ)} {v w : Node κ} {ctx : Context (Node κ)}
  {tree tree' : RbTree κ}

/-!
## Leaving a place
-/

/-- What is left when a node of this colour, with one child at most, gives its
place to the child. -/
def Missing (ctx : Context (Node κ)) (t : ColourTree (Node κ)) : Colour -> Prop
  | .red => RedBlackTree (plug ctx t)
  | .black => exists n, Fits ctx (n + 1) ∧ Deficient t n

theorem missing_of_fits {n : Nat} (hfits : Fits ctx n)
    (h : IsRedBlack (.mk d c .nil v e) n) : Missing ctx e c := by
  cases c with
  | red =>
      rcases isRedBlack_red_iff.mp h with ⟨_, heblack, hnil, he⟩
      rw [isRedBlack_nil_iff.mp hnil] at hfits he
      exact .plug hfits he (Or.inl heblack)
  | black =>
      cases n with
      | zero => exact absurd h isRedBlack_black_zero
      | succ n =>
          rcases isRedBlack_black_iff.mp h with ⟨hnil, he⟩
          refine ⟨n, hfits, ?_⟩
          cases hcolour : e.colour with
          | black => exact Or.inl ⟨hcolour, he⟩
          | red => exact Or.inr ⟨hcolour, he.blacken hcolour⟩

structure Unlinked (s : Nodes κ) (t : ColourTree (Node κ)) (v : Node κ) (s' : Nodes κ)
    (ctx : Context (Node κ)) (t' : ColourTree (Node κ)) : Prop where
  rep : Rep s' (plug ctx t')
  stack : StackFor s'.parents ctx
  length_lt : ctx.length < MAX_rbtree_HEIGHT
  length_le : ctx.length + 1 <= t.height
  toList_eq : exists first rest, t.toList = first ++ v :: rest ∧
    (plug ctx t').toList = first ++ rest
  key_eq : s'.elementKey v.addr = .ok v.key
  confined : Confined (addrs t) s s'

theorem Rep.writeChild (h : Rep s (plug ctx (.mk d c .nil v e))) :
    exists s', s.write (linkOf ctx) (addrOf s.nullElement e) = .ok s' ∧
      Rep s' (plug ctx e) ∧ Kept (contextAddrs ctx) s s' := by
  have hchild : Rep s (plug (⟨d.other, c, v, .nil⟩ :: ctx) e) := by
    rw [plug_cons, Frame.fill, ColourTree.mk_other]
    exact h
  have hapart : forall p, p ∈ addrs e -> p ∉ contextAddrs ctx := fun p hp =>
    (nodup_plug.mp h.nodup).right.right p (mem_addrs_mk.mpr (Or.inr (Or.inr hp)))
  exact h.write (hchild.graftable (Kept.refl [] s) (fun p _ => List.not_mem_nil) hapart)

theorem Rep.root_apart (h : Rep s (plug ctx (.mk d c a v b))) : v.addr ∉ contextAddrs ctx :=
  (nodup_plug.mp h.nodup).right.right _ (mem_addrs_mk.mpr (Or.inl rfl))

theorem unlinkChild_spec (h : Rep s (plug ctx (.mk d c .nil v e)))
    (hstack : StackFor s.parents ctx) (hlen : ctx.length < MAX_rbtree_HEIGHT) :
    exists s', s.write (linkOf ctx) (addrOf s.nullElement e) = .ok s' ∧
      Unlinked s (plug ctx (.mk d c .nil v e)) v s' ctx e := by
  rcases h.writeChild with ⟨s', hwrite, hrep, hkept⟩
  have hheight := length_add_height_le ctx (.mk d c .nil v e)
  have hpos : 0 < (ColourTree.mk d c .nil v e).height := by
    cases d <;> exact Nat.succ_pos _
  have hconfined : Confined (addrs (plug ctx (.mk d c .nil v e))) s s' :=
    hkept.toConfined.mono fun p hp => mem_addrs_plug.mpr (Or.inr hp)
  refine ⟨s', hwrite, hrep, ?_, hlen, by omega, ?_, ?_, hconfined⟩
  · rw [hkept.parents_eq]
    exact hstack
  · cases d with
    | left =>
        refine ⟨before ctx, e.toList ++ after ctx, ?_, ?_⟩
        · simp [toList_plug, ColourTree.mk, ColourTree.toList]
        · simp [toList_plug]
    | right =>
        refine ⟨before ctx ++ e.toList, after ctx, ?_, ?_⟩
        · simp [toList_plug, ColourTree.mk, ColourTree.toList]
        · simp [toList_plug]
  · rw [Nodes.elementKey, Nodes.element, hkept.heap_eq _ h.root_apart, h.heap_eq]
    simp only [bind, Except.bind, mkElement_key]

/-!
## The successor
-/

/-- The descent to the least element below a place fails only on a tree too high
for the stack. -/
theorem leftmost_spec {fuel : Nat} (hfuel : MAX_rbtree_HEIGHT < fuel + ctx.length)
    (hlen : ctx.length < MAX_rbtree_HEIGHT) (h : Rep s (plug ctx t)) (ht : t ≠ .nil)
    (hstack : StackFor s.parents ctx) :
    ((exists fault, leftmost fuel s ctx.length (addrOf s.nullElement t) = .error fault) ∧
      MAX_rbtree_HEIGHT <= (plug ctx t).height) ∨
    exists parents inner c w e, leftmost fuel s ctx.length (addrOf s.nullElement t) =
        .ok ({ s with parents := parents }, (inner ++ ctx).length, w.addr) ∧
      t = plug inner (.mk .left c .nil w e) ∧ before inner = [] ∧
      StackFor parents (inner ++ ctx) ∧ (inner ++ ctx).length < MAX_rbtree_HEIGHT := by
  induction fuel generalizing s ctx t with
  | zero => omega
  | succ fuel ih =>
      rcases ColourTree.exists_mk .left ht with ⟨c, a, w, b, rfl⟩
      rw [leftmost, addrOf_mk, h.element]
      simp only [bind, Except.bind]
      by_cases ha : a = .nil
      · subst ha
        have hleft : (mkElement .left s.nullElement (addrOf s.nullElement b) c w).left =
            s.nullElement := rfl
        rw [addrOf, if_pos hleft]
        exact Or.inr ⟨s.parents, [], c, w, b, rfl, rfl, rfl, hstack, hlen⟩
      have hbelow : Rep s (plug (⟨.left, c, w, b⟩ :: ctx) a) := h
      have hleft : (mkElement .left (addrOf s.nullElement a) (addrOf s.nullElement b)
          c w).left ≠ s.nullElement := fun heq => ha (hbelow.addrOf_eq_null_iff.mp heq)
      rw [if_neg hleft]
      by_cases hroom : ctx.length + 1 < MAX_rbtree_HEIGHT
      · let parents := Function.update s.parents (ctx.length + 1) (.child .left w.addr)
        have hset : s.setParent (ctx.length + 1) (.child .left w.addr) =
            .ok { s with parents := parents } := setParent_eq hroom _
        have hrep : Rep { s with parents := parents } (plug (⟨.left, c, w, b⟩ :: ctx) a) :=
          (hbelow.withParents parents).rep
        have hfuel' : MAX_rbtree_HEIGHT <
            fuel + (Frame.mk .left c w b :: ctx).length := by
          rw [List.length_cons]
          omega
        simp only [hset]
        rcases ih hfuel' hroom hrep ha (hstack.push ⟨.left, c, w, b⟩) with
          herror | ⟨parents', inner, c', w', e, hloop, hplug, hbefore, hstack', hlen'⟩
        · exact Or.inl herror
        have happend : inner ++ Frame.mk .left c w b :: ctx =
            (inner ++ [Frame.mk .left c w b]) ++ ctx := by
          rw [List.append_assoc, List.singleton_append]
        rw [happend] at hloop hstack' hlen'
        refine Or.inr ⟨parents', inner ++ [Frame.mk .left c w b], c', w', e, hloop, ?_, ?_,
          hstack', hlen'⟩
        · rw [plug_append, ← hplug]
          rfl
        · rw [before_append, hbefore]
          rfl
      · have hset : s.setParent (ctx.length + 1) (.child .left w.addr) = .error .badIndex :=
          if_neg hroom
        have hheight := length_add_height_le ctx (.mk .left c a w b)
        have hpos : 0 < (ColourTree.mk .left c a w b).height := Nat.succ_pos _
        exact Or.inl ⟨⟨.badIndex, by simp only [hset]⟩, by omega⟩

theorem StackFor.outer {parents : Nat -> Link} {inner : Context (Node κ)}
    (h : StackFor parents (inner ++ ctx)) : StackFor parents ctx := by
  induction inner with
  | nil => exact h
  | cons f inner ih => exact ih h.right

theorem StackFor.patch {parents : Nat -> Link} {inner : Context (Node κ)}
    {f : Frame (Node κ)} (h : StackFor parents (inner ++ f :: ctx)) (w : Node κ) :
    StackFor (Function.update parents (ctx.length + 1) (.child f.dir w.addr))
      (inner ++ { f with value := w } :: ctx) := by
  induction inner with
  | nil =>
      exact ⟨Function.update_self .., h.right.update (Nat.lt_succ_self _) _⟩
  | cons g inner ih =>
      refine ⟨?_, ih h.right⟩
      show Function.update parents (ctx.length + 1) _
        ((inner ++ { f with value := w } :: ctx).length + 1) = _
      have hlength : (inner ++ { f with value := w } :: ctx).length =
          (inner ++ f :: ctx).length := by simp
      have hne : (inner ++ f :: ctx).length + 1 ≠ ctx.length + 1 := by
        rw [List.length_append, List.length_cons]
        omega
      rw [hlength, Function.update_of_ne hne]
      exact h.left

theorem Rep.adopt (change : Element κ -> Element κ) (h : Rep s (plug ctx (.node c t w e)))
    (hchange : change (mkElement .left (addrOf s.nullElement t) (addrOf s.nullElement e) c w) =
      mkElement .left (addrOf s.nullElement a) (addrOf s.nullElement b) c' w)
    (ha : Holds s.heap s.nullElement a) (hb : Holds s.heap s.nullElement b)
    (hnodup : (addrs (plug ctx (.node c' a w b))).Nodup)
    (hnull : s.nullElement ∉ addrs (plug ctx (.node c' a w b))) :
    exists s', s.modify w.addr change = .ok s' ∧ Rep s' (plug ctx (.node c' a w b)) ∧
      Kept [w.addr] s s' := by
  have hnode : Rep s (plug ctx (.mk .left c t w e)) := h
  have hnode' : (addrs (plug ctx (.mk .left c' a w b))).Nodup := hnodup
  rw [nodup_plug, nodup_mk] at hnode'
  rcases hnode' with ⟨⟨⟨hwa, hwb⟩, _⟩, _, hctx⟩
  have hwctx : w.addr ∉ contextAddrs ctx := hctx _ (mem_addrs_mk.mpr (Or.inl rfl))
  let heap' := Function.update s.heap w.addr
    (some (mkElement .left (addrOf s.nullElement a) (addrOf s.nullElement b) c' w))
  have hother : forall p, p ≠ w.addr -> heap' p = s.heap p := fun p hp =>
    Function.update_of_ne hp ..
  have hnotMem : forall {l : List Ptr} {p : Ptr}, p ∈ l -> w.addr ∉ l ->
      heap' p = s.heap p := fun hp hl => hother _ (fun heq => hl (heq ▸ hp))
  have hne : w.addr ≠ s.nullElement := hnode.null_ne (mem_addrs_mk.mpr (Or.inl rfl))
  refine ⟨{ s with heap := heap' }, ?_, ⟨?_, ?_, hnodup, hnull, ?_, ?_⟩, ⟨rfl, ?_⟩, rfl⟩
  · rw [Nodes.modify, hnode.element]
    show Except.ok _ = _
    rw [hchange]
  · rw [h.root_eq]
    refine (addrOf_plug_congr ?_).symm
    rfl
  · refine holds_plug.mpr ⟨⟨Function.update_self .., ?_, ?_⟩, ?_⟩
    · exact ha.congr fun p hp => hnotMem hp hwa
    · exact hb.congr fun p hp => hnotMem hp hwb
    · exact h.holdsContext.congr fun p hp => hnotMem hp hwctx
  · show heap' s.nullElement = _
    rw [hother _ hne.symm, h.sentinel]
  · show heap' NULL = none
    rw [hother, h.null_none]
    rintro heq
    have hcell := hnode.heap_eq
    rw [← heq, h.null_none] at hcell
    cases hcell
  · intro p hp
    exact hother p fun heq => hp (List.mem_singleton.mpr heq)

theorem mem_contextAddrs_append {inner : Context (Node κ)} {p : Ptr}
    (hp : p ∈ contextAddrs ctx) : p ∈ contextAddrs (inner ++ ctx) := by
  induction inner with
  | nil => exact hp
  | cons f inner ih => exact mem_contextAddrs_cons.mpr (Or.inr (Or.inr ih))

theorem toList_successor {inner : Context (Node κ)} (hbefore : before inner = []) :
    (plug ctx (.node c a v (plug inner t))).toList =
      (before ctx ++ a.toList) ++ v :: (t.toList ++ after inner ++ after ctx) := by
  simp [toList_plug, ColourTree.toList, hbefore]

/-- The writes that give the place of `v` to its successor `w`. -/
theorem placeWrites_spec {inner : Context (Node κ)} (parents : Nat -> Link)
    (h : Rep s (plug ctx (.node c a v (plug inner (.mk .left c' .nil w e)))))
    (hbefore : before inner = []) :
    exists s₁ s₂ ev s', s.write (linkOf (inner ++ ⟨.right, c, v, a⟩ :: ctx))
        (addrOf s.nullElement e) = .ok s₁ ∧
      s₁.parents = s.parents ∧ s₁.write (linkOf ctx) w.addr = .ok s₂ ∧
      s₂.parents = s.parents ∧
      Nodes.element { s₂ with parents := parents } v.addr = .ok ev ∧
      Nodes.modify { s₂ with parents := parents } w.addr
        (fun n => { n with left := ev.left, right := ev.right, colour := ev.colour }) = .ok s' ∧
      s'.parents = parents ∧
      Confined (addrs (plug ctx (.node c a v (plug inner (.mk .left c' .nil w e))))) s s' ∧
      Rep s' (plug (inner ++ ⟨.right, c, w, a⟩ :: ctx) e) ∧
      s'.elementKey v.addr = .ok v.key := by
  let f : Frame (Node κ) := ⟨.right, c, v, a⟩
  have hfull : Rep s (plug (inner ++ f :: ctx) (.mk .left c' .nil w e)) := by
    rw [plug_append]
    exact h
  have hw := hfull.root_apart
  rcases hfull.writeChild with ⟨s₁, hwrite₁, hrep₁, hkept₁⟩
  have hnull₁ := hkept₁.nullElement_eq
  have hfullApart := (nodup_plug.mp hfull.nodup).right.right
  have hgraft : Graftable s₁ ctx (.mk .left c' .nil w e) :=
    hfull.graftable hkept₁ hfullApart fun p hp hctx =>
      hfullApart p hp (mem_contextAddrs_append (mem_contextAddrs_cons.mpr
        (Or.inr (Or.inr hctx))))
  have hplace₁ : Rep s₁ (plug ctx (.mk .left c a v (plug inner e))) := by
    rw [plug_append] at hrep₁
    exact hrep₁
  rcases hplace₁.write hgraft with ⟨s₂, hwrite₂, hrep₂, hkept₂⟩
  have hnull₂ := hkept₂.nullElement_eq
  rw [addrOf_mk] at hwrite₂
  let ev : Element κ := mkElement .left (addrOf s₂.nullElement a)
    (addrOf s₂.nullElement (plug inner e)) c v
  have hcell : s₂.heap v.addr = some ev := by
    rw [hkept₂.heap_eq _ hplace₁.root_apart, hplace₁.heap_eq, ← hnull₂]
  have hsubtrees := holds_mk.mp hplace₁.holdsTree
  have hplaceApart := (nodup_plug.mp hplace₁.nodup).right.right
  have ha : Holds s₂.heap s₂.nullElement a := by
    rw [hnull₂]
    exact hsubtrees.right.left.congr fun p hp =>
      hkept₂.heap_eq p (hplaceApart p (mem_addrs_mk.mpr (Or.inr (Or.inl hp))))
  have hb : Holds s₂.heap s₂.nullElement (plug inner e) := by
    rw [hnull₂]
    exact hsubtrees.right.right.congr fun p hp =>
      hkept₂.heap_eq p (hplaceApart p (mem_addrs_mk.mpr (Or.inr (Or.inr hp))))
  have hsublist : (addrs (plug ctx (.node c a w (plug inner e)))).Sublist
      (addrs (plug ctx (.node c a v (plug inner (.mk .left c' .nil w e))))) := by
    refine List.Sublist.map _ ?_
    rw [toList_successor hbefore, toList_successor hbefore]
    exact (List.sublist_cons_self ..).append_left _
  have hnodup := h.nodup.sublist hsublist
  have hnotMem : s₂.nullElement ∉ addrs (plug ctx (.node c a w (plug inner e))) := by
    rw [hnull₂, hnull₁]
    exact fun hmem => h.null_notMem (hsublist.subset hmem)
  have hplaced : Rep { s₂ with parents := parents } (plug ctx (.node c' .nil w e)) :=
    (hrep₂.withParents parents).rep
  rcases Rep.adopt (fun n => { n with left := ev.left, right := ev.right, colour := ev.colour })
    hplaced rfl ha hb hnodup hnotMem with ⟨s', hmodify, hrep', hkept'⟩
  have hvw : v.addr ≠ w.addr := by
    intro heq
    have hmem : v.addr ∈ contextAddrs (inner ++ f :: ctx) :=
      mem_contextAddrs_append (mem_contextAddrs_cons.mpr (Or.inl rfl))
    exact hw (heq ▸ hmem)
  have hplug : plug ctx (.node c a v (plug inner (.mk .left c' .nil w e))) =
      plug (inner ++ f :: ctx) (.mk .left c' .nil w e) := by
    rw [plug_append]
    rfl
  have hconfined : Confined (addrs (plug (inner ++ f :: ctx) (.mk .left c' .nil w e))) s s' := by
    refine ⟨hkept'.nullElement_eq.trans (hnull₂.trans hnull₁), fun p hp => ?_⟩
    rw [mem_addrs_plug, mem_addrs_mk, not_or, not_or] at hp
    have hctx : p ∉ contextAddrs ctx := fun hmem =>
      hp.right (mem_contextAddrs_append (mem_contextAddrs_cons.mpr (Or.inr (Or.inr hmem))))
    have hpw : p ∉ [w.addr] := fun hmem => hp.left.left (List.mem_singleton.mp hmem)
    rw [hkept'.heap_eq p hpw]
    exact (hkept₂.heap_eq p hctx).trans (hkept₁.heap_eq p hp.right)
  rw [← hplug] at hconfined
  refine ⟨s₁, s₂, ev, s', hwrite₁, hkept₁.parents_eq, hwrite₂,
    hkept₂.parents_eq.trans hkept₁.parents_eq, ?_, hmodify, hkept'.parents_eq, hconfined,
    ?_, ?_⟩
  · rw [Nodes.element, hcell]
  · rw [plug_append]
    exact hrep'
  · have hsame : s'.heap v.addr = s₂.heap v.addr :=
      hkept'.heap_eq _ fun hmem => hvw (List.mem_singleton.mp hmem)
    rw [Nodes.elementKey, Nodes.element, hsame, hcell]
    rfl

theorem takePlace_spec {inner : Context (Node κ)}
    (h : Rep s (plug ctx (.node c a v (plug inner (.mk .left c' .nil w e)))))
    (hbefore : before inner = [])
    (hstack : StackFor s.parents (inner ++ ⟨.right, c, v, a⟩ :: ctx))
    (hlen : (inner ++ Frame.mk .right c v a :: ctx).length < MAX_rbtree_HEIGHT) :
    exists s', takePlace s ctx.length (inner ++ Frame.mk .right c v a :: ctx).length v.addr
        w.addr = .ok (s', c') ∧
      Unlinked s (plug ctx (.node c a v (plug inner (.mk .left c' .nil w e)))) v s'
        (inner ++ ⟨.right, c, w, a⟩ :: ctx) e := by
  have hfull : Rep s (plug (inner ++ ⟨.right, c, v, a⟩ :: ctx) (.mk .left c' .nil w e)) := by
    rw [plug_append]
    exact h
  have hroom : ctx.length + 1 < MAX_rbtree_HEIGHT := by
    rw [List.length_append, List.length_cons] at hlen
    omega
  let parents := Function.update s.parents (ctx.length + 1) (.child .right w.addr)
  rcases placeWrites_spec parents h hbefore with
    ⟨s₁, s₂, ev, s', hwrite₁, hparents₁, hwrite₂, hparents₂, hev, hmodify, hparents',
      hconfined, hrep', hkey⟩
  have hstack₁ : StackFor s₁.parents ctx := by
    rw [hparents₁]
    exact hstack.outer.right
  have hset : s₂.setParent (ctx.length + 1) (.child .right w.addr) =
      .ok { s₂ with parents := parents } := by
    rw [setParent_eq hroom, hparents₂]
  have hright : (mkElement .left (addrOf s.nullElement (.nil : ColourTree (Node κ)))
      (addrOf s.nullElement e) c' w).right = addrOf s.nullElement e := rfl
  refine ⟨s', ?_, hrep', ?_, ?_, ?_, ?_, hkey, hconfined⟩
  · rw [takePlace, hfull.element, parentAt_eq hstack hlen]
    simp only [bind, Except.bind, hright, hwrite₁, parentAt_eq hstack₁ (Nat.lt_of_succ_lt hroom),
      hwrite₂, hset, hev, hmodify, mkElement_colour]
  · rw [hparents']
    exact hstack.patch w
  · rw [List.length_append, List.length_cons] at hlen ⊢
    exact hlen
  · have hheight := length_add_height_le (inner ++ ⟨.right, c, v, a⟩ :: ctx)
      (.mk .left c' .nil w e)
    have hpos : 0 < (ColourTree.mk .left c' .nil w e).height := Nat.succ_pos _
    rw [plug_append, plug_cons, List.length_append, List.length_cons] at hheight
    rw [List.length_append, List.length_cons]
    exact Nat.le_trans (Nat.add_le_add_left hpos _) hheight
  · refine ⟨before ctx ++ a.toList, w :: (e.toList ++ after inner ++ after ctx), ?_, ?_⟩
    · rw [toList_successor hbefore]
      rfl
    · rw [plug_append]
      exact toList_successor hbefore

theorem unlinkSuccessor_spec (h : Rep s (plug ctx (.node c a v b))) (hb : b ≠ .nil)
    (hstack : StackFor s.parents ctx) (hlen : ctx.length < MAX_rbtree_HEIGHT)
    (hrb : RedBlackTree (plug ctx (.node c a v b))) :
    ((exists fault, unlinkSuccessor s ctx.length v.addr = .error fault) ∧
      MAX_rbtree_HEIGHT <= (plug ctx (.node c a v b)).height) ∨
    exists s' ctx' t' removed,
      unlinkSuccessor s ctx.length v.addr = .ok (s', ctx'.length, removed) ∧
      Unlinked s (plug ctx (.node c a v b)) v s' ctx' t' ∧ Missing ctx' t' removed := by
  have hnode : Rep s (plug ctx (.mk .left c a v b)) := h
  have hright : (mkElement .left (addrOf s.nullElement a) (addrOf s.nullElement b) c v).right =
      addrOf s.nullElement b := rfl
  rw [unlinkSuccessor, hnode.element]
  simp only [bind, Except.bind, hright]
  by_cases hroom : ctx.length + 1 < MAX_rbtree_HEIGHT
  · let parents₁ := Function.update s.parents (ctx.length + 1) (.child .right v.addr)
    have hset₁ : s.setParent (ctx.length + 1) (.child .right v.addr) =
        .ok { s with parents := parents₁ } := setParent_eq hroom _
    have hrep₁ : Rep { s with parents := parents₁ } (plug (Frame.mk .right c v a :: ctx) b) :=
      (h.withParents parents₁).rep
    have hfuel : MAX_rbtree_HEIGHT <
        MAX_rbtree_HEIGHT + 1 + (Frame.mk .right c v a :: ctx).length := by omega
    simp only [hset₁]
    rcases leftmost_spec hfuel hroom hrep₁ hb (hstack.push ⟨.right, c, v, a⟩) with
      ⟨⟨fault, herror⟩, hheight⟩ |
        ⟨parents₂, inner, c', w, e, hloop, rfl, hbefore, hstack₂, hlen₂⟩
    · refine Or.inl ⟨⟨fault, ?_⟩, hheight⟩
      rw [List.length_cons] at herror
      simp only [herror]
    have hrep₂ : Rep { s with parents := parents₂ }
        (plug ctx (.node c a v (plug inner (.mk .left c' .nil w e)))) :=
      (h.withParents parents₂).rep
    rcases takePlace_spec hrep₂ hbefore hstack₂ hlen₂ with ⟨s', htake, hunlinked⟩
    have hlength : (inner ++ Frame.mk .right c w a :: ctx).length =
        (inner ++ Frame.mk .right c v a :: ctx).length := by simp
    refine Or.inr ⟨s', inner ++ ⟨.right, c, w, a⟩ :: ctx, e, c', ?_, ?_, ?_⟩
    · rw [List.length_cons] at hloop
      simp only [hloop, hlength, htake]
    · exact ⟨hunlinked.rep, hunlinked.stack, hunlinked.length_lt, hunlinked.length_le,
        hunlinked.toList_eq, hunlinked.key_eq, hunlinked.confined.nullElement_eq,
        hunlinked.confined.heap_eq⟩
    · have hplug : plug ctx (.node c a v (plug inner (.mk .left c' .nil w e))) =
          plug (inner ++ ⟨.right, c, v, a⟩ :: ctx) (.mk .left c' .nil w e) := by
        rw [plug_append]
        rfl
      rw [hplug] at hrb
      rcases hrb.unplug with ⟨n, hfits, hleaf, _⟩
      exact missing_of_fits (hfits.congr_value w) hleaf
  · have hset : s.setParent (ctx.length + 1) (.child .right v.addr) = .error .badIndex :=
      if_neg hroom
    have hheight := length_add_height_le ctx (.node c a v b)
    have hpos : 0 < (ColourTree.node c a v b).height := Nat.succ_pos _
    exact Or.inl ⟨⟨.badIndex, by simp only [hset]⟩, by omega⟩

/-!
## All cases
-/

theorem unlink_spec (h : Rep s (plug ctx (.node c a v b)))
    (hstack : StackFor s.parents ctx) (hlen : ctx.length < MAX_rbtree_HEIGHT)
    (hrb : RedBlackTree (plug ctx (.node c a v b))) :
    ((exists fault, unlink s ctx.length v.addr = .error fault) ∧
      MAX_rbtree_HEIGHT <= (plug ctx (.node c a v b)).height) ∨
    exists s' ctx' t' removed, unlink s ctx.length v.addr = .ok (s', ctx'.length, removed) ∧
      Unlinked s (plug ctx (.node c a v b)) v s' ctx' t' ∧ Missing ctx' t' removed := by
  have hnode : Rep s (plug ctx (.mk .left c a v b)) := h
  have hleftChild : Rep s (plug (⟨.left, c, v, b⟩ :: ctx) a) := h
  have hrightChild : Rep s (plug (⟨.right, c, v, a⟩ :: ctx) b) := h
  have hleft : (mkElement .left (addrOf s.nullElement a) (addrOf s.nullElement b) c v).left =
      addrOf s.nullElement a := rfl
  have hright : (mkElement .left (addrOf s.nullElement a) (addrOf s.nullElement b) c v).right =
      addrOf s.nullElement b := rfl
  rw [unlink, hnode.element]
  simp only [bind, Except.bind]
  rcases hrb.unplug with ⟨n, hfits, htree, _⟩
  by_cases ha : a = .nil
  · subst ha
    have hchild : Rep s (plug ctx (.mk .left c .nil v b)) := h
    rcases unlinkChild_spec hchild hstack hlen with ⟨s', hwrite, hunlinked⟩
    refine Or.inr ⟨s', ctx, b, c, ?_, hunlinked, missing_of_fits (d := .left) hfits htree⟩
    have hnull : _ = s.nullElement := hleft
    rw [if_pos hnull, parentAt_eq hstack hlen]
    simp only [hright, hwrite, mkElement_colour]
  have hleftNe : ¬ _ = s.nullElement := fun heq =>
    ha (hleftChild.addrOf_eq_null_iff.mp (hleft.symm.trans heq))
  rw [if_neg hleftNe]
  by_cases hb : b = .nil
  · subst hb
    have hchild : Rep s (plug ctx (.mk .right c .nil v a)) := h
    rcases unlinkChild_spec hchild hstack hlen with ⟨s', hwrite, hunlinked⟩
    refine Or.inr ⟨s', ctx, a, c, ?_, hunlinked, missing_of_fits (d := .right) hfits htree⟩
    have hnull : _ = s.nullElement := hright
    rw [if_pos hnull, parentAt_eq hstack hlen]
    simp only [hleft, hwrite, mkElement_colour]
  have hrightNe : ¬ _ = s.nullElement := fun heq =>
    hb (hrightChild.addrOf_eq_null_iff.mp (hright.symm.trans heq))
  rw [if_neg hrightNe]
  exact unlinkSuccessor_spec h hb hstack hlen hrb

theorem fixupIfBlack_spec {removed : Colour} (h : Rep s (plug ctx t))
    (hstack : StackFor s.parents ctx) (hlen : ctx.length < MAX_rbtree_HEIGHT)
    (hmissing : Missing ctx t removed) :
    ((exists fault, fixupIfBlack s ctx.length removed = .error fault) ∧
      MAX_rbtree_HEIGHT <= ctx.length + 1) ∨
    exists s' t', fixupIfBlack s ctx.length removed = .ok s' ∧
      Settled s (plug ctx t) s' t' ∧ RedBlackTree t' := by
  cases removed with
  | red => exact Or.inr ⟨s, plug ctx t, rfl, (Rearranged.refl h).settled, hmissing⟩
  | black =>
      rcases hmissing with ⟨n, hfits, hdeficient⟩
      exact rbDeleteFixup_spec hlen h hstack hfits hdeficient

structure TakenOut (s : Nodes κ) (t : ColourTree (Node κ)) (v : Node κ) (s' : Nodes κ)
    (t' : ColourTree (Node κ)) : Prop where
  rep : Rep s' t'
  redBlack : RedBlackTree t'
  toList_eq : exists first rest, t.toList = first ++ v :: rest ∧ t'.toList = first ++ rest
  key_eq : s'.elementKey v.addr = .ok v.key
  confined : Confined (addrs t) s s'

theorem notMem_of_split (h : Rep s t) {first rest : List (Node κ)}
    (ht : t.toList = first ++ v :: rest) (ht' : t'.toList = first ++ rest) :
    v.addr ∉ addrs t' := by
  have hnodup := h.nodup
  rw [addrs, ht, List.map_append, List.map_cons, List.nodup_middle, List.nodup_cons] at hnodup
  rw [addrs, ht', List.map_append]
  exact hnodup.left

theorem takeOut_spec (h : Rep s (plug ctx (.node c a v b)))
    (hstack : StackFor s.parents ctx) (hlen : ctx.length < MAX_rbtree_HEIGHT)
    (hrb : RedBlackTree (plug ctx (.node c a v b))) :
    ((exists fault, takeOut s ctx.length v.addr = .error fault) ∧
      MAX_rbtree_HEIGHT <= (plug ctx (.node c a v b)).height) ∨
    exists s' t', takeOut s ctx.length v.addr = .ok s' ∧
      TakenOut s (plug ctx (.node c a v b)) v s' t' := by
  rw [takeOut]
  rcases unlink_spec h hstack hlen hrb with
    ⟨⟨fault, herror⟩, hheight⟩ | ⟨s₁, ctx', t₁, removed, hunlink, hunlinked, hmissing⟩
  · rw [herror]
    exact Or.inl ⟨⟨fault, rfl⟩, hheight⟩
  rw [hunlink]
  simp only [bind, Except.bind]
  rcases fixupIfBlack_spec hunlinked.rep hunlinked.stack hunlinked.length_lt hmissing with
    ⟨hfault, hroom⟩ | ⟨s', t', hfixup, hsettled, hbalanced⟩
  · exact Or.inl ⟨hfault, Nat.le_trans hroom hunlinked.length_le⟩
  rcases hunlinked.toList_eq with ⟨first, rest, hbefore, hafter⟩
  have hnotMem := notMem_of_split h hbefore hafter
  have hsub : forall p, p ∈ addrs (plug ctx' t₁) -> p ∈ addrs (plug ctx (.node c a v b)) := by
    intro p hp
    rw [addrs, hafter] at hp
    rw [addrs, hbefore]
    exact ((List.sublist_cons_self ..).append_left first).map Node.addr |>.subset hp
  refine Or.inr ⟨s', t', hfixup, hsettled.rep, hbalanced,
    ⟨first, rest, hbefore, hsettled.toList_eq.trans hafter⟩, ?_,
    hunlinked.confined.trans (hsettled.confined.mono hsub)⟩
  rw [← hunlinked.key_eq, Nodes.elementKey, Nodes.elementKey, Nodes.element, Nodes.element,
    hsettled.confined.heap_eq _ hnotMem]

/-!
## The whole operation
-/

inductive Deleted (compare : κ -> κ -> Int) (isDelete : Bool) (key : κ) :
    ColourTree (Node κ) -> Nat -> ColourTree (Node κ) -> Prop where
  | refused {t : ColourTree (Node κ)} (hdelete : isDelete = false) :
      Deleted compare isDelete key t 1 t
  | missing {t : ColourTree (Node κ)} (habsent : forall u, u ∈ t.toList -> compare u.key key ≠ 0) :
      Deleted compare isDelete key t 1 t
  | removed {t t' : ColourTree (Node κ)} {first rest : List (Node κ)} {u : Node κ}
      (ht : t.toList = first ++ u :: rest) (ht' : t'.toList = first ++ rest)
      (hdelete : isDelete = true) (hequal : compare u.key key = 0) :
      Deleted compare isDelete key t 0 t'

theorem Rep.release (h : Rep s t) {p : Ptr} (hp : p ∉ addrs t) (hnull : p ≠ s.nullElement) :
    Rep { s with heap := Function.update s.heap p none } t := by
  refine h.congr rfl rfl (Function.update_of_ne hnull.symm ..) ?_ fun q hq => ?_
  · show Function.update s.heap p none NULL = none
    cases eq_or_ne NULL p with
    | inl heq => rw [heq, Function.update_self]
    | inr hne => rw [Function.update_of_ne hne, h.null_none]
  · exact Function.update_of_ne (ne_of_mem_of_not_mem hq hp) ..

theorem logged_elements (tree : RbTree κ) (set : Bool) (event : Event κ) :
    (tree.logged set event).elements = tree.elements := by
  cases set <;> rfl

theorem dropElement_eq {element : Ptr} (keySize : Nat)
    (hkey : tree.nodes.elementKey element = .ok key) :
    exists tree', dropElement tree element keySize = .ok tree' ∧
      tree'.nodes = { tree.nodes with
        heap := Function.update tree.nodes.heap element none } ∧
      SameSettings tree tree' ∧ tree'.elements = uint (tree.elements + (2 ^ 32 - 1)) := by
  rw [dropElement, hkey]
  simp only [bind, Except.bind]
  have hnodes := logged_nodes tree tree.free (.freeFree key)
  have helements := logged_elements tree tree.free (.freeFree key)
  have hsettings := (released_logged tree tree.free (.freeFree key)).toSameSettings
  generalize tree.logged tree.free (.freeFree key) = logged at *
  rw [← hnodes, ← helements]
  exact ⟨_, rfl, rfl, ⟨hsettings.compare_eq, hsettings.isDelete_eq, hsettings.flag_eq,
    hsettings.memoryLimit_eq, hsettings.nullElement_eq, hsettings.freeRoot_eq⟩, rfl⟩

theorem dropElement_spec (keySize : Nat) (h : Valid tree t)
    (hout : TakenOut tree.nodes t v s' t') :
    exists tree', dropElement { tree with nodes := s' } v.addr keySize = .ok tree' ∧
      Valid tree' t' ∧ SameSettings tree tree' := by
  rcases hout.toList_eq with ⟨first, rest, hbefore, hafter⟩
  have hsublist : t'.toList.Sublist t.toList := by
    rw [hbefore, hafter]
    exact (List.sublist_cons_self ..).append_left first
  have hmem : v.addr ∈ addrs t := by
    rw [addrs, hbefore]
    exact List.mem_map_of_mem (List.mem_append_right _ (List.mem_cons_self ..))
  have hnull : v.addr ≠ s'.nullElement := by
    rw [hout.confined.nullElement_eq]
    exact fun heq => h.rep.null_notMem (heq ▸ hmem)
  have hsize : t.size = t'.size + 1 := by
    rw [← ColourTree.length_toList, ← ColourTree.length_toList, hbefore, hafter, List.length_append,
      List.length_append, List.length_cons]
    omega
  generalize htree₁ : ({ tree with nodes := s' } : RbTree κ) = tree₁
  have hnodes₁ : tree₁.nodes = s' := by rw [← htree₁]
  have hsettings₁ : SameSettings tree tree₁ := by
    rw [← htree₁]
    exact ⟨rfl, rfl, rfl, rfl, hout.confined.nullElement_eq, rfl⟩
  have helements₁ : tree₁.elements = tree.elements := by rw [← htree₁]
  have hkey := hout.key_eq
  rw [← hnodes₁] at hkey
  rcases dropElement_eq keySize hkey with ⟨tree', hdrop, hnodes', hsettings', helements'⟩
  have hsettings := hsettings₁.trans hsettings'
  rw [hnodes₁] at hnodes'
  refine ⟨tree', hdrop, ⟨?_, hout.redBlack, ?_, ?_, ?_, ?_, hsettings.freesPool h.pool⟩,
    hsettings⟩
  · rw [hnodes']
    exact hout.rep.release (notMem_of_split h.rep hbefore hafter) hnull
  · rw [hsettings.compare_eq]
    exact h.ascending.sublist hsublist
  · rw [helements', helements₁, h.elements_eq, hsize, uint, uint, uint]
    omega
  · exact fun w hw => h.count w (hsublist.subset hw)
  · -- an element still there was there before and is not the one given back
    intro p hp
    rw [hnodes'] at hp
    have hpv : p ≠ v.addr := by
      rintro rfl
      exact hp (Function.update_self ..)
    have hp' : s'.heap p ≠ none := by
      rw [← Function.update_of_ne hpv none s'.heap]
      exact hp
    rw [hsettings.nullElement_eq]
    by_cases hpt : p ∈ addrs t
    · refine Or.inr ?_
      rw [addrs, hbefore] at hpt
      rw [addrs, hafter]
      simp only [List.map_append, List.map_cons, List.mem_append, List.mem_cons] at hpt ⊢
      tauto
    · rw [hout.confined.heap_eq p hpt] at hp'
      exact Or.inl ((h.owned p hp').resolve_right hpt)

theorem rbtreeDelete_pass (keySize : Nat) (hcompare : TotalPreorder tree.compare)
    (h : Valid tree t) (hdelete : tree.isDelete = true) :
    ((exists fault, rbtreeDelete tree key keySize = .error fault) ∧
      MAX_rbtree_HEIGHT <= t.height) ∨
    exists s, Valid { tree with nodes := s } t ∧ SameSettings tree { tree with nodes := s } ∧
      (((forall u, u ∈ t.toList -> tree.compare u.key key ≠ 0) ∧
        rbtreeDelete tree key keySize = .ok (1, { tree with nodes := s })) ∨
      exists s' v t', tree.compare v.key key = 0 ∧ TakenOut s t v s' t' ∧
        rbtreeDelete tree key keySize = (do
          let tree <- dropElement { tree with nodes := s' } v.addr keySize
          .ok (0, tree))) := by
  have hset : ¬ (!tree.isDelete) = true := by
    rw [hdelete]
    decide
  rw [rbtreeDelete, if_neg hset]
  simp only [bind, Except.bind]
  rcases findPlace_spec hcompare h.rep h.ascending key with
    ⟨⟨fault, herror⟩, hheight⟩ | ⟨parents, ctx, u, hplace, hplug, hstack, hlen, hat⟩
  · simp only [herror]
    exact Or.inl ⟨⟨fault, rfl⟩, hheight⟩
  simp only [hplace]
  subst hplug
  generalize hs₁ : ({ tree.nodes with parents := parents } : Nodes κ) = s₁
  have hnull₁ : s₁.nullElement = tree.nodes.nullElement := by rw [← hs₁]
  have hsettings₁ : SameSettings tree { tree with nodes := s₁ } :=
    ⟨rfl, rfl, rfl, rfl, hnull₁, rfl⟩
  have hvalid₁ : Valid { tree with nodes := s₁ } (plug ctx u) :=
    h.congr hsettings₁ rfl (by rw [← hs₁]) (by rw [← hs₁])
  have hrep₁ : Rep s₁ (plug ctx u) := hvalid₁.rep
  rw [← hnull₁]
  rcases hat.hit with rfl | ⟨c, a, v, b, rfl, hequal⟩
  · rw [addrOf, if_pos rfl]
    exact Or.inr ⟨s₁, hvalid₁, hsettings₁, Or.inl ⟨hat.absent, rfl⟩⟩
  have hne : ¬ addrOf s₁.nullElement (.node c a v b) = s₁.nullElement := fun heq =>
    ColourTree.mk_ne_nil .left c a v b (hrep₁.addrOf_eq_null_iff.mp heq)
  have hstack₁ : StackFor s₁.parents ctx := by
    rw [← hs₁]
    exact hstack
  rw [if_neg hne, show addrOf s₁.nullElement (.node c a v b) = v.addr from rfl]
  rcases takeOut_spec hrep₁ hstack₁ hlen h.redBlack with
    ⟨⟨fault, herror⟩, hheight⟩ | ⟨s₂, t', htake, hout⟩
  · simp only [herror]
    exact Or.inl ⟨⟨fault, rfl⟩, hheight⟩
  simp only [htake]
  exact Or.inr ⟨s₁, hvalid₁, hsettings₁, Or.inr ⟨s₂, v, t', hequal, hout, rfl⟩⟩

/-- `rbtree_delete` fails only on a tree too high for the stack. -/
theorem rbtreeDelete_spec (keySize : Nat) (hcompare : TotalPreorder tree.compare)
    (h : Valid tree t) :
    ((exists fault, rbtreeDelete tree key keySize = .error fault) ∧
      MAX_rbtree_HEIGHT <= t.height) ∨
    exists r tree' t', rbtreeDelete tree key keySize = .ok (r, tree') ∧ Valid tree' t' ∧
      SameSettings tree tree' ∧
      Deleted tree.compare tree.isDelete key t r t' := by
  by_cases hdelete : tree.isDelete = true
  · rcases rbtreeDelete_pass keySize hcompare h hdelete with
      herror | ⟨s, hvalid, hsettings, ⟨habsent, hcall⟩ | ⟨s', v, t', hequal, hout, hcall⟩⟩
    · exact Or.inl herror
    · exact Or.inr ⟨1, _, t, hcall, hvalid, hsettings, .missing habsent⟩
    · rcases dropElement_spec keySize hvalid hout with ⟨tree', hdrop, hvalid', hsettings'⟩
      rcases hout.toList_eq with ⟨first, rest, hbefore, hafter⟩
      have hdrop' : dropElement { tree with nodes := s' } v.addr keySize = .ok tree' := hdrop
      rw [hdrop'] at hcall
      exact Or.inr ⟨0, tree', t', hcall, hvalid', hsettings.trans hsettings',
        .removed hbefore hafter hdelete hequal⟩
  · rw [Bool.not_eq_true] at hdelete
    have hset : (!tree.isDelete) = true := by rw [hdelete, Bool.not_false]
    rw [rbtreeDelete, if_pos hset]
    exact Or.inr ⟨1, tree, t, rfl, h, SameSettings.refl tree, .refused hdelete⟩

end RBTree
end MyLibs
