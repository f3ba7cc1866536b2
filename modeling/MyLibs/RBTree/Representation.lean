import MyLibs.RBTree.Nodes

/-!
# Trees in the heap

What it means that the elements in the heap form a tree. A tree here keeps the
address of every element together with its key and count, so that moving an
element and moving its contents are different things.
-/

namespace MyLibs
namespace RBTree

open Foundation

variable {κ : Type _}

structure Node (κ : Type _) where
  addr : Ptr
  key : κ
  count : Nat

def mkElement (d : Dir) (near far : Ptr) (c : Colour) (v : Node κ) : Element κ :=
  match d with
  | .left => { left := near, right := far, count := v.count, colour := c, key := some v.key }
  | .right => { left := far, right := near, count := v.count, colour := c, key := some v.key }

section Element

variable (d : Dir) (near far p : Ptr) (c : Colour) (v : Node κ)

@[simp]
theorem mkElement_child : (mkElement d near far c v).child d = near := by
  cases d <;> rfl

@[simp]
theorem mkElement_child_other : (mkElement d near far c v).child d.other = far := by
  cases d <;> rfl

@[simp]
theorem mkElement_setChild :
    (mkElement d near far c v).setChild d p = mkElement d p far c v := by
  cases d <;> rfl

@[simp]
theorem mkElement_colour : (mkElement d near far c v).colour = c := by
  cases d <;> rfl

@[simp]
theorem mkElement_key : (mkElement d near far c v).key = some v.key := by
  cases d <;> rfl

@[simp]
theorem mkElement_count : (mkElement d near far c v).count = v.count := by
  cases d <;> rfl

end Element

def addrOf (z : Ptr) : ColourTree (Node κ) -> Ptr
  | .nil => z
  | .node _ _ v _ => v.addr

def Holds (heap : Ptr -> Option (Element κ)) (z : Ptr) : ColourTree (Node κ) -> Prop
  | .nil => True
  | .node c l v r => heap v.addr = some (mkElement .left (addrOf z l) (addrOf z r) c v) ∧
      Holds heap z l ∧ Holds heap z r

def HoldsContext (heap : Ptr -> Option (Element κ)) (z : Ptr) :
    Ptr -> Context (Node κ) -> Prop
  | _, [] => True
  | p, f :: ctx =>
      heap f.value.addr = some (mkElement f.dir p (addrOf z f.sibling) f.colour f.value) ∧
        Holds heap z f.sibling ∧ HoldsContext heap z f.value.addr ctx

def addrs (t : ColourTree (Node κ)) : List Ptr :=
  t.toList.map Node.addr

def contextAddrs (ctx : Context (Node κ)) : List Ptr :=
  (before ctx ++ after ctx).map Node.addr

variable {heap heap' : Ptr -> Option (Element κ)} {z : Ptr} {d : Dir} {c : Colour}
  {a b t t' : ColourTree (Node κ)} {v : Node κ} {ctx : Context (Node κ)} {f : Frame (Node κ)}

@[simp]
theorem addrOf_mk (z : Ptr) (d : Dir) (c : Colour) (a : ColourTree (Node κ)) (v : Node κ)
    (b : ColourTree (Node κ)) : addrOf z (.mk d c a v b) = v.addr := by
  cases d <;> rfl

@[simp]
theorem addrOf_fill (z : Ptr) (f : Frame (Node κ)) (t : ColourTree (Node κ)) :
    addrOf z (f.fill t) = f.value.addr :=
  addrOf_mk z f.dir f.colour t f.value f.sibling

theorem holds_mk : Holds heap z (.mk d c a v b) <->
    heap v.addr = some (mkElement d (addrOf z a) (addrOf z b) c v) ∧
      Holds heap z a ∧ Holds heap z b := by
  cases d with
  | left => exact Iff.rfl
  | right =>
      show _ ∧ Holds heap z b ∧ Holds heap z a <-> _
      rw [and_comm (a := Holds heap z b)]
      exact Iff.rfl

theorem holds_plug : Holds heap z (plug ctx t) <->
    Holds heap z t ∧ HoldsContext heap z (addrOf z t) ctx := by
  induction ctx generalizing t with
  | nil => simp [HoldsContext]
  | cons f ctx ih =>
      rw [plug_cons, ih, Frame.fill, holds_mk, addrOf_mk, HoldsContext]
      tauto

theorem addrs_plug (ctx : Context (Node κ)) (t : ColourTree (Node κ)) :
    (addrs (plug ctx t)).Perm (addrs t ++ contextAddrs ctx) := by
  rw [addrs, toList_plug, addrs, contextAddrs, ← List.map_append]
  refine List.Perm.map _ ?_
  rw [← List.append_assoc]
  exact List.perm_append_comm.append_right _

theorem addrs_mk (d : Dir) (c : Colour) (a : ColourTree (Node κ)) (v : Node κ)
    (b : ColourTree (Node κ)) :
    (addrs (.mk d c a v b)).Perm (v.addr :: (addrs a ++ addrs b)) := by
  cases d with
  | left =>
      show (List.map Node.addr (a.toList ++ v :: b.toList)).Perm _
      rw [List.map_append, List.map_cons]
      exact List.perm_middle
  | right =>
      show (List.map Node.addr (b.toList ++ v :: a.toList)).Perm _
      rw [List.map_append, List.map_cons]
      exact List.perm_middle.trans (List.perm_append_comm.cons _)

theorem mem_addrs_mk {p : Ptr} : p ∈ addrs (.mk d c a v b) <->
    p = v.addr ∨ p ∈ addrs a ∨ p ∈ addrs b := by
  rw [(addrs_mk d c a v b).mem_iff, List.mem_cons, List.mem_append]

theorem mem_addrs_plug {p : Ptr} : p ∈ addrs (plug ctx t) <->
    p ∈ addrs t ∨ p ∈ contextAddrs ctx := by
  rw [(addrs_plug ctx t).mem_iff, List.mem_append]

theorem mem_contextAddrs_cons {p : Ptr} : p ∈ contextAddrs (f :: ctx) <->
    p = f.value.addr ∨ p ∈ addrs f.sibling ∨ p ∈ contextAddrs ctx := by
  have hfill : p ∈ addrs (plug (f :: ctx) .nil) <->
      p ∈ addrs .nil ∨ p ∈ contextAddrs (f :: ctx) := mem_addrs_plug
  rw [plug_cons, mem_addrs_plug, Frame.fill, mem_addrs_mk] at hfill
  simp only [addrs, ColourTree.toList, List.map_nil, List.not_mem_nil, false_or] at hfill
  rw [← hfill, addrs, or_assoc]

theorem nodup_mk : (addrs (.mk d c a v b)).Nodup <->
    (v.addr ∉ addrs a ∧ v.addr ∉ addrs b) ∧ (addrs a).Nodup ∧ (addrs b).Nodup ∧
      forall p, p ∈ addrs a -> p ∉ addrs b := by
  rw [(addrs_mk d c a v b).nodup_iff, List.nodup_cons, List.nodup_append, List.mem_append,
    not_or]
  constructor
  · rintro ⟨hv, ha, hb, hdisjoint⟩
    exact ⟨hv, ha, hb, fun p hp hq => hdisjoint p hp p hq rfl⟩
  · rintro ⟨hv, ha, hb, hdisjoint⟩
    refine ⟨hv, ha, hb, fun p hp q hq heq => ?_⟩
    exact hdisjoint p hp (heq ▸ hq)

theorem nodup_plug : (addrs (plug ctx t)).Nodup <->
    (addrs t).Nodup ∧ (contextAddrs ctx).Nodup ∧
      forall p, p ∈ addrs t -> p ∉ contextAddrs ctx := by
  rw [(addrs_plug ctx t).nodup_iff, List.nodup_append]
  constructor
  · rintro ⟨ht, hctx, hdisjoint⟩
    exact ⟨ht, hctx, fun p hp hq => hdisjoint p hp p hq rfl⟩
  · rintro ⟨ht, hctx, hdisjoint⟩
    refine ⟨ht, hctx, fun p hp q hq heq => ?_⟩
    exact hdisjoint p hp (heq ▸ hq)

theorem Holds.congr (hsame : forall p, p ∈ addrs t -> heap' p = heap p) (h : Holds heap z t) :
    Holds heap' z t := by
  induction t with
  | nil => trivial
  | node c l v r ihl ihr =>
      have hmem := fun p => mem_addrs_mk (d := .left) (c := c) (a := l) (v := v) (b := r) (p := p)
      refine ⟨?_, ihl (fun p hp => hsame p ((hmem p).mpr (Or.inr (Or.inl hp)))) h.right.left,
        ihr (fun p hp => hsame p ((hmem p).mpr (Or.inr (Or.inr hp)))) h.right.right⟩
      rw [hsame v.addr ((hmem v.addr).mpr (Or.inl rfl))]
      exact h.left

theorem HoldsContext.congr {p : Ptr} (hsame : forall q, q ∈ contextAddrs ctx -> heap' q = heap q)
    (h : HoldsContext heap z p ctx) : HoldsContext heap' z p ctx := by
  induction ctx generalizing p with
  | nil => trivial
  | cons f ctx ih =>
      rcases h with ⟨hf, hsibling, hctx⟩
      refine ⟨?_, hsibling.congr fun q hq => ?_, ih (fun q hq => ?_) hctx⟩
      · rw [hsame _ (mem_contextAddrs_cons.mpr (Or.inl rfl))]
        exact hf
      · exact hsame q (mem_contextAddrs_cons.mpr (Or.inr (Or.inl hq)))
      · exact hsame q (mem_contextAddrs_cons.mpr (Or.inr (Or.inr hq)))

theorem addrOf_mem (h : t ≠ .nil) (z : Ptr) : addrOf z t ∈ addrs t := by
  rcases ColourTree.exists_mk .left h with ⟨c, a, v, b, rfl⟩
  rw [addrOf_mk, mem_addrs_mk]
  exact Or.inl rfl

/-!
## The represented tree
-/

structure Rep (s : Nodes κ) (t : ColourTree (Node κ)) : Prop where
  root_eq : s.root = addrOf s.nullElement t
  holds : Holds s.heap s.nullElement t
  nodup : (addrs t).Nodup
  null_notMem : s.nullElement ∉ addrs t
  sentinel : s.heap s.nullElement = some nullElement
  null_none : s.heap NULL = none

theorem Holds.unique (h : Holds heap z t) (h' : Holds heap z t') (hz : z ∉ addrs t)
    (hz' : z ∉ addrs t') (haddr : addrOf z t = addrOf z t') : t = t' := by
  induction t generalizing t' with
  | nil =>
      by_contra hne
      have hmem := addrOf_mem (Ne.symm hne) z
      rw [← haddr] at hmem
      exact hz' hmem
  | node c l v r ihl ihr =>
      cases t' with
      | nil =>
          have hmem := addrOf_mem (ColourTree.mk_ne_nil .left c l v r) z
          have hnull : addrOf z (ColourTree.mk .left c l v r) = z := haddr
          rw [hnull] at hmem
          exact absurd hmem hz
      | node c' l' v' r' =>
          have hsame : v.addr = v'.addr := haddr
          rcases h with ⟨hcell, hl, hr⟩
          rcases h' with ⟨hcell', hl', hr'⟩
          rw [hsame, hcell', Option.some.injEq, mkElement, mkElement, Element.mk.injEq] at hcell
          rcases hcell with ⟨hleft, hright, hcount, hcolour, hkey⟩
          have hmem := fun p =>
            mem_addrs_mk (d := .left) (c := c) (a := l) (v := v) (b := r) (p := p)
          have hmem' := fun p =>
            mem_addrs_mk (d := .left) (c := c') (a := l') (v := v') (b := r') (p := p)
          have heql := ihl hl hl' (fun hp => hz ((hmem z).mpr (Or.inr (Or.inl hp))))
            (fun hp => hz' ((hmem' z).mpr (Or.inr (Or.inl hp)))) hleft.symm
          have heqr := ihr hr hr' (fun hp => hz ((hmem z).mpr (Or.inr (Or.inr hp))))
            (fun hp => hz' ((hmem' z).mpr (Or.inr (Or.inr hp)))) hright.symm
          have heqv : v = v' := by
            rcases v with ⟨_, _, _⟩
            rcases v' with ⟨_, _, _⟩
            simp_all
          rw [heql, heqr, heqv, hcolour]

theorem Rep.unique {s : Nodes κ} (h : Rep s t) (h' : Rep s t') : t = t' :=
  h.holds.unique h'.holds h.null_notMem h'.null_notMem (h.root_eq.symm.trans h'.root_eq)

def linkOf : Context (Node κ) -> Link
  | [] => .root
  | f :: _ => .child f.dir f.value.addr

structure Confined (l : List Ptr) (s s' : Nodes κ) : Prop where
  nullElement_eq : s'.nullElement = s.nullElement
  heap_eq : forall p, p ∉ l -> s'.heap p = s.heap p

structure Kept (l : List Ptr) (s s' : Nodes κ) : Prop extends Confined l s s' where
  parents_eq : s'.parents = s.parents

section Steps

variable {l l' : List Ptr} {s s' s'' : Nodes κ}

theorem Confined.refl (l : List Ptr) (s : Nodes κ) : Confined l s s :=
  ⟨rfl, fun _ _ => rfl⟩

theorem Confined.trans (hfirst : Confined l s s') (hsecond : Confined l s' s'') :
    Confined l s s'' where
  nullElement_eq := hsecond.nullElement_eq.trans hfirst.nullElement_eq
  heap_eq := fun p hp => (hsecond.heap_eq p hp).trans (hfirst.heap_eq p hp)

theorem Confined.mono (hsub : forall p, p ∈ l -> p ∈ l') (h : Confined l s s') :
    Confined l' s s' where
  nullElement_eq := h.nullElement_eq
  heap_eq := fun p hp => h.heap_eq p fun hl => hp (hsub p hl)

theorem Kept.refl (l : List Ptr) (s : Nodes κ) : Kept l s s :=
  ⟨Confined.refl l s, rfl⟩

theorem Kept.trans (hfirst : Kept l s s') (hsecond : Kept l s' s'') : Kept l s s'' where
  toConfined := hfirst.toConfined.trans hsecond.toConfined
  parents_eq := hsecond.parents_eq.trans hfirst.parents_eq

theorem Kept.mono (hsub : forall p, p ∈ l -> p ∈ l') (h : Kept l s s') : Kept l' s s' where
  toConfined := h.toConfined.mono hsub
  parents_eq := h.parents_eq

end Steps

namespace Rep

variable {s : Nodes κ}

theorem holdsContext (h : Rep s (plug ctx t)) :
    HoldsContext s.heap s.nullElement (addrOf s.nullElement t) ctx :=
  (holds_plug.mp h.holds).right

theorem holdsTree (h : Rep s (plug ctx t)) : Holds s.heap s.nullElement t :=
  (holds_plug.mp h.holds).left

theorem heap_eq (h : Rep s (plug ctx (.mk d c a v b))) :
    s.heap v.addr =
      some (mkElement d (addrOf s.nullElement a) (addrOf s.nullElement b) c v) :=
  (holds_mk.mp h.holdsTree).left

theorem element (h : Rep s (plug ctx (.mk d c a v b))) :
    s.element v.addr =
      .ok (mkElement d (addrOf s.nullElement a) (addrOf s.nullElement b) c v) := by
  rw [Nodes.element, h.heap_eq]

theorem exists_element (h : Rep s (plug ctx t)) : exists e,
    s.element (addrOf s.nullElement t) = .ok e ∧ e.colour = t.colour := by
  cases t with
  | nil =>
      refine ⟨nullElement, ?_, rfl⟩
      rw [Nodes.element, addrOf, h.sentinel]
  | node c l v r =>
      have hnode : Rep s (plug ctx (.mk .left c l v r)) := h
      exact ⟨_, hnode.element, mkElement_colour ..⟩

theorem read (h : Rep s (plug ctx t)) :
    s.read (linkOf ctx) = .ok (addrOf s.nullElement t) := by
  cases ctx with
  | nil => exact congrArg Except.ok h.root_eq
  | cons f ctx =>
      rw [linkOf, Nodes.read, Nodes.element, h.holdsContext.left]
      exact congrArg Except.ok (mkElement_child ..)

theorem addrOf_eq_null_iff (h : Rep s (plug ctx t)) :
    addrOf s.nullElement t = s.nullElement <-> t = .nil := by
  constructor
  · intro heq
    by_contra hne
    have hmem := addrOf_mem hne s.nullElement
    rw [heq] at hmem
    exact h.null_notMem (mem_addrs_plug.mpr (Or.inl hmem))
  · rintro rfl
    rfl

theorem addrOf_plug_mem (z : Ptr) (f : Frame (Node κ)) (ctx : Context (Node κ))
    (t : ColourTree (Node κ)) : addrOf z (plug (f :: ctx) t) ∈ contextAddrs (f :: ctx) := by
  induction ctx generalizing f t with
  | nil =>
      rw [plug_cons, plug_nil, addrOf_fill]
      exact mem_contextAddrs_cons.mpr (Or.inl rfl)
  | cons g ctx ih =>
      rw [plug_cons]
      exact mem_contextAddrs_cons.mpr (Or.inr (Or.inr (ih g (f.fill t))))

theorem root_ne (h : Rep s (plug (f :: ctx) t)) : addrOf s.nullElement t ≠ s.root := by
  rw [h.root_eq]
  intro heq
  have hmem := addrOf_plug_mem s.nullElement f ctx t
  rw [← heq] at hmem
  cases t with
  | nil => exact h.null_notMem (mem_addrs_plug.mpr (Or.inr hmem))
  | node c l v r =>
      exact (nodup_plug.mp h.nodup).right.right _
        (addrOf_mem (t := .node c l v r) (fun heq => by cases heq) s.nullElement) hmem

theorem null_ne (h : Rep s (plug ctx t)) {p : Ptr} (hp : p ∈ addrs t) :
    p ≠ s.nullElement := by
  rintro rfl
  exact h.null_notMem (mem_addrs_plug.mpr (Or.inl hp))

end Rep

end RBTree
end MyLibs
