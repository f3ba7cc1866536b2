import MyLibs.Foundation.Order
import MyLibs.RBTree.DeleteFixup
import MyLibs.RBTree.Model

/-!
# Finding a key

The descent splits the elements, in order, into those below the key and those
above it, around the place it ends at.
-/

namespace MyLibs
namespace RBTree

open Foundation

variable {κ : Type} {s s' : Nodes κ} {compare : κ -> κ -> Int} {key : κ}
  {t : ColourTree (Node κ)} {ctx : Context (Node κ)}

def Ascending (compare : κ -> κ -> Int) (l : List (Node κ)) : Prop :=
  l.Pairwise fun u v => compare u.key v.key < 0

/-- The place of a key: what comes before it is below, what comes after it is
above, and it is empty or holds an equal key. -/
structure PlaceOf (compare : κ -> κ -> Int) (key : κ) (ctx : Context (Node κ))
    (t : ColourTree (Node κ)) : Prop where
  below : forall u, u ∈ before ctx -> compare u.key key < 0
  above : forall u, u ∈ after ctx -> 0 < compare u.key key
  hit : t = .nil ∨ exists c a v b, t = .node c a v b ∧ compare v.key key = 0

theorem elementKey_eq {c : Colour} {d : Dir} {a b : ColourTree (Node κ)} {v : Node κ}
    (h : Rep s (plug ctx (.mk d c a v b))) : s.elementKey v.addr = .ok v.key := by
  rw [Nodes.elementKey, h.element]
  simp only [bind, Except.bind, mkElement_key]

theorem Ascending.below (hcompare : TotalPreorder compare) {first rest : List (Node κ)}
    {v : Node κ} (h : Ascending compare (first ++ v :: rest))
    (hv : compare v.key key <= 0) : forall u, u ∈ first -> compare u.key key < 0 := by
  intro u hu
  have huv := (List.pairwise_append.mp h).right.right u hu v (List.mem_cons_self ..)
  exact hcompare.lt_of_lt_of_le huv hv

theorem Ascending.above (hcompare : TotalPreorder compare) {first rest : List (Node κ)}
    {v : Node κ} (h : Ascending compare (first ++ v :: rest))
    (hv : 0 <= compare v.key key) : forall u, u ∈ rest -> 0 < compare u.key key := by
  intro u hu
  have hrest := (List.pairwise_append.mp h).right.left
  have hvu := (List.pairwise_cons.mp hrest).left u hu
  have hkey : compare key v.key <= 0 := by
    have hswap := hcompare.swap key v.key
    omega
  exact (hcompare.swap u.key key).mpr (hcompare.lt_of_le_of_lt hkey hvu)

theorem split_cons (hbelow : forall u, u ∈ before ctx -> compare u.key key < 0)
    (habove : forall u, u ∈ after ctx -> 0 < compare u.key key) {f : Frame (Node κ)}
    (hf : forall u, u ∈ f.before -> compare u.key key < 0)
    (hf' : forall u, u ∈ f.after -> 0 < compare u.key key) :
    (forall u, u ∈ before (f :: ctx) -> compare u.key key < 0) ∧
      forall u, u ∈ after (f :: ctx) -> 0 < compare u.key key := by
  constructor
  · intro u hu
    rcases List.mem_append.mp hu with hu | hu
    · exact hbelow u hu
    · exact hf u hu
  · intro u hu
    rcases List.mem_append.mp hu with hu | hu
    · exact hf' u hu
    · exact habove u hu

theorem descent_side (hcompare : TotalPreorder compare) {c : Colour} {a b : ColourTree (Node κ)}
    {v : Node κ} (h : Ascending compare (ColourTree.node c a v b).toList)
    (hne : compare v.key key ≠ 0) : exists d near far,
      (if compare v.key key < 0 then Dir.right else Dir.left) = d ∧
      ColourTree.node c a v b = .mk d c near v far ∧ Ascending compare near.toList ∧
      (forall u, u ∈ (Frame.mk d c v far).before -> compare u.key key < 0) ∧
      forall u, u ∈ (Frame.mk d c v far).after -> 0 < compare u.key key := by
  have hparts := List.pairwise_append.mp h
  by_cases hlt : compare v.key key < 0
  · rw [if_pos hlt]
    refine ⟨.right, b, a, rfl, rfl, (List.pairwise_cons.mp hparts.right.left).right, ?_, ?_⟩
    · intro u hu
      rcases List.mem_append.mp hu with hu | hu
      · exact Ascending.below hcompare h (Int.le_of_lt hlt) u hu
      · rw [List.mem_singleton.mp hu]
        exact hlt
    · intro u hu
      cases hu
  · rw [if_neg hlt]
    have hgt : 0 < compare v.key key := by omega
    refine ⟨.left, a, b, rfl, rfl, hparts.left, ?_, ?_⟩
    · intro u hu
      cases hu
    · intro u hu
      rcases List.mem_cons.mp hu with rfl | hu
      · exact hgt
      · exact Ascending.above hcompare h (Int.le_of_lt hgt) u hu

/-- The common loop of `rbtree_insert` and `rbtree_delete`. It fails only on a
tree too high for the stack. -/
theorem descend_spec (hcompare : TotalPreorder compare) (key : κ) {fuel : Nat}
    (hfuel : MAX_rbtree_HEIGHT < fuel + ctx.length) (hlen : ctx.length < MAX_rbtree_HEIGHT)
    (h : Rep s (plug ctx t)) (hstack : StackFor s.parents ctx)
    (hbelow : forall u, u ∈ before ctx -> compare u.key key < 0)
    (habove : forall u, u ∈ after ctx -> 0 < compare u.key key)
    (hascending : Ascending compare t.toList) :
    ((exists fault, descend compare key fuel s ctx.length (addrOf s.nullElement t) =
        .error fault) ∧ MAX_rbtree_HEIGHT <= (plug ctx t).height) ∨
    exists parents ctx' t', descend compare key fuel s ctx.length (addrOf s.nullElement t) =
        .ok ({ s with parents := parents }, ctx'.length, addrOf s.nullElement t') ∧
      plug ctx' t' = plug ctx t ∧ StackFor parents ctx' ∧
      ctx'.length < MAX_rbtree_HEIGHT ∧ PlaceOf compare key ctx' t' := by
  induction fuel generalizing s ctx t with
  | zero => omega
  | succ fuel ih =>
      rw [descend]
      cases t with
      | nil =>
          rw [addrOf, if_pos rfl]
          exact Or.inr ⟨s.parents, ctx, .nil, rfl, rfl, hstack, hlen, hbelow, habove,
            Or.inl rfl⟩
      | node c a v b =>
          have hnode : Rep s (plug ctx (.mk .left c a v b)) := h
          have hnull : addrOf s.nullElement (.node c a v b) ≠ s.nullElement := by
            rw [ne_eq, h.addrOf_eq_null_iff]
            exact ColourTree.mk_ne_nil .left c a v b
          have hkey := elementKey_eq hnode
          have haddr : addrOf s.nullElement (.node c a v b) = v.addr := rfl
          rw [if_neg hnull, haddr]
          simp only [bind, Except.bind, hkey]
          by_cases hequal : compare v.key key = 0
          · rw [if_pos hequal]
            exact Or.inr ⟨s.parents, ctx, .node c a v b, rfl, rfl, hstack, hlen, hbelow, habove,
              Or.inr ⟨c, a, v, b, rfl, hequal⟩⟩
          rw [if_neg hequal]
          rcases descent_side hcompare hascending hequal with
            ⟨d, near, far, hd, hmk, hnear, hfbefore, hfafter⟩
          rcases split_cons hbelow habove hfbefore hfafter with ⟨hbelow', habove'⟩
          rw [hd]
          rw [hmk] at h ⊢
          by_cases hroom : ctx.length + 1 < MAX_rbtree_HEIGHT
          · let parents := Function.update s.parents (ctx.length + 1) (.child d v.addr)
            have hset : s.setParent (ctx.length + 1) (.child d v.addr) =
                .ok { s with parents := parents } := setParent_eq hroom _
            have hrep := (h.withParents parents).rep
            simp only [hset, hrep.element, mkElement_child]
            have hchild : Rep { s with parents := parents } (plug (⟨d, c, v, far⟩ :: ctx) near) :=
              hrep
            have hfuel' : MAX_rbtree_HEIGHT <
                fuel + (Frame.mk d c v far :: ctx).length := by
              rw [List.length_cons]
              omega
            exact ih hfuel' hroom hchild (hstack.push ⟨d, c, v, far⟩) hbelow' habove' hnear
          · have hset : s.setParent (ctx.length + 1) (.child d v.addr) = .error .badIndex :=
              if_neg hroom
            have hheight := length_add_height_le ctx (.mk d c near v far)
            have hpos : 0 < (ColourTree.mk d c near v far).height := by
              cases d <;> exact Nat.succ_pos _
            exact Or.inl ⟨⟨.badIndex, by simp only [hset]⟩, by omega⟩

theorem findPlace_spec {tree : RbTree κ} (hcompare : TotalPreorder tree.compare)
    (h : Rep tree.nodes t) (hascending : Ascending tree.compare t.toList) (key : κ) :
    ((exists fault, findPlace tree key = .error fault) ∧ MAX_rbtree_HEIGHT <= t.height) ∨
    exists parents ctx t', findPlace tree key =
        .ok ({ tree.nodes with parents := parents }, ctx.length,
          addrOf tree.nodes.nullElement t') ∧
      plug ctx t' = t ∧ StackFor parents ctx ∧ ctx.length < MAX_rbtree_HEIGHT ∧
      PlaceOf tree.compare key ctx t' := by
  let parents := Function.update tree.nodes.parents 0 .root
  have hset : tree.nodes.setParent 0 .root = .ok { tree.nodes with parents := parents } :=
    setParent_eq (by decide) _
  have hrep : Rep { tree.nodes with parents := parents } (plug [] t) := (h.withParents parents).rep
  have hstack : StackFor parents ([] : Context (Node κ)) := Function.update_self ..
  rw [findPlace, hset]
  simp only [bind, Except.bind]
  have hfuel : MAX_rbtree_HEIGHT <
      MAX_rbtree_HEIGHT + 1 + ([] : Context (Node κ)).length := Nat.lt_succ_self _
  have hlen : ([] : Context (Node κ)).length < MAX_rbtree_HEIGHT := by
    rw [List.length_nil]
    decide
  have hspec := descend_spec hcompare key hfuel hlen hrep hstack
    (fun u hu => by cases hu) (fun u hu => by cases hu) hascending
  simp only [← h.root_eq] at hspec
  exact hspec

/-!
## Search
-/

def FoundIn (compare : κ -> κ -> Int) (key : κ) (l : List (Node κ)) : Option κ -> Prop
  | none => forall u, u ∈ l -> compare u.key key ≠ 0
  | some found => exists u, u ∈ l ∧ compare u.key key = 0 ∧ u.key = found

theorem FoundIn.extend {l l' : List (Node κ)} {r : Option κ} (h : FoundIn compare key l r)
    (hsub : forall u, u ∈ l -> u ∈ l')
    (hrest : forall u, u ∈ l' -> u ∉ l -> compare u.key key ≠ 0) : FoundIn compare key l' r := by
  cases r with
  | none =>
      intro u hu
      by_cases hmem : u ∈ l
      · exact h u hmem
      · exact hrest u hu hmem
  | some found =>
      rcases h with ⟨u, hu, hfound⟩
      exact ⟨u, hsub u hu, hfound⟩

theorem searchLoop_spec (hcompare : TotalPreorder compare) (fuel : Nat)
    (h : Rep s (plug ctx t)) (hascending : Ascending compare t.toList) :
    ((exists fault, searchLoop compare key s fuel (addrOf s.nullElement t) = .error fault) ∧
      fuel <= t.height) ∨
    exists r, searchLoop compare key s fuel (addrOf s.nullElement t) = .ok r ∧
      FoundIn compare key t.toList r := by
  induction fuel generalizing ctx t with
  | zero => exact Or.inl ⟨⟨.noFuel, rfl⟩, Nat.zero_le _⟩
  | succ fuel ih =>
      rw [searchLoop]
      cases t with
      | nil =>
          rw [addrOf, if_pos rfl]
          exact Or.inr ⟨none, rfl, fun u hu => by cases hu⟩
      | node c a v b =>
          have hnode : Rep s (plug ctx (.mk .left c a v b)) := h
          have hnull : addrOf s.nullElement (.node c a v b) ≠ s.nullElement := by
            rw [ne_eq, h.addrOf_eq_null_iff]
            exact ColourTree.mk_ne_nil .left c a v b
          have hkey := elementKey_eq hnode
          have helement := hnode.element
          have haddr : addrOf s.nullElement (.node c a v b) = v.addr := rfl
          have hv : v ∈ (ColourTree.node c a v b).toList :=
            List.mem_append_right _ (List.mem_cons_self ..)
          rw [if_neg hnull, haddr]
          simp only [bind, Except.bind, hkey, helement]
          rw [ColourTree.height]
          have hparts := List.pairwise_append.mp hascending
          by_cases hequal : compare v.key key = 0
          · rw [if_pos hequal]
            exact Or.inr ⟨some v.key, rfl, v, hv, hequal, rfl⟩
          rw [if_neg hequal]
          by_cases hlt : compare v.key key < 0
          · rw [if_pos hlt]
            have hright : Rep s (plug (⟨.right, c, v, a⟩ :: ctx) b) := h
            rcases ih hright (List.pairwise_cons.mp hparts.right.left).right with
              ⟨hfault, hfuel⟩ | ⟨r, hloop, hr⟩
            · exact Or.inl ⟨hfault, by omega⟩
            refine Or.inr ⟨r, hloop, hr.extend ?_ ?_⟩
            · exact fun u hu => List.mem_append_right _ (List.mem_cons_of_mem v hu)
            · intro u hu hnotMem
              rcases List.mem_append.mp hu with hu | hu
              · exact Int.ne_of_lt (Ascending.below hcompare hascending (Int.le_of_lt hlt) u hu)
              · rcases List.mem_cons.mp hu with rfl | hu
                · exact hequal
                · exact absurd hu hnotMem
          · rw [if_neg hlt]
            have hgt : 0 < compare v.key key := by omega
            have hleft : Rep s (plug (⟨.left, c, v, b⟩ :: ctx) a) := h
            rcases ih hleft hparts.left with ⟨hfault, hfuel⟩ | ⟨r, hloop, hr⟩
            · exact Or.inl ⟨hfault, by omega⟩
            refine Or.inr ⟨r, hloop, hr.extend ?_ ?_⟩
            · exact fun u hu => List.mem_append_left _ hu
            · intro u hu hnotMem
              rcases List.mem_append.mp hu with hu | hu
              · exact absurd hu hnotMem
              · rcases List.mem_cons.mp hu with rfl | hu
                · exact hequal
                · exact Int.ne_of_gt
                    (Ascending.above hcompare hascending (Int.le_of_lt hgt) u hu)

theorem rbtreeSearch_spec {tree : RbTree κ} (hcompare : TotalPreorder tree.compare)
    (h : Rep tree.nodes t) (hascending : Ascending tree.compare t.toList) (key : κ) :
    ((exists fault, rbtreeSearch tree key = .error fault) ∧ turnLimit <= t.height) ∨
    exists r, rbtreeSearch tree key = .ok r ∧ FoundIn tree.compare key t.toList r := by
  have hrep : Rep tree.nodes (plug [] t) := h
  rw [rbtreeSearch, h.root_eq]
  exact searchLoop_spec hcompare turnLimit hrep hascending

/-!
## Self-test
-/

theorem Rep.addrOf_ne_NULL (h : Rep s (plug ctx t)) : addrOf s.nullElement t ≠ NULL := by
  rcases h.exists_element with ⟨e, helement, _⟩
  intro heq
  rw [heq, Nodes.element, h.null_none] at helement
  cases helement

theorem testRbTree_spec {n fuel : Nat} (hfuel : t.height < fuel) (h : Rep s (plug ctx t))
    (hrb : IsRedBlack t n) : testRbTree s fuel (addrOf s.nullElement t) = .ok (n : Int) := by
  induction t generalizing ctx fuel n with
  | nil =>
      cases fuel with
      | zero => cases hfuel
      | succ fuel =>
          have helement : s.element s.nullElement = .ok nullElement := by
            rw [Nodes.element, h.sentinel]
          rw [testRbTree, addrOf, helement, isRedBlack_nil_iff.mp hrb]
          rfl
  | node c a v b iha ihb =>
      cases fuel with
      | zero => cases hfuel
      | succ fuel =>
          rw [ColourTree.height] at hfuel
          have hfuelLeft : a.height < fuel := by omega
          have hfuelRight : b.height < fuel := by omega
          have hnode : Rep s (plug ctx (.mk .left c a v b)) := h
          have hleft : Rep s (plug (⟨.left, c, v, b⟩ :: ctx) a) := h
          have hright : Rep s (plug (⟨.right, c, v, a⟩ :: ctx) b) := h
          rcases hleft.exists_element with ⟨left, hleftElement, hleftColour⟩
          rcases hright.exists_element with ⟨right, hrightElement, hrightColour⟩
          have haddr : addrOf s.nullElement (.node c a v b) = v.addr := rfl
          rw [testRbTree, haddr, hnode.element]
          simp only [bind, Except.bind, mkElement, if_neg hleft.addrOf_ne_NULL, hleftElement,
            hrightElement, hleftColour, hrightColour]
          have hcount : forall m : Nat, ¬ (m : Int) < 0 := fun m =>
            Int.not_lt.mpr (Int.natCast_nonneg m)
          cases c with
          | red =>
              rcases hrb with ⟨haBlack, hbBlack, ha, hb⟩
              simp [iha hfuelLeft hleft ha, ihb hfuelRight hright hb, haBlack, hbBlack, hcount]
          | black =>
              cases n with
              | zero => cases hrb
              | succ n =>
                  simp [iha hfuelLeft hleft hrb.left, ihb hfuelRight hright hrb.right, hcount]

end RBTree
end MyLibs
