import MyLibs.RBTree.Search

/-!
# Reset and insertion
-/

namespace MyLibs
namespace RBTree

open Foundation

/-- All elements go but the sentinel, which is not in the pool. -/
structure FreesPool {κ : Type _}
    (freeRoot : (Ptr -> Option (Element κ)) -> Ptr -> Option (Element κ))
    (nullElement : Ptr) : Prop where
  kept : forall heap, freeRoot heap nullElement = heap nullElement
  gone : forall heap p, p ≠ nullElement -> freeRoot heap p = none

variable {κ : Type} {s s' : Nodes κ} {compare : κ -> κ -> Int} {key : κ}
  {t t' : ColourTree (Node κ)} {ctx : Context (Node κ)} {tree tree' : RbTree κ}

structure Valid (tree : RbTree κ) (t : ColourTree (Node κ)) : Prop where
  rep : Rep tree.nodes t
  redBlack : RedBlackTree t
  ascending : Ascending tree.compare t.toList
  elements_eq : tree.elements = uint t.size
  count : forall v, v ∈ t.toList -> 0 < v.count ∧ v.count < 2 ^ 31
  /-- There are no other elements. -/
  owned : forall p, tree.nodes.heap p ≠ none -> p = tree.nodes.nullElement ∨ p ∈ addrs t
  pool : FreesPool tree.freeRoot tree.nodes.nullElement

structure SameSettings (tree tree' : RbTree κ) : Prop where
  compare_eq : tree'.compare = tree.compare
  isDelete_eq : tree'.isDelete = tree.isDelete
  flag_eq : tree'.flag = tree.flag
  memoryLimit_eq : tree'.memoryLimit = tree.memoryLimit
  nullElement_eq : tree'.nodes.nullElement = tree.nodes.nullElement
  freeRoot_eq : tree'.freeRoot = tree.freeRoot

theorem SameSettings.refl (tree : RbTree κ) : SameSettings tree tree :=
  ⟨rfl, rfl, rfl, rfl, rfl, rfl⟩

theorem SameSettings.trans {tree'' : RbTree κ} (hfirst : SameSettings tree tree')
    (hsecond : SameSettings tree' tree'') : SameSettings tree tree'' :=
  ⟨hsecond.compare_eq.trans hfirst.compare_eq, hsecond.isDelete_eq.trans hfirst.isDelete_eq,
    hsecond.flag_eq.trans hfirst.flag_eq, hsecond.memoryLimit_eq.trans hfirst.memoryLimit_eq,
    hsecond.nullElement_eq.trans hfirst.nullElement_eq,
    hsecond.freeRoot_eq.trans hfirst.freeRoot_eq⟩

theorem SameSettings.freesPool (h : SameSettings tree tree')
    (hpool : FreesPool tree.freeRoot tree.nodes.nullElement) :
    FreesPool tree'.freeRoot tree'.nodes.nullElement := by
  rw [h.freeRoot_eq, h.nullElement_eq]
  exact hpool

theorem redBlackTree_nil : RedBlackTree (.nil : ColourTree (Node κ)) :=
  ⟨rfl, 0, rfl⟩

theorem Rep.congr (h : Rep s t) (hnull : s'.nullElement = s.nullElement)
    (hroot : s'.root = s.root) (hsentinel : s'.heap s.nullElement = s.heap s.nullElement)
    (hnone : s'.heap NULL = none) (hsame : forall p, p ∈ addrs t -> s'.heap p = s.heap p) :
    Rep s' t where
  root_eq := by
    rw [hroot, hnull]
    exact h.root_eq
  holds := by
    rw [hnull]
    exact h.holds.congr hsame
  nodup := h.nodup
  null_notMem := by
    rw [hnull]
    exact h.null_notMem
  sentinel := by
    rw [hnull, hsentinel]
    exact h.sentinel
  null_none := hnone

theorem Holds.ne_none {heap : Ptr -> Option (Element κ)} {z : Ptr} (h : Holds heap z t) :
    forall p, p ∈ addrs t -> heap p ≠ none := by
  induction t with
  | nil =>
      intro p hp
      cases hp
  | node c l v r ihl ihr =>
      intro p hp
      rcases (mem_addrs_mk (d := .left) (c := c)).mp hp with rfl | hp | hp
      · rw [h.left]
        exact Option.some_ne_none _
      · exact ihl h.right.left p hp
      · exact ihr h.right.right p hp

/-!
## Reset
-/

structure Released (tree tree' : RbTree κ) : Prop extends SameSettings tree tree' where
  sentinel_eq : tree'.nodes.heap tree.nodes.nullElement = tree.nodes.heap tree.nodes.nullElement
  none_of_none : forall p, tree.nodes.heap p = none -> tree'.nodes.heap p = none

theorem Released.refl (tree : RbTree κ) : Released tree tree :=
  ⟨SameSettings.refl tree, rfl, fun _ h => h⟩

theorem Released.trans {tree'' : RbTree κ} (hfirst : Released tree tree')
    (hsecond : Released tree' tree'') : Released tree tree'' where
  toSameSettings := hfirst.toSameSettings.trans hsecond.toSameSettings
  sentinel_eq := by
    have hsentinel := hsecond.sentinel_eq
    rw [hfirst.nullElement_eq] at hsentinel
    exact hsentinel.trans hfirst.sentinel_eq
  none_of_none := fun p hp => hsecond.none_of_none p (hfirst.none_of_none p hp)

theorem released_logged (tree : RbTree κ) (set : Bool) (event : Event κ) :
    Released tree (tree.logged set event) := by
  cases set with
  | false => exact Released.refl tree
  | true => exact ⟨⟨rfl, rfl, rfl, rfl, rfl, rfl⟩, rfl, fun _ h => h⟩

theorem logged_nodes (tree : RbTree κ) (set : Bool) (event : Event κ) :
    (tree.logged set event).nodes = tree.nodes := by
  cases set <;> rfl

theorem released_release {element : Ptr} (hne : element ≠ tree.nodes.nullElement) :
    Released tree (tree.release element) := by
  refine ⟨⟨rfl, rfl, rfl, rfl, rfl, rfl⟩, Function.update_of_ne hne.symm .., fun p hp => ?_⟩
  show Function.update tree.nodes.heap element none p = none
  cases eq_or_ne p element with
  | inl heq => rw [heq, Function.update_self]
  | inr hne => rw [Function.update_of_ne hne, hp]

theorem rbtreeUninitElement_released {fuel : Nat} {element : Ptr}
    (h : rbtreeUninitElement fuel tree element = .ok tree') : Released tree tree' := by
  induction fuel generalizing tree tree' element with
  | zero => cases h
  | succ fuel ih =>
      rw [rbtreeUninitElement] at h
      by_cases hnull : element = tree.nodes.nullElement
      · rw [if_pos hnull] at h
        cases h
        exact Released.refl tree
      rw [if_neg hnull] at h
      rcases ok_of_bind h with ⟨e, _, h⟩
      rcases ok_of_bind h with ⟨tree₁, hleft, h⟩
      rcases ok_of_bind h with ⟨key, _, h⟩
      rcases ok_of_bind h with ⟨tree₂, hright, h⟩
      have hreleased := ((ih hleft).trans (released_logged tree₁ _ (.freeFree key))).trans
        (ih hright)
      by_cases hdelete : tree₂.isDelete = true
      · rw [if_pos hdelete] at h
        cases h
        refine hreleased.trans (released_release ?_)
        rw [hreleased.nullElement_eq]
        exact hnull
      · rw [if_neg hdelete] at h
        cases h
        exact hreleased

/-- The recursion meets no fault on a represented subtree. It gives back all of
its elements, or none. -/
theorem rbtreeUninitElement_spec (fuel : Nat)
    (hholds : Holds tree.nodes.heap tree.nodes.nullElement t) (hnodup : (addrs t).Nodup)
    (hnull : tree.nodes.nullElement ∉ addrs t) :
    ((exists fault, rbtreeUninitElement fuel tree (addrOf tree.nodes.nullElement t) =
        .error fault) ∧ fuel <= t.height) ∨
    exists tree', rbtreeUninitElement fuel tree (addrOf tree.nodes.nullElement t) = .ok tree' ∧
      (forall p, p ∉ addrs t -> tree'.nodes.heap p = tree.nodes.heap p) ∧
      (tree.isDelete = true -> forall p, p ∈ addrs t -> tree'.nodes.heap p = none) := by
  induction t generalizing fuel tree with
  | nil =>
      cases fuel with
      | zero => exact Or.inl ⟨⟨.noFuel, rfl⟩, Nat.zero_le _⟩
      | succ fuel =>
          rw [rbtreeUninitElement, addrOf, if_pos rfl]
          exact Or.inr ⟨tree, rfl, fun _ _ => rfl, fun _ p hp => by cases hp⟩
  | node c l v r ihl ihr =>
      cases fuel with
      | zero => exact Or.inl ⟨⟨.noFuel, rfl⟩, Nat.zero_le _⟩
      | succ fuel =>
          have hheight : (ColourTree.node c l v r).height = max l.height r.height + 1 := rfl
          have hnode : ColourTree.node c l v r = .mk .left c l v r := rfl
          rw [hheight]
          rw [hnode] at hnodup hnull hholds ⊢
          rcases nodup_mk.mp hnodup with ⟨⟨hvl, hvr⟩, hlnodup, hrnodup, hlr⟩
          rcases holds_mk.mp hholds with ⟨hcell, hl, hr⟩
          rw [mem_addrs_mk, not_or, not_or] at hnull
          have helement : tree.nodes.element v.addr = .ok (mkElement .left
              (addrOf tree.nodes.nullElement l) (addrOf tree.nodes.nullElement r) c v) := by
            rw [Nodes.element, hcell]
          rw [rbtreeUninitElement, addrOf_mk, if_neg (Ne.symm hnull.left), helement]
          simp only [bind, Except.bind, mkElement]
          rcases ihl fuel hl hlnodup hnull.right.left with
            ⟨⟨fault, herror⟩, hfuel⟩ | ⟨tree₁, hleft, hkept₁, hgone₁⟩
          · exact Or.inl ⟨⟨fault, by simp only [herror]⟩, by omega⟩
          have hreleased₁ := rbtreeUninitElement_released hleft
          have hnull₁ := hreleased₁.nullElement_eq
          have hkey : tree₁.nodes.elementKey v.addr = .ok v.key := by
            rw [Nodes.elementKey, Nodes.element, hkept₁ _ hvl, hcell]
            rfl
          have hlogged := released_logged tree₁ tree₁.free (.freeFree v.key)
          have hnodes := logged_nodes tree₁ tree₁.free (.freeFree v.key)
          simp only [hleft, hkey]
          generalize tree₁.logged tree₁.free (.freeFree v.key) = logged at *
          have hr₁ : Holds logged.nodes.heap logged.nodes.nullElement r := by
            rw [hnodes, hnull₁]
            exact hr.congr fun p hp => hkept₁ p fun hpl => hlr p hpl hp
          have hnullr : logged.nodes.nullElement ∉ addrs r := by
            rw [hnodes, hnull₁]
            exact hnull.right.right
          have hright := ihr fuel hr₁ hrnodup hnullr
          rw [hnodes, hnull₁] at hright
          rcases hright with ⟨⟨fault, herror⟩, hfuel⟩ | ⟨tree₂, hright, hkept₂, hgone₂⟩
          · exact Or.inl ⟨⟨fault, by simp only [herror]⟩, by omega⟩
          simp only [hright]
          have hdelete₁ := hlogged.isDelete_eq.trans hreleased₁.isDelete_eq
          have hdelete₂ := (rbtreeUninitElement_released hright).isDelete_eq.trans hdelete₁
          have hkept : forall p, p ∉ addrs (.mk .left c l v r) ->
              tree₂.nodes.heap p = tree.nodes.heap p := by
            intro p hp
            rw [mem_addrs_mk, not_or, not_or] at hp
            rw [hkept₂ p hp.right.right, hkept₁ p hp.right.left]
          by_cases hdelete : tree.isDelete = true
          · rw [if_pos (hdelete₂.trans hdelete)]
            refine Or.inr ⟨tree₂.release v.addr, rfl, fun p hp => ?_, fun _ p hp => ?_⟩
            · have hpv : p ≠ v.addr := fun heq => hp (mem_addrs_mk.mpr (Or.inl heq))
              show Function.update tree₂.nodes.heap v.addr none p = _
              rw [Function.update_of_ne hpv, hkept p hp]
            · show Function.update tree₂.nodes.heap v.addr none p = none
              cases eq_or_ne p v.addr with
              | inl heq => rw [heq, Function.update_self]
              | inr hne =>
                  rw [Function.update_of_ne hne]
                  rcases (mem_addrs_mk.mp hp).resolve_left hne with hp | hp
                  · rw [hkept₂ p (hlr p hp), hgone₁ hdelete p hp]
                  · exact hgone₂ (hdelete₁.trans hdelete) p hp
          · have hnot : ¬ tree₂.isDelete = true := by
              rw [hdelete₂]
              exact hdelete
            rw [if_neg hnot]
            exact Or.inr ⟨tree₂, rfl, hkept, fun hset => absurd hset hdelete⟩

theorem released_freeMemRoot (hpool : FreesPool tree.freeRoot tree.nodes.nullElement) :
    Released tree tree.freeMemRoot := by
  refine ⟨⟨rfl, rfl, rfl, rfl, rfl, rfl⟩, hpool.kept _, fun p hp => ?_⟩
  cases eq_or_ne p tree.nodes.nullElement with
  | inl heq =>
      rw [heq] at hp ⊢
      exact (hpool.kept _).trans hp
  | inr hne => exact hpool.gone _ p hne

theorem freeMemRoot_heap (hpool : FreesPool tree.freeRoot tree.nodes.nullElement) {p : Ptr}
    (hp : tree.freeMemRoot.nodes.heap p ≠ none) : p = tree.nodes.nullElement := by
  by_contra hne
  exact hp (hpool.gone _ p hne)

theorem Rep.uninit (h : Rep tree.nodes t) :
    ((exists fault, rbtreeUninitElement turnLimit tree tree.nodes.root = .error fault) ∧
      turnLimit <= t.height) ∨
    exists tree', rbtreeUninitElement turnLimit tree tree.nodes.root = .ok tree' ∧
      (forall p, p ∉ addrs t -> tree'.nodes.heap p = tree.nodes.heap p) ∧
      (tree.isDelete = true -> forall p, p ∈ addrs t -> tree'.nodes.heap p = none) := by
  rw [h.root_eq]
  exact rbtreeUninitElement_spec turnLimit h.holds h.nodup h.null_notMem

theorem freeInRoot_spec (h : Valid tree t) :
    ((exists fault, freeInRoot tree = .error fault) ∧ turnLimit <= t.height) ∨
    exists tree', freeInRoot tree = .ok tree' ∧ Released tree tree' ∧
      forall p, tree'.nodes.heap p ≠ none -> p = tree.nodes.nullElement := by
  rw [freeInRoot]
  by_cases hfree : tree.free = true
  · rw [if_pos hfree]
    have hlogged := released_logged tree (decide (tree.memoryLimit ≠ 0)) .freeInit
    have hrep := h.rep
    rw [← logged_nodes tree (decide (tree.memoryLimit ≠ 0)) .freeInit] at hrep
    simp only [bind, Except.bind]
    generalize tree.logged (decide (tree.memoryLimit ≠ 0)) .freeInit = logged at *
    rcases hrep.uninit with ⟨⟨fault, herror⟩, hheight⟩ | ⟨tree₁, huninit, _, _⟩
    · simp only [herror]
      exact Or.inl ⟨⟨fault, rfl⟩, hheight⟩
    simp only [huninit]
    have hreleased := (hlogged.trans (rbtreeUninitElement_released huninit)).trans
      (released_logged tree₁ (decide (tree.memoryLimit ≠ 0)) .freeUninit)
    have hpool := hreleased.toSameSettings.freesPool h.pool
    refine Or.inr ⟨_, rfl, hreleased.trans (released_freeMemRoot hpool), fun p hp => ?_⟩
    exact (freeMemRoot_heap hpool hp).trans hreleased.nullElement_eq
  · rw [if_neg hfree]
    exact Or.inr ⟨_, rfl, released_freeMemRoot h.pool, fun p hp => freeMemRoot_heap h.pool hp⟩

theorem freeElements_spec (h : Valid tree t) :
    ((exists fault, freeElements tree = .error fault) ∧ turnLimit <= t.height) ∨
    exists tree', freeElements tree = .ok tree' ∧ Released tree tree' ∧
      forall p, tree'.nodes.heap p ≠ none -> p = tree.nodes.nullElement := by
  have hroot : tree.nodes.root ≠ NULL := by
    have hrep : Rep tree.nodes (plug [] t) := h.rep
    rw [h.rep.root_eq]
    exact hrep.addrOf_ne_NULL
  rw [freeElements, if_neg hroot]
  by_cases hdelete : tree.isDelete = true
  · rw [if_pos hdelete]
    rcases h.rep.uninit with herror | ⟨tree', huninit, hkept, hgone⟩
    · exact Or.inl herror
    refine Or.inr ⟨tree', huninit, rbtreeUninitElement_released huninit, fun p hp => ?_⟩
    by_cases hmem : p ∈ addrs t
    · exact absurd (hgone hdelete p hmem) hp
    · rw [hkept p hmem] at hp
      exact (h.owned p hp).resolve_right hmem
  · rw [if_neg hdelete]
    exact freeInRoot_spec h

theorem Valid.emptied (h : Valid tree t) (hreleased : Released tree tree')
    (hheap : forall p, tree'.nodes.heap p ≠ none -> p = tree.nodes.nullElement) :
    Valid { tree' with
      nodes := { tree'.nodes with root := tree'.nodes.nullElement }
      elements := 0
      allocated := 0 } .nil where
  rep := {
    root_eq := rfl
    holds := trivial
    nodup := List.nodup_nil
    null_notMem := List.not_mem_nil
    sentinel := by
      show tree'.nodes.heap tree'.nodes.nullElement = _
      rw [hreleased.nullElement_eq, hreleased.sentinel_eq]
      exact h.rep.sentinel
    null_none := hreleased.none_of_none NULL h.rep.null_none }
  redBlack := redBlackTree_nil
  ascending := List.Pairwise.nil
  elements_eq := rfl
  count := fun v hv => by cases hv
  owned := fun p hp => Or.inl ((hheap p hp).trans hreleased.nullElement_eq.symm)
  pool := hreleased.toSameSettings.freesPool h.pool

theorem rbtreeReset_spec (h : Valid tree t) :
    ((exists fault, rbtreeReset tree = .error fault) ∧ turnLimit <= t.height) ∨
    exists tree', rbtreeReset tree = .ok tree' ∧ Valid tree' .nil ∧ SameSettings tree tree' ∧
      tree'.elements = 0 := by
  rw [rbtreeReset, rbtreeFree]
  rcases freeElements_spec h with
    ⟨⟨fault, herror⟩, hheight⟩ | ⟨tree₁, hfree, hreleased, hheap⟩
  · exact Or.inl ⟨⟨fault, by rw [herror]; rfl⟩, hheight⟩
  have hsettings := hreleased.toSameSettings
  rw [hfree]
  exact Or.inr ⟨_, rfl, h.emptied hreleased hheap, ⟨hsettings.compare_eq,
    hsettings.isDelete_eq, hsettings.flag_eq, hsettings.memoryLimit_eq,
    hsettings.nullElement_eq, hsettings.freeRoot_eq⟩, rfl⟩

/-!
## A new element
-/

def FreshMalloc (malloc : Malloc κ) : Prop :=
  forall heap, malloc heap = NULL ∨ heap (malloc heap) = none

theorem linkElement_spec {block : Ptr} (h : Rep s (plug ctx .nil))
    (hstack : StackFor s.parents ctx) (hlen : ctx.length < MAX_rbtree_HEIGHT)
    (hfits : Fits ctx 0) (hblock : s.heap block = none) (hne : block ≠ NULL) :
    exists s' t', linkElement s ctx.length block key = .ok s' ∧ Rep s' t' ∧ RedBlackTree t' ∧
      t'.toList = before ctx ++ ⟨block, key, 1⟩ :: after ctx ∧
      s'.nullElement = s.nullElement ∧ forall p, p ∉ addrs t' -> s'.heap p = s.heap p := by
  let v : Node κ := ⟨block, key, 1⟩
  let s₁ : Nodes κ := { s with
    heap := Function.update s.heap block (some (mkElement .left s.nullElement s.nullElement
      .red v)) }
  have hnotMem : block ∉ addrs (plug ctx .nil) := fun hmem =>
    h.holds.ne_none block hmem hblock
  have hnull : s.nullElement ≠ block := by
    rintro heq
    have hsentinel := h.sentinel
    rw [heq, hblock] at hsentinel
    cases hsentinel
  have hrep₁ : Rep s₁ (plug ctx .nil) := by
    refine h.congr rfl rfl (Function.update_of_ne hnull ..) ?_ fun p hp => ?_
    · show Function.update s.heap block _ NULL = none
      rw [Function.update_of_ne (Ne.symm hne), h.null_none]
    · exact Function.update_of_ne (ne_of_mem_of_not_mem hp hnotMem) ..
  have hgraft : Graftable s₁ ctx (.mk .left .red .nil v .nil) := by
    refine ⟨⟨Function.update_self .., trivial, trivial⟩, List.nodup_singleton block, ?_, ?_⟩
    · intro hmem
      exact hnull (List.mem_singleton.mp hmem)
    · intro p hp hctx
      rw [List.mem_singleton.mp hp] at hctx
      exact hnotMem (mem_addrs_plug.mpr (Or.inr hctx))
  rcases hrep₁.write hgraft with ⟨s₂, hwrite, hrep₂, hkept₂⟩
  have hstack₂ : StackFor s₂.parents ctx := by
    rw [hkept₂.parents_eq]
    exact hstack
  rcases rbInsert_spec hlen hrep₂ hstack₂ hfits with ⟨s', t', hinsert, hstep, hrb⟩
  have htoList : t'.toList = before ctx ++ v :: after ctx := by
    rw [hstep.toList_eq, toList_plug]
    simp [ColourTree.mk, ColourTree.toList]
  refine ⟨s', t', ?_, hstep.rep, hrb, htoList, ?_, fun p hp => ?_⟩
  · have hlink : linkElement s ctx.length block key =
        s₁.write (linkOf ctx) block >>= fun s => rbInsert s ctx.length block := by
      rw [linkElement, parentAt_eq hstack hlen]
      rfl
    rw [addrOf_mk] at hwrite
    rw [hlink, hwrite]
    exact hinsert
  · exact hstep.kept.nullElement_eq.trans hkept₂.nullElement_eq
  · have haddrs : addrs t' = addrs (plug ctx (.mk .left .red .nil v .nil)) := by
      rw [addrs, hstep.toList_eq, ← addrs]
    rw [haddrs] at hp
    have hpctx : p ∉ contextAddrs ctx := fun hmem => hp (mem_addrs_plug.mpr (Or.inr hmem))
    have hpblock : p ≠ block := fun heq =>
      hp (mem_addrs_plug.mpr (Or.inl (mem_addrs_mk.mpr (Or.inl heq))))
    rw [hstep.kept.heap_eq p hp, hkept₂.heap_eq p hpctx]
    exact Function.update_of_ne hpblock ..

/-!
## Insertion
-/

theorem countUp_eq {count : Nat} (h : count < 2 ^ 31) :
    countUp count = min (count + 1) (2 ^ 31 - 1) := by
  rw [countUp]
  cases Nat.lt_or_ge (count + 1) (2 ^ 31) with
  | inl hlt =>
      rw [Nat.mod_eq_of_lt hlt, if_neg (Nat.succ_ne_zero count)]
      omega
  | inr hge =>
      have heq : count + 1 = 2 ^ 31 := Nat.le_antisymm h hge
      rw [heq, Nat.mod_self, if_pos rfl]
      omega

/-- What one pass through `rbtree_insert` makes of the tree, and the element it
returns, when `block` is what an allocation would return. -/
inductive Inserted (compare : κ -> κ -> Int) (flag : Nat) (block : Ptr) (key : κ) :
    ColourTree (Node κ) -> Ptr -> ColourTree (Node κ) -> Prop where
  | refused {t : ColourTree (Node κ)} {u : Node κ} (hu : u ∈ t.toList)
      (hequal : compare u.key key = 0) (hflag : flag % 2 = rbtree_NO_DUPLICATES) :
      Inserted compare flag block key t NULL t
  | counted {ctx : Context (Node κ)} {c : Colour} {a b : ColourTree (Node κ)} {u : Node κ}
      (hequal : compare u.key key = 0) (hflag : flag % 2 ≠ rbtree_NO_DUPLICATES) :
      Inserted compare flag block key (plug ctx (.node c a u b)) u.addr
        (plug ctx (.node c a { u with count := countUp u.count } b))
  | failed {t : ColourTree (Node κ)} (habsent : forall u, u ∈ t.toList -> compare u.key key ≠ 0)
      (hfull : block = NULL) : Inserted compare flag block key t NULL t
  | added {t t' : ColourTree (Node κ)} {first rest : List (Node κ)} (ht : t.toList = first ++ rest)
      (ht' : t'.toList = first ++ ⟨block, key, 1⟩ :: rest)
      (hbelow : forall u, u ∈ first -> compare u.key key < 0)
      (habove : forall u, u ∈ rest -> 0 < compare u.key key) (hne : block ≠ NULL) :
      Inserted compare flag block key t block t'

section Inserted

variable {flag : Nat} {block p : Ptr}

theorem Inserted.ascending (hcompare : TotalPreorder compare)
    (h : Inserted compare flag block key t p t') (ht : Ascending compare t.toList) :
    Ascending compare t'.toList := by
  cases h with
  | refused hu hequal hflag => exact ht
  | failed habsent hfull => exact ht
  | @counted ctx c a b u hequal hflag =>
      rw [toList_focus] at ht ⊢
      rcases List.pairwise_append.mp ht with ⟨hfirst, hrest, hacross⟩
      rcases List.pairwise_cons.mp hrest with ⟨hu, hrest⟩
      refine List.pairwise_append.mpr ⟨hfirst, List.pairwise_cons.mpr ⟨hu, hrest⟩, ?_⟩
      intro w hw w' hw'
      cases List.mem_cons.mp hw' with
      | inl heq =>
          rw [heq]
          exact hacross w hw u (List.mem_cons_self ..)
      | inr hmem => exact hacross w hw w' (List.mem_cons_of_mem u hmem)
  | @added _ _ first rest hfirst ht' hbelow habove hne =>
      rw [hfirst] at ht
      rw [ht']
      rcases List.pairwise_append.mp ht with ⟨hfirst, hrest, hacross⟩
      refine List.pairwise_append.mpr ⟨hfirst, List.pairwise_cons.mpr ⟨?_, hrest⟩, ?_⟩
      · intro w hw
        exact (hcompare.swap w.key key).mp (habove w hw)
      · intro w hw w' hw'
        cases List.mem_cons.mp hw' with
        | inl heq =>
            rw [heq]
            exact hbelow w hw
        | inr hmem => exact hacross w hw w' hmem

theorem Inserted.count (h : Inserted compare flag block key t p t')
    (ht : forall u, u ∈ t.toList -> 0 < u.count ∧ u.count < 2 ^ 31) :
    forall u, u ∈ t'.toList -> 0 < u.count ∧ u.count < 2 ^ 31 := by
  cases h with
  | refused hu hequal hflag => exact ht
  | failed habsent hfull => exact ht
  | @counted ctx c a b u hequal hflag =>
      intro w hw
      rw [toList_focus] at ht hw
      rcases List.mem_append.mp hw with hw | hw
      · exact ht w (List.mem_append_left _ hw)
      rcases List.mem_cons.mp hw with rfl | hw
      · have hu := ht u (List.mem_append_right _ (List.mem_cons_self ..))
        show 0 < countUp u.count ∧ countUp u.count < 2 ^ 31
        rw [countUp_eq hu.right]
        omega
      · exact ht w (List.mem_append_right _ (List.mem_cons_of_mem u hw))
  | @added _ _ first rest hfirst ht' hbelow habove hne =>
      intro w hw
      rw [hfirst] at ht
      rw [ht'] at hw
      rcases List.mem_append.mp hw with hw | hw
      · exact ht w (List.mem_append_left _ hw)
      rcases List.mem_cons.mp hw with rfl | hw
      · exact ⟨Nat.one_pos, by show 1 < 2 ^ 31; decide⟩
      · exact ht w (List.mem_append_right _ hw)

theorem Inserted.addr_mem (h : Inserted compare flag block key t p t') :
    forall q, q ∈ addrs t -> q ∈ addrs t' := by
  intro q hq
  cases h with
  | refused hu hequal hflag => exact hq
  | failed habsent hfull => exact hq
  | counted hequal hflag =>
      rw [addrs, toList_focus] at hq ⊢
      simpa using hq
  | added ht ht' hbelow habove hne =>
      rw [addrs, ht] at hq
      rw [addrs, ht']
      simp only [List.map_append, List.map_cons, List.mem_append, List.mem_cons] at hq ⊢
      tauto

theorem Inserted.of_absent (h : Inserted compare flag block key t p t')
    (habsent : forall u, u ∈ t.toList -> compare u.key key ≠ 0) :
    (block = NULL ∧ p = NULL ∧ t' = t) ∨
    (block ≠ NULL ∧ p = block ∧ exists first rest, t.toList = first ++ rest ∧
      t'.toList = first ++ ⟨block, key, 1⟩ :: rest) := by
  cases h with
  | @refused _ u hu hequal hflag => exact absurd hequal (habsent u hu)
  | @counted ctx c a b u hequal hflag =>
      have hu : u ∈ (plug ctx (.node c a u b)).toList := by
        rw [toList_focus]
        exact List.mem_append_right _ (List.mem_cons_self ..)
      exact absurd hequal (habsent u hu)
  | failed _ hfull => exact Or.inl ⟨hfull, rfl, rfl⟩
  | added ht ht' _ _ hne => exact Or.inr ⟨hne, rfl, _, _, ht, ht'⟩

end Inserted

theorem PlaceOf.absent (h : PlaceOf compare key ctx .nil) :
    forall u, u ∈ (plug ctx .nil).toList -> compare u.key key ≠ 0 := by
  intro u hu
  rw [toList_plug, ColourTree.toList, List.append_nil] at hu
  rcases List.mem_append.mp hu with hu | hu
  · exact Int.ne_of_lt (h.below u hu)
  · exact Int.ne_of_gt (h.above u hu)

section Valid

variable {malloc : Malloc κ} {block p : Ptr}

/-- The path stack and the bytes counted do not matter. -/
theorem Valid.congr (h : Valid tree t) (hsettings : SameSettings tree tree')
    (helements : tree'.elements = tree.elements) (hroot : tree'.nodes.root = tree.nodes.root)
    (hheap : tree'.nodes.heap = tree.nodes.heap) : Valid tree' t where
  rep := by
    refine h.rep.congr hsettings.nullElement_eq hroot ?_ ?_ fun p _ => ?_
    · rw [hheap]
    · rw [hheap]
      exact h.rep.null_none
    · rw [hheap]
  redBlack := h.redBlack
  ascending := by
    rw [hsettings.compare_eq]
    exact h.ascending
  elements_eq := helements.trans h.elements_eq
  count := h.count
  owned := by
    rw [hheap, hsettings.nullElement_eq]
    exact h.owned
  pool := hsettings.freesPool h.pool

theorem Valid.inserted (hcompare : TotalPreorder tree.compare) (h : Valid tree t)
    (hinserted : Inserted tree.compare tree.flag block key t p t')
    (hrep : Rep tree'.nodes t') (hrb : RedBlackTree t') (hsettings : SameSettings tree tree')
    (helements : tree'.elements = uint t'.size)
    (hother : forall q, q ∉ addrs t' -> tree'.nodes.heap q = tree.nodes.heap q) :
    Valid tree' t' where
  rep := hrep
  redBlack := hrb
  ascending := by
    rw [hsettings.compare_eq]
    exact hinserted.ascending hcompare h.ascending
  elements_eq := helements
  count := hinserted.count h.count
  owned := by
    intro q hq
    by_cases hmem : q ∈ addrs t'
    · exact Or.inr hmem
    · rw [hother q hmem] at hq
      rw [hsettings.nullElement_eq]
      exact (h.owned q hq).imp_right (hinserted.addr_mem q)
  pool := hsettings.freesPool h.pool

theorem insertElement_spec (hcompare : TotalPreorder tree.compare)
    (h : Valid tree (plug ctx .nil)) (hmalloc : FreshMalloc malloc)
    (hstack : StackFor tree.nodes.parents ctx) (hlen : ctx.length < MAX_rbtree_HEIGHT)
    (hat : PlaceOf tree.compare key ctx .nil) :
    exists p tree' t', insertElement malloc key tree ctx.length = .ok (p, tree') ∧
      Valid tree' t' ∧ SameSettings tree tree' ∧
      Inserted tree.compare tree.flag (malloc tree.nodes.heap) key (plug ctx .nil) p t' := by
  rw [insertElement]
  by_cases hfull : malloc tree.nodes.heap = NULL
  · rw [if_pos hfull]
    exact ⟨NULL, tree, plug ctx .nil, rfl, h, SameSettings.refl tree, .failed hat.absent hfull⟩
  rw [if_neg hfull]
  have hblock := (hmalloc tree.nodes.heap).resolve_left hfull
  rcases h.redBlack.unplug with ⟨n, hfits, hnil, _⟩
  rw [isRedBlack_nil_iff.mp hnil] at hfits
  rcases linkElement_spec h.rep hstack hlen hfits hblock hfull with
    ⟨s', t', hlink, hrep, hrb, htoList, hnull, hother⟩
  have hempty : (plug ctx .nil).toList = before ctx ++ after ctx := by
    rw [toList_plug, ColourTree.toList, List.append_nil]
  have hinserted : Inserted tree.compare tree.flag (malloc tree.nodes.heap) key
      (plug ctx .nil) (malloc tree.nodes.heap) t' :=
    .added hempty htoList hat.below hat.above hfull
  have hsize : t'.size = (plug ctx .nil).size + 1 := by
    rw [← ColourTree.length_toList, htoList, ← ColourTree.length_toList, hempty, List.length_append,
      List.length_append, List.length_cons]
    omega
  have hsettings : SameSettings tree { tree with
      nodes := s'
      elements := uint (tree.elements + 1) } := ⟨rfl, rfl, rfl, rfl, hnull, rfl⟩
  have helements : uint (tree.elements + 1) = uint t'.size := by
    rw [h.elements_eq, hsize]
    exact Nat.mod_add_mod _ _ _
  simp only [bind, Except.bind, hlink]
  exact ⟨_, _, t', rfl, h.inserted hcompare hinserted hrep hrb hsettings helements hother,
    hsettings, hinserted⟩

theorem countElement_spec (block : Ptr) {c : Colour} {a b : ColourTree (Node κ)} {v : Node κ}
    (hcompare : TotalPreorder tree.compare) (h : Valid tree (plug ctx (.node c a v b)))
    (hequal : tree.compare v.key key = 0) :
    exists p tree' t', countElement tree v.addr = .ok (p, tree') ∧ Valid tree' t' ∧
      SameSettings tree tree' ∧
      Inserted tree.compare tree.flag block key (plug ctx (.node c a v b)) p t' := by
  rw [countElement]
  by_cases hflag : tree.flag % 2 = rbtree_NO_DUPLICATES
  · rw [if_pos hflag]
    refine ⟨NULL, tree, _, rfl, h, SameSettings.refl tree, .refused ?_ hequal hflag⟩
    rw [toList_focus]
    exact List.mem_append_right _ (List.mem_cons_self ..)
  rw [if_neg hflag]
  let w : Node κ := { v with count := countUp v.count }
  have hnode : Rep tree.nodes (plug ctx (.mk .left c a v b)) := h.rep
  have haddr : w.addr = v.addr := rfl
  rcases Rep.modify (fun e => { e with count := countUp e.count }) hnode
    (fun near far => rfl) haddr with ⟨s', hmodify, hrep, hkept⟩
  have hinserted : Inserted tree.compare tree.flag block key (plug ctx (.node c a v b)) v.addr
      (plug ctx (.node c a w b)) := .counted hequal hflag
  have hsettings : SameSettings tree { tree with nodes := s' } :=
    ⟨rfl, rfl, rfl, rfl, hkept.nullElement_eq, rfl⟩
  have helements : tree.elements = uint (plug ctx (.node c a w b)).size := by
    rw [h.elements_eq, ← ColourTree.length_toList, ← ColourTree.length_toList,
      toList_focus, toList_focus]
    simp
  have hother : forall q, q ∉ addrs (plug ctx (.node c a w b)) ->
      s'.heap q = tree.nodes.heap q := by
    intro q hq
    refine hkept.heap_eq q fun hmem => hq ?_
    rw [List.mem_singleton.mp hmem, ← haddr]
    exact mem_addrs_plug.mpr (Or.inl (addrOf_mem (ColourTree.mk_ne_nil .left c a w b) NULL))
  simp only [bind, Except.bind, hmodify]
  exact ⟨_, _, _, rfl, h.inserted hcompare hinserted hrep h.redBlack.congr_value hsettings
    helements hother, hsettings, hinserted⟩

/-- `tree->allocated` once a new element is counted. -/
def RbTree.charge (tree : RbTree κ) (keySize : Nat) : Nat :=
  sizet (tree.allocated + allocSize tree keySize)

def RbTree.Exceeds (tree : RbTree κ) (keySize : Nat) : Prop :=
  tree.memoryLimit ≠ 0 ∧ tree.elements ≠ 0 ∧ tree.memoryLimit < tree.charge keySize

def RbTree.counting (tree : RbTree κ) (parents : Nat -> Link) (keySize : Nat) : RbTree κ :=
  { tree with
    nodes := { tree.nodes with parents := parents }
    allocated := tree.charge keySize }

theorem RbTree.overLimit_charged {keySize : Nat} {s : Nodes κ} :
    RbTree.overLimit { tree with nodes := s, allocated := tree.charge keySize } = true <->
      tree.Exceeds keySize := by
  rw [RbTree.overLimit, Bool.and_eq_true, Bool.and_eq_true, decide_eq_true_eq,
    decide_eq_true_eq, decide_eq_true_eq, and_assoc]
  exact Iff.rfl

theorem RbTree.overLimit_counting {parents : Nat -> Link} {keySize : Nat} :
    (tree.counting parents keySize).overLimit = true <-> tree.Exceeds keySize :=
  RbTree.overLimit_charged

theorem RbTree.sameSettings_withParents (tree : RbTree κ) (parents : Nat -> Link) :
    SameSettings tree { tree with nodes := { tree.nodes with parents := parents } } :=
  ⟨rfl, rfl, rfl, rfl, rfl, rfl⟩

theorem RbTree.sameSettings_counting (tree : RbTree κ) (parents : Nat -> Link)
    (keySize : Nat) : SameSettings tree (tree.counting parents keySize) :=
  ⟨rfl, rfl, rfl, rfl, rfl, rfl⟩

theorem Valid.withParents (h : Valid tree t) (parents : Nat -> Link) :
    Valid { tree with nodes := { tree.nodes with parents := parents } } t :=
  h.congr (tree.sameSettings_withParents parents) rfl rfl rfl

theorem Valid.counting (h : Valid tree t) (parents : Nat -> Link) (keySize : Nat) :
    Valid (tree.counting parents keySize) t :=
  h.congr (tree.sameSettings_counting parents keySize) rfl rfl rfl

/-- The descent of `rbtree_insert`, and what the call comes down to after it: for a
new key the memory limit is looked at. -/
theorem rbtreeInsertWith_pass (malloc : Malloc κ) (key : κ) (keySize fuel : Nat)
    (hcompare : TotalPreorder tree.compare) (h : Valid tree t) :
    ((exists fault, rbtreeInsertWith malloc key keySize (fuel + 1) tree = .error fault) ∧
      MAX_rbtree_HEIGHT <= t.height) ∨
    (exists parents ctx, plug ctx .nil = t ∧ StackFor parents ctx ∧
      ctx.length < MAX_rbtree_HEIGHT ∧ PlaceOf tree.compare key ctx .nil ∧
      rbtreeInsertWith malloc key keySize (fuel + 1) tree =
        if (tree.counting parents keySize).overLimit then
          rbtreeReset (tree.counting parents keySize) >>=
            rbtreeInsertWith malloc key keySize fuel
        else insertElement malloc key (tree.counting parents keySize) ctx.length) ∨
    exists parents ctx c a v b, plug ctx (.node c a v b) = t ∧
      tree.compare v.key key = 0 ∧
      rbtreeInsertWith malloc key keySize (fuel + 1) tree =
        countElement { tree with nodes := { tree.nodes with parents := parents } } v.addr := by
  rw [rbtreeInsertWith]
  rcases findPlace_spec hcompare h.rep h.ascending key with
    ⟨⟨fault, herror⟩, hheight⟩ | ⟨parents, ctx, u, hplace, hplug, hstack, hlen, hat⟩
  · rw [herror]
    exact Or.inl ⟨⟨fault, rfl⟩, hheight⟩
  right
  rw [hplace]
  subst hplug
  rcases hat.hit with rfl | ⟨c, a, v, b, rfl, hequal⟩
  · left
    refine ⟨parents, ctx, rfl, hstack, hlen, hat, ?_⟩
    rw [addrOf]
    simp only [bind, Except.bind, if_true]
    rfl
  · right
    have hnull : addrOf tree.nodes.nullElement (.node c a v b) ≠ tree.nodes.nullElement := by
      rw [ne_eq, h.rep.addrOf_eq_null_iff]
      exact ColourTree.mk_ne_nil .left c a v b
    refine ⟨parents, ctx, c, a, v, b, rfl, hequal, ?_⟩
    simp only [bind, Except.bind, if_neg hnull]
    rfl

/-- `rbtree_insert` fails only on a tree too high for the stack. At the memory
limit it starts again with an empty tree. -/
theorem rbtreeInsertWith_spec {keySize fuel : Nat} (hcompare : TotalPreorder tree.compare)
    (h : Valid tree t) (hmalloc : FreshMalloc malloc) (hfuel : 0 < fuel)
    (hagain : tree.elements = 0 ∨ 1 < fuel) :
    ((exists fault, rbtreeInsertWith malloc key keySize fuel tree = .error fault) ∧
      MAX_rbtree_HEIGHT <= t.height) ∨
    exists p tree' t', rbtreeInsertWith malloc key keySize fuel tree = .ok (p, tree') ∧
      Valid tree' t' ∧ SameSettings tree tree' ∧
      (Inserted tree.compare tree.flag (malloc tree.nodes.heap) key t p t' ∨
        tree.memoryLimit ≠ 0 ∧
          exists block, Inserted tree.compare tree.flag block key .nil p t') := by
  induction fuel generalizing tree t with
  | zero => cases hfuel
  | succ fuel ih =>
      rcases rbtreeInsertWith_pass malloc key keySize fuel hcompare h with
        hfault | ⟨parents, ctx, rfl, hstack, hlen, hat, hpass⟩ |
          ⟨parents, ctx, c, a, v, b, rfl, hequal, hpass⟩
      · exact Or.inl hfault
      · have hcounting := h.counting parents keySize
        have hstart := tree.sameSettings_counting parents keySize
        rw [hpass]
        by_cases hexceeds : tree.Exceeds keySize
        · -- Over the limit: the rest of the call starts from an empty tree.
          rw [if_pos (RbTree.overLimit_counting.mpr hexceeds)]
          have hfuel₁ : 0 < fuel := by
            have hagain₁ := hagain.resolve_left hexceeds.right.left
            omega
          rcases rbtreeReset_spec hcounting with
            ⟨⟨fault, herror⟩, hheight⟩ | ⟨tree₂, hreset, hvalid₂, hsettings₂, helements₂⟩
          · rw [herror]
            exact Or.inl ⟨⟨fault, rfl⟩, Nat.le_trans (by decide) hheight⟩
          rw [hreset]
          have hsettings := hstart.trans hsettings₂
          have hcompare₂ : TotalPreorder tree₂.compare := by
            rw [hsettings.compare_eq]
            exact hcompare
          rcases ih hcompare₂ hvalid₂ hfuel₁ (Or.inl helements₂) with
            ⟨_, hheight⟩ | ⟨p, tree', t', hinsert, hvalid', hsettings', hinserted⟩
          · have hlow : ¬ MAX_rbtree_HEIGHT <= 0 := by decide
            exact absurd hheight hlow
          rw [hsettings.compare_eq, hsettings.flag_eq] at hinserted
          have hempty : exists block,
              Inserted tree.compare tree.flag block key .nil p t' :=
            hinserted.elim (fun hdone => ⟨_, hdone⟩) And.right
          exact Or.inr ⟨p, tree', t', hinsert, hvalid', hsettings.trans hsettings',
            Or.inr ⟨hexceeds.left, hempty⟩⟩
        · rw [if_neg (mt RbTree.overLimit_counting.mp hexceeds)]
          have hcompare₁ : TotalPreorder (tree.counting parents keySize).compare := hcompare
          rcases insertElement_spec hcompare₁ hcounting hmalloc hstack hlen hat with
            ⟨p, tree', t', hinsert, hvalid', hsettings', hinserted⟩
          exact Or.inr ⟨p, tree', t', hinsert, hvalid', hstart.trans hsettings',
            Or.inl hinserted⟩
      · rw [hpass]
        have hmet := h.withParents parents
        have hsettings := tree.sameSettings_withParents parents
        generalize ({ tree with nodes := { tree.nodes with parents := parents } } : RbTree κ) =
          tree₁ at hmet hsettings ⊢
        rw [← hsettings.compare_eq] at hcompare hequal
        rcases countElement_spec (malloc tree.nodes.heap) hcompare hmet hequal with
          ⟨p, tree', t', hcount, hvalid', hsettings', hinserted⟩
        rw [hsettings.compare_eq, hsettings.flag_eq] at hinserted
        exact Or.inr ⟨p, tree', t', hcount, hvalid', hsettings.trans hsettings',
          Or.inl hinserted⟩

theorem rbtreeInsert_spec (keySize : Nat) (hcompare : TotalPreorder tree.compare)
    (h : Valid tree t) (hmalloc : FreshMalloc malloc) :
    ((exists fault, rbtreeInsert tree key keySize malloc = .error fault) ∧
      MAX_rbtree_HEIGHT <= t.height) ∨
    exists p tree' t', rbtreeInsert tree key keySize malloc = .ok (p, tree') ∧
      Valid tree' t' ∧ SameSettings tree tree' ∧
      (Inserted tree.compare tree.flag (malloc tree.nodes.heap) key t p t' ∨
        tree.memoryLimit ≠ 0 ∧
          exists block, Inserted tree.compare tree.flag block key .nil p t') :=
  rbtreeInsertWith_spec hcompare h hmalloc (by decide) (Or.inr (by decide))

end Valid

end RBTree
end MyLibs
