import MyLibs.Foundation.Costs
import MyLibs.RBTree.Neighbours

/-!
# How often the tree compares

The descents of `my_rbtree.c` again, with every call of `compare` counted: none makes
more of them than the tree is high.
-/

namespace MyLibs
namespace RBTree

open Foundation

/-!
## The descents with their comparisons
-/

section Counted

variable {κ : Type _}

def searchLoopCosted (compare : κ -> κ -> Int) (key : κ) (s : Nodes κ) :
    Nat -> Ptr -> Costed (Option κ)
  | 0, _ => .fails
  | fuel + 1, element =>
      if element = s.nullElement then
        .ends 0 none
      else
        (Costed.ofExcept (s.elementKey element)).andThen fun elementKey =>
          (Costed.ends 1 (compare elementKey key)).andThen fun cmp =>
            if cmp = 0 then
              .ends 0 (some elementKey)
            else
              (Costed.ofExcept (s.element element)).andThen fun e =>
                searchLoopCosted compare key s fuel (if cmp < 0 then e.right else e.left)

def rbtreeSearchCosted (tree : RbTree κ) (key : κ) : Costed (Option κ) :=
  searchLoopCosted tree.compare key tree.nodes turnLimit tree.nodes.root

def descendCosted (compare : κ -> κ -> Int) (key : κ) :
    Nat -> Nodes κ -> Nat -> Ptr -> Costed (Nodes κ × Nat × Ptr)
  | 0, _, _, _ => .fails
  | fuel + 1, s, parent, element =>
      if element = s.nullElement then
        .ends 0 (s, parent, element)
      else
        (Costed.ofExcept (s.elementKey element)).andThen fun elementKey =>
          (Costed.ends 1 (compare elementKey key)).andThen fun cmp =>
            if cmp = 0 then
              .ends 0 (s, parent, element)
            else
              let d := if cmp < 0 then Dir.right else Dir.left
              (Costed.ofExcept (s.setParent (parent + 1) (.child d element))).andThen fun s =>
                (Costed.ofExcept (s.element element)).andThen fun e =>
                  descendCosted compare key fuel s (parent + 1) (e.child d)

def findPlaceCosted (tree : RbTree κ) (key : κ) : Costed (Nodes κ × Nat × Ptr) :=
  (Costed.ofExcept (tree.nodes.setParent 0 .root)).andThen fun s =>
    descendCosted tree.compare key (MAX_rbtree_HEIGHT + 1) s 0 s.root

def rbtreeInsertWithCosted (malloc : Malloc κ) (key : κ) (keySize : Nat) :
    Nat -> RbTree κ -> Costed (Ptr × RbTree κ)
  | 0, _ => .fails
  | fuel + 1, tree =>
      (findPlaceCosted tree key).andThen fun (s, parent, element) =>
        let tree := { tree with nodes := s }
        if element = s.nullElement then
          let tree := { tree with allocated := sizet (tree.allocated + allocSize tree keySize) }
          if tree.overLimit then
            (Costed.ofExcept (rbtreeReset tree)).andThen fun tree =>
              rbtreeInsertWithCosted malloc key keySize fuel tree
          else
            Costed.ofExcept (insertElement malloc key tree parent)
        else
          Costed.ofExcept (countElement tree element)

def rbtreeInsertCosted (tree : RbTree κ) (key : κ) (keySize : Nat) (malloc : Malloc κ) :
    Costed (Ptr × RbTree κ) :=
  rbtreeInsertWithCosted malloc key keySize 2 tree

def rbtreeDeleteAt (tree : RbTree κ) (keySize : Nat) (place : Nodes κ × Nat × Ptr) :
    Except Fault (Nat × RbTree κ) := do
  let (s, parent, element) := place
  if element = s.nullElement then
    .ok (1, { tree with nodes := s })
  else
    let s <- takeOut s parent element
    let tree <- dropElement { tree with nodes := s } element keySize
    .ok (0, tree)

def rbtreeDeleteCosted (tree : RbTree κ) (key : κ) (keySize : Nat) :
    Costed (Nat × RbTree κ) :=
  if !tree.isDelete then
    .ends 0 (1, tree)
  else
    (findPlaceCosted tree key).andThen fun place =>
      Costed.ofExcept (rbtreeDeleteAt tree keySize place)

def searchKeyLoopCosted (s : Nodes κ) (compare : κ -> Int) (flag : HaReadFunc) :
    Nat -> SearchPath -> Nat -> LastPlaces -> Ptr -> Costed (Option LastPlaces × SearchPath)
  | 0, _, _, _, _ => .fails
  | fuel + 1, path, i, last, element =>
      if element = s.nullElement then
        .ends 0 (some last, path)
      else
        let i := i + 1
        (Costed.ofExcept (path.setParent i element)).andThen fun path =>
          (Costed.ofExcept (s.elementKey element)).andThen fun key =>
            (Costed.ends 1 (compare key)).andThen fun cmp =>
              match if cmp = 0 then flag.atEqual else some (false, cmp) with
              | none => .ends 0 (none, path)
              | some (equal, cmp) =>
                  let last := if equal then { last with equalElement := some i } else last
                  (Costed.ofExcept (s.element element)).andThen fun e =>
                    if cmp < 0 then
                      searchKeyLoopCosted s compare flag fuel path i
                        { last with rightStepParent := some i } e.right
                    else
                      searchKeyLoopCosted s compare flag fuel path i
                        { last with leftStepParent := some i } e.left

def searchKeyAt (s : Nodes κ) (flag : HaReadFunc) (noted : Option LastPlaces × SearchPath) :
    Except Fault (Option κ × SearchPath) :=
  match noted.1 with
  | none => .ok (none, noted.2)
  | some last => searchKeyEnd s flag noted.2 last

def searchKeyCosted (tree : RbTree κ) (compare : κ -> Int) (path : SearchPath)
    (flag : HaReadFunc) : Costed (Option κ × SearchPath) :=
  let s := tree.nodes
  (Costed.ofExcept (path.setParent 0 s.nullElement)).andThen fun path =>
    (searchKeyLoopCosted s compare flag (path.places + 1) path 0 ⟨none, none, none⟩
      s.root).andThen fun noted => Costed.ofExcept (searchKeyAt s flag noted)

/-!
## Counting changes no result
-/

theorem searchLoopCosted_result (compare : κ -> κ -> Int) (key : κ) (s : Nodes κ)
    (fuel : Nat) (element : Ptr) :
    (searchLoopCosted compare key s fuel element).result =
      (searchLoop compare key s fuel element).toOption := by
  induction fuel generalizing element with
  | zero => rfl
  | succ fuel ih =>
      rw [searchLoopCosted, searchLoop]
      split
      · rfl
      · simp only [Costed.result_andThen, Costed.result_ofExcept, Costed.result_ends,
          Option.bind_some, toOption_bind]
        congr 1
        funext elementKey
        split
        · rfl
        · simp only [Costed.result_andThen, Costed.result_ofExcept, toOption_bind, ih]

theorem descendCosted_result (compare : κ -> κ -> Int) (key : κ) (fuel : Nat) (s : Nodes κ)
    (parent : Nat) (element : Ptr) :
    (descendCosted compare key fuel s parent element).result =
      (descend compare key fuel s parent element).toOption := by
  induction fuel generalizing s parent element with
  | zero => rfl
  | succ fuel ih =>
      rw [descendCosted, descend]
      split
      · rfl
      · simp only [Costed.result_andThen, Costed.result_ofExcept, Costed.result_ends,
          Option.bind_some, toOption_bind]
        congr 1
        funext elementKey
        split
        · rfl
        · simp only [Costed.result_andThen, Costed.result_ofExcept, toOption_bind, ih]

theorem findPlaceCosted_result (tree : RbTree κ) (key : κ) :
    (findPlaceCosted tree key).result = (findPlace tree key).toOption := by
  simp only [findPlaceCosted, findPlace, Costed.result_andThen, Costed.result_ofExcept,
    toOption_bind, descendCosted_result]

theorem rbtreeInsertWithCosted_result (malloc : Malloc κ) (key : κ) (keySize fuel : Nat)
    (tree : RbTree κ) :
    (rbtreeInsertWithCosted malloc key keySize fuel tree).result =
      (rbtreeInsertWith malloc key keySize fuel tree).toOption := by
  induction fuel generalizing tree with
  | zero => rfl
  | succ fuel ih =>
      simp only [rbtreeInsertWithCosted, rbtreeInsertWith, Costed.result_andThen,
        findPlaceCosted_result, toOption_bind]
      congr 1
      funext place
      split
      · split
        · simp only [Costed.result_andThen, Costed.result_ofExcept, toOption_bind, ih]
        · exact Costed.result_ofExcept _
      · exact Costed.result_ofExcept _

theorem rbtreeDeleteCosted_result (tree : RbTree κ) (key : κ) (keySize : Nat) :
    (rbtreeDeleteCosted tree key keySize).result =
      (rbtreeDelete tree key keySize).toOption := by
  rw [rbtreeDeleteCosted, rbtreeDelete]
  split
  · rfl
  · simp only [Costed.result_andThen, Costed.result_ofExcept, findPlaceCosted_result,
      toOption_bind]
    rfl

theorem searchKeyLoopCosted_result (s : Nodes κ) (compare : κ -> Int) (flag : HaReadFunc)
    (fuel : Nat) (path : SearchPath) (i : Nat) (last : LastPlaces) (element : Ptr) :
    (searchKeyLoopCosted s compare flag fuel path i last element).result =
      (searchKeyLoop s compare flag fuel path i last element).toOption := by
  induction fuel generalizing path i last element with
  | zero => rfl
  | succ fuel ih =>
      rw [searchKeyLoopCosted, searchKeyLoop]
      split
      · rfl
      · simp only [Costed.result_andThen, Costed.result_ofExcept, Costed.result_ends,
          Option.bind_some, toOption_bind]
        congr 1
        funext path
        congr 1
        funext key
        cases (if compare key = 0 then flag.atEqual else some (false, compare key)) with
        | none => rfl
        | some step =>
            simp only [Costed.result_andThen, Costed.result_ofExcept, toOption_bind]
            congr 1
            funext e
            split
            · exact ih ..
            · exact ih ..

theorem searchKeyCosted_result (tree : RbTree κ) (compare : κ -> Int) (path : SearchPath)
    (flag : HaReadFunc) :
    (searchKeyCosted tree compare path flag).result =
      (searchKey tree compare path flag).toOption := by
  simp only [searchKeyCosted, searchKey, Costed.result_andThen, Costed.result_ofExcept,
    toOption_bind, searchKeyLoopCosted_result]
  rfl

end Counted

/-!
## No more comparisons than levels
-/

section Bounds

variable {κ : Type} {s : Nodes κ} {ctx : Context (Node κ)} {t : ColourTree (Node κ)}
  {tree : RbTree κ}

theorem height_lt_mk (d : Dir) (c : Colour) (a : ColourTree (Node κ)) (v : Node κ)
    (b : ColourTree (Node κ)) : a.height < (ColourTree.mk d c a v b).height := by
  cases d with
  | left =>
      rw [ColourTree.mk, ColourTree.height]
      omega
  | right =>
      rw [ColourTree.mk, ColourTree.height]
      omega

theorem height_split (c : Colour) (a : ColourTree (Node κ)) (v : Node κ)
    (b : ColourTree (Node κ)) :
    1 + ((ColourTree.node c a v b).height - 1) <= (ColourTree.node c a v b).height := by
  rw [ColourTree.height]
  omega

theorem searchLoopCosted_atMost (compare : κ -> κ -> Int) (key : κ) (fuel : Nat)
    (h : Rep s (plug ctx t)) :
    (searchLoopCosted compare key s fuel (addrOf s.nullElement t)).AtMost t.height := by
  induction fuel generalizing ctx t with
  | zero => exact Costed.atMost_fails _
  | succ fuel ih =>
      rw [searchLoopCosted]
      cases t with
      | nil =>
          rw [addrOf, if_pos rfl]
          exact Costed.atMost_ends (Nat.zero_le _) _
      | node c a v b =>
          have hnode : Rep s (plug ctx (.mk .left c a v b)) := h
          have hleft : Rep s (plug (⟨.left, c, v, b⟩ :: ctx) a) := h
          have hright : Rep s (plug (⟨.right, c, v, a⟩ :: ctx) b) := h
          have hnull : addrOf s.nullElement (.node c a v b) ≠ s.nullElement := by
            rw [ne_eq, h.addrOf_eq_null_iff]
            exact ColourTree.mk_ne_nil .left c a v b
          rw [if_neg hnull]
          apply Costed.atMost_ofExcept_andThen
          intro elementKey _
          have hlower := Nat.le_sub_one_of_lt (height_lt_mk .left c a v b)
          have hlower' := Nat.le_sub_one_of_lt (height_lt_mk .right c b v a)
          apply Costed.atMost_ends_andThen (height_split c a v b)
          split
          · exact Costed.atMost_ends (Nat.zero_le _) _
          · apply Costed.atMost_ofExcept_andThen
            intro e he
            have helement : e = mkElement .left (addrOf s.nullElement a)
                (addrOf s.nullElement b) c v := Except.ok.inj (he.symm.trans hnode.element)
            rw [helement]
            split
            · exact (ih hright).mono hlower'
            · exact (ih hleft).mono hlower

theorem Rep.side {d : Dir} {c : Colour} {a b : ColourTree (Node κ)} {v : Node κ}
    (h : Rep s (plug ctx (.node c a v b))) :
    exists near far, ColourTree.node c a v b = .mk d c near v far ∧
      near.height <= (ColourTree.node c a v b).height - 1 ∧
      s.element v.addr = .ok (mkElement d (addrOf s.nullElement near)
        (addrOf s.nullElement far) c v) ∧
      Rep s (plug (⟨d, c, v, far⟩ :: ctx) near) := by
  cases d with
  | left =>
      have hnode : Rep s (plug ctx (.mk .left c a v b)) := h
      exact ⟨a, b, rfl, Nat.le_sub_one_of_lt (height_lt_mk .left c a v b), hnode.element, h⟩
  | right =>
      have hnode : Rep s (plug ctx (.mk .right c b v a)) := h
      exact ⟨b, a, rfl, Nat.le_sub_one_of_lt (height_lt_mk .right c b v a), hnode.element, h⟩

theorem descendCosted_atMost (compare : κ -> κ -> Int) (key : κ) (fuel parent : Nat)
    (h : Rep s (plug ctx t)) :
    (descendCosted compare key fuel s parent (addrOf s.nullElement t)).AtMost t.height := by
  induction fuel generalizing s parent ctx t with
  | zero => exact Costed.atMost_fails _
  | succ fuel ih =>
      rw [descendCosted]
      cases t with
      | nil =>
          rw [addrOf, if_pos rfl]
          exact Costed.atMost_ends (Nat.zero_le _) _
      | node c a v b =>
          have hnull : addrOf s.nullElement (.node c a v b) ≠ s.nullElement := by
            rw [ne_eq, h.addrOf_eq_null_iff]
            exact ColourTree.mk_ne_nil .left c a v b
          rw [if_neg hnull]
          apply Costed.atMost_ofExcept_andThen
          intro elementKey _
          apply Costed.atMost_ends_andThen (height_split c a v b)
          split
          · exact Costed.atMost_ends (Nat.zero_le _) _
          · apply Costed.atMost_ofExcept_andThen
            intro s' hset
            rw [Nodes.setParent] at hset
            split at hset
            · cases hset
              have hrep := (h.withParents (Function.update s.parents (parent + 1)
                (.child (if compare elementKey key < 0 then Dir.right else Dir.left)
                  (addrOf s.nullElement (.node c a v b))))).rep
              rcases hrep.side (d := if compare elementKey key < 0 then Dir.right
                else Dir.left) with ⟨near, far, _, hlower, helement, hnear⟩
              apply Costed.atMost_ofExcept_andThen
              intro e he
              rw [Except.ok.inj (he.symm.trans helement), mkElement_child]
              exact (ih (parent + 1) hnear).mono hlower
            · cases hset

theorem findPlaceCosted_atMost (key : κ) (h : Rep tree.nodes t) :
    (findPlaceCosted tree key).AtMost t.height := by
  rw [findPlaceCosted]
  apply Costed.atMost_ofExcept_andThen
  intro s hset
  rw [Nodes.setParent] at hset
  split at hset
  · cases hset
    have hrep : Rep { tree.nodes with parents := Function.update tree.nodes.parents 0 .root }
        (plug [] t) := (h.withParents _).rep
    have hbound := descendCosted_atMost tree.compare key (MAX_rbtree_HEIGHT + 1) 0 hrep
    rw [← h.root_eq] at hbound
    exact hbound
  · cases hset

theorem rbtreeDeleteCosted_atMost (key : κ) (keySize : Nat) (h : Rep tree.nodes t) :
    (rbtreeDeleteCosted tree key keySize).AtMost t.height := by
  rw [rbtreeDeleteCosted]
  split
  · exact Costed.atMost_ends (Nat.zero_le _) _
  · have hplace := findPlaceCosted_atMost key h
    exact hplace.andThen (n := 0) fun _ _ _ => Costed.atMost_ofExcept _

theorem searchKeyLoopCosted_atMost (compare : κ -> Int) (flag : HaReadFunc) (fuel : Nat)
    (path : SearchPath) (i : Nat) (last : LastPlaces) (h : Rep s (plug ctx t)) :
    (searchKeyLoopCosted s compare flag fuel path i last (addrOf s.nullElement t)).AtMost
      t.height := by
  induction fuel generalizing path i last ctx t with
  | zero => exact Costed.atMost_fails _
  | succ fuel ih =>
      rw [searchKeyLoopCosted]
      cases t with
      | nil =>
          rw [addrOf, if_pos rfl]
          exact Costed.atMost_ends (Nat.zero_le _) _
      | node c a v b =>
          have hnull : addrOf s.nullElement (.node c a v b) ≠ s.nullElement := by
            rw [ne_eq, h.addrOf_eq_null_iff]
            exact ColourTree.mk_ne_nil .left c a v b
          rw [if_neg hnull]
          apply Costed.atMost_ofExcept_andThen
          intro path _
          apply Costed.atMost_ofExcept_andThen
          intro key _
          apply Costed.atMost_ends_andThen (height_split c a v b)
          cases (if compare key = 0 then flag.atEqual else some (false, compare key)) with
          | none => exact Costed.atMost_ends (Nat.zero_le _) _
          | some step =>
              apply Costed.atMost_ofExcept_andThen
              intro e he
              split
              · rcases h.side (d := .right) with ⟨near, far, _, hlower, helement, hnear⟩
                rw [Except.ok.inj (he.symm.trans helement)]
                exact (ih _ _ _ hnear).mono hlower
              · rcases h.side (d := .left) with ⟨near, far, _, hlower, helement, hnear⟩
                rw [Except.ok.inj (he.symm.trans helement)]
                exact (ih _ _ _ hnear).mono hlower

theorem searchKeyCosted_atMost (compare : κ -> Int) (path : SearchPath) (flag : HaReadFunc)
    (h : Rep tree.nodes t) : (searchKeyCosted tree compare path flag).AtMost t.height := by
  rw [searchKeyCosted]
  apply Costed.atMost_ofExcept_andThen
  intro path _
  have hrep : Rep tree.nodes (plug [] t) := h
  have hbound := searchKeyLoopCosted_atMost compare flag (path.places + 1) path 0
    ⟨none, none, none⟩ hrep
  rw [← h.root_eq] at hbound
  exact hbound.andThen (n := 0) fun _ _ _ => Costed.atMost_ofExcept _

theorem findPlace_of_costed {key : κ} {cost : Nat} {place : Nodes κ × Nat × Ptr}
    (h : findPlaceCosted tree key = .ends cost place) : findPlace tree key = .ok place := by
  apply eq_ok_of_toOption
  rw [← findPlaceCosted_result, h]
  rfl

/-- After a reset at the memory limit there is nothing left to compare with. -/
theorem rbtreeInsertWithCosted_atMost (malloc : Malloc κ) (key : κ) (keySize fuel : Nat)
    (hcompare : TotalPreorder tree.compare) (h : Valid tree t) :
    (rbtreeInsertWithCosted malloc key keySize fuel tree).AtMost t.height := by
  induction fuel generalizing tree t with
  | zero => exact Costed.atMost_fails _
  | succ fuel ih =>
      apply (findPlaceCosted_atMost key h.rep).andThen (n := 0)
      intro cost place hends
      have hplace := findPlace_of_costed hends
      rcases findPlace_spec hcompare h.rep h.ascending key with
        ⟨⟨fault, herror⟩, _⟩ | ⟨parents, ctx, u, hfound, _⟩
      · rw [hplace] at herror
        cases herror
      · rw [hplace] at hfound
        cases hfound
        have hcounting := h.counting parents keySize
        show Costed.AtMost 0 (if addrOf tree.nodes.nullElement u = tree.nodes.nullElement then
          if (tree.counting parents keySize).overLimit then
            (Costed.ofExcept (rbtreeReset (tree.counting parents keySize))).andThen
              fun tree => rbtreeInsertWithCosted malloc key keySize fuel tree
          else Costed.ofExcept (insertElement malloc key (tree.counting parents keySize) ctx.length)
          else Costed.ofExcept (countElement _ (addrOf tree.nodes.nullElement u)))
        split
        · split
          · apply Costed.atMost_ofExcept_andThen
            intro tree' hreset
            rcases rbtreeReset_spec hcounting with
              ⟨⟨fault, herror⟩, _⟩ | ⟨tree₂, hreset₂, hvalid₂, hsettings₂, _⟩
            · rw [hreset] at herror
              cases herror
            · rw [hreset] at hreset₂
              cases hreset₂
              have hsettings := (tree.sameSettings_counting parents keySize).trans hsettings₂
              rw [← hsettings.compare_eq] at hcompare
              exact ih hcompare hvalid₂
          · exact Costed.atMost_ofExcept _
        · exact Costed.atMost_ofExcept _

end Bounds

/-!
## The bound
-/

section Logarithmic

variable {κ : Type} {tree : RbTree κ} {t : ColourTree (Node κ)} {settings : Settings κ}
  {calls : List (Call κ)}

theorem height_le_log (h : RedBlackTree t) : t.height <= 2 * Nat.log 2 (t.size + 1) := by
  rcases h with ⟨hblack, n, hrb⟩
  have hheight := hrb.height_le.right hblack
  have hsize := hrb.size_ge
  have hle := hrb.le_height
  have hlog : n <= Nat.log 2 (t.size + 1) := by
    apply Nat.le_log_of_pow_le (by decide)
    omega
  omega

def EndsWithin {α : Type} (n : Nat) (plain : Except Fault α) (counted : Costed α) : Prop :=
  counted.Satisfies fun cost a => plain = .ok a ∧ cost <= n

theorem endsWithin {α : Type} {n : Nat} {plain : Except Fault α} {counted : Costed α} {a : α}
    (hresult : counted.result = plain.toOption) (hplain : plain = .ok a)
    (hbound : counted.AtMost n) : EndsWithin n plain counted := by
  have hends : counted.result = some a := by
    rw [hresult, hplain]
    rfl
  apply (hbound.satisfies hends).mono
  intro cost b hb
  rw [hb.left]
  exact ⟨hplain, hb.right⟩

structure ComparesWithin (n : Nat) (tree : RbTree κ) : Prop where
  search : forall key, EndsWithin n (rbtreeSearch tree key) (rbtreeSearchCosted tree key)
  insert : forall key keySize malloc, FreshMalloc malloc ->
    EndsWithin n (rbtreeInsert tree key keySize malloc)
      (rbtreeInsertCosted tree key keySize malloc)
  delete : forall key keySize,
    EndsWithin n (rbtreeDelete tree key keySize) (rbtreeDeleteCosted tree key keySize)
  searchKey : forall compare path flag, MAX_rbtree_HEIGHT <= path.places ->
    EndsWithin n (searchKey tree compare path flag) (searchKeyCosted tree compare path flag)

theorem Valid.comparesWithin_height (hcompare : TotalPreorder tree.compare) (h : Valid tree t)
    (hlow : t.height < MAX_rbtree_HEIGHT) : ComparesWithin t.height tree where
  search := by
    intro key
    have hrep : Rep tree.nodes (plug [] t) := h.rep
    have hbound := searchLoopCosted_atMost tree.compare key turnLimit hrep
    rw [← h.rep.root_eq] at hbound
    rcases rbtreeSearch_spec hcompare h.rep h.ascending key with ⟨_, hhigh⟩ | ⟨r, hsearch, _⟩
    · have hturns : MAX_rbtree_HEIGHT < turnLimit := by decide
      omega
    · exact endsWithin (searchLoopCosted_result ..) hsearch hbound
  insert := by
    intro key keySize malloc hmalloc
    rcases rbtreeInsert_spec keySize hcompare h hmalloc with
      ⟨_, hhigh⟩ | ⟨p, tree', t', hinsert, _⟩
    · omega
    · exact endsWithin (rbtreeInsertWithCosted_result ..) hinsert
        (rbtreeInsertWithCosted_atMost malloc key keySize 2 hcompare h)
  delete := by
    intro key keySize
    rcases rbtreeDelete_spec keySize hcompare h with ⟨_, hhigh⟩ | ⟨r, tree', t', hdelete, _⟩
    · omega
    · exact endsWithin (rbtreeDeleteCosted_result ..) hdelete
        (rbtreeDeleteCosted_atMost key keySize h.rep)
  searchKey := by
    intro compare path flag hplaces
    rcases searchKey_spec compare flag h.rep (Nat.lt_of_lt_of_le hlow hplaces) with
      ⟨found, hsearch, _⟩
    exact endsWithin (searchKeyCosted_result ..) hsearch
      (searchKeyCosted_atMost compare path flag h.rep)

theorem EndsWithin.mono {α : Type} {m n : Nat} {plain : Except Fault α} {counted : Costed α}
    (h : EndsWithin m plain counted) (hmn : m <= n) : EndsWithin n plain counted :=
  Costed.Satisfies.mono h fun _ _ hends => ⟨hends.left, Nat.le_trans hends.right hmn⟩

theorem ComparesWithin.mono {m n : Nat} (h : ComparesWithin m tree) (hmn : m <= n) :
    ComparesWithin n tree where
  search key := (h.search key).mono hmn
  insert key keySize malloc hmalloc := (h.insert key keySize malloc hmalloc).mono hmn
  delete key keySize := (h.delete key keySize).mono hmn
  searchKey compare path flag hplaces := (h.searchKey compare path flag hplaces).mono hmn

/-- In every reachable tree with less than 2^32 elements, `rbtree_search`,
`rbtree_insert`, `rbtree_delete` and `rbtree_search_key` compare at most twice as often
as the logarithm of the number of elements says. -/
theorem rbtree_logarithmic (h : settings.Proper)
    (hrun : Run Call.Allowed settings.start calls tree) :
    exists t : ColourTree (Node κ), Rep tree.nodes t ∧ (t.size < 2 ^ 32 ->
      ComparesWithin (2 * Nat.log 2 (tree.elements + 1)) tree) := by
  rcases hrun.valid h with ⟨hsettings, t, hvalid⟩
  refine ⟨t, hvalid.rep, fun hsize => ?_⟩
  have hcompare : TotalPreorder settings.start.compare := h.compare
  rw [← hsettings.compare_eq] at hcompare
  have helements : tree.elements = t.size := hvalid.elements_eq.trans (uint_of_lt hsize)
  have hheight := hvalid.redBlack.height_le hsize
  have hroom : 62 < MAX_rbtree_HEIGHT := by decide
  have hlow : t.height < MAX_rbtree_HEIGHT := Nat.lt_of_le_of_lt hheight hroom
  rw [helements]
  exact (hvalid.comparesWithin_height hcompare hlow).mono (height_le_log hvalid.redBlack)

theorem rbtree_logarithmic_shortRun : exists tree,
    Run Call.Allowed integerSettings.start shortRun tree ∧
      exists t : ColourTree (Node Int), Rep tree.nodes t ∧ (t.size < 2 ^ 32 ->
        ComparesWithin (2 * Nat.log 2 (tree.elements + 1)) tree) := by
  rcases shortRun_run with ⟨tree, hrun⟩
  rcases rbtree_logarithmic integerSettings_proper hrun with ⟨t, hrep, hcompares⟩
  exact ⟨tree, hrun, t, hrep, hcompares⟩

end Logarithmic

end RBTree
end MyLibs
