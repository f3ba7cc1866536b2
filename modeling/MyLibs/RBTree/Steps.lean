import MyLibs.RBTree.Map

/-!
# Steps

What a call that returns has done to the whole record: the elements, the bytes
counted, and the calls of the free function.
-/

namespace MyLibs
namespace RBTree

open Foundation

variable {κ : Type} {s : Nodes κ} {t t' : ColourTree (Node κ)} {ctx : Context (Node κ)}
  {tree tree' : RbTree κ} {key : κ} {keySize : Nat} {malloc : Malloc κ} {p : Ptr}

/-!
## Absent keys
-/

def RbTree.Absent (tree : RbTree κ) (key : κ) : Prop :=
  forall p e k, tree.nodes.heap p = some e -> e.key = some k -> tree.compare k key ≠ 0

theorem Holds.heap_eq {heap : Ptr -> Option (Element κ)} {z : Ptr} {u : Node κ}
    (h : Holds heap z t) (hu : u ∈ t.toList) :
    exists e, heap u.addr = some e ∧ e.key = some u.key := by
  induction t with
  | nil => cases hu
  | node c l v r ihl ihr =>
      rcases h with ⟨hcell, hl, hr⟩
      rcases List.mem_append.mp hu with hu | hu
      · exact ihl hl hu
      · rcases List.mem_cons.mp hu with rfl | hu
        · exact ⟨_, hcell, mkElement_key ..⟩
        · exact ihr hr hu

theorem Valid.exists_node (h : Valid tree t) {e : Element κ} {k : κ}
    (hcell : tree.nodes.heap p = some e) (hkey : e.key = some k) :
    exists u, u ∈ t.toList ∧ u.addr = p ∧ u.key = k := by
  have hne : tree.nodes.heap p ≠ none := by
    rw [hcell]
    exact Option.some_ne_none e
  rcases h.owned p hne with hnull | hmem
  · rw [hnull, h.rep.sentinel] at hcell
    cases hcell
    cases hkey
  · rcases List.mem_map.mp hmem with ⟨u, hu, rfl⟩
    rcases h.rep.holds.heap_eq hu with ⟨e', hcell', hkey'⟩
    rw [hcell] at hcell'
    cases hcell'
    rw [hkey] at hkey'
    exact ⟨u, hu, rfl, (Option.some.inj hkey').symm⟩

theorem Valid.absent_iff (h : Valid tree t) :
    tree.Absent key <-> forall u, u ∈ t.toList -> tree.compare u.key key ≠ 0 := by
  constructor
  · intro habsent u hu
    rcases h.rep.holds.heap_eq hu with ⟨e, hcell, hkey⟩
    exact habsent u.addr e u.key hcell hkey
  · intro habsent p e k hcell hkey
    rcases h.exists_node hcell hkey with ⟨u, hu, _, rfl⟩
    exact habsent u hu

/-!
## Reset
-/

def noted (set : Bool) (event : Event κ) : List (Event κ) :=
  if set then [event] else []

theorem logged_eq (tree : RbTree κ) (set : Bool) (event : Event κ) :
    tree.logged set event = { tree with log := noted set event ++ tree.log } := by
  cases set <;> rfl

def teardown (free isDelete : Bool) : ColourTree (Node κ) -> List (Event κ)
  | .nil => []
  | .node _ l v r => noted isDelete (.myFree v.addr) ++ (teardown free isDelete r ++
      (noted free (.freeFree v.key) ++ teardown free isDelete l))

theorem rbtreeUninitElement_kept {fuel : Nat}
    (hholds : Holds tree.nodes.heap tree.nodes.nullElement t) (hnodup : (addrs t).Nodup)
    (hnull : tree.nodes.nullElement ∉ addrs t)
    (h : rbtreeUninitElement fuel tree (addrOf tree.nodes.nullElement t) = .ok tree') :
    forall p, p ∉ addrs t -> tree'.nodes.heap p = tree.nodes.heap p := by
  rcases rbtreeUninitElement_spec fuel hholds hnodup hnull with
    ⟨⟨fault, herror⟩, _⟩ | ⟨tree₁, huninit, hkept, _⟩
  · rw [h] at herror
    cases herror
  · rw [h] at huninit
    cases huninit
    exact hkept

theorem rbtreeUninitElement_eq {fuel : Nat}
    (hholds : Holds tree.nodes.heap tree.nodes.nullElement t) (hnodup : (addrs t).Nodup)
    (hnull : tree.nodes.nullElement ∉ addrs t)
    (h : rbtreeUninitElement fuel tree (addrOf tree.nodes.nullElement t) = .ok tree') :
    exists s, tree' = { tree with
      nodes := s
      log := teardown tree.free tree.isDelete t ++ tree.log } := by
  induction t generalizing fuel tree tree' with
  | nil =>
      cases fuel with
      | zero => cases h
      | succ fuel =>
          rw [rbtreeUninitElement, addrOf, if_pos rfl] at h
          cases h
          exact ⟨tree.nodes, rfl⟩
  | node c l v r ihl ihr =>
      cases fuel with
      | zero => cases h
      | succ fuel =>
          have hnode : ColourTree.node c l v r = .mk .left c l v r := rfl
          rw [hnode] at hnodup hnull hholds
          rcases nodup_mk.mp hnodup with ⟨⟨hvl, _⟩, hlnodup, hrnodup, hlr⟩
          rcases holds_mk.mp hholds with ⟨hcell, hl, hr⟩
          rw [mem_addrs_mk, not_or, not_or] at hnull
          have helement : tree.nodes.element v.addr = .ok (mkElement .left
              (addrOf tree.nodes.nullElement l) (addrOf tree.nodes.nullElement r) c v) := by
            rw [Nodes.element, hcell]
          have haddr : addrOf tree.nodes.nullElement (.node c l v r) = v.addr := rfl
          rw [rbtreeUninitElement, haddr, if_neg (Ne.symm hnull.left), helement] at h
          rcases ok_of_bind h with ⟨e, he, h⟩
          cases he
          rcases ok_of_bind h with ⟨tree₁, hleft, h⟩
          rcases ok_of_bind h with ⟨key, hkey, h⟩
          rcases ok_of_bind h with ⟨tree₂, hright, h⟩
          have hleft : rbtreeUninitElement fuel tree (addrOf tree.nodes.nullElement l) =
              .ok tree₁ := hleft
          have hnull₁ := (rbtreeUninitElement_released hleft).nullElement_eq
          have hkept₁ := rbtreeUninitElement_kept hl hlnodup hnull.right.left hleft
          have hkey₁ : tree₁.nodes.elementKey v.addr = .ok v.key := by
            rw [Nodes.elementKey, Nodes.element, hkept₁ _ hvl, hcell]
            rfl
          rw [hkey₁] at hkey
          cases hkey
          rcases ihl hl hlnodup hnull.right.left hleft with ⟨s₁, rfl⟩
          rw [logged_eq] at hright
          have hr₁ : Holds s₁.heap s₁.nullElement r := by
            rw [hnull₁]
            exact hr.congr fun p hp => hkept₁ p fun hpl => hlr p hpl hp
          have hnullr : s₁.nullElement ∉ addrs r := by
            rw [hnull₁]
            exact hnull.right.right
          have hnull₂ : tree.nodes.nullElement = s₁.nullElement := hnull₁.symm
          simp only [mkElement, hnull₂] at hright
          rcases ihr hr₁ hrnodup hnullr hright with ⟨s₂, rfl⟩
          have htearing : teardown tree.free tree.isDelete (.node c l v r) ++ tree.log =
              noted tree.isDelete (.myFree v.addr) ++ (teardown tree.free tree.isDelete r ++
                (noted tree.free (.freeFree v.key) ++
                  (teardown tree.free tree.isDelete l ++ tree.log))) := by
            simp only [teardown, List.append_assoc]
          rw [htearing]
          cases hdelete : tree.isDelete with
          | true =>
              simp only [hdelete, if_true] at h
              cases h
              exact ⟨_, rfl⟩
          | false =>
              simp only [hdelete, Bool.false_eq_true, if_false] at h
              cases h
              exact ⟨_, rfl⟩

theorem teardown_none (t : ColourTree (Node κ)) : teardown false false t = [] := by
  induction t with
  | nil => rfl
  | node c l v r ihl ihr =>
      rw [teardown, ihl, ihr]
      rfl

theorem Rep.uninit_eq (h : Rep tree.nodes t)
    (huninit : rbtreeUninitElement turnLimit tree tree.nodes.root = .ok tree') :
    exists s, tree' = { tree with
      nodes := s
      log := teardown tree.free tree.isDelete t ++ tree.log } := by
  rw [h.root_eq] at huninit
  exact rbtreeUninitElement_eq h.holds h.nodup h.null_notMem huninit

/-- What a reset does, newest first. With a memory limit the free function is
told of the start and the end, unless the elements are freed one by one. -/
def resetLog (free isDelete limited : Bool) (t : ColourTree (Node κ)) : List (Event κ) :=
  noted (free && !isDelete && limited) .freeUninit ++
    (teardown free isDelete t ++ noted (free && !isDelete && limited) .freeInit)

theorem resetLog_deleting (free limited : Bool) (t : ColourTree (Node κ)) :
    resetLog free true limited t = teardown free true t := by
  rw [resetLog, Bool.not_true, Bool.and_false, Bool.false_and]
  exact List.append_nil _

theorem resetLog_silent (limited : Bool) (t : ColourTree (Node κ)) :
    resetLog false false limited t = [] := by
  rw [resetLog, teardown_none]
  rfl

theorem freeInRoot_eq (h : Rep tree.nodes t) (hdelete : tree.isDelete = false)
    (hfree : freeInRoot tree = .ok tree') : exists s, tree' = { tree with
      nodes := s
      log := resetLog tree.free tree.isDelete (decide (tree.memoryLimit ≠ 0)) t ++
        tree.log } := by
  rw [freeInRoot] at hfree
  by_cases hset : tree.free = true
  · rw [if_pos hset] at hfree
    simp only [logged_eq] at hfree
    generalize hstart : ({ tree with
      log := noted (decide (tree.memoryLimit ≠ 0)) .freeInit ++ tree.log } : RbTree κ) =
        start at hfree
    have hnodes : start.nodes = tree.nodes := by rw [← hstart]
    rw [← hnodes] at h hfree
    rcases ok_of_bind hfree with ⟨tree₁, huninit, hfree⟩
    rcases h.uninit_eq huninit with ⟨s₁, rfl⟩
    cases hfree
    subst hstart
    have hlog : resetLog tree.free tree.isDelete (decide (tree.memoryLimit ≠ 0)) t ++ tree.log =
        noted (decide (tree.memoryLimit ≠ 0)) .freeUninit ++
          (teardown tree.free tree.isDelete t ++
            (noted (decide (tree.memoryLimit ≠ 0)) .freeInit ++ tree.log)) := by
      rw [resetLog, hset, hdelete, Bool.not_false, Bool.and_true, Bool.true_and]
      simp only [List.append_assoc]
    rw [hlog]
    exact ⟨_, rfl⟩
  · rw [if_neg hset] at hfree
    cases hfree
    rw [Bool.not_eq_true] at hset
    refine ⟨tree.freeMemRoot.nodes, ?_⟩
    have hlog : resetLog tree.free tree.isDelete (decide (tree.memoryLimit ≠ 0)) t = [] := by
      rw [hset, hdelete, resetLog_silent]
    rw [hlog]
    rfl

theorem freeElements_eq (h : Rep tree.nodes t) (hfree : freeElements tree = .ok tree') :
    exists s, tree' = { tree with
      nodes := s
      log := resetLog tree.free tree.isDelete (decide (tree.memoryLimit ≠ 0)) t ++
        tree.log } := by
  have hroot : tree.nodes.root ≠ NULL := by
    have hrep : Rep tree.nodes (plug [] t) := h
    rw [h.root_eq]
    exact hrep.addrOf_ne_NULL
  rw [freeElements, if_neg hroot] at hfree
  by_cases hdelete : tree.isDelete = true
  · rw [if_pos hdelete] at hfree
    have hlog : resetLog tree.free tree.isDelete (decide (tree.memoryLimit ≠ 0)) t =
        teardown tree.free tree.isDelete t := by
      rw [hdelete, resetLog_deleting]
    rw [hlog]
    exact h.uninit_eq hfree
  · rw [if_neg hdelete] at hfree
    rw [Bool.not_eq_true] at hdelete
    exact freeInRoot_eq h hdelete hfree

theorem rbtreeReset_eq (h : Rep tree.nodes t) (hreset : rbtreeReset tree = .ok tree') :
    exists s, tree' = { tree with
      nodes := s
      elements := 0
      allocated := 0
      log := resetLog tree.free tree.isDelete (decide (tree.memoryLimit ≠ 0)) t ++
        tree.log } := by
  rw [rbtreeReset, rbtreeFree] at hreset
  rcases ok_of_bind hreset with ⟨tree₁, hfree, hreset⟩
  rcases freeElements_eq h hfree with ⟨s₁, rfl⟩
  cases hreset
  exact ⟨_, rfl⟩

/-!
## Insertion
-/

inductive InsertStep (malloc : Malloc κ) (key : κ) (keySize : Nat) :
    RbTree κ -> ColourTree (Node κ) -> Ptr -> RbTree κ -> ColourTree (Node κ) -> Prop
  | met {tree : RbTree κ} {t t' : ColourTree (Node κ)} {u : Node κ} {s : Nodes κ} {p : Ptr}
      (hu : u ∈ t.toList) (hequal : tree.compare u.key key = 0)
      (hplaces : t'.toList.map Node.place = t.toList.map Node.place) :
      InsertStep malloc key keySize tree t p { tree with nodes := s } t'
  | full {tree : RbTree κ} {t : ColourTree (Node κ)} {s : Nodes κ}
      (habsent : forall u, u ∈ t.toList -> tree.compare u.key key ≠ 0)
      (hroom : ¬tree.Exceeds keySize) (hfull : malloc tree.nodes.heap = NULL) :
      InsertStep malloc key keySize tree t NULL
        { tree with nodes := s, allocated := tree.charge keySize } t
  | added {tree : RbTree κ} {t t' : ColourTree (Node κ)} {s : Nodes κ} {p : Ptr}
      {first rest : List (Node κ)}
      (habsent : forall u, u ∈ t.toList -> tree.compare u.key key ≠ 0)
      (hroom : ¬tree.Exceeds keySize) (hp : p = malloc tree.nodes.heap) (hne : p ≠ NULL)
      (ht : t.toList = first ++ rest)
      (ht' : t'.toList = first ++ ⟨p, key, 1⟩ :: rest) :
      InsertStep malloc key keySize tree t p
        { tree with
          nodes := s
          allocated := tree.charge keySize
          elements := uint (tree.elements + 1) } t'
  | restarted {tree tree' : RbTree κ} {t t' : ColourTree (Node κ)} {s : Nodes κ} {p : Ptr}
      (habsent : forall u, u ∈ t.toList -> tree.compare u.key key ≠ 0)
      (hexceeds : tree.Exceeds keySize)
      (hfewer : forall q, tree.nodes.heap q = none -> s.heap q = none)
      (hagain : InsertStep malloc key keySize
        { tree with
          nodes := s
          elements := 0
          allocated := 0
          log := resetLog tree.free tree.isDelete (decide (tree.memoryLimit ≠ 0)) t ++ tree.log }
        .nil p tree' t') :
      InsertStep malloc key keySize tree t p tree' t'

theorem InsertStep.of_nil (h : InsertStep malloc key keySize tree .nil p tree' t')
    (hzero : tree.elements = 0) :
    (tree'.log = tree.log ∧ tree'.free = tree.free) ∧
      ((malloc tree.nodes.heap = NULL ∧ p = NULL ∧ t' = .nil) ∨
        (p ≠ NULL ∧ t'.toList = [⟨p, key, 1⟩])) := by
  generalize hnil : (ColourTree.nil : ColourTree (Node κ)) = t at h
  cases h with
  | met hu hequal hplaces =>
      subst hnil
      cases hu
  | full habsent hroom hfull => exact ⟨⟨rfl, rfl⟩, Or.inl ⟨hfull, rfl, rfl⟩⟩
  | added habsent hroom hp hne ht ht' =>
      subst hnil
      rcases List.append_eq_nil_iff.mp ht.symm with ⟨hfirst, hrest⟩
      rw [hfirst, hrest] at ht'
      exact ⟨⟨rfl, rfl⟩, Or.inr ⟨hne, ht'⟩⟩
  | restarted habsent hexceeds hfewer hagain => exact absurd hzero hexceeds.right.left

theorem insertElement_eq {parent : Nat}
    (h : insertElement malloc key tree parent = .ok (p, tree')) :
    (malloc tree.nodes.heap = NULL ∧ p = NULL ∧ tree' = tree) ∨
    (malloc tree.nodes.heap ≠ NULL ∧
      exists s, tree' = { tree with nodes := s, elements := uint (tree.elements + 1) }) := by
  rw [insertElement] at h
  by_cases hfull : malloc tree.nodes.heap = NULL
  · rw [if_pos hfull] at h
    cases h
    exact Or.inl ⟨hfull, rfl, rfl⟩
  · rw [if_neg hfull] at h
    rcases ok_of_bind h with ⟨s, _, h⟩
    cases h
    exact Or.inr ⟨hfull, s, rfl⟩

theorem countElement_eq {element : Ptr} (h : countElement tree element = .ok (p, tree')) :
    exists s, tree' = { tree with nodes := s } := by
  rw [countElement] at h
  by_cases hflag : tree.flag % 2 = rbtree_NO_DUPLICATES
  · rw [if_pos hflag] at h
    cases h
    exact ⟨tree.nodes, rfl⟩
  · rw [if_neg hflag] at h
    rcases ok_of_bind h with ⟨s, _, h⟩
    cases h
    exact ⟨s, rfl⟩

theorem Inserted.places {compare : κ -> κ -> Int} {flag : Nat} {block : Ptr} {u : Node κ}
    (h : Inserted compare flag block key t p t') (hu : u ∈ t.toList)
    (hequal : compare u.key key = 0) :
    t'.toList.map Node.place = t.toList.map Node.place := by
  cases h with
  | refused hu hequal hflag => rfl
  | @counted ctx c a b u hequal hflag =>
      simp only [toList_focus, List.map_append, List.map_cons]
      rfl
  | failed habsent hfull => rfl
  | @added _ _ first rest ht ht' hbelow habove hne =>
      rw [ht] at hu
      rcases List.mem_append.mp hu with hu | hu
      · exact absurd hequal (Int.ne_of_lt (hbelow u hu))
      · exact absurd hequal (Int.ne_of_gt (habove u hu))

theorem rbtreeReset_fewer (hreset : rbtreeReset tree = .ok tree') (h : Valid tree t) :
    forall q, tree.nodes.heap q = none -> tree'.nodes.heap q = none := by
  rcases freeElements_spec h with ⟨⟨fault, herror⟩, _⟩ | ⟨tree₁, hfree, hreleased, _⟩
  · rw [rbtreeReset, rbtreeFree, herror] at hreset
    cases hreset
  · rw [rbtreeReset, rbtreeFree, hfree] at hreset
    cases hreset
    exact hreleased.none_of_none

theorem rbtreeInsertWith_step {fuel : Nat} (hcompare : TotalPreorder tree.compare)
    (h : Valid tree t) (hmalloc : FreshMalloc malloc)
    (hinsert : rbtreeInsertWith malloc key keySize fuel tree = .ok (p, tree')) :
    exists t', Valid tree' t' ∧ SameSettings tree tree' ∧
      InsertStep malloc key keySize tree t p tree' t' := by
  induction fuel generalizing tree t with
  | zero => cases hinsert
  | succ fuel ih =>
      rcases rbtreeInsertWith_pass malloc key keySize fuel hcompare h with
        ⟨⟨fault, herror⟩, _⟩ | ⟨parents, ctx, rfl, hstack, hlen, hat, hpass⟩ |
          ⟨parents, ctx, c, a, v, b, rfl, hequal, hpass⟩
      · rw [herror] at hinsert
        cases hinsert
      · have hcounting := h.counting parents keySize
        have hstart := tree.sameSettings_counting parents keySize
        rw [hpass] at hinsert
        by_cases hexceeds : tree.Exceeds keySize
        · rw [if_pos (RbTree.overLimit_counting.mpr hexceeds)] at hinsert
          rcases ok_of_bind hinsert with ⟨tree₁, hreset, hinsert⟩
          rcases rbtreeReset_spec hcounting with
            ⟨⟨fault, herror⟩, _⟩ | ⟨tree₂, hreset₂, hvalid, hsettings, _⟩
          · rw [hreset] at herror
            cases herror
          rw [hreset] at hreset₂
          cases hreset₂
          have hfewer := rbtreeReset_fewer hreset hcounting
          have hcompare₁ : TotalPreorder tree₁.compare := by
            rw [hsettings.compare_eq]
            exact hcompare
          rcases rbtreeReset_eq hcounting.rep hreset with ⟨s, rfl⟩
          rcases ih hcompare₁ hvalid hinsert with ⟨t', hvalid', hsettings', hstep⟩
          exact ⟨t', hvalid', (hstart.trans hsettings).trans hsettings',
            .restarted hat.absent hexceeds hfewer hstep⟩
        · rw [if_neg (mt RbTree.overLimit_counting.mp hexceeds)] at hinsert
          have hcompare₁ : TotalPreorder (tree.counting parents keySize).compare := hcompare
          rcases insertElement_spec hcompare₁ hcounting hmalloc hstack hlen hat with
            ⟨p', tree₁, t', hinsert', hvalid', hsettings', hinserted⟩
          rw [hinsert] at hinsert'
          cases hinsert'
          refine ⟨t', hvalid', hstart.trans hsettings', ?_⟩
          have habsent := hat.absent
          rcases hinserted.of_absent habsent with
            ⟨hfull, rfl, rfl⟩ | ⟨hblock, rfl, first, rest, ht, ht'⟩
          · rcases insertElement_eq hinsert with ⟨_, _, rfl⟩ | ⟨hblock, _⟩
            · exact .full habsent hexceeds hfull
            · exact absurd hfull hblock
          · rcases insertElement_eq hinsert with ⟨hfull, _⟩ | ⟨_, s, rfl⟩
            · exact absurd hfull hblock
            · exact .added habsent hexceeds rfl hblock ht ht'
      · rw [hpass] at hinsert
        have hmet := h.withParents parents
        have hsettings := tree.sameSettings_withParents parents
        generalize htree₁ :
          ({ tree with nodes := { tree.nodes with parents := parents } } : RbTree κ) = tree₁
            at hinsert hmet hsettings
        have hcompare₁ : TotalPreorder tree₁.compare := by
          rw [hsettings.compare_eq]
          exact hcompare
        have hequal₁ : tree₁.compare v.key key = 0 := by
          rw [hsettings.compare_eq]
          exact hequal
        rcases countElement_spec NULL hcompare₁ hmet hequal₁ with
          ⟨p', tree₂, t', hcount, hvalid', hsettings', hinserted⟩
        rw [hinsert] at hcount
        cases hcount
        have hv : v ∈ (plug ctx (.node c a v b)).toList := by
          rw [toList_focus]
          exact List.mem_append_right _ (List.mem_cons_self ..)
        have hplaces := hinserted.places hv hequal₁
        rcases countElement_eq hinsert with ⟨s, rfl⟩
        subst htree₁
        exact ⟨t', hvalid', hsettings.trans hsettings', .met hv hequal hplaces⟩

/-!
## Deletion
-/

inductive DeleteStep (key : κ) (keySize : Nat) (tree : RbTree κ) (t : ColourTree (Node κ)) :
    Nat -> RbTree κ -> ColourTree (Node κ) -> Prop
  | kept {s : Nodes κ}
      (hkept : tree.isDelete = false ∨ forall u, u ∈ t.toList -> tree.compare u.key key ≠ 0) :
      DeleteStep key keySize tree t 1 { tree with nodes := s } t
  | removed {t' : ColourTree (Node κ)} {s : Nodes κ} {first rest : List (Node κ)} {u : Node κ}
      (hdelete : tree.isDelete = true) (hequal : tree.compare u.key key = 0)
      (ht : t.toList = first ++ u :: rest) (ht' : t'.toList = first ++ rest) :
      DeleteStep key keySize tree t 0
        { tree with
          nodes := s
          elements := uint (tree.elements + (2 ^ 32 - 1))
          allocated := sizetSub tree.allocated (sizeofElement + tree.size + keySize)
          log := .myFree u.addr :: (noted tree.free (.freeFree u.key) ++ tree.log) } t'

theorem dropElement_log {element : Ptr} (hkey : tree.nodes.elementKey element = .ok key)
    (hdrop : dropElement tree element keySize = .ok tree') : exists s, tree' = { tree with
      nodes := s
      elements := uint (tree.elements + (2 ^ 32 - 1))
      allocated := sizetSub tree.allocated (sizeofElement + tree.size + keySize)
      log := .myFree element :: (noted tree.free (.freeFree key) ++ tree.log) } := by
  rw [dropElement, hkey] at hdrop
  simp only [bind, Except.bind, logged_eq] at hdrop
  cases hdrop
  exact ⟨_, rfl⟩

theorem rbtreeDelete_step {r : Nat} (hcompare : TotalPreorder tree.compare) (h : Valid tree t)
    (hcall : rbtreeDelete tree key keySize = .ok (r, tree')) :
    exists t', Valid tree' t' ∧ SameSettings tree tree' ∧
      DeleteStep key keySize tree t r tree' t' := by
  by_cases hdelete : tree.isDelete = true
  · rcases rbtreeDelete_pass keySize hcompare h hdelete with
      ⟨⟨fault, herror⟩, _⟩ | ⟨s, hvalid, hsettings, ⟨habsent, hpass⟩ |
        ⟨s', v, t', hequal, hout, hpass⟩⟩
    · rw [hcall] at herror
      cases herror
    · rw [hcall] at hpass
      cases hpass
      exact ⟨t, hvalid, hsettings, .kept (Or.inr habsent)⟩
    · rw [hcall] at hpass
      rcases ok_of_bind hpass.symm with ⟨tree₁, hdrop, hdone⟩
      cases hdone
      rcases dropElement_spec keySize hvalid hout with ⟨tree₂, hdrop₂, hvalid', hsettings'⟩
      have hdrop₂ : dropElement { tree with nodes := s' } v.addr keySize = .ok tree₂ := hdrop₂
      rw [hdrop] at hdrop₂
      cases hdrop₂
      rcases hout.toList_eq with ⟨first, rest, ht, ht'⟩
      have hkey : ({ tree with nodes := s' } : RbTree κ).nodes.elementKey v.addr = .ok v.key :=
        hout.key_eq
      rcases dropElement_log hkey hdrop with ⟨s₁, rfl⟩
      exact ⟨t', hvalid', hsettings.trans hsettings', .removed hdelete hequal ht ht'⟩
  · rw [Bool.not_eq_true] at hdelete
    have hset : (!tree.isDelete) = true := by rw [hdelete, Bool.not_false]
    rw [rbtreeDelete, if_pos hset] at hcall
    cases hcall
    have hkept : DeleteStep key keySize tree t 1 { tree with nodes := tree.nodes } t :=
      .kept (Or.inl hdelete)
    exact ⟨t, h, SameSettings.refl tree, hkept⟩

/-!
## Calls
-/

inductive CallStep (tree : RbTree κ) (t : ColourTree (Node κ)) :
    Call κ -> Answer κ -> RbTree κ -> ColourTree (Node κ) -> Prop
  | inserted {malloc : Malloc κ} {key : κ} {keySize : Nat} {p : Ptr} {tree' : RbTree κ}
      {t' : ColourTree (Node κ)} (hstep : InsertStep malloc key keySize tree t p tree' t') :
      CallStep tree t (.insert key keySize malloc) (.element p) tree' t'
  | deleted {key : κ} {keySize r : Nat} {tree' : RbTree κ} {t' : ColourTree (Node κ)}
      (hstep : DeleteStep key keySize tree t r tree' t') :
      CallStep tree t (.delete key keySize) (.code r) tree' t'
  | reset {s : Nodes κ} :
      CallStep tree t .reset .nothing
        { tree with
          nodes := s
          elements := 0
          allocated := 0
          log := resetLog tree.free tree.isDelete (decide (tree.memoryLimit ≠ 0)) t ++
            tree.log } .nil
  | searched {key : κ} {found : Option κ} : CallStep tree t (.search key) (.key found) tree t

theorem Call.step {call : Call κ} {answer : Answer κ} (h : Valid tree t)
    (hcompare : TotalPreorder tree.compare) (hallowed : call.Allowed tree)
    (hcall : call.apply tree = .ok (answer, tree')) :
    exists t', Valid tree' t' ∧ SameSettings tree tree' ∧ CallStep tree t call answer tree' t' := by
  cases call with
  | insert key keySize malloc =>
      rcases ok_of_bind hcall with ⟨⟨p, tree₁⟩, hinsert, hdone⟩
      cases hdone
      rcases rbtreeInsertWith_step hcompare h hallowed hinsert with
        ⟨t', hvalid', hsettings, hstep⟩
      exact ⟨t', hvalid', hsettings, .inserted hstep⟩
  | delete key keySize =>
      rcases ok_of_bind hcall with ⟨⟨r, tree₁⟩, hdelete, hdone⟩
      cases hdone
      rcases rbtreeDelete_step hcompare h hdelete with ⟨t', hvalid', hsettings, hstep⟩
      exact ⟨t', hvalid', hsettings, .deleted hstep⟩
  | reset =>
      rcases ok_of_bind hcall with ⟨tree₁, hreset, hdone⟩
      cases hdone
      rcases rbtreeReset_spec h with
        ⟨⟨fault, herror⟩, _⟩ | ⟨tree₂, hreset₂, hvalid', hsettings, _⟩
      · rw [hreset] at herror
        cases herror
      rw [hreset] at hreset₂
      cases hreset₂
      rcases rbtreeReset_eq h.rep hreset with ⟨s, rfl⟩
      exact ⟨.nil, hvalid', hsettings, .reset⟩
  | search key =>
      rcases ok_of_bind hcall with ⟨found, _, hdone⟩
      cases hdone
      exact ⟨t, h, SameSettings.refl tree, .searched⟩

end RBTree
end MyLibs
